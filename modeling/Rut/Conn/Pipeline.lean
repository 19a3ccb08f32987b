import Rut.Common.Buffer
import Rut.Http.ChunkedStream
import Rut.Http.Stability
import Rut.Pool.SlicePool

/-!
# Request boundaries on a connection

Port of the request framing of `capture_request_metadata` and of `pipeline_leftover`, `pipeline_shift`, `pipeline_stash`
and `pipeline_recover` in `src/runtime/callbacks.cc`. Of the metadata the model keeps what decides where the request
ends. Heads the strict parser refuses go through the fallback of the source, which leaves the framing as it was reset.
Lengths are `Nat`; the stash length keeps the narrowing to `u16`.
-/

namespace Rut.Conn

open Http Http.Chunked Lib

/-- Framing of a request body (`BodyMode`). -/
inductive BodyMode where
  | none
  | contentLength
  | chunked
deriving DecidableEq

/-- How a boundary between two requests was passed (`PipelineTransitionResult`). -/
inductive PipelineTransitionResult where
  | noSuccessor
  | advanced
  | limitExceeded
deriving DecidableEq

/-- Requests in a row without a settled boundary (`Connection::kMaxPipelineDepth`). -/
def kMaxPipelineDepth : Nat := 16

/-- The buffers and the request framing of a connection (`ConnectionBase`). -/
structure Connection where
  recvBuf : Buffer Pool.kSliceSize
  sendBuf : Buffer Pool.kSliceSize
  upstreamRecvBuf : Buffer Pool.kSliceSize
  reqHeaderEnd : Nat := 0
  reqContentLength : Nat := 0
  reqInitialSendLen : Nat := 0
  reqBodyMode : BodyMode := .none
  reqBodyRemaining : Nat := 0
  reqBodyAbandoned : Bool := false
  reqChunkParser : ChunkedParser := .reset
  reqMalformed : Bool := false
  reqStrictH1Complete : Bool := false
  downstreamReqSize : Nat := 0
  reqSize : Nat := 0
  retryReqSendLen : Nat := 0
  pipelineDepth : Nat := 0
  pipelineStashLen : Nat := 0

namespace Connection

/-- The bytes of a request are still to come (`request_body_incomplete`). -/
def requestBodyIncomplete (c : Connection) : Bool :=
  !c.reqBodyAbandoned &&
    ((c.reqBodyMode == .contentLength && decide (0 < c.reqBodyRemaining)) ||
      (c.reqBodyMode == .chunked && c.reqChunkParser.state != .complete))

/-- Forget the received bytes (`reset_request_receive_buffer`). -/
def resetRequestReceiveBuffer (c : Connection) : Connection := { c with recvBuf := c.recvBuf.reset }

/-- The defaults that `capture_request_metadata` starts from. -/
def resetRequest (c : Connection) : Connection :=
  { c with
    reqHeaderEnd := 0
    reqContentLength := 0
    reqInitialSendLen := 0
    reqBodyMode := .none
    reqBodyRemaining := 0
    reqBodyAbandoned := false
    reqChunkParser := .reset
    reqMalformed := false
    reqStrictH1Complete := false
    downstreamReqSize := c.recvBuf.len
    reqSize := c.recvBuf.len }

end Connection

/-- The loop over the chunks that have arrived with the head: the decoder, the bytes it went through and whether it
reported an error. -/
def captureChunks : Nat → ChunkedParser → Str → ChunkedParser × Nat × Bool
  | 0, p, _ => (p, 0, false)
  | fuel + 1, p, body =>
    if body = [] then (p, 0, false)
    else
      let r := feed p body
      match r.2.status with
      | .done | .needMore => (r.1, r.2.consumed, false)
      | .error => (r.1, r.2.consumed, true)
      | .data =>
        let t := captureChunks fuel r.1 (body.drop r.2.consumed)
        (t.1, r.2.consumed + t.2.1, t.2.2)

def captureChunked (headerEnd : Nat) (body : Str) (c : Connection) : Connection :=
  let r := captureChunks (body.length + 1) .reset body
  { c with
    reqBodyMode := .chunked
    reqBodyRemaining := 0
    reqChunkParser := r.1
    reqMalformed := r.2.2
    reqInitialSendLen := if r.2.2 then 0 else headerEnd + r.2.1 }

def captureContentLength (headerEnd contentLength : Nat) (body : Str) (c : Connection) : Connection :=
  let remaining := if contentLength ≤ body.length then 0 else contentLength - body.length
  { c with
    reqBodyMode := .contentLength
    reqContentLength := contentLength
    reqBodyRemaining := remaining
    reqInitialSendLen := headerEnd + (contentLength - remaining) }

def captureFraming (req : ParsedRequest) (headerEnd : Nat) (body : Str) (c : Connection) : Connection :=
  let c := { c with reqHeaderEnd := headerEnd }
  let c :=
    if req.chunked then captureChunked headerEnd body c
    else if req.hasContentLength ∧ 0 < req.contentLength then captureContentLength headerEnd req.contentLength body c
    else { c with reqInitialSendLen := headerEnd }
  { c with
    downstreamReqSize := if 0 < c.reqInitialSendLen then c.reqInitialSendLen else c.downstreamReqSize
    reqSize := if 0 < c.reqInitialSendLen then c.reqInitialSendLen else c.reqSize
    reqStrictH1Complete := headerEnd ≠ 0 }

/-- Find out what the received bytes ask for and where the request ends (`capture_request_metadata`). -/
def captureRequestMetadata (c : Connection) : Connection :=
  let data := c.recvBuf.bytes
  match parse data with
  | .complete req headerEnd => captureFraming req headerEnd (data.drop headerEnd) c.resetRequest
  | _ => c.resetRequest

/-- Received bytes behind the request (`pipeline_leftover`). -/
def pipelineLeftover (c : Connection) : Nat :=
  if c.reqInitialSendLen = 0 ∨ c.recvBuf.len ≤ c.reqInitialSendLen then 0 else c.recvBuf.len - c.reqInitialSendLen

/-- Whether one more request may follow (`pipeline_transition_status`). -/
def pipelineTransitionStatus (c : Connection) : PipelineTransitionResult :=
  if kMaxPipelineDepth ≤ c.pipelineDepth then .limitExceeded else .advanced

/-- Count one more request (`pipeline_advance`). -/
def pipelineAdvance (c : Connection) : PipelineTransitionResult × Connection :=
  match pipelineTransitionStatus c with
  | .advanced => (.advanced, { c with pipelineDepth := c.pipelineDepth + 1 })
  | r => (r, c)

/-- Drop the request and move the bytes behind it to the front (`pipeline_shift`). -/
def pipelineShift (c : Connection) : Option (PipelineTransitionResult × Connection) :=
  let leftover := pipelineLeftover c
  if leftover = 0 then some (.noSuccessor, c)
  else
    match pipelineAdvance c with
    | (.advanced, c) => do
      let src := c.recvBuf.load c.reqInitialSendLen leftover
      let b ← (c.resetRequestReceiveBuffer.recvBuf.store 0 src).commit leftover
      some (.advanced, { c with recvBuf := b })
    | (r, c) => some (r, c)

/-- Copy the bytes behind the request into the send buffer, behind a retry snapshot (`pipeline_stash`). -/
def pipelineStash (c : Connection) : Bool × Connection :=
  let leftover := pipelineLeftover c
  if leftover = 0 then (true, { c with pipelineStashLen := 0 })
  else
    let c := if c.retryReqSendLen = 0 then { c with sendBuf := c.sendBuf.reset } else c
    if c.sendBuf.writeAvail < leftover then (false, { c with pipelineStashLen := 0 })
    else
      (true, { c with
        sendBuf := c.sendBuf.write (c.recvBuf.load c.reqInitialSendLen leftover)
        pipelineStashLen := leftover % 2 ^ 16 })

/-- Bytes moved in front of those of a buffer: to the front of an empty one, else behind a shift of what is there. -/
def prependBytes (b : Buffer Pool.kSliceSize) (src : Str) : Option (Buffer Pool.kSliceSize) :=
  if b.len = 0 then (b.reset.store 0 src).commit src.length
  else ((b.store src.length (b.load 0 b.len)).store 0 src).setLen (src.length + b.len)

/-- Put the stash back in front of what has arrived since (`pipeline_recover`). -/
def pipelineRecover (c : Connection) (countTransition : Bool) : Option (PipelineTransitionResult × Connection) :=
  let stashLen := c.pipelineStashLen
  if stashLen = 0 then some (.noSuccessor, c)
  else if countTransition ∧ pipelineTransitionStatus c ≠ .advanced then some (pipelineTransitionStatus c, c)
  else
    let src := c.sendBuf.load c.retryReqSendLen stashLen
    let existing := c.recvBuf.len
    if Pool.kSliceSize < stashLen + existing then some (.limitExceeded, c)
    else do
      let c := if countTransition then (pipelineAdvance c).2 else c
      let c := { c with pipelineStashLen := 0, retryReqSendLen := 0 }
      let b ← prependBytes c.recvBuf src
      some (.advanced, { c with recvBuf := b, sendBuf := c.sendBuf.reset })

/-! ## Where a request ends -/

def BodyOf (req : ParsedRequest) (body : Str) : Prop :=
  if req.chunked then (drain .reset body).status = .done ∧ (drain .reset body).consumed = body.length
  else body.length = if req.hasContentLength then req.contentLength else 0

def CompleteRequest (r : Str) : Prop :=
  ∃ req head body, r = head ++ body ∧ parse head = .complete req head.length ∧ BodyOf req body

lemma wf_reset : ChunkedParser.Wf .reset := fun h => by cases h

lemma captureChunks_eq_drainLoop (fuel : Nat) (p : ChunkedParser) (body : Str) :
    captureChunks fuel p body = ((drainLoop fuel p body).parser, (drainLoop fuel p body).consumed,
      decide ((drainLoop fuel p body).status = .error)) := by
  induction fuel generalizing p body with
  | zero => rfl
  | succ fuel ih =>
    rw [captureChunks, drainLoop]
    by_cases hb : body = []
    · subst hb
      rfl
    · rw [if_neg hb]
      cases hs : (feed p body).2.status with
      | data =>
        simp only [hs, if_true, ih]
        rfl
      | needMore => simp [hs]
      | done => simp [hs]
      | error => simp [hs]

lemma captureChunks_eq_run (body : Str) :
    captureChunks (body.length + 1) .reset body = ((run .reset body).parser, (run .reset body).consumed,
      decide ((run .reset body).status = .error)) := by
  rw [captureChunks_eq_drainLoop, drainLoop_eq_run wf_reset (Nat.lt_succ_self _)]

lemma switch_advance_ne_complete {p p' c} (h : switch p c = .advance p') : p'.state ≠ .complete := by
  unfold switch at h
  split at h <;> grind

lemma deliver_ne_complete {p : ChunkedParser} (hp : p.state ≠ .complete) : (p.deliver 1).state ≠ .complete := by
  unfold ChunkedParser.deliver
  dsimp only
  split_ifs
  · simp
  · exact hp

lemma run_ended {p} (hp : p.state ≠ .complete) (b : Str) :
    ((run p b).parser.state = .complete ↔ (run p b).status = .done) ∧ (run p b).consumed ≤ b.length ∧
      ((run p b).status = .done → run p (b.take (run p b).consumed) = run p b) := by
  induction b generalizing p with
  | nil => simp [run, hp]
  | cons c rest ih =>
    cases h : switch p c with
    | advance p' =>
      obtain ⟨hiff, hle, hdone⟩ := ih (switch_advance_ne_complete h)
      rw [run_advance h]
      simp only [Outcome.after_parser, Outcome.after_status, Outcome.after_consumed, List.length_cons]
      refine ⟨hiff, by omega, fun hs => ?_⟩
      rw [Nat.add_comm 1, List.take_succ_cons, run_advance h, hdone hs]
    | deliver =>
      obtain ⟨hiff, hle, hdone⟩ := ih (deliver_ne_complete hp)
      rw [run_deliver h]
      simp only [Outcome.after_parser, Outcome.after_status, Outcome.after_consumed, List.length_cons]
      refine ⟨hiff, by omega, fun hs => ?_⟩
      rw [Nat.add_comm 1, List.take_succ_cons, run_deliver h, hdone hs]
    | reject => simp [run_reject h, hp]
    | finish p' => simp [run_finish h, switch_finish_state h]
    | stop =>
      refine absurd ?_ hp
      unfold switch at h
      split at h <;> grind

lemma capture_frame (c : Connection) :
    (captureRequestMetadata c).recvBuf = c.recvBuf ∧ (captureRequestMetadata c).sendBuf = c.sendBuf ∧
      (captureRequestMetadata c).upstreamRecvBuf = c.upstreamRecvBuf ∧
      (captureRequestMetadata c).retryReqSendLen = c.retryReqSendLen ∧
      (captureRequestMetadata c).pipelineDepth = c.pipelineDepth ∧
      (captureRequestMetadata c).pipelineStashLen = c.pipelineStashLen := by
  unfold captureRequestMetadata
  dsimp only
  split
  · unfold captureFraming
    split_ifs
    all_goals exact ⟨rfl, rfl, rfl, rfl, rfl, rfl⟩
  · exact ⟨rfl, rfl, rfl, rfl, rfl, rfl⟩

lemma captureFraming_spec (req : ParsedRequest) (n : Nat) (body : Str) (c : Connection) :
    let c' := captureFraming req n body c.resetRequest
    if req.chunked then
      (c'.reqMalformed = decide ((run .reset body).status = .error)) ∧
      (c'.reqInitialSendLen = if (run .reset body).status = .error then 0 else n + (run .reset body).consumed) ∧
      (c'.requestBodyIncomplete = decide ((run .reset body).parser.state ≠ .complete))
    else
      c'.reqMalformed = false ∧
      (c'.reqInitialSendLen = n + min body.length (if req.hasContentLength then req.contentLength else 0)) ∧
      (c'.requestBodyIncomplete = decide (body.length < if req.hasContentLength then req.contentLength else 0)) := by
  intro c'
  have hc' : c' = captureFraming req n body c.resetRequest := rfl
  cases hc : req.chunked with
  | true =>
    simp only [captureFraming, hc, if_true, captureChunked, captureChunks_eq_run] at hc'
    rw [if_pos rfl, hc']
    refine ⟨rfl, by simp, ?_⟩
    simp [Connection.requestBodyIncomplete, Connection.resetRequest, bne, beq_eq_decide]
  | false =>
    simp only [captureFraming, hc, Bool.false_eq_true, if_false] at hc'
    by_cases hl : req.hasContentLength = true ∧ 0 < req.contentLength
    · rw [if_pos hl] at hc'
      rw [hc', hl.1, if_pos rfl]
      have hmode : (BodyMode.contentLength == BodyMode.chunked) = false := rfl
      by_cases hle : req.contentLength ≤ body.length
      · simp only [captureContentLength, if_pos hle, Nat.min_eq_right hle, Nat.sub_zero, true_and]
        refine ⟨rfl, ?_⟩
        simp [Connection.requestBodyIncomplete, hmode, Nat.not_lt.mpr hle]
      · have hlt := Nat.lt_of_not_le hle
        simp only [captureContentLength, if_neg hle, Nat.min_eq_left hlt.le, Nat.sub_sub_self hlt.le, true_and]
        refine ⟨rfl, ?_⟩
        simp [Connection.requestBodyIncomplete, Connection.resetRequest, hlt]
    · rw [if_neg hl] at hc'
      have hzero : (if req.hasContentLength = true then req.contentLength else 0) = 0 := by
        split_ifs with h
        · exact Nat.eq_zero_of_not_pos fun hpos => hl ⟨h, hpos⟩
        · rfl
      rw [hc', hzero]
      exact ⟨rfl, by simp, rfl⟩

lemma run_whole {p} {body : Str} (h : (run p body).status = .done) (s : Str) : run p (body ++ s) = run p body := by
  rw [run_append, if_neg (by rw [h]; decide)]

lemma capture_complete {c r s} (hr : CompleteRequest r) (h : c.recvBuf.bytes = r ++ s) :
    (captureRequestMetadata c).reqInitialSendLen = r.length ∧ (captureRequestMetadata c).reqMalformed = false ∧
      (captureRequestMetadata c).requestBodyIncomplete = false := by
  obtain ⟨req, head, body, rfl, hp, hbody⟩ := hr
  rw [List.append_assoc] at h
  have hparse := parse_complete_append hp (body ++ s)
  have heq : captureRequestMetadata c = captureFraming req head.length (body ++ s) c.resetRequest := by
    simp only [captureRequestMetadata, h, hparse, List.drop_left]
  have hspec := captureFraming_spec req head.length (body ++ s) c
  rw [heq, List.length_append]
  rw [BodyOf] at hbody
  cases hc : req.chunked with
  | true =>
    rw [hc, if_pos rfl] at hbody
    simp only [hc, if_true] at hspec
    rw [drain_eq_run _ wf_reset] at hbody
    obtain ⟨hmal, hlen, hinc⟩ := hspec
    have hstate := (run_ended (p := .reset) (by decide) body).1.mpr hbody.1
    rw [run_whole hbody.1] at hmal hlen hinc
    rw [hmal, hlen, hinc, hbody.1, hbody.2, hstate]
    exact ⟨rfl, rfl, rfl⟩
  | false =>
    rw [hc, if_neg Bool.false_ne_true] at hbody
    simp only [hc, Bool.false_eq_true, if_false] at hspec
    obtain ⟨hmal, hlen, hinc⟩ := hspec
    rw [hmal, hlen, hinc, ← hbody, List.length_append]
    exact ⟨by omega, rfl, by simp⟩

lemma parse_head_alone {b req n} (h : parse b = .complete req n) :
    4 ≤ n ∧ n ≤ b.length ∧ parse (b.take n) = .complete req n := by
  obtain ⟨rest, hlen, hhead, hn⟩ := parse_complete_iff.mp h
  obtain ⟨l, ps, _, hb, -, -, -⟩ := parseHead_done hhead
  have hv : l.version.bytes.length = 10 := by cases l.version <;> rfl
  have hfour : 4 ≤ n := by
    have hcount := congrArg List.length hb
    simp only [RequestLine.bytes, List.length_append, List.length_cons, hv] at hcount
    omega
  have hle : n ≤ b.length := by omega
  have htake : (b.take n).length = n := List.length_take_of_le hle
  refine ⟨hfour, hle, parse_complete_iff.mpr ⟨[], by omega, ?_, by rw [htake]; rfl⟩⟩
  rw [hn]
  exact parseHead_stable.done_take hhead

lemma capture_strict {c r s} (hr : CompleteRequest r) (h : c.recvBuf.bytes = r ++ s) :
    (captureRequestMetadata c).reqStrictH1Complete = true := by
  obtain ⟨req, head, body, rfl, hp, -⟩ := hr
  rw [List.append_assoc] at h
  have hparse := parse_complete_append hp (body ++ s)
  have hfour := (parse_head_alone hp).1
  simp only [captureRequestMetadata, h, hparse, captureFraming, decide_eq_true_eq]
  omega

lemma capture_sound {c} (hpos : (captureRequestMetadata c).reqInitialSendLen ≠ 0)
    (hbody : (captureRequestMetadata c).requestBodyIncomplete = false) :
    ∃ r s, CompleteRequest r ∧ c.recvBuf.bytes = r ++ s ∧ r.length = (captureRequestMetadata c).reqInitialSendLen := by
  cases hp : parse c.recvBuf.bytes with
  | incomplete => exact absurd (by simp only [captureRequestMetadata, hp]; rfl) hpos
  | error => exact absurd (by simp only [captureRequestMetadata, hp]; rfl) hpos
  | complete req n =>
    have heq : captureRequestMetadata c = captureFraming req n (c.recvBuf.bytes.drop n) c.resetRequest := by
      simp only [captureRequestMetadata, hp]
    have hspec := captureFraming_spec req n (c.recvBuf.bytes.drop n) c
    rw [heq] at hpos hbody ⊢
    obtain ⟨-, hle, hhead⟩ := parse_head_alone hp
    have hn : (c.recvBuf.bytes.take n).length = n := List.length_take_of_le hle
    have hsplit : ∀ k, c.recvBuf.bytes =
        c.recvBuf.bytes.take n ++ (c.recvBuf.bytes.drop n).take k ++ (c.recvBuf.bytes.drop n).drop k := by
      intro k
      rw [List.append_assoc, List.take_append_drop, List.take_append_drop]
    have hcut : ∀ k ≤ (c.recvBuf.bytes.drop n).length, BodyOf req ((c.recvBuf.bytes.drop n).take k) →
        ∃ r s, CompleteRequest r ∧ c.recvBuf.bytes = r ++ s ∧ r.length = n + k := by
      intro k hk hb
      refine ⟨_, _, ⟨req, _, _, rfl, ?_, hb⟩, hsplit k, ?_⟩
      · rw [hn]
        exact hhead
      · rw [List.length_append, hn, List.length_take_of_le hk]
    generalize c.recvBuf.bytes.drop n = body at hcut hspec hpos hbody
    cases hc : req.chunked with
    | true =>
      simp only [hc, if_true] at hspec
      obtain ⟨-, hlen, hinc⟩ := hspec
      obtain ⟨hiff, hcon, htake⟩ := run_ended (p := .reset) (by decide) body
      have hdone : (run .reset body).status = .done := by
        refine hiff.mp ?_
        simpa [hinc] using hbody
      rw [hlen, if_neg (by rw [hdone]; decide)]
      refine hcut _ hcon ?_
      rw [BodyOf, if_pos hc, drain_eq_run _ wf_reset, htake hdone, List.length_take_of_le hcon]
      exact ⟨hdone, rfl⟩
    | false =>
      simp only [hc, Bool.false_eq_true, if_false] at hspec
      obtain ⟨-, hlen, hinc⟩ := hspec
      have hall : (if req.hasContentLength = true then req.contentLength else 0) ≤ body.length := by
        simpa [hinc] using hbody
      rw [hlen, Nat.min_eq_right hall]
      refine hcut _ hall ?_
      rw [BodyOf, hc, if_neg Bool.false_ne_true, List.length_take_of_le hall]

lemma CompleteRequest.ne_nil {r} (h : CompleteRequest r) : r ≠ [] := by
  obtain ⟨req, head, body, rfl, hp, -⟩ := h
  have hfour := (parse_head_alone hp).1
  exact fun hnil => by simp [List.append_eq_nil_iff.mp hnil] at hfour

/-! ## Passing the bytes behind a request on -/

lemma pipelineLeftover_eq {c} {r s : Str} (hr : r ≠ []) (h : c.recvBuf.bytes = r ++ s)
    (hlen : c.reqInitialSendLen = r.length) :
    pipelineLeftover c = s.length ∧ c.recvBuf.load c.reqInitialSendLen s.length = s := by
  have htotal : c.recvBuf.len = r.length + s.length := by rw [← Buffer.length_bytes, h, List.length_append]
  have hpos := List.length_pos_of_ne_nil hr
  constructor
  · rw [pipelineLeftover, hlen, htotal]
    split_ifs <;> omega
  · have hload := Buffer.load_behind (b := c.recvBuf) (show r.length ≤ c.recvBuf.len by omega)
    rw [h, List.drop_left, htotal, Nat.add_sub_cancel_left] at hload
    rw [hlen, hload]

lemma pipelineAdvance_eq {c} (h : c.pipelineDepth < kMaxPipelineDepth) :
    pipelineAdvance c = (.advanced, { c with pipelineDepth := c.pipelineDepth + 1 }) := by
  rw [pipelineAdvance, pipelineTransitionStatus, if_neg (Nat.not_le.mpr h)]

lemma pipelineAdvance_limit {c} (h : ¬ c.pipelineDepth < kMaxPipelineDepth) :
    pipelineAdvance c = (.limitExceeded, c) := by
  rw [pipelineAdvance, pipelineTransitionStatus, if_pos (Nat.not_lt.mp h)]

lemma pipelineShift_spec {c} {r s : Str} (hr : r ≠ []) (hs : s ≠ []) (h : c.recvBuf.bytes = r ++ s)
    (hlen : c.reqInitialSendLen = r.length) (hd : c.pipelineDepth < kMaxPipelineDepth) :
    ∃ c', pipelineShift c = some (.advanced, c') ∧ c'.recvBuf.bytes = s ∧ c'.pipelineDepth = c.pipelineDepth + 1 := by
  obtain ⟨hleft, hload⟩ := pipelineLeftover_eq hr h hlen
  have hne : s.length ≠ 0 := fun h0 => hs (List.length_eq_zero_iff.mp h0)
  have hfit : s.length ≤ Pool.kSliceSize := by
    have := c.recvBuf.fits
    rw [← Buffer.length_bytes, h, List.length_append] at this
    omega
  obtain ⟨b, hb, hbytes⟩ := Buffer.commit_store (b := c.recvBuf) hfit
  refine ⟨{ c with pipelineDepth := c.pipelineDepth + 1, recvBuf := b }, ?_, hbytes, rfl⟩
  simp only [pipelineShift, hleft, if_neg hne, pipelineAdvance_eq hd, hload, Connection.resetRequestReceiveBuffer, hb]
  rfl

lemma pipelineShift_rest {c} {r s : Str} (hr : r ≠ []) (h : c.recvBuf.bytes = r ++ s)
    (hlen : c.reqInitialSendLen = r.length) : (s = [] → pipelineShift c = some (.noSuccessor, c)) ∧
      (s ≠ [] → ¬ c.pipelineDepth < kMaxPipelineDepth → pipelineShift c = some (.limitExceeded, c)) := by
  obtain ⟨hleft, -⟩ := pipelineLeftover_eq hr h hlen
  refine ⟨fun hs => ?_, fun hs hd => ?_⟩
  · simp only [pipelineShift, hleft, hs, List.length_nil, if_true]
  · have hne : s.length ≠ 0 := fun h0 => hs (List.length_eq_zero_iff.mp h0)
    simp only [pipelineShift, hleft, if_neg hne, pipelineAdvance_limit hd]

def Connection.stashed (c : Connection) : Str := c.sendBuf.load c.retryReqSendLen c.pipelineStashLen

lemma pipelineStash_spec {c} {r s : Str} (hr : r ≠ []) (h : c.recvBuf.bytes = r ++ s)
    (hlen : c.reqInitialSendLen = r.length) (hsnap : c.retryReqSendLen = 0 ∨ c.sendBuf.len = c.retryReqSendLen) :
    let c' := (pipelineStash c).2
    ((pipelineStash c).1 = true ↔ c.retryReqSendLen + s.length ≤ Pool.kSliceSize) ∧
      ((pipelineStash c).1 = true → c'.stashed = s ∧ c'.pipelineStashLen = s.length) ∧
      c'.recvBuf = c.recvBuf ∧ c'.retryReqSendLen = c.retryReqSendLen ∧ c'.pipelineDepth = c.pipelineDepth := by
  intro c'
  obtain ⟨hleft, hload⟩ := pipelineLeftover_eq hr h hlen
  have hc' : c' = (pipelineStash c).2 := rfl
  have hfits := c.sendBuf.fits
  by_cases hs : s.length = 0
  · have hnil : s = [] := List.length_eq_zero_iff.mp hs
    have heq : pipelineStash c = (true, { c with pipelineStashLen := 0 }) := by
      simp only [pipelineStash, hleft, if_pos hs]
    rw [hc', heq, hnil]
    refine ⟨iff_of_true rfl (by simp; omega), fun _ => ⟨rfl, rfl⟩, rfl, rfl, rfl⟩
  · -- the snapshot is all that the send buffer holds when the bytes are copied
    let b := if c.retryReqSendLen = 0 then c.sendBuf.reset else c.sendBuf
    have hlenb : b.len = c.retryReqSendLen := by
      simp only [b]
      split_ifs with h0
      · rw [h0, Buffer.len_reset]
      · exact hsnap.resolve_left h0
    have hsend : (if c.retryReqSendLen = 0 then { c with sendBuf := c.sendBuf.reset } else c) = { c with sendBuf := b } := by
      simp only [b]
      split_ifs <;> rfl
    have hslice : s.length < 2 ^ 16 := by
      have := c.recvBuf.fits
      rw [← Buffer.length_bytes, h, List.length_append, Pool.kSliceSize] at this
      omega
    by_cases hroom : b.writeAvail < s.length
    · have heq : pipelineStash c = (false, { c with sendBuf := b, pipelineStashLen := 0 }) := by
        simp only [pipelineStash, hleft, if_neg hs, hsend, if_pos hroom]
      rw [hc', heq]
      rw [Buffer.writeAvail, hlenb] at hroom
      refine ⟨iff_of_false Bool.false_ne_true (by omega), fun hf => absurd hf Bool.false_ne_true, rfl, rfl, rfl⟩
    · have heq : pipelineStash c =
          (true, { c with sendBuf := b.write s, pipelineStashLen := s.length }) := by
        simp only [pipelineStash, hleft, if_neg hs, hsend, if_neg hroom, hload, Nat.mod_eq_of_lt hslice]
      rw [hc', heq]
      have hstashed := Buffer.load_write (Nat.not_lt.mp hroom)
      rw [hlenb] at hstashed
      rw [Buffer.writeAvail] at hroom
      exact ⟨iff_of_true rfl (by omega), fun _ => ⟨hstashed, rfl⟩, rfl, rfl, rfl⟩

lemma prependBytes_spec {b xs} (h : xs.length + b.len ≤ Pool.kSliceSize) :
    ∃ b', prependBytes b xs = some b' ∧ b'.bytes = xs ++ b.bytes := by
  by_cases h0 : b.len = 0
  · obtain ⟨b', hb, hbytes⟩ := Buffer.commit_store (b := b) (show xs.length ≤ Pool.kSliceSize by omega)
    refine ⟨b', by rw [prependBytes, if_pos h0, hb], ?_⟩
    rw [hbytes, Buffer.bytes_eq_nil.mpr h0, List.append_nil]
  · obtain ⟨b', hb, hbytes⟩ := Buffer.setLen_prepend h
    exact ⟨b', by rw [prependBytes, if_neg h0, hb], hbytes⟩

lemma pipelineRecover_rest {c} : (c.pipelineStashLen = 0 → ∀ count, pipelineRecover c count = some (.noSuccessor, c)) ∧
      (c.pipelineStashLen ≠ 0 →
        ¬ c.pipelineDepth < kMaxPipelineDepth ∨ Pool.kSliceSize < c.pipelineStashLen + c.recvBuf.len →
        pipelineRecover c true = some (.limitExceeded, c)) := by
  refine ⟨fun h0 count => by simp only [pipelineRecover, if_pos h0], fun hne hno => ?_⟩
  by_cases hd : c.pipelineDepth < kMaxPipelineDepth
  · have hstatus : pipelineTransitionStatus c = .advanced := if_neg (Nat.not_le.mpr hd)
    have hroom := hno.resolve_left (not_not_intro hd)
    simp [pipelineRecover, hne, hstatus, hroom]
  · have hstatus : pipelineTransitionStatus c = .limitExceeded := if_pos (Nat.not_lt.mp hd)
    simp [pipelineRecover, hne, hstatus]

lemma pipelineRecover_spec {c} {s a : Str} {count} (hs : s ≠ []) (hstash : c.stashed = s)
    (hlen : c.pipelineStashLen = s.length) (ha : c.recvBuf.bytes = a) (hfit : s.length + a.length ≤ Pool.kSliceSize)
    (hd : count = true → c.pipelineDepth < kMaxPipelineDepth) :
    ∃ c', pipelineRecover c count = some (.advanced, c') ∧ c'.recvBuf.bytes = s ++ a ∧
      c'.pipelineDepth = c.pipelineDepth + (if count then 1 else 0) := by
  have hne : s.length ≠ 0 := fun h0 => hs (List.length_eq_zero_iff.mp h0)
  have hexisting : c.recvBuf.len = a.length := by rw [← ha, Buffer.length_bytes]
  have hsrc : c.sendBuf.load c.retryReqSendLen s.length = s := by
    rw [← hlen]
    exact hstash
  have hstatus : ¬ (count = true ∧ pipelineTransitionStatus c ≠ .advanced) := by
    rintro ⟨hcount, hn⟩
    rw [pipelineTransitionStatus, if_neg (Nat.not_le.mpr (hd hcount))] at hn
    exact hn rfl
  -- the counted connection differs in its depth only
  have hcount : (if count = true then (pipelineAdvance c).2 else c) =
      { c with pipelineDepth := c.pipelineDepth + (if count then 1 else 0) } := by
    cases count with
    | false => rfl
    | true =>
      rw [if_pos rfl, pipelineAdvance_eq (hd rfl)]
      rfl
  obtain ⟨b, hb, hbytes⟩ := prependBytes_spec (b := c.recvBuf) (show s.length + c.recvBuf.len ≤ Pool.kSliceSize by omega)
  rw [ha] at hbytes
  refine ⟨{ c with
    pipelineDepth := c.pipelineDepth + (if count then 1 else 0)
    pipelineStashLen := 0
    retryReqSendLen := 0
    recvBuf := b
    sendBuf := c.sendBuf.reset }, ?_, hbytes, rfl⟩
  simp only [pipelineRecover, hlen, if_neg hne, if_neg hstatus, hexisting, hsrc, if_neg (Nat.not_lt.mpr hfit), hcount, hb]
  rfl

end Rut.Conn
