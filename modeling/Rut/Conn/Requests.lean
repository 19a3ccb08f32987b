import Rut.Conn.Pipeline
import Rut.Http.Fields
import Rut.Lib.Loop

/-!
# The requests of a connection

The steps of `include/rut/runtime/callbacks_impl.h` that take a request off a connection and lead to the next one. A
request that came in with all of its body is served at once: by a local response, whose end shifts the receive buffer
(`on_response_sent`), or by an upstream, for which the bytes behind the request are stashed (`on_upstream_request_sent`)
and put back at the request boundary (`continue_http1_request_boundary`). Bytes of the client may arrive at any time.
What the surrounding code decides is part of the event. Requests whose body is streamed are outside of the model.
-/

set_option linter.all false
namespace Rut.Conn

open Http Http.Chunked Lib

/-- Bytes of the client are read (`recv` into the receive buffer). -/
def Connection.receive (c : Connection) (a : Str) : Connection := { c with recvBuf := c.recvBuf.write a }

inductive Phase where
  | reading
  | serving
  | awaiting
  | closed
deriving DecidableEq

structure Server where
  conn : Connection
  phase : Phase := .reading
  received : Str := []
  requests : List Str := []

inductive Event where
  | recv (bytes : Str)
  | header (settled tls : Bool)
  | responseSent (keepAlive : Bool)
  | requestSent (reused : Bool)
  | responseDone (keepAlive : Bool)
deriving DecidableEq

/-- The request boundary of `on_header_received`: a successor whose predecessor is settled starts a new row. -/
def onHeaderReceived (settled tls : Bool) (c : Connection) : Connection :=
  let successor := 0 < c.pipelineDepth
  let c := captureRequestMetadata c
  let suffix := c.reqInitialSendLen ≠ 0 ∧ c.reqMalformed = false ∧ c.reqInitialSendLen < c.recvBuf.len
  let c :=
    if successor ∧ c.reqStrictH1Complete ∧ (suffix ∨ 2 ≤ c.pipelineDepth ∨ tls) ∧ settled then { c with pipelineDepth := 0 }
    else c
  { c with retryReqSendLen := 0 }

/-- The request has gone upstream: a snapshot for a reused socket, then the stash (`on_upstream_request_sent`). -/
def onUpstreamRequestSent (reused : Bool) (c : Connection) : Bool × Connection :=
  if c.retryReqSendLen = 0 then
    let c :=
      if reused ∧ 0 < c.reqInitialSendLen ∧ c.reqInitialSendLen ≤ c.recvBuf.len ∧ c.recvBuf.len ≤ Pool.kSliceSize then
        { c with
          sendBuf := c.sendBuf.reset.write (c.recvBuf.load 0 c.reqInitialSendLen)
          retryReqSendLen := c.reqInitialSendLen }
      else c
    let r := pipelineStash c
    (r.1, if r.1 then r.2.resetRequestReceiveBuffer else r.2)
  else (true, c)

def Connection.idle (c : Connection) : Connection := { c.resetRequestReceiveBuffer with pipelineDepth := 0 }

def Connection.resetSend (c : Connection) : Connection := { c with sendBuf := c.sendBuf.reset }

/-- The boundary behind a local response (`on_response_sent`). -/
def onResponseSent (c : Connection) : Option (Phase × Connection) := do
  match ← pipelineShift c.resetSend with
  | (.advanced, c) => some (.reading, c)
  | (.limitExceeded, c) => some (.closed, c)
  | (.noSuccessor, c) => some (.reading, c.idle)

/-- Put the stash in front of bytes that came in late, by way of the upstream buffer. -/
def joinLate (c : Connection) : Connection :=
  let late := c.recvBuf.len
  let up := c.upstreamRecvBuf.reset.write c.recvBuf.bytes
  let b := c.recvBuf.reset.write (c.sendBuf.load c.retryReqSendLen c.pipelineStashLen)
  { c with
    pipelineStashLen := 0
    retryReqSendLen := 0
    recvBuf := b.write (up.load 0 late)
    upstreamRecvBuf := up.reset
    sendBuf := c.sendBuf.reset }

/-- The boundary behind a proxied response (`continue_http1_request_boundary`). -/
def continueHttp1RequestBoundary (c : Connection) : Option (Phase × Connection) :=
  if 0 < c.pipelineStashLen ∧ 0 < c.recvBuf.len then
    if pipelineTransitionStatus c ≠ .advanced then some (.closed, c)
    else if Pool.kSliceSize < c.pipelineStashLen + c.recvBuf.len then some (.closed, { c with pipelineStashLen := 0 })
    else some (.reading, joinLate (pipelineAdvance c).2)
  else do
    match ← pipelineRecover c true with
    | (.advanced, c) => some (.reading, c)
    | (.limitExceeded, c) => some (.closed, c)
    | (.noSuccessor, c) =>
      if 0 < c.recvBuf.len then
        match pipelineAdvance c with
        | (.advanced, c) => some (.reading, c)
        | (_, c) => some (.closed, c)
      else some (.reading, c.idle)

namespace Server

def boundary (s : Server) (keepAlive : Bool) (r : Option (Phase × Connection)) : Option Server :=
  if keepAlive then r.map fun x => { s with phase := x.1, conn := x.2 } else some { s with phase := .closed }

/-- One event. There is no next state where the event cannot happen, or where it leads out of the model. -/
def step (s : Server) : Event → Option Server
  | .recv bytes =>
    if s.phase = .closed ∨ s.conn.recvBuf.writeAvail < bytes.length then none
    else some { s with
      conn := s.conn.receive bytes
      received := s.received ++ bytes }
  | .header settled tls =>
    let c := onHeaderReceived settled tls s.conn
    if s.phase ≠ .reading ∨ c.reqInitialSendLen = 0 ∨ c.requestBodyIncomplete = true then none
    else some { s with
      conn := c
      phase := .serving
      requests := s.requests ++ [c.recvBuf.bytes.take c.reqInitialSendLen] }
  | .responseSent keepAlive =>
    if s.phase ≠ .serving then none else s.boundary keepAlive (onResponseSent s.conn)
  | .requestSent reused =>
    let r := onUpstreamRequestSent reused s.conn
    if s.phase ≠ .serving then none
    else some { s with conn := r.2, phase := if r.1 then .awaiting else .closed }
  | .responseDone keepAlive =>
    if s.phase ≠ .awaiting then none else s.boundary keepAlive (continueHttp1RequestBoundary s.conn)

def run (s : Server) (es : List Event) : Option Server := es.foldlM step s

def pending (s : Server) : Str :=
  match s.phase with
  | .reading => s.conn.recvBuf.bytes
  | .serving => s.conn.recvBuf.bytes.drop s.conn.reqInitialSendLen
  | .awaiting => s.conn.stashed ++ s.conn.recvBuf.bytes
  | .closed => []

end Server

/-! ## Requests are told apart by their bytes -/

lemma CompleteRequest.unique {r r' s s'} (hr : CompleteRequest r) (hr' : CompleteRequest r')
    (h : r ++ s = r' ++ s') : r = r' ∧ s = s' := by
  obtain ⟨req, head, body, rfl, hp, hb⟩ := hr
  obtain ⟨req', head', body', rfl, hp', hb'⟩ := hr'
  rw [List.append_assoc, List.append_assoc] at h
  have hparse := parse_complete_append hp (body ++ s)
  rw [h, parse_complete_append hp' (body' ++ s')] at hparse
  obtain ⟨rfl, hlen⟩ := ParseResult.complete.inj hparse
  obtain ⟨rfl, hrest⟩ := List.append_inj h hlen.symm
  have hbody : body.length = body'.length := by
    rw [BodyOf] at hb hb'
    split_ifs at hb hb' with hc hl
    · rw [drain_eq_run _ wf_reset] at hb hb'
      rw [← hb.2, ← hb'.2, ← run_whole hb.1 s, hrest, run_whole hb'.1 s']
    · rw [hb, hb']
    · rw [hb, hb']
  obtain ⟨rfl, rfl⟩ := List.append_inj hrest hbody
  exact ⟨rfl, rfl⟩

lemma requests_prefix {rs rs' : List Str} {s : Str} (h : ∀ r ∈ rs, CompleteRequest r) (h' : ∀ r ∈ rs', CompleteRequest r)
    (heq : rs.flatten ++ s = rs'.flatten) : ∃ rest, rs' = rs ++ rest ∧ s = rest.flatten := by
  induction rs generalizing rs' with
  | nil => exact ⟨rs', rfl, heq⟩
  | cons r rs ih =>
    cases rs' with
    | nil =>
      rw [List.flatten_cons, List.flatten_nil, List.append_assoc] at heq
      exact absurd (List.append_eq_nil_iff.mp heq).1 (h r List.mem_cons_self).ne_nil
    | cons r' rs' =>
      rw [List.flatten_cons, List.flatten_cons, List.append_assoc] at heq
      obtain ⟨rfl, htail⟩ := (h r List.mem_cons_self).unique (h' r' List.mem_cons_self) heq
      obtain ⟨rest, rfl, hrest⟩ := ih (fun x hx => h x (List.mem_cons_of_mem _ hx))
        (fun x hx => h' x (List.mem_cons_of_mem _ hx)) htail
      exact ⟨rest, rfl, hrest⟩

/-! ## What the steps do -/

lemma onHeaderReceived_spec (settled tls : Bool) (c : Connection) :
    let c' := onHeaderReceived settled tls c
    c'.recvBuf = c.recvBuf ∧ c'.reqInitialSendLen = (captureRequestMetadata c).reqInitialSendLen ∧
      c'.requestBodyIncomplete = (captureRequestMetadata c).requestBodyIncomplete ∧ c'.retryReqSendLen = 0 ∧
      c'.pipelineDepth ≤ c.pipelineDepth := by
  have hf := capture_frame c
  unfold onHeaderReceived
  dsimp only
  split_ifs
  · exact ⟨hf.1, rfl, rfl, rfl, Nat.zero_le _⟩
  · exact ⟨hf.1, rfl, rfl, rfl, hf.2.2.2.2.1.le⟩

lemma onHeaderReceived_settled {c r rest} (hr : CompleteRequest r)
    (hb : c.recvBuf.bytes = r ++ rest) (hrest : rest ≠ []) (tls : Bool) :
    (onHeaderReceived true tls c).pipelineDepth = 0 := by
  obtain ⟨hlen, hmal, -⟩ := capture_complete hr hb
  obtain ⟨hrecv, -, -, -, hdepth, -⟩ := capture_frame c
  have hpos := List.length_pos_of_ne_nil hr.ne_nil
  have hmore := List.length_pos_of_ne_nil hrest
  have htotal : c.recvBuf.len = r.length + rest.length := by rw [← Buffer.length_bytes, hb, List.length_append]
  have hsuffix : (captureRequestMetadata c).reqInitialSendLen ≠ 0 ∧ (captureRequestMetadata c).reqMalformed = false ∧
      (captureRequestMetadata c).reqInitialSendLen < (captureRequestMetadata c).recvBuf.len := by
    rw [hlen, hrecv, htotal]
    exact ⟨by omega, hmal, by omega⟩
  unfold onHeaderReceived
  dsimp only
  split_ifs with hnew
  · rfl
  · -- the row is not restarted only where it has not begun
    by_contra hne
    refine hnew ⟨?_, capture_strict hr hb, .inl hsuffix, rfl⟩
    rw [← hdepth]
    exact Nat.pos_of_ne_zero hne

lemma header_spec {s s' : Server} {settled tls} (h : s.step (.header settled tls) = some s') :
    ∃ r rest, CompleteRequest r ∧ s.phase = .reading ∧ s.conn.recvBuf.bytes = r ++ rest ∧ s'.phase = .serving ∧
      s'.received = s.received ∧ s'.requests = s.requests ++ [r] ∧ s'.conn.recvBuf.bytes = r ++ rest ∧
      s'.conn.reqInitialSendLen = r.length ∧ s'.conn.retryReqSendLen = 0 := by
  obtain ⟨hrecv, hlen, hinc, hretry, -⟩ := onHeaderReceived_spec settled tls s.conn
  rw [Server.step] at h
  split_ifs at h with hno
  cases h
  simp only [not_or, not_not] at hno
  obtain ⟨hphase, hpos, hbody⟩ := hno
  rw [hlen] at hpos
  rw [Bool.not_eq_true, hinc] at hbody
  obtain ⟨r, rest, hr, hbytes, hrlen⟩ := capture_sound hpos hbody
  refine ⟨r, rest, hr, hphase, hbytes, rfl, rfl, ?_, by rw [hrecv, hbytes], by rw [hlen, hrlen], hretry⟩
  rw [hrecv, hlen, ← hrlen, hbytes, List.take_left]

lemma onResponseSent_spec {c} {r rest : Str} (hr : r ≠ []) (h : c.recvBuf.bytes = r ++ rest)
    (hlen : c.reqInitialSendLen = r.length) :
    ∃ p c', onResponseSent c = some (p, c') ∧ (p = .reading ∧ c'.recvBuf.bytes = rest ∨ p = .closed) ∧
      ((rest ≠ [] → c.pipelineDepth < kMaxPipelineDepth) →
        p = .reading ∧ c'.pipelineDepth = if rest = [] then 0 else c.pipelineDepth + 1) := by
  obtain ⟨hnone, hlimit⟩ := pipelineShift_rest (c := c.resetSend) hr h hlen
  by_cases hrest : rest = []
  · refine ⟨.reading, c.resetSend.idle, ?_, .inl ⟨rfl, hrest.symm⟩, fun _ => ⟨rfl, ?_⟩⟩
    · simp only [onResponseSent, hnone hrest]
      rfl
    · rw [if_pos hrest]
      rfl
  · by_cases hd : c.pipelineDepth < kMaxPipelineDepth
    · obtain ⟨c', hshift, hbytes, hdepth⟩ := pipelineShift_spec (c := c.resetSend) hr hrest h hlen hd
      refine ⟨.reading, c', ?_, .inl ⟨rfl, hbytes⟩, fun _ => ⟨rfl, ?_⟩⟩
      · simp only [onResponseSent, hshift]
        rfl
      · rw [if_neg hrest, hdepth]
        rfl
    · refine ⟨.closed, c.resetSend, ?_, .inr rfl, fun hlt => absurd (hlt hrest) hd⟩
      simp only [onResponseSent, hlimit hrest hd]
      rfl

lemma onUpstreamRequestSent_spec {c} {r rest : Str} (hr : r ≠ []) (h : c.recvBuf.bytes = r ++ rest)
    (hlen : c.reqInitialSendLen = r.length) (hretry : c.retryReqSendLen = 0) (reused : Bool) :
    ∃ c', onUpstreamRequestSent reused c = (true, c') ∧ c'.stashed = rest ∧ c'.pipelineStashLen = rest.length ∧
      c'.recvBuf.bytes = [] ∧ c'.pipelineDepth = c.pipelineDepth := by
  have htotal : c.recvBuf.len = r.length + rest.length := by rw [← Buffer.length_bytes, h, List.length_append]
  have hfits := c.recvBuf.fits
  -- both with and without a snapshot the stash has room behind what the send buffer keeps
  have hstash : ∀ d : Connection, d.recvBuf = c.recvBuf → d.reqInitialSendLen = c.reqInitialSendLen →
      d.pipelineDepth = c.pipelineDepth → d.retryReqSendLen ≤ r.length →
      (d.retryReqSendLen = 0 ∨ d.sendBuf.len = d.retryReqSendLen) →
      ∃ c', ((pipelineStash d).1, if (pipelineStash d).1 then (pipelineStash d).2.resetRequestReceiveBuffer
          else (pipelineStash d).2) = (true, c') ∧ c'.stashed = rest ∧ c'.pipelineStashLen = rest.length ∧
        c'.recvBuf.bytes = [] ∧ c'.pipelineDepth = c.pipelineDepth := by
    intro d hrecv hsend hdepth hle hsnap
    obtain ⟨hiff, hok, -, -, hsame⟩ := pipelineStash_spec hr (hrecv.symm ▸ h) (hsend.trans hlen) hsnap
    have htrue := hiff.mpr (show d.retryReqSendLen + rest.length ≤ Pool.kSliceSize by omega)
    obtain ⟨hst, hstlen⟩ := hok htrue
    refine ⟨(pipelineStash d).2.resetRequestReceiveBuffer, by rw [htrue, if_pos rfl], hst, hstlen, rfl, ?_⟩
    exact hsame.trans hdepth
  rw [onUpstreamRequestSent, if_pos hretry]
  split_ifs with hsnap
  · refine hstash _ rfl rfl rfl (le_of_eq hlen) (.inr ?_)
    have hload : (c.recvBuf.load 0 c.reqInitialSendLen).length = c.reqInitialSendLen := Memory.length_read ..
    rw [Buffer.len_write (by rw [hload, Buffer.writeAvail, Buffer.len_reset]; omega), hload, Buffer.len_reset, Nat.zero_add]
  · exact hstash c rfl rfl rfl (by omega) (.inl hretry)

lemma joinLate_spec {c} (h : c.pipelineStashLen + c.recvBuf.len ≤ Pool.kSliceSize) :
    (joinLate c).recvBuf.bytes = c.stashed ++ c.recvBuf.bytes := by
  have hs : c.stashed.length = c.pipelineStashLen := Memory.length_read ..
  have hup : c.recvBuf.bytes.length ≤ c.upstreamRecvBuf.reset.writeAvail := by
    rw [Buffer.length_bytes, Buffer.writeAvail, Buffer.len_reset]
    omega
  have hlate : (c.upstreamRecvBuf.reset.write c.recvBuf.bytes).load 0 c.recvBuf.len = c.recvBuf.bytes := by
    have := Buffer.load_write hup
    rwa [Buffer.len_reset, Buffer.length_bytes] at this
  have hfront : c.stashed.length ≤ c.recvBuf.reset.writeAvail := by
    rw [hs, Buffer.writeAvail, Buffer.len_reset]
    omega
  have hroom : c.recvBuf.bytes.length ≤ (c.recvBuf.reset.write c.stashed).writeAvail := by
    rw [Buffer.writeAvail, Buffer.len_write hfront, Buffer.len_reset, Buffer.length_bytes, hs]
    omega
  change ((c.recvBuf.reset.write c.stashed).write _).bytes = _
  rw [hlate, Buffer.bytes_write hroom, Buffer.bytes_write hfront, Buffer.bytes_reset, List.nil_append]

lemma boundary_spec {c} : ∃ p c', continueHttp1RequestBoundary c = some (p, c') ∧
      (p = .reading ∧ c'.recvBuf.bytes = c.stashed ++ c.recvBuf.bytes ∨ p = .closed) ∧
      ((c.stashed ++ c.recvBuf.bytes ≠ [] → c.pipelineDepth < kMaxPipelineDepth) →
        (c.stashed ++ c.recvBuf.bytes).length ≤ Pool.kSliceSize →
        p = .reading ∧ c'.pipelineDepth = if c.stashed ++ c.recvBuf.bytes = [] then 0 else c.pipelineDepth + 1) := by
  have hs : c.stashed.length = c.pipelineStashLen := Memory.length_read ..
  have hpos : c.stashed ≠ [] ↔ c.pipelineStashLen ≠ 0 := by rw [← hs, Ne, Ne, List.length_eq_zero_iff]
  have hrecv : c.recvBuf.bytes ≠ [] ↔ c.recvBuf.len ≠ 0 := Buffer.bytes_eq_nil.not
  by_cases hst : c.pipelineStashLen = 0
  · -- nothing was stashed: the buffered bytes are the next request
    have hnil : c.stashed = [] := by rw [← List.length_eq_zero_iff, hs, hst]
    have hnot : ¬ (0 < c.pipelineStashLen ∧ 0 < c.recvBuf.len) := by omega
    have hcont : continueHttp1RequestBoundary c = if 0 < c.recvBuf.len then
        (match pipelineAdvance c with
        | (.advanced, c) => some (.reading, c)
        | (_, c) => some (.closed, c)) else some (.reading, c.idle) := by
      simp only [continueHttp1RequestBoundary, if_neg hnot, pipelineRecover_rest.1 hst]
      rfl
    rw [hcont, hnil, List.nil_append]
    by_cases hlen : c.recvBuf.len = 0
    · have hb := Buffer.bytes_eq_nil.mpr hlen
      refine ⟨.reading, c.idle, if_neg (by omega), .inl ⟨rfl, hb.symm⟩, fun _ _ => ⟨rfl, ?_⟩⟩
      rw [if_pos hb]
      rfl
    · have hb := hrecv.mpr hlen
      rw [if_pos (Nat.pos_of_ne_zero hlen), if_neg hb]
      by_cases hd : c.pipelineDepth < kMaxPipelineDepth
      · rw [pipelineAdvance_eq hd]
        exact ⟨.reading, _, rfl, .inl ⟨rfl, rfl⟩, fun _ _ => ⟨rfl, rfl⟩⟩
      · rw [pipelineAdvance_limit hd]
        exact ⟨.closed, c, rfl, .inr rfl, fun hlt => absurd (hlt hb) hd⟩
  · have hne : c.stashed ++ c.recvBuf.bytes ≠ [] := fun h => hpos.mpr hst (List.append_eq_nil_iff.mp h).1
    rw [if_neg hne]
    rw [List.length_append, hs, Buffer.length_bytes]
    by_cases hd : c.pipelineDepth < kMaxPipelineDepth
    · have hstatus : pipelineTransitionStatus c = .advanced := if_neg (Nat.not_le.mpr hd)
      by_cases hlate : 0 < c.recvBuf.len
      · -- bytes arrived while the response was awaited
        simp only [continueHttp1RequestBoundary, if_pos (And.intro (Nat.pos_of_ne_zero hst) hlate), hstatus, ne_eq,
          not_true_eq_false, if_false]
        by_cases hroom : Pool.kSliceSize < c.pipelineStashLen + c.recvBuf.len
        · rw [if_pos hroom]
          exact ⟨.closed, _, rfl, .inr rfl, fun _ hle => absurd hle (Nat.not_le.mpr hroom)⟩
        · rw [if_neg hroom, pipelineAdvance_eq hd]
          exact ⟨.reading, _, rfl, .inl ⟨rfl, joinLate_spec (Nat.not_lt.mp hroom)⟩, fun _ _ => ⟨rfl, rfl⟩⟩
      · have hnot : ¬ (0 < c.pipelineStashLen ∧ 0 < c.recvBuf.len) := fun h => hlate h.2
        by_cases hroom : Pool.kSliceSize < c.pipelineStashLen + c.recvBuf.len
        · refine ⟨.closed, c, ?_, .inr rfl, fun _ hle => absurd hle (Nat.not_le.mpr hroom)⟩
          simp only [continueHttp1RequestBoundary, if_neg hnot, pipelineRecover_rest.2 hst (.inr hroom)]
          rfl
        · have hfit : c.stashed.length + c.recvBuf.bytes.length ≤ Pool.kSliceSize := by
            rw [hs, Buffer.length_bytes]
            exact Nat.not_lt.mp hroom
          have hdepth : true = true → c.pipelineDepth < kMaxPipelineDepth := fun _ => hd
          obtain ⟨c', hrec, hbytes, hdepth⟩ := pipelineRecover_spec (hpos.mpr hst) rfl hs.symm rfl hfit hdepth
          refine ⟨.reading, c', ?_, .inl ⟨rfl, hbytes⟩, fun _ _ => ⟨rfl, hdepth⟩⟩
          simp only [continueHttp1RequestBoundary, if_neg hnot, hrec]
          rfl
    · refine ⟨.closed, c, ?_, .inr rfl, fun hlt => absurd (hlt hne) hd⟩
      by_cases hlate : 0 < c.recvBuf.len
      · have hstatus : pipelineTransitionStatus c ≠ .advanced := by
          rw [pipelineTransitionStatus, if_pos (Nat.not_lt.mp hd)]
          decide
        simp only [continueHttp1RequestBoundary, if_pos (And.intro (Nat.pos_of_ne_zero hst) hlate), if_pos hstatus]
      · have hnot : ¬ (0 < c.pipelineStashLen ∧ 0 < c.recvBuf.len) := fun h => hlate h.2
        simp only [continueHttp1RequestBoundary, if_neg hnot, pipelineRecover_rest.2 hst (.inl hd)]
        rfl

/-! ## Every run -/

namespace Server

variable {s s' : Server}

/-- The received bytes are the requests served so far and those that are pending. -/
structure Inv (s : Server) : Prop where
  complete : ∀ r ∈ s.requests, CompleteRequest r
  received : s.phase ≠ .closed → s.received = s.requests.flatten ++ s.pending
  served : s.requests.flatten <+: s.received
  serving : s.phase = .serving → ∃ r rest, r ≠ [] ∧ s.conn.recvBuf.bytes = r ++ rest ∧
    s.conn.reqInitialSendLen = r.length ∧ s.conn.retryReqSendLen = 0

lemma Inv.recv {a} (h : Inv s) (hs : s.step (.recv a) = some s') : Inv s' := by
  rw [step] at hs
  split_ifs at hs with hno
  cases hs
  simp only [not_or, Nat.not_lt] at hno
  obtain ⟨hopen, hroom⟩ := hno
  have hbytes : (s.conn.receive a).recvBuf.bytes = s.conn.recvBuf.bytes ++ a := Buffer.bytes_write hroom
  have hpending : ({ s with conn := s.conn.receive a, received := s.received ++ a } : Server).pending =
      s.pending ++ a := by
    unfold pending
    cases hp : s.phase with
    | reading => exact hbytes
    | serving =>
      obtain ⟨r, rest, -, hr, hlen, -⟩ := h.serving hp
      rw [hbytes, hr, show (s.conn.receive a).reqInitialSendLen = r.length from hlen, hlen, List.append_assoc,
        List.drop_left, List.drop_left]
    | awaiting =>
      rw [hbytes, List.append_assoc]
      rfl
    | closed => exact absurd hp hopen
  refine ⟨h.complete, fun _ => ?_, h.served.trans (List.prefix_append ..), fun hp => ?_⟩
  · rw [hpending, ← List.append_assoc, ← h.received hopen]
  · obtain ⟨r, rest, hr, hrest, hlen, hretry⟩ := h.serving hp
    exact ⟨r, rest ++ a, hr, by rw [← List.append_assoc, ← hrest]; exact hbytes, hlen, hretry⟩

lemma Inv.header {settled tls} (h : Inv s) (hs : s.step (.header settled tls) = some s') : Inv s' := by
  obtain ⟨r, rest, hr, hphase, hbytes, hp, hrec, hreq, hb, hlen, hretry⟩ := header_spec hs
  have hold := h.received (by rw [hphase]; decide)
  have hflat : s'.received = s'.requests.flatten ++ rest := by
    rw [hrec, hreq, hold, pending, hphase]
    rw [hbytes, List.flatten_append, List.flatten_singleton, List.append_assoc]
  refine ⟨fun x hx => ?_, fun _ => ?_, ?_, fun _ => ⟨r, rest, hr.ne_nil, hb, hlen, hretry⟩⟩
  · rw [hreq] at hx
    rcases List.mem_append.mp hx with hx | hx
    · exact h.complete x hx
    · rw [List.mem_singleton.mp hx]
      exact hr
  · rw [hflat, pending, hp]
    rw [hb, hlen, List.drop_left]
  · rw [hflat]
    exact List.prefix_append ..

lemma Inv.boundary {keepAlive p c r} (h : Inv s) (hopen : s.phase ≠ .closed) (hr : r = some (p, c))
    (hp : p = .reading ∧ c.recvBuf.bytes = s.pending ∨ p = .closed) (hs : s.boundary keepAlive r = some s') :
    Inv s' := by
  subst hr
  rw [Server.boundary] at hs
  split_ifs at hs with hk
  · cases hs
    rcases hp with ⟨rfl, hb⟩ | rfl
    · refine ⟨h.complete, fun _ => ?_, h.served, fun he => Phase.noConfusion he⟩
      rw [pending]
      rw [hb]
      exact h.received hopen
    · exact ⟨h.complete, fun hc => absurd rfl hc, h.served, fun he => Phase.noConfusion he⟩
  · cases hs
    exact ⟨h.complete, fun hc => absurd rfl hc, h.served, fun he => Phase.noConfusion he⟩

lemma Inv.requestSent {reused} (h : Inv s) (hs : s.step (.requestSent reused) = some s') : Inv s' := by
  have hp : s.phase = .serving := by
    by_contra hp
    rw [step, if_pos hp] at hs
    cases hs
  rw [step, if_neg (not_not_intro hp)] at hs
  obtain ⟨r, rest, hr, hb, hlen, hretry⟩ := h.serving hp
  obtain ⟨c, hc, hst, -, hempty, -⟩ := onUpstreamRequestSent_spec hr hb hlen hretry reused
  rw [hc] at hs
  cases hs
  refine ⟨h.complete, fun _ => ?_, h.served, fun he => Phase.noConfusion he⟩
  change s.received = s.requests.flatten ++ (c.stashed ++ c.recvBuf.bytes)
  rw [hst, hempty, List.append_nil]
  have hold := h.received (by rw [hp]; decide)
  rwa [pending, hp, hb, hlen, List.drop_left] at hold

lemma Inv.step {e} (h : Inv s) (hs : s.step e = some s') : Inv s' := by
  cases e with
  | recv a => exact h.recv hs
  | header settled tls => exact h.header hs
  | requestSent reused => exact h.requestSent hs
  | responseSent keepAlive =>
    rw [Server.step] at hs
    split_ifs at hs with hp
    rw [not_not] at hp
    obtain ⟨r, rest, hr, hb, hlen, -⟩ := h.serving hp
    obtain ⟨p, c, hc, hcases, -⟩ := onResponseSent_spec hr hb hlen
    refine h.boundary (by rw [hp]; decide) hc ?_ hs
    rwa [pending, hp, hb, hlen, List.drop_left]
  | responseDone keepAlive =>
    rw [Server.step] at hs
    split_ifs at hs with hp
    rw [not_not] at hp
    obtain ⟨p, c, hc, hcases, -⟩ := @boundary_spec s.conn
    refine h.boundary (by rw [hp]; decide) hc ?_ hs
    rwa [pending, hp]

structure Fresh (s : Server) : Prop where
  phase : s.phase = .reading
  received : s.received = []
  requests : s.requests = []
  empty : s.conn.recvBuf.bytes = []

lemma Fresh.inv (h : Fresh s) : Inv s := by
  refine ⟨by simp [h.requests], fun _ => ?_, by simp [h.requests], fun hp => ?_⟩
  · rw [h.received, h.requests, pending, h.phase]
    exact h.empty.symm
  · rw [h.phase] at hp
    exact Phase.noConfusion hp

lemma inv_run {es : List Event} (h : Inv s) (hr : s.run es = some s') : Inv s' :=
  foldlM_inv (fun _ => Inv) (fun hi hs => hi.step hs) [] h hr

end Server

/-! ## Serving what has arrived -/

inductive Way where
  | response
  | proxied (reused : Bool)
deriving DecidableEq

def Way.events (settled tls : Bool) : Way → List Event
  | .response => [.header settled tls, .responseSent true]
  | .proxied reused => [.header settled tls, .requestSent reused, .responseDone true]

lemma Server.run_cons {s s' : Server} {e} (h : s.step e = some s') (es : List Event) : s.run (e :: es) = s'.run es := by
  rw [Server.run, List.foldlM_cons, h]
  rfl

lemma step_header {s : Server} {r rest} (hp : s.phase = .reading) (hr : CompleteRequest r)
    (hb : s.conn.recvBuf.bytes = r ++ rest) (settled tls : Bool) :
    ∃ c, s.step (.header settled tls) = some { s with conn := c, phase := .serving, requests := s.requests ++ [r] } ∧
      c.recvBuf.bytes = r ++ rest ∧ c.reqInitialSendLen = r.length ∧ c.retryReqSendLen = 0 ∧
      c.pipelineDepth ≤ s.conn.pipelineDepth ∧ (settled = true → rest ≠ [] → c.pipelineDepth = 0) := by
  obtain ⟨hlen, hmal, hinc⟩ := capture_complete hr hb
  obtain ⟨hrecv, hlen', hinc', hretry, hdepth⟩ := onHeaderReceived_spec settled tls s.conn
  have hpos : r.length ≠ 0 := fun h0 => hr.ne_nil (List.length_eq_zero_iff.mp h0)
  refine ⟨onHeaderReceived settled tls s.conn, ?_, by rw [hrecv, hb], hlen'.trans hlen, hretry, hdepth, ?_⟩
  · rw [Server.step]
    rw [hlen', hlen, hinc', hinc, hrecv, hb, List.take_left, if_neg]
    simp [hp, hpos]
  · rintro rfl hrest
    exact onHeaderReceived_settled hr hb hrest tls

lemma serve_one {s : Server} {r rest settled tls} (hp : s.phase = .reading) (hr : CompleteRequest r)
    (hb : s.conn.recvBuf.bytes = r ++ rest)
    (hd : rest ≠ [] → settled = true ∨ s.conn.pipelineDepth < kMaxPipelineDepth) (way : Way) :
    ∃ c, s.run (way.events settled tls) = some { s with conn := c, requests := s.requests ++ [r] } ∧
      c.recvBuf.bytes = rest ∧ c.pipelineDepth ≤ if rest = [] then 0 else s.conn.pipelineDepth + 1 := by
  obtain ⟨c, hstep, hcb, hlen, hretry, hdepth, hsettled⟩ := step_header hp hr hb settled tls
  have hlt : rest ≠ [] → c.pipelineDepth < kMaxPipelineDepth := by
    intro hrest
    rcases hd hrest with hs | hd
    · rw [hsettled hs hrest]
      decide
    · exact lt_of_le_of_lt hdepth hd
  have hfits : rest.length ≤ Pool.kSliceSize := by
    have := c.recvBuf.fits
    rw [← Buffer.length_bytes, hcb, List.length_append] at this
    omega
  have hbound : ∀ c' : Connection, (c'.pipelineDepth = if rest = [] then 0 else c.pipelineDepth + 1) →
      c'.pipelineDepth ≤ if rest = [] then 0 else s.conn.pipelineDepth + 1 := by
    intro c' hc'
    rw [hc']
    split_ifs
    · exact le_refl 0
    · exact Nat.succ_le_succ hdepth
  cases way with
  | response =>
    obtain ⟨p, c', hsent, hcases, hgo⟩ := onResponseSent_spec hr.ne_nil hcb hlen
    obtain ⟨rfl, hdep⟩ := hgo hlt
    have hbytes := (hcases.resolve_right Phase.noConfusion).2
    refine ⟨c', ?_, hbytes, hbound c' hdep⟩
    have hboundary : Server.step { s with conn := c, phase := .serving, requests := s.requests ++ [r] }
        (.responseSent true) = some { s with conn := c', requests := s.requests ++ [r] } := by
      simp only [Server.step, Server.boundary, hsent, ne_eq, not_true_eq_false, if_false, if_true, Option.map_some, hp]
    rw [Way.events, Server.run_cons hstep, Server.run_cons hboundary]
    rfl
  | proxied reused =>
    obtain ⟨c₁, hsent, hst, -, hempty, hdep₁⟩ := onUpstreamRequestSent_spec hr.ne_nil hcb hlen hretry reused
    obtain ⟨p, c', hdone, hcases, hgo⟩ := @boundary_spec c₁
    rw [hst, hempty, List.append_nil, hdep₁] at hgo
    rw [hst, hempty, List.append_nil] at hcases
    obtain ⟨rfl, hdep⟩ := hgo hlt hfits
    have hbytes := (hcases.resolve_right Phase.noConfusion).2
    refine ⟨c', ?_, hbytes, hbound c' hdep⟩
    have hrequest : Server.step { s with conn := c, phase := .serving, requests := s.requests ++ [r] }
        (.requestSent reused) = some { s with conn := c₁, phase := .awaiting, requests := s.requests ++ [r] } := by
      simp only [Server.step, hsent, ne_eq, not_true_eq_false, if_false, if_true]
    have hboundary : Server.step { s with conn := c₁, phase := .awaiting, requests := s.requests ++ [r] }
        (.responseDone true) = some { s with conn := c', requests := s.requests ++ [r] } := by
      simp only [Server.step, Server.boundary, hdone, ne_eq, not_true_eq_false, if_false, if_true, Option.map_some, hp]
    rw [Way.events, Server.run_cons hstep, Server.run_cons hrequest, Server.run_cons hboundary]
    rfl

lemma serve_all {s : Server} {rs} {ways : List Way} {settled tls} (hp : s.phase = .reading)
    (hrs : ∀ r ∈ rs, CompleteRequest r) (hb : s.conn.recvBuf.bytes = rs.flatten) (hways : ways.length = rs.length)
    (hd : settled = true ∨ s.conn.pipelineDepth + rs.length ≤ kMaxPipelineDepth + 1) :
    ∃ s', s.run (ways.flatMap (Way.events settled tls)) = some s' ∧ s'.phase = .reading ∧
      s'.requests = s.requests ++ rs ∧ s'.conn.recvBuf.bytes = [] := by
  induction rs generalizing s ways with
  | nil =>
    obtain rfl := List.length_eq_zero_iff.mp hways
    exact ⟨s, rfl, hp, (List.append_nil _).symm, hb⟩
  | cons r rs ih =>
    obtain ⟨way, ways, rfl⟩ := List.exists_cons_of_length_eq_add_one hways
    have htail := fun x hx => hrs x (List.mem_cons_of_mem _ hx)
    have hone : rs.flatten ≠ [] → settled = true ∨ s.conn.pipelineDepth < kMaxPipelineDepth := by
      intro hne
      have hlen : 0 < rs.length := List.length_pos_of_ne_nil fun hnil => hne (by rw [hnil]; rfl)
      rw [List.length_cons] at hd
      exact hd.imp_right fun h => by omega
    obtain ⟨c, hrun, hcb, hdepth⟩ := serve_one hp (hrs r List.mem_cons_self) hb hone way
    have hd' : settled = true ∨ c.pipelineDepth + rs.length ≤ kMaxPipelineDepth + 1 := by
      refine hd.imp_right fun h => ?_
      rw [List.length_cons] at h
      split_ifs at hdepth <;> omega
    obtain ⟨s', hrun', hp', hreq, hempty⟩ :=
      ih (s := { s with conn := c, requests := s.requests ++ [r] }) hp htail hcb (Nat.succ_inj.mp hways) hd'
    refine ⟨s', ?_, hp', ?_, hempty⟩
    · rw [Server.run] at hrun hrun' ⊢
      rw [List.flatMap_cons, List.foldlM_append, hrun]
      exact hrun'
    · rw [hreq, List.append_assoc]
      rfl

lemma stash_recover {c r s a count} (hr : CompleteRequest r)
    (hb : c.recvBuf.bytes = r ++ s) (hs : s ≠ []) (hsnap : c.sendBuf.len = c.retryReqSendLen)
    (hroom : c.retryReqSendLen + s.length ≤ Pool.kSliceSize) (hfit : s.length + a.length ≤ Pool.kSliceSize)
    (hd : count = true → c.pipelineDepth < kMaxPipelineDepth) :
    ∃ c₁ c₂, pipelineStash (captureRequestMetadata c) = (true, c₁) ∧
      pipelineRecover (c₁.resetRequestReceiveBuffer.receive a) count = some (.advanced, c₂) ∧
      c₂.recvBuf.bytes = s ++ a := by
  obtain ⟨hrecv, hsend, -, hretry, hdepth, -⟩ := capture_frame c
  have hlen := (capture_complete hr hb).1
  obtain ⟨hiff, hok, -, -, hdep⟩ := pipelineStash_spec hr.ne_nil (hrecv.symm ▸ hb) hlen
    (.inr (by rw [hsend, hretry, hsnap]))
  generalize pipelineStash (captureRequestMetadata c) = stash at hiff hok hdep ⊢
  obtain ⟨ok, c₁⟩ := stash
  have htrue : ok = true := hiff.mpr (by rw [hretry]; exact hroom)
  obtain ⟨hst, hstlen⟩ := hok htrue
  have hempty : a.length ≤ c₁.resetRequestReceiveBuffer.recvBuf.writeAvail := by
    change a.length ≤ Pool.kSliceSize - 0
    omega
  have hbytes := Buffer.bytes_write hempty
  have hlimit : count = true → (c₁.resetRequestReceiveBuffer.receive a).pipelineDepth < kMaxPipelineDepth := by
    intro hc
    change c₁.pipelineDepth < kMaxPipelineDepth
    rw [hdep, hdepth]
    exact hd hc
  obtain ⟨c₂, hrec, hbytes₂, -⟩ :=
    @pipelineRecover_spec (c₁.resetRequestReceiveBuffer.receive a) _ _ _ hs hst hstlen hbytes hfit hlimit
  exact ⟨_, c₂, Prod.ext htrue rfl, hrec, hbytes₂⟩

/-- Pipelined requests are cut at their boundaries. A complete request is cut at its end whatever follows; the shift,
and likewise the stash with the recovery, leaves exactly what follows, with late bytes behind it. In every run the
requests served are the first of those sent, and the other received bytes are kept in order until the connection closes;
requests that have arrived are all served, each in any way. -/
theorem requests_cut_exactly :
    (∀ (c : Connection) (r s : Str), CompleteRequest r → c.recvBuf.bytes = r ++ s →
      (captureRequestMetadata c).reqInitialSendLen = r.length ∧
      (s ≠ [] → c.pipelineDepth < kMaxPipelineDepth →
        (∃ c', pipelineShift (captureRequestMetadata c) = some (.advanced, c') ∧ c'.recvBuf.bytes = s) ∧
        ∀ (a : Str) (count : Bool), c.sendBuf.len = c.retryReqSendLen →
          c.retryReqSendLen + s.length ≤ Pool.kSliceSize → s.length + a.length ≤ Pool.kSliceSize →
          ∃ c₁ c₂, pipelineStash (captureRequestMetadata c) = (true, c₁) ∧
            pipelineRecover (c₁.resetRequestReceiveBuffer.receive a) count = some (.advanced, c₂) ∧
            c₂.recvBuf.bytes = s ++ a)) ∧
    (∀ (s₀ s : Server) (es : List Event) (rs : List Str) (later : Str), s₀.Fresh → s₀.run es = some s →
      (∀ r ∈ rs, CompleteRequest r) → s.received ++ later = rs.flatten →
      ∃ rest, rs = s.requests ++ rest ∧ (s.phase ≠ .closed → s.pending ++ later = rest.flatten)) ∧
    (∀ (s : Server) (rs : List Str) (ways : List Way) (settled tls : Bool), s.phase = .reading →
      (∀ r ∈ rs, CompleteRequest r) → s.conn.recvBuf.bytes = rs.flatten → ways.length = rs.length →
      settled = true ∨ s.conn.pipelineDepth + rs.length ≤ kMaxPipelineDepth + 1 →
      ∃ s', s.run (ways.flatMap (Way.events settled tls)) = some s' ∧ s'.phase = .reading ∧
        s'.requests = s.requests ++ rs ∧ s'.conn.recvBuf.bytes = []) := by
  refine ⟨fun c r s hr hb => ?_, fun s₀ s es rs later hfresh hrun hrs heq => ?_,
    fun s rs ways settled tls hp hrs hb hways hd => serve_all hp hrs hb hways hd⟩
  · have hlen := (capture_complete hr hb).1
    obtain ⟨hrecv, -, -, -, hdepth, -⟩ := capture_frame c
    refine ⟨hlen, fun hs hd => ⟨?_, fun a count hsnap hroom hfit => ?_⟩⟩
    · obtain ⟨c', hshift, hbytes, -⟩ :=
        pipelineShift_spec hr.ne_nil hs (hrecv.symm ▸ hb) hlen (hdepth.symm ▸ hd)
      exact ⟨c', hshift, hbytes⟩
    · exact stash_recover hr hb hs hsnap hroom hfit fun _ => hd
  · have hinv := Server.inv_run hfresh.inv hrun
    obtain ⟨tail, htail⟩ := hinv.served
    rw [← htail, List.append_assoc] at heq
    obtain ⟨rest, hrest, hflat⟩ := requests_prefix hinv.complete hrs heq
    refine ⟨rest, hrest, fun hopen => ?_⟩
    have hpending : tail = s.pending := List.append_cancel_left (htail.trans (hinv.received hopen))
    rw [← hpending, hflat]

def pageRequest : Str := lit ['G','E','T',' ','/',' ','H','T','T','P','/','1','.','1','\r','\n','\r','\n']

def formHead : Str :=
  lit ['P','O','S','T',' ','/',' ','H','T','T','P','/','1','.','1','\r','\n'] ++
  (contentLengthName ++ lit [':','2','\r','\n']) ++ lit ['\r','\n']

lemma complete_of_length {head body}
    (h : (match parse head with
      | .complete req n => n == head.length && !req.chunked &&
          body.length == (if req.hasContentLength then req.contentLength else 0)
      | _ => false) = true) : CompleteRequest (head ++ body) := by
  cases hp : parse head with
  | incomplete => rw [hp] at h; cases h
  | error => rw [hp] at h; cases h
  | complete req n =>
    rw [hp] at h
    simp only [Bool.and_eq_true, beq_iff_eq, Bool.not_eq_true'] at h
    obtain ⟨⟨rfl, hc⟩, hl⟩ := h
    refine ⟨req, head, body, rfl, hp, ?_⟩
    rw [BodyOf, hc, if_neg Bool.false_ne_true, hl]

def acceptedConnection : Server where
  conn :=
    { recvBuf := ⟨fun _ => 0, 0, Nat.zero_le _⟩
      sendBuf := ⟨fun _ => 0, 0, Nat.zero_le _⟩
      upstreamRecvBuf := ⟨fun _ => 0, 0, Nat.zero_le _⟩ }

/-- Both requests arrive at once; the first is answered locally, the second goes upstream on a reused socket. -/
theorem twoRequests_served :
    let both := [pageRequest, formHead ++ lit ['h','i']]
    let loaded := { acceptedConnection with conn := acceptedConnection.conn.receive both.flatten, received := both.flatten }
    (captureRequestMetadata loaded.conn).reqInitialSendLen = pageRequest.length ∧ loaded.pending = both.flatten ∧
      ∃ s, loaded.run ([Way.response, .proxied true].flatMap (Way.events true false)) = some s ∧
        s.requests = both ∧ s.conn.recvBuf.bytes = [] := by
  intro both loaded
  have hpage : CompleteRequest pageRequest := by
    have := @complete_of_length pageRequest [] (by decide)
    rwa [List.append_nil] at this
  have hform : CompleteRequest (formHead ++ lit ['h','i']) := complete_of_length (by decide)
  have hall : ∀ r ∈ both, CompleteRequest r := by
    intro r hr
    rcases List.mem_cons.mp hr with rfl | hr
    · exact hpage
    · rw [List.mem_singleton.mp hr]
      exact hform
  have hroom : both.flatten.length ≤ acceptedConnection.conn.recvBuf.writeAvail := by decide
  have hbytes : loaded.conn.recvBuf.bytes = both.flatten := Buffer.bytes_write hroom
  obtain ⟨hcut, hruns, hserve⟩ := requests_cut_exactly
  refine ⟨(hcut loaded.conn pageRequest (formHead ++ lit ['h','i']) hpage (by rw [hbytes]; simp [both])).1, ?_, ?_⟩
  · have hrun : acceptedConnection.run [.recv both.flatten] = some loaded := by
      have hstep : acceptedConnection.step (.recv both.flatten) = some loaded := by
        rfl
      exact Server.run_cons hstep []
    rfl
  · obtain ⟨s, hrun, -, hreq, hempty⟩ :=
      hserve loaded both [.response, .proxied true] true false rfl hall hbytes rfl (.inl rfl)
    exact ⟨s, hrun, hreq, hempty⟩

end Rut.Conn
