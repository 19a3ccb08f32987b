import Rut.Conn.PolicyBody

/-!
# Uploads under a request policy

A request whose body has not arrived is parked until it has: `capture_request_metadata` finds the framing,
`inspect_request_policy_body` says whether to wait, and `on_request_policy_body_recvd` counts the bytes that arrive
(`src/runtime/callbacks.cc`, `include/rut/runtime/callbacks_impl.h`). A request that is parked is not refused later.
-/

namespace Rut.Conn

open Http Http.Chunked Lib

def responseReadDeadlineProfileIsFixedUpload : ResponseReadDeadlineProfile → Bool
  | .fixedContentLengthUploadNonHeadContentLengthZero => true
  | .fixedContentLengthUploadHeaderOnlyHead => true
  | _ => false

structure UploadConn (cap sendCap : Nat) extends PolicyConn cap sendCap where
  reqContentLength : Nat
  downstreamReqSize : Nat
  requestPolicyBodyPending : Bool

namespace UploadConn

variable {cap sendCap : Nat}

def captureChunked (c : UploadConn cap sendCap) (headerEnd : Nat) (body : Str) : UploadConn cap sendCap :=
  let r := captureChunks (body.length + 1) .reset body
  { c with reqBodyMode := .chunked, reqBodyRemaining := 0, reqInitialSendLen := if r.2.2 then 0 else headerEnd + r.2.1 }

def captureContentLength (c : UploadConn cap sendCap) (headerEnd contentLength : Nat) (body : Str) :
    UploadConn cap sendCap :=
  let remaining := if contentLength ≤ body.length then 0 else contentLength - body.length
  { c with
    reqBodyMode := .contentLength
    reqContentLength := contentLength
    reqBodyRemaining := remaining
    reqInitialSendLen := headerEnd + (contentLength - remaining) }

def resetRequest (c : UploadConn cap sendCap) : UploadConn cap sendCap :=
  { c with
    reqMethodGet := false
    downstreamReqSize := c.recvBuf.len
    reqSize := c.recvBuf.len
    reqBodyMode := .none
    reqBodyRemaining := 0
    reqKeepAlive := false
    reqHttp11 := false
    reqWantsUpgrade := false
    reqHeaderEnd := 0
    reqInitialSendLen := 0
    reqContentLength := 0 }

/-- `capture_request_metadata`, of which the witness of the target is left out. -/
def captureRequestMetadata (c : UploadConn cap sendCap) : UploadConn cap sendCap :=
  match parse c.recvBuf.bytes with
  | .complete req headerEnd =>
    let body := c.recvBuf.bytes.drop headerEnd
    let c :=
      { c.resetRequest with
        reqHeaderEnd := headerEnd
        reqHttp11 := req.version == HttpVersion.http11
        reqWantsUpgrade := req.upgrade && req.hasUpgradeHeader
        reqKeepAlive := req.keepAlive && !req.connectionClose
        reqMethodGet := req.method == HttpMethod.get }
    let c :=
      if req.chunked then c.captureChunked headerEnd body
      else if req.hasContentLength ∧ 0 < req.contentLength then c.captureContentLength headerEnd req.contentLength body
      else { c with reqInitialSendLen := headerEnd }
    { c with
      downstreamReqSize := if 0 < c.reqInitialSendLen then c.reqInitialSendLen else c.downstreamReqSize
      reqSize := if 0 < c.reqInitialSendLen then c.reqInitialSendLen else c.reqSize }
  | _ => c.resetRequest

def fixedUpload (c : UploadConn cap sendCap) : Bool :=
  c.responseReadDeadlineState = .validated && responseReadDeadlineProfileIsFixedUpload c.responseReadDeadlineProfile

/-- A segment of the client. `stable` is what the checks of the route of a fixed upload say. -/
structure Segment where
  bytes : Str
  stable : Bool

def receive (c : UploadConn cap sendCap) (a : Str) : UploadConn cap sendCap := { c with recvBuf := c.recvBuf.write a }

/-- How many of the last `n` bytes are counted. No result closes the connection. -/
def consume (c : UploadConn cap sendCap) (n : Nat) (stable : Bool) : Option Nat :=
  if c.fixedUpload then
    if !stable ∨ c.recvBuf.len < c.reqInitialSendLen ∨ c.recvBuf.len > c.uploadRawTotalLength then none
    else if c.recvBuf.len - c.reqInitialSendLen > c.reqBodyRemaining then none
    else some (c.recvBuf.len - c.reqInitialSendLen)
  else some (min n c.reqBodyRemaining)

/-- The counters behind `k` bytes of the body. -/
def countBody (c : UploadConn cap sendCap) (k : Nat) : UploadConn cap sendCap :=
  { c with
    reqBodyRemaining := c.reqBodyRemaining - k
    downstreamReqSize := c.downstreamReqSize + k
    reqSize := c.reqSize + k
    reqInitialSendLen := c.reqHeaderEnd + (c.reqContentLength - (c.reqBodyRemaining - k)) }

def receiveBody (c : UploadConn cap sendCap) (s : Segment) : Option (UploadConn cap sendCap) :=
  let n := min s.bytes.length c.recvBuf.writeAvail
  let c := c.receive s.bytes
  (c.consume n s.stable).map c.countBody

/-- `on_request_policy_body_recvd` behind a segment that was received. A body that is complete is no longer pending. -/
def onRequestPolicyBodyRecvd (c : UploadConn cap sendCap) (s : Segment) : Option (UploadConn cap sendCap) :=
  if s.bytes = [] ∨ c.requestPolicyBodyPending = false ∨ c.reqBodyMode ≠ .contentLength ∨ c.reqBodyRemaining = 0 then none
  else
    (c.receiveBody s).map fun c =>
      if c.reqBodyRemaining > 0 then c else { c with requestPolicyBodyPending := false }

end UploadConn

/-! ## What a wait is for -/

def PolicyConn.bodyWait {cap sendCap : Nat} (c : PolicyConn cap sendCap) (headerEnd contentLength : Nat) :
    RequestPolicyBodyState :=
  if c.recvBuf.len < headerEnd + contentLength then .waiting
  else if c.reqBodyMode = .contentLength ∧ c.reqBodyRemaining ≠ 0 then .waiting
  else if c.reqBodyMode ≠ .contentLength ∧ contentLength ≠ 0 then .invalid
  else .complete

/-- The inspection reads the same of the two but for the bytes and how many are left. -/
structure PolicyConn.Alike {cap sendCap : Nat} (c c' : PolicyConn cap sendCap) : Prop where
  http2 : c'.http2 = c.http2
  reqHttp11 : c'.reqHttp11 = c.reqHttp11
  recvSlice : c'.recvSlice = c.recvSlice
  sendSlice : c'.sendSlice = c.sendSlice
  tlsActive : c'.tlsActive = c.tlsActive
  reqWantsUpgrade : c'.reqWantsUpgrade = c.reqWantsUpgrade

namespace PolicyConn

variable {cap sendCap : Nat} {c c' : PolicyConn cap sendCap} {policyId : UInt16}

lemma Alike.refl (c : PolicyConn cap sendCap) : c.Alike c := ⟨rfl, rfl, rfl, rfl, rfl, rfl⟩

lemma ite_invalid_waiting {p} [Decidable p] {x}
    (h : (if p then RequestPolicyBodyState.invalid else x) = .waiting) : ¬ p ∧ x = .waiting := by
  split at h
  · cases h
  next hp => exact ⟨hp, h⟩

lemma bodyState_waiting {req headerEnd lines s}
    (h : c.bodyState policyId req headerEnd lines s = .waiting) (halike : c.Alike c') :
    req.hasContentLength = true ∧ c.bodyWait headerEnd req.contentLength = .waiting ∧
      c'.bodyState policyId req headerEnd lines s = c'.bodyWait headerEnd req.contentLength := by
  obtain ⟨hhost, h⟩ := ite_invalid_waiting h
  obtain ⟨hxfp, h⟩ := ite_invalid_waiting h
  obtain ⟨hinline, h⟩ := ite_invalid_waiting h
  obtain ⟨hupgrade, h⟩ := ite_invalid_waiting h
  obtain ⟨hcount, h⟩ := ite_invalid_waiting h
  have hsome : ¬ s.clCount = 0 := by
    intro hzero
    rw [if_pos hzero] at h
    obtain ⟨-, h⟩ := ite_invalid_waiting h
    cases h
  rw [if_neg hsome] at h
  obtain ⟨hexpect, h⟩ := ite_invalid_waiting h
  obtain ⟨hbare, h⟩ := ite_invalid_waiting h
  obtain ⟨hte, h⟩ := ite_invalid_waiting h
  obtain ⟨hlength, h⟩ := ite_invalid_waiting h
  obtain ⟨hempty, h⟩ := ite_invalid_waiting h
  obtain ⟨hroom, h⟩ := ite_invalid_waiting h
  have hhas : req.hasContentLength = true := by
    by_contra hno
    exact hlength (by rw [Bool.eq_false_of_not_eq_true hno]; rfl)
  refine ⟨hhas, h, ?_⟩
  rw [← halike.reqWantsUpgrade] at hcount
  rw [bodyState, if_neg hhost, if_neg hxfp, if_neg hinline, if_neg hupgrade, if_neg hcount, if_neg hsome, if_neg hexpect,
    if_neg hbare, if_neg hte, if_neg hlength, if_neg hempty, if_neg hroom]
  rfl

lemma parse_headEnd_le {buf req h} (hp : parse buf = .complete req h) : h ≤ buf.length := by
  obtain ⟨rest, -, -, rfl⟩ := parse_complete_iff.mp hp
  exact Nat.sub_le _ _

lemma inspect_waiting (h : c.inspectRequestPolicyBody policyId = .waiting) :
    ∃ req headerEnd, parse c.recvBuf.bytes = .complete req headerEnd ∧ req.hasContentLength = true ∧
      c.bodyWait headerEnd req.contentLength = .waiting ∧ ∀ c' t, c.Alike c' → c'.recvBuf.bytes = c.recvBuf.bytes ++ t →
        c'.inspectRequestPolicyBody policyId = c'.bodyWait headerEnd req.contentLength := by
  obtain ⟨hadmits, h⟩ := ite_invalid_waiting h
  obtain ⟨htls, h⟩ := ite_invalid_waiting h
  cases hp : parse c.recvBuf.bytes with
  | incomplete =>
    rw [hp] at h
    cases h
  | error =>
    rw [hp] at h
    cases h
  | complete req headerEnd =>
    rw [hp] at h
    obtain ⟨hpath, h⟩ := ite_invalid_waiting h
    obtain ⟨hfragment, h⟩ := ite_invalid_waiting h
    obtain ⟨hget, h⟩ := ite_invalid_waiting h
    cases hlines : headLines (c.recvBuf.bytes.take headerEnd) with
    | none =>
      rw [hlines] at h
      cases h
    | some lines =>
      rw [hlines] at h
      cases hscan : lines.foldlM (BodyScan.field policyId) {} with
      | none =>
        simp only [hscan] at h
        cases h
      | some s =>
        simp only [hscan] at h
        obtain ⟨hhas, hwait, -⟩ := bodyState_waiting h (Alike.refl c)
        have htrims : requestPolicyTrimsSpPreservesHtab policyId = false := by
          by_contra htrim
          rw [Bool.eq_true_of_not_eq_false htrim] at hget
          exact hget (by simp [hhas])
        refine ⟨req, headerEnd, rfl, hhas, hwait, ?_⟩
        intro c' t halike hbytes
        have hparse' : parse c'.recvBuf.bytes = .complete req headerEnd := by
          rw [hbytes]
          exact parse_complete_append hp t
        have htake : c'.recvBuf.bytes.take headerEnd = c.recvBuf.bytes.take headerEnd := by
          rw [hbytes, List.take_append_of_le_length (parse_headEnd_le hp)]
        rw [inspectRequestPolicyBody, halike.http2, halike.reqHttp11, halike.recvSlice, halike.sendSlice, halike.tlsActive,
          if_neg hadmits, if_neg htls, hparse']
        simp only [if_neg hpath, if_neg hfragment, htrims, Bool.false_and, Bool.false_eq_true, if_false, htake, hlines,
          hscan]
        exact (bodyState_waiting h halike).2.2

end PolicyConn

/-! ## Uploads -/

namespace UploadConn

variable {cap sendCap : Nat} {c₀ c c' : UploadConn cap sendCap} {headerEnd contentLength : Nat}

/-- What holds of an upload that was parked as `c₀`: the counters say what is left of the body. -/
structure Parked (c₀ : UploadConn cap sendCap) (headerEnd contentLength : Nat) (c : UploadConn cap sendCap) : Prop where
  bytes : ∃ t, c.recvBuf.bytes = c₀.recvBuf.bytes ++ t
  alike : c₀.toPolicyConn.Alike c.toPolicyConn
  mode : c.reqBodyMode = .contentLength
  headerEnd_eq : c.reqHeaderEnd = headerEnd
  contentLength_eq : c.reqContentLength = contentLength
  headerEnd_le : headerEnd ≤ c.recvBuf.len
  remaining : c.reqBodyRemaining = headerEnd + contentLength - c.recvBuf.len
  sendLen : c.reqInitialSendLen = headerEnd + (contentLength - c.reqBodyRemaining)

lemma Parked.bodyWait (h : Parked c₀ headerEnd contentLength c) : c.toPolicyConn.bodyWait headerEnd contentLength =
    if c.recvBuf.len < headerEnd + contentLength then .waiting else .complete := by
  have hremaining := h.remaining
  rw [PolicyConn.bodyWait]
  split
  · rfl
  · rw [if_neg (by omega), if_neg fun hmode => hmode.1 h.mode]

lemma bytes_write_take (b : Buffer cap) (xs : Str) :
    (b.write xs).bytes = b.bytes ++ xs.take (min xs.length b.writeAvail) := by
  have htake : b.write xs = b.write (xs.take (min xs.length b.writeAvail)) := by
    simp [Buffer.write, List.take_take]
  rw [htake, Buffer.bytes_write]
  rw [List.length_take]
  omega

lemma Parked.receiveBody {s} (h : Parked c₀ headerEnd contentLength c) (hs : c.receiveBody s = some c') :
    Parked c₀ headerEnd contentLength c' := by
  obtain ⟨k, hk, rfl⟩ := Option.map_eq_some_iff.mp hs
  obtain ⟨t, ht⟩ := h.bytes
  have hle := h.headerEnd_le
  have hremaining := h.remaining
  have hsend := h.sendLen
  have hlen : (c.receive s.bytes).recvBuf.len = c.recvBuf.len + min s.bytes.length c.recvBuf.writeAvail := rfl
  have hcount : c.reqBodyRemaining - k = headerEnd + contentLength - (c.receive s.bytes).recvBuf.len := by
    unfold consume at hk
    split at hk
    · -- The bytes of a fixed upload are counted by the length of the buffer.
      obtain ⟨hchecks, hk⟩ := Option.ite_none_left_eq_some.mp hk
      obtain ⟨hfits, hk⟩ := Option.ite_none_left_eq_some.mp hk
      cases hk
      have hsend' : (c.receive s.bytes).reqInitialSendLen = c.reqInitialSendLen := rfl
      omega
    · cases hk
      have hremaining' : (c.receive s.bytes).reqBodyRemaining = c.reqBodyRemaining := rfl
      omega
  refine ⟨?_, ?_, h.mode, h.headerEnd_eq, h.contentLength_eq, ?_, hcount, ?_⟩
  · refine ⟨t ++ s.bytes.take (min s.bytes.length c.recvBuf.writeAvail), ?_⟩
    rw [← List.append_assoc, ← ht]
    exact bytes_write_take _ _
  · exact ⟨h.alike.http2, h.alike.reqHttp11, h.alike.recvSlice, h.alike.sendSlice, h.alike.tlsActive,
      h.alike.reqWantsUpgrade⟩
  · change headerEnd ≤ (c.receive s.bytes).recvBuf.len
    omega
  · change c.reqHeaderEnd + (c.reqContentLength - _) = _
    rw [h.headerEnd_eq, h.contentLength_eq]
    rfl

/-- A segment arrives: it is counted, by the handler as long as the body is pending. -/
def Arrives (c c' : UploadConn cap sendCap) : Prop :=
  ∃ s, c.receiveBody s = some c' ∨ c.onRequestPolicyBodyRecvd s = some c'

lemma Parked.arrives (h : Parked c₀ headerEnd contentLength c) (hs : c.Arrives c') :
    Parked c₀ headerEnd contentLength c' := by
  obtain ⟨s, hs | hs⟩ := hs
  · exact h.receiveBody hs
  · obtain ⟨-, hs⟩ := Option.ite_none_left_eq_some.mp hs
    obtain ⟨c₁, hc₁, rfl⟩ := Option.map_eq_some_iff.mp hs
    have h₁ := h.receiveBody hc₁
    split
    · exact h₁
    · exact ⟨h₁.bytes, ⟨h₁.alike.http2, h₁.alike.reqHttp11, h₁.alike.recvSlice, h₁.alike.sendSlice, h₁.alike.tlsActive,
        h₁.alike.reqWantsUpgrade⟩, h₁.mode, h₁.headerEnd_eq, h₁.contentLength_eq, h₁.headerEnd_le, h₁.remaining, h₁.sendLen⟩

lemma Parked.run (h : Parked c₀ headerEnd contentLength c) (hs : Relation.ReflTransGen Arrives c c') :
    Parked c₀ headerEnd contentLength c' := by
  induction hs with
  | refl => exact h
  | tail _ hs ih => exact ih.arrives hs

lemma parse_not_chunked {buf req} (hp : parse buf = .complete req headerEnd)
    (hhas : req.hasContentLength = true) : req.chunked = false := by
  obtain ⟨rest, -, hhead, -⟩ := parse_complete_iff.mp hp
  obtain ⟨l, ps, req₀, -, -, -, hfin⟩ := parseHead_done hhead
  apply Bool.eq_false_of_not_eq_true
  intro hchunked
  exact (finishRequest_done hfin).1 ⟨hchunked, hhas⟩

lemma capture_recvBuf (c : UploadConn cap sendCap) : c.captureRequestMetadata.recvBuf = c.recvBuf := by
  unfold captureRequestMetadata
  split
  · simp only
    split
    · rfl
    · split <;> rfl
  · rfl

lemma capture_length {req} (hp : parse c.recvBuf.bytes = .complete req headerEnd) (hhas : req.hasContentLength = true) :
    (req.contentLength = 0 → c.captureRequestMetadata.reqBodyMode = .none) ∧
    (0 < req.contentLength → Parked c.captureRequestMetadata headerEnd req.contentLength c.captureRequestMetadata) := by
  have hchunked : req.chunked = false := parse_not_chunked hp hhas
  have hle : headerEnd ≤ c.recvBuf.len := by
    rw [← Buffer.length_bytes]
    exact PolicyConn.parse_headEnd_le hp
  have hbody : (c.recvBuf.bytes.drop headerEnd).length = c.recvBuf.len - headerEnd := by
    rw [List.length_drop, Buffer.length_bytes]
  rw [captureRequestMetadata, hp]
  simp only [hchunked, hhas, Bool.false_eq_true, if_false, true_and]
  constructor
  · intro hzero
    rw [if_neg (by omega)]
    rfl
  · intro hpos
    rw [if_pos hpos]
    refine ⟨⟨[], (List.append_nil _).symm⟩, PolicyConn.Alike.refl _, rfl, rfl, rfl, hle, ?_, rfl⟩
    simp only [captureContentLength, hbody]
    change _ = headerEnd + req.contentLength - c.recvBuf.len
    split <;> omega

end UploadConn

/-- An upload that is parked is never refused, and it is complete as soon as its bytes are there. -/
theorem parked_upload {cap sendCap : Nat} (c : UploadConn cap sendCap) (policyId : UInt16)
    (h : c.captureRequestMetadata.inspectRequestPolicyBody policyId = .waiting) :
    ∃ req headerEnd, parse c.recvBuf.bytes = .complete req headerEnd ∧
      ∀ c' : UploadConn cap sendCap, Relation.ReflTransGen UploadConn.Arrives c.captureRequestMetadata c' →
        c'.inspectRequestPolicyBody policyId ≠ .invalid ∧
        (c'.inspectRequestPolicyBody policyId = .complete ↔ headerEnd + req.contentLength ≤ c'.recvBuf.len) := by
  obtain ⟨req, headerEnd, hp, hhas, hwait, hnext⟩ := PolicyConn.inspect_waiting h
  have hbuf : c.captureRequestMetadata.recvBuf = c.recvBuf := c.capture_recvBuf
  rw [hbuf] at hp
  obtain ⟨hnone, hparked⟩ := UploadConn.capture_length hp hhas
  have hpos : 0 < req.contentLength := by
    by_contra hzero
    have hempty : req.contentLength = 0 := by omega
    have hle : headerEnd ≤ c.recvBuf.len := by
      rw [← Buffer.length_bytes]
      exact PolicyConn.parse_headEnd_le hp
    have hmode := hnone hempty
    rw [PolicyConn.bodyWait, hbuf, hmode, hempty, if_neg (by omega)] at hwait
    cases hwait
  refine ⟨req, headerEnd, hp, ?_⟩
  intro c' hrun
  have hparked' := (hparked hpos).run hrun
  obtain ⟨t, ht⟩ := hparked'.bytes
  have hstate := (hnext c'.toPolicyConn t hparked'.alike ht).trans hparked'.bodyWait
  rw [hstate]
  split
  next hlt => exact ⟨nofun, nofun, fun hge => absurd hlt (Nat.not_lt.mpr hge)⟩
  next hge => exact ⟨nofun, fun _ => Nat.not_lt.mp hge, fun _ => rfl⟩

def uploadHead : Str :=
  lit ['P','O','S','T',' ','/',' ','H','T','T','P','/','1','.','1','\r','\n','C','o','n','t','e','n',
    't','-','L','e','n','g','t','h',':','2','\r','\n','\r','\n']

def uploadConn : UploadConn Pool.kSliceSize Pool.kSliceSize where
  recvBuf := Buffer.write ⟨fun _ => 0, 0, Nat.zero_le _⟩ uploadHead
  sendBuf := Output.empty _
  recvSlice := true
  sendSlice := true
  http2 := false
  reqHttp11 := false
  tlsActive := false
  reqMethodGet := false
  reqWantsUpgrade := false
  reqBodyMode := .none
  reqBodyRemaining := 0
  reqHeaderEnd := 0
  reqInitialSendLen := 0
  reqSize := 0
  reqKeepAlive := false
  requestPolicyId := 0
  requestBodyFullyBuffered := false
  requestUploadComplete := false
  rawTargetWitness := (0, 0, 0)
  pipelineDepth := 0
  pipelineStashLen := 0
  http1PipelineRequestGeneration := 0
  successorStable := false
  responseReadDeadlineState := .none
  responseReadDeadlineProfile := .none
  responseReadDeadlineBuffering := .none
  responseReadDeadlineSeconds := 0
  responseReadDeadlineRouteMethodGet := false
  uploadRawTotalLength := 0
  reqContentLength := 0
  downstreamReqSize := 0
  requestPolicyBodyPending := true

theorem uploadConn_parked :
    uploadConn.captureRequestMetadata.inspectRequestPolicyBody 1 = .waiting ∧
    ∃ req headerEnd, parse uploadConn.recvBuf.bytes = .complete req headerEnd ∧
      ∀ c', Relation.ReflTransGen UploadConn.Arrives uploadConn.captureRequestMetadata c' →
        c'.inspectRequestPolicyBody 1 ≠ .invalid ∧
        (c'.inspectRequestPolicyBody 1 = .complete ↔ headerEnd + req.contentLength ≤ c'.recvBuf.len) := by
  have hwait : uploadConn.captureRequestMetadata.inspectRequestPolicyBody 1 = .waiting := by decide +kernel
  exact ⟨hwait, parked_upload uploadConn 1 hwait⟩

end Rut.Conn
