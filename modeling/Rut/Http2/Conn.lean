import Rut.Hpack.Block
import Rut.Http2.Bridge
import Rut.Http2.Frame

/-!
# The HTTP/2 connection engine

Port of `Http2Conn` of `include/rut/runtime/http2_conn.h` and `src/runtime/http2_conn.cc`: the frame handlers and the
frame loop. A pointer to a stream is the index of its slot; the list of streams ends at `nstreams`. The fields the
engine does not use are in `app`, for the callbacks of the serving layer. A handler gets a test for room in the output
buffer and returns the frames it has written and the callbacks it has made. A read outside the header block is a fault
(see `Rut.Hpack.Bounds`). Windows are integers; the counters of octets are `u32`.
-/

set_option linter.all false
namespace Rut.Http2

open Hpack (DynamicTable Encoder BlockCaps decodeHeaderBlock)

/-- `Http2StreamState`. -/
inductive StreamState where
  | idle
  | «open»
  | halfClosedLocal
  | halfClosedRemote
  | closed
deriving DecidableEq

/-- A slot of the table of streams (`Http2Stream`). -/
structure Stream where
  id : Nat := 0
  state : StreamState := .idle
  sendWindow : Int := 0
  recvWindow : Int := 0
  gotHeaders : Bool := false
  websocket : Bool := false
  websocketRoute : Option Nat := none
  websocketOpenError : Nat := 0
  manualWindow : Bool := false
  recvCredit : Nat := 0
  recvUnconsumed : Nat := 0
  headersReceivedUs : Nat := 0
deriving DecidableEq

inductive RouteAction where
  | static
  | proxy
  | jitHandler
deriving DecidableEq

/-- The request that awaits DATA (the `pending_` fields), its defaults being what `clear_pending_upload` restores. -/
structure PendingUpload where
  stream : Nat := 0
  isHead : Bool := false
  bodyStart : Nat := 0
  synthLen : Nat := 0
  bodyLen : Nat := 0
  contentLength : Nat := 0
  hasContentLength : Bool := false
  bufferBody : Bool := false
  requestForwardable : Bool := false
  preparedForward : Bool := false
  overflow : Bool := false
  routeConfig : Option Nat := none
  route : Option Nat := none
  routeAction : RouteAction := .static
  staticStatus : Nat := 200
  loadBalance : Option Nat := none
  forwardUpstreamId : Nat := 0
  jitFn : Option Nat := none
  routeParams : List (Str × Str) := []
  localOutcome : Bool := false
  localStatus : Nat := 0
  localBodyIdx : Nat := 0
  localHeadersIdx : Nat := 0
  localIsHead : Bool := false
  localCfg : Option Nat := none
  localMutationCount : Nat := 0
  localMutationOverflow : Bool := false
  localMutationBytes : Nat := 0
deriving DecidableEq

/-- A connection (`Http2Conn`). -/
structure Conn (σ : Type) where
  grpcActive : Bool := false
  client : Bool := false
  peerSettingsSeen : Bool := false
  peerGoaway : Bool := false
  peerLastStream : Nat := 0x7fffffff
  connRecvCredit : Nat := 0
  hpackDec : DynamicTable
  hpackEnc : Encoder
  ourSettings : Settings
  peerSettings : Settings := {}
  connSendWindow : Int := kDefaultInitialWindowSize
  connRecvWindow : Int := kDefaultInitialWindowSize
  prefaceSeen : Bool := false
  ourSettingsSent : Bool := false
  goawaySent : Bool := false
  lastStreamId : Nat := 0
  contStream : Nat := 0
  contEndStream : Bool := false
  contDiscard : Bool := false
  contRefuse : Bool := false
  hdrBlock : Str := []
  streams : List Stream := []
  pending : PendingUpload := {}
  asyncStream : Nat := 0
  outboundStream : Nat := 0
  outboundBody : Option Str := none
  outboundBodyOffset : Nat := 0
  outboundFinalStaged : Bool := false
  responseFlushPending : Bool := false
  app : σ

def kMaxStreams : Nat := 64
def kHeaderBlockCap : Nat := 16384
def kHeaderScratchCap : Nat := 16384
def kMaxHeadersPerReq : Nat := 64
def kMaxWindow : Int := 2147483647

/-- A callback with its arguments (`OnHeaders`, `OnData`, `OnReset`, `on_trailers`). -/
inductive Call where
  | headers (streamId : Nat) (fields : List (Str × Str)) (endStream : Bool)
  | data (streamId : Nat) (data : Str) (endStream : Bool)
  | reset (streamId code : Nat)
  | trailers (streamId : Nat) (fields : List (Str × Str))
deriving DecidableEq

abbrev Callbacks (σ : Type) := Call → Option (Conn σ → Conn σ)

/-- What happens during a call of `process`: a frame is consumed, a callback is made. -/
inductive Event where
  | frame (header : FrameHeader) (payload : Str)
  | call (call : Call)
deriving DecidableEq

/-- The error a handler returns, `ok` for `NoError`. -/
inductive Verdict where
  | ok
  | error (error : Http2Error)
  | fault
deriving DecidableEq

variable {σ : Type}

structure Reply (σ : Type) where
  conn : Conn σ
  out : List OutFrame := []
  events : List Event := []
  verdict : Verdict := .ok

/-- Test for room: `fits w n` says that `n` octets fit behind the `w` the handler has written (`OutWriter::room`). -/
abbrev Room := Nat → Nat → Bool

/-- Addition of `u32`. -/
def add32 (a b : Nat) : Nat := (a + b) % 2 ^ 32

/-- The connection `d` with the fields of `c` that no file but the engine's writes. -/
def Conn.keepEngine (c d : Conn σ) : Conn σ :=
  { d with
    hpackDec := c.hpackDec
    prefaceSeen := c.prefaceSeen
    contStream := c.contStream
    contEndStream := c.contEndStream
    contDiscard := c.contDiscard
    contRefuse := c.contRefuse
    hdrBlock := c.hdrBlock }

def Callbacks.invoke (cb : Callbacks σ) (call : Call) (c : Conn σ) : Reply σ :=
  match cb call with
  | some f => { conn := c.keepEngine (f c), events := [.call call] }
  | none => { conn := c }

namespace Conn

/-- `Http2Conn::init`, the buffers of the tables being what they are. -/
def init (decBuf encBuf : Str) (app : σ) : Conn σ where
  hpackDec := DynamicTable.init decBuf kDefaultHeaderTableSize
  hpackEnc := Encoder.init encBuf kDefaultHeaderTableSize
  ourSettings := { maxConcurrentStreams := kMaxStreams, hasMaxConcurrentStreams := true }
  app := app

def initClient (decBuf encBuf : Str) (app : σ) : Conn σ :=
  let c := init decBuf encBuf app
  { c with
    client := true
    prefaceSeen := true
    ourSettingsSent := true
    ourSettings := { c.ourSettings with enablePush := 0 } }

/-- The slot of a live stream (`find_stream`). -/
def findStream (c : Conn σ) (id : Nat) : Option Nat := c.streams.findIdx? fun s => s.id == id && s.state != .closed

def stream (c : Conn σ) (i : Nat) : Stream := c.streams.getD i {}

def modifyStream (c : Conn σ) (i : Nat) (f : Stream → Stream) : Conn σ := { c with streams := c.streams.modify i f }

def setState (c : Conn σ) (i : Nat) (state : StreamState) : Conn σ := c.modifyStream i fun s => { s with state }

def endRemote (c : Conn σ) (i : Nat) : Conn σ :=
  c.setState i (if (c.stream i).state = .open then .halfClosedRemote else .closed)

def freshStream (c : Conn σ) (id : Nat) : Stream :=
  { id, state := .open, sendWindow := c.peerSettings.initialWindowSize, recvWindow := c.ourSettings.initialWindowSize }

def reusable (s : Stream) : Bool := s.state == .closed && s.recvUnconsumed == 0

/-- Slot of a fresh stream: a closed one is reused, else the table grows (`alloc_stream`). -/
def allocStream (c : Conn σ) (id : Nat) : Option (Nat × Conn σ) :=
  match c.streams.findIdx? reusable with
  | some i => some (i, { c with streams := c.streams.set i (c.freshStream id) })
  | none =>
    if kMaxStreams ≤ c.streams.length then none
    else some (c.streams.length, { c with streams := c.streams ++ [c.freshStream id] })

def openStream (c : Conn σ) (id : Nat) : Option (Nat × Conn σ) :=
  if !c.client || c.peerGoaway || id = 0 || id % 2 = 0 || id ≤ c.lastStreamId then none
  else (c.allocStream id).map fun (i, c) => (i, { c with lastStreamId := id })

def lastSlot (c : Conn σ) (id : Nat) : Option Nat :=
  (c.streams.reverse.findIdx? fun s => s.id == id).map fun j => c.streams.length - 1 - j

def consumeData (c : Conn σ) (id len : Nat) : Bool × Conn σ :=
  match c.lastSlot id with
  | none => (false, c)
  | some i =>
    let s := c.stream i
    if !s.manualWindow || s.recvUnconsumed < len then (false, c)
    else
      (true,
        { c.modifyStream i fun s =>
            { s with recvUnconsumed := s.recvUnconsumed - len, recvCredit := add32 s.recvCredit len } with
          connRecvCredit := add32 c.connRecvCredit len })

def clearPendingUpload (c : Conn σ) (id : Nat) : Conn σ := if c.pending.stream = id then { c with pending := {} } else c

def endBlock (c : Conn σ) : Conn σ := { c with hdrBlock := [], contStream := 0, contDiscard := false }

def awaitBlock (c : Conn σ) (id : Nat) (endStream : Bool) : Conn σ :=
  { c with contStream := id, contEndStream := endStream }

/-- Set `got_headers` of a slot. -/
def setGotHeaders (c : Conn σ) (i : Nat) (b : Bool) : Conn σ := c.modifyStream i fun s => { s with gotHeaders := b }

def appendFragment (c : Conn σ) (p : Str) : Option (Conn σ) :=
  if kHeaderBlockCap < c.hdrBlock.length + p.length then none else some { c with hdrBlock := c.hdrBlock ++ p }

end Conn

/-! ## Header blocks -/

def headerCaps : BlockCaps := ⟨kHeaderScratchCap, kMaxHeadersPerReq⟩

def blockFields (st : Hpack.BlockState) : List (Str × Str) :=
  st.headers.map fun h => (h.name.read st.out st.dyn, h.value.read st.out st.dyn)

def decodeBlock (c : Conn σ) (k : Conn σ → List (Str × Str) → Reply σ) : Reply σ :=
  match decodeHeaderBlock headerCaps c.hpackDec c.hdrBlock with
  | .error => { conn := c, verdict := .error .compressionError }
  | .fault => { conn := c, verdict := .fault }
  | .ok st => k { c with hpackDec := st.dyn } (blockFields st)

def statusName : Str := lit [':','s','t','a','t','u','s']

structure ResponseCheck where
  statuses : Nat := 0
  informational : Bool := false
  regular : Bool := false
deriving DecidableEq

/-- One field of a response, `none` for a protocol error. -/
def checkResponseField (st : ResponseCheck) (f : Str × Str) : Option ResponseCheck :=
  if f.1 = statusName then
    if st.regular then none
    else if f.2.length ≠ 3 ∨ f.2.head?.any (· < ch '1') then none
    else if f.2.any fun c => c < ch '0' || ch '9' < c then none
    else if f.2 = lit ['1','0','1'] then none
    else some { st with statuses := st.statuses + 1, informational := f.2.head? == some (ch '1') }
  else if !h2NameOk f.1 || !h2ValueOk f.2 || h2IsConnectionHeader f.1 || f.1 == teName then none
  else some { st with regular := true }

/-- Whether a response is informational, `none` if it is malformed. -/
def checkResponse (fields : List (Str × Str)) (endStream : Bool) : Option Bool :=
  (fields.foldlM checkResponseField {}).bind fun st =>
    if st.statuses ≠ 1 ∨ st.informational ∧ endStream then none else some st.informational

/-- The decoded fields of a block refuse the stream or go to the serving layer. -/
def deliverHeaders (cb : Callbacks σ) (fits : Room) (c : Conn σ) (id : Nat) (endStream refuse : Bool)
    (fields : List (Str × Str)) : Reply σ :=
  if refuse then
    let c := (c.findStream id).elim c (c.setState · .closed)
    if fits 0 (kFrameHeaderSize + 4) then { conn := c, out := [writeRstStream id .refusedStream] }
    else { conn := c, verdict := .error .internalError }
  else if c.client then
    match checkResponse fields endStream with
    | none => { conn := c, verdict := .error .protocolError }
    | some informational =>
      let c := if informational then (c.findStream id).elim c (c.setGotHeaders · false) else c
      cb.invoke (.headers id fields endStream) c
  else cb.invoke (.headers id fields endStream) c

def finishHeaders (cb : Callbacks σ) (fits : Room) (c : Conn σ) (id : Nat) (endStream refuse : Bool) : Reply σ :=
  decodeBlock c fun c fields =>
    deliverHeaders cb fits { c.endBlock with contRefuse := false } id endStream refuse fields

def badTrailer (f : Str × Str) : Bool :=
  !h2NameOk f.1 || !h2ValueOk f.2 || h2IsConnectionHeader f.1 || f.1 == contentLengthField || f.1 == teName

def StreamState.receives (s : StreamState) : Bool := s == .open || s == .halfClosedLocal

/-- The decoded fields of a second block go to the serving layer if they are trailers. -/
def deliverTrailers (cb : Callbacks σ) (c : Conn σ) (fields : List (Str × Str)) : Reply σ :=
  if !fields.any badTrailer && c.contEndStream &&
      (c.findStream c.contStream).any fun i => (c.stream i).state.receives then
    cb.invoke (.trailers c.contStream fields) c
  else { conn := c }

/-- `discard_headers` with `has_pseudo`: continue with the reply and whether a field is bad. -/
def discardHeaders (cb : Callbacks σ) (c : Conn σ) (k : Reply σ → Bool → Reply σ) : Reply σ :=
  decodeBlock c fun c fields =>
    let r := deliverTrailers cb c fields
    k { r with conn := r.conn.endBlock } (fields.any badTrailer)

/-- `discard_headers` without `has_pseudo`. -/
def dropHeaders (c : Conn σ) (k : Conn σ → Reply σ) : Reply σ :=
  decodeBlock c fun c _ => k c.endBlock

/-- Continue after `r`. -/
def Reply.andThen (r : Reply σ) (k : Conn σ → Reply σ) : Reply σ :=
  let r' := k r.conn
  { r' with out := r.out ++ r'.out, events := r.events ++ r'.events }

def resetKnownStream (cb : Callbacks σ) (fits : Room) (c : Conn σ) (id : Nat) (error : Http2Error) : Reply σ :=
  let s := c.findStream id
  if fits 0 (kFrameHeaderSize + 4) then
    let out := [writeRstStream id error]
    let c := c.clearPendingUpload id
    match s with
    | none => { conn := c, out }
    | some i =>
      let r := cb.invoke (.reset id error.code) (c.setState i .closed)
      { r with out }
  else { conn := c, verdict := .error .internalError }

/-! ## Frame handlers -/

/-- The SETTINGS case of `handle_frame`. -/
def handleSettings (fits : Room) (c : Conn σ) (h : FrameHeader) (payload : Str) : Reply σ :=
  if h.streamId ≠ 0 then { conn := c, verdict := .error .protocolError }
  else if h.has kAck then { conn := c, verdict := if h.length ≠ 0 then .error .frameSizeError else .ok }
  else
    match parseSettings payload c.peerSettings with
    | .error e => { conn := c, verdict := .error e }
    | .ok settings =>
      let delta : Int := settings.initialWindowSize - c.peerSettings.initialWindowSize
      if delta ≠ 0 ∧ c.streams.any fun s => s.state != .closed && decide (kMaxWindow < s.sendWindow + delta) then
        { conn := c, verdict := .error .flowControlError }
      else
        { conn :=
            { c with
              peerSettings := settings
              hpackEnc := c.hpackEnc.setTableSize settings.headerTableSize
              streams := c.streams.map fun s =>
                if s.state = .closed then s else { s with sendWindow := s.sendWindow + delta }
              peerSettingsSeen := true }
          out := if fits 0 kFrameHeaderSize then [.settingsAck] else [] }

/-- The payload of a HEADERS or DATA frame without its padding; the flag says that HEADERS may have a priority. -/
def stripPadding (h : FrameHeader) (payload : Str) (priority : Bool) : Option Str :=
  let pad := if h.has kPadded then (payload.head?.map UInt8.toNat) else some 0
  let p := if h.has kPadded then payload.drop 1 else payload
  pad.bind fun pad =>
    if priority && h.has kPriority && decide (p.length < 5) then none
    else
      let p := if priority && h.has kPriority then p.drop 5 else p
      if p.length < pad then none else some (p.take (p.length - pad))

def refuses (c : Conn σ) (id : Nat) (newStream : Bool) : Bool :=
  newStream && (c.goawaySent || (c.outboundStream != 0 && id != c.outboundStream))

/-- What becomes of a stream whose second block has been decoded: trailers end it, another block resets it. -/
def endTrailers (cb : Callbacks σ) (fits : Room) (c : Conn σ) (id : Nat) (slot : Option Nat) (endStream bad : Bool) :
    Reply σ :=
  match slot with
  | none => resetKnownStream cb fits c id .protocolError
  | some i =>
    if endStream && !bad && (c.stream i).state.receives then
      let c := c.endRemote i
      if c.pending.stream = id then cb.invoke (.data id [] true) c else { conn := c }
    else resetKnownStream cb fits c id .protocolError

/-- HEADERS of a known stream, in slot `i`. -/
def handleKnownHeaders (cb : Callbacks σ) (fits : Room) (c : Conn σ) (h : FrameHeader) (p : Str) (i : Nat)
    (newStream : Bool) : Reply σ :=
  let endStream := h.has kEndStream
  if (c.stream i).gotHeaders then
    match c.appendFragment p with
    | none => { conn := c, verdict := .error .compressionError }
    | some c =>
      if h.has kEndHeaders then
        discardHeaders cb (c.awaitBlock h.streamId endStream) fun r bad =>
          r.andThen fun c => endTrailers cb fits c h.streamId (some i) endStream bad
      else { conn := { c.awaitBlock h.streamId endStream with contDiscard := true } }
  else
    let c := c.setGotHeaders i true
    match c.appendFragment p with
    | none => { conn := c, verdict := .error .compressionError }
    | some c =>
      if h.has kEndHeaders then
        let c := if endStream then c.endRemote i else c
        finishHeaders cb fits c h.streamId endStream (refuses c h.streamId newStream)
      else
        { conn := { c.awaitBlock h.streamId endStream with contRefuse := refuses c h.streamId newStream } }

def handleStaleHeaders (cb : Callbacks σ) (fits : Room) (c : Conn σ) (h : FrameHeader) (p : Str) : Reply σ :=
  if c.lastStreamId < h.streamId then { conn := c, verdict := .error .protocolError }
  else
    match c.appendFragment p with
    | none => { conn := c, verdict := .error .compressionError }
    | some c =>
      let c := { c.awaitBlock h.streamId false with contDiscard := true }
      if h.has kEndHeaders then
        dropHeaders c fun c => resetKnownStream cb fits c h.streamId .streamClosed
      else { conn := c }

/-- The HEADERS case of `handle_frame`. -/
def handleHeaders (cb : Callbacks σ) (fits : Room) (c : Conn σ) (h : FrameHeader) (payload : Str) : Reply σ :=
  if h.streamId = 0 ∨ h.streamId % 2 = 0 then { conn := c, verdict := .error .protocolError }
  else
    match stripPadding h payload true with
    | none => { conn := c, verdict := .error .protocolError }
    | some p =>
      match c.findStream h.streamId with
      | some i => handleKnownHeaders cb fits c h p i false
      | none =>
        if c.client then handleStaleHeaders cb fits c h p
        else if h.streamId ≤ c.lastStreamId then { conn := c, verdict := .error .protocolError }
        else
          match c.allocStream h.streamId with
          | some (i, c) => handleKnownHeaders cb fits { c with lastStreamId := h.streamId } h p i true
          | none =>
            -- The table is full: the block is not decoded.
            { conn := { c with lastStreamId := h.streamId }
              out := if fits 0 (kFrameHeaderSize + 4) then [writeRstStream h.streamId .refusedStream] else [] }

/-- The CONTINUATION case of `handle_frame`. -/
def handleContinuation (cb : Callbacks σ) (fits : Room) (c : Conn σ) (h : FrameHeader) (payload : Str) : Reply σ :=
  if c.contStream = 0 then { conn := c, verdict := .error .protocolError }
  else
    match c.appendFragment payload with
    | none => { conn := c, verdict := .error .compressionError }
    | some c =>
      if h.has kEndHeaders then
        let slot := c.findStream h.streamId
        if c.contDiscard then
          discardHeaders cb c fun r bad =>
            r.andThen fun c' => endTrailers cb fits c' h.streamId slot c.contEndStream bad
        else
          let c := if c.contEndStream then slot.elim c c.endRemote else c
          finishHeaders cb fits c h.streamId c.contEndStream c.contRefuse
      else { conn := c }

def Conn.holdData (c : Conn σ) (i n : Nat) : Conn σ :=
  if (c.stream i).manualWindow then
    c.modifyStream i fun s => { s with recvUnconsumed := add32 s.recvUnconsumed n }
  else c

def Conn.endData (c : Conn σ) (i : Nat) (endStream : Bool) : Conn σ :=
  if endStream && (c.stream i).state != .closed then
    c.setState i (if (c.stream i).state = .halfClosedLocal then .closed else .halfClosedRemote)
  else c

def Conn.creditPadding (c : Conn σ) (i padding : Nat) : Conn σ :=
  { c.modifyStream i fun s => { s with recvCredit := add32 s.recvCredit padding } with
    connRecvCredit := add32 c.connRecvCredit padding }

def Conn.replenish (c : Conn σ) (i n : Nat) : Conn σ :=
  { c.modifyStream i fun s => { s with recvWindow := s.recvWindow + n } with connRecvWindow := c.connRecvWindow + n }

def replenishOut (fits : Room) (h : FrameHeader) (endStream : Bool) : List OutFrame :=
  if h.length = 0 then []
  else
    let o₁ := if fits 0 (kFrameHeaderSize + 4) then [writeWindowUpdate 0 h.length] else []
    let o₂ :=
      if !endStream && fits (outLen o₁) (kFrameHeaderSize + 4) then [writeWindowUpdate h.streamId h.length] else []
    o₁ ++ o₂

def settleData (fits : Room) (c : Conn σ) (h : FrameHeader) (p : Str) (i : Nat) : Reply σ :=
  let endStream := h.has kEndStream
  let c := c.endData i endStream
  if (c.stream i).manualWindow then { conn := c.creditPadding i (h.length - p.length) }
  else { conn := c.replenish i h.length, out := replenishOut fits h endStream }

/-- DATA on a stream that receives, in slot `i`, after the checks. -/
def deliverData (cb : Callbacks σ) (fits : Room) (c : Conn σ) (h : FrameHeader) (p : Str) (i : Nat) : Reply σ :=
  (cb.invoke (.data h.streamId p (h.has kEndStream)) (c.holdData i p.length)).andThen fun c =>
    settleData fits c h p i

def strayDataOut (fits : Room) (h : FrameHeader) : List OutFrame :=
  let o₁ := if fits 0 (kFrameHeaderSize + 4) then [writeRstStream h.streamId .streamClosed] else []
  let o₂ := if 0 < h.length && fits (outLen o₁) (kFrameHeaderSize + 4) then [writeWindowUpdate 0 h.length] else []
  o₁ ++ o₂

/-- The DATA case of `handle_frame`. -/
def handleData (cb : Callbacks σ) (fits : Room) (c : Conn σ) (h : FrameHeader) (payload : Str) : Reply σ :=
  if h.streamId = 0 then { conn := c, verdict := .error .protocolError }
  else
    let c := { c with connRecvWindow := c.connRecvWindow - h.length }
    if c.connRecvWindow < 0 then { conn := c, verdict := .error .flowControlError }
    else
      match (c.findStream h.streamId).filter fun i => (c.stream i).state != .halfClosedRemote with
      | none => { conn := { c with connRecvWindow := c.connRecvWindow + h.length }, out := strayDataOut fits h }
      | some i =>
        match stripPadding h payload false with
        | none => { conn := c, verdict := .error .protocolError }
        | some p =>
          if c.client && !(c.stream i).gotHeaders then { conn := c, verdict := .error .protocolError }
          else
            let c := c.modifyStream i fun s => { s with recvWindow := s.recvWindow - h.length }
            if (c.stream i).recvWindow < 0 then
              let r := resetKnownStream cb fits c h.streamId .flowControlError
              { r with conn := { r.conn with connRecvCredit := add32 r.conn.connRecvCredit h.length } }
            else deliverData cb fits c h p i

/-- The WINDOW_UPDATE case of `handle_frame`. -/
def handleWindowUpdate (cb : Callbacks σ) (fits : Room) (c : Conn σ) (h : FrameHeader) (payload : Str) : Reply σ :=
  if h.length ≠ 4 then { conn := c, verdict := .error .frameSizeError }
  else
    let inc : Nat := readBe payload % 2 ^ 31
    if h.streamId = 0 then
      if inc = 0 then { conn := c, verdict := .error .protocolError }
      else
        let c := { c with connSendWindow := c.connSendWindow + inc }
        { conn := c, verdict := if kMaxWindow < c.connSendWindow then .error .flowControlError else .ok }
    else
      match c.findStream h.streamId with
      | none =>
        { conn := c
          verdict := if h.streamId % 2 ≠ 0 ∧ c.lastStreamId < h.streamId then .error .protocolError else .ok }
      | some i =>
        if inc = 0 then resetKnownStream cb fits c h.streamId .protocolError
        else if kMaxWindow < (c.stream i).sendWindow + inc then
          resetKnownStream cb fits c h.streamId .flowControlError
        else { conn := c.modifyStream i fun s => { s with sendWindow := s.sendWindow + inc } }

/-- The RST_STREAM case of `handle_frame`. -/
def handleRstStream (cb : Callbacks σ) (c : Conn σ) (h : FrameHeader) (payload : Str) : Reply σ :=
  if h.streamId = 0 ∨ h.length ≠ 4 then { conn := c, verdict := .error .protocolError }
  else
    let s := c.findStream h.streamId
    let c := c.clearPendingUpload h.streamId
    cb.invoke (.reset h.streamId (readBe payload)) (s.elim c (c.setState · .closed))

/-- The PING case of `handle_frame`. -/
def handlePing (fits : Room) (c : Conn σ) (h : FrameHeader) (payload : Str) : Reply σ :=
  if h.streamId ≠ 0 ∨ h.length ≠ 8 then { conn := c, verdict := .error .frameSizeError }
  else { conn := c, out := if !h.has kAck && fits 0 (kFrameHeaderSize + 8) then [.pingAck payload] else [] }

/-- The GOAWAY case of `handle_frame`. -/
def handleGoaway (c : Conn σ) (h : FrameHeader) (payload : Str) : Reply σ :=
  if h.streamId ≠ 0 then { conn := c, verdict := .error .protocolError }
  else if h.length < 8 then { conn := c, verdict := .error .frameSizeError }
  else { conn := { c with peerGoaway := true, peerLastStream := readBe (payload.take 4) % 2 ^ 31 } }

/-- `handle_frame` on a frame whose payload is complete. -/
def handleFrame (cb : Callbacks σ) (fits : Room) (c : Conn σ) (h : FrameHeader) (payload : Str) : Reply σ :=
  if c.contStream ≠ 0 ∧ (h.type ≠ .continuation ∨ h.streamId ≠ c.contStream) then
    { conn := c, verdict := .error .protocolError }
  else
    match h.type with
    | .settings => handleSettings fits c h payload
    | .headers => handleHeaders cb fits c h payload
    | .continuation => handleContinuation cb fits c h payload
    | .data => handleData cb fits c h payload
    | .windowUpdate => handleWindowUpdate cb fits c h payload
    | .rstStream => handleRstStream cb c h payload
    | .ping => handlePing fits c h payload
    | .goaway => handleGoaway c h payload
    | .pushPromise => { conn := c, verdict := .error .protocolError }
    | .priority => { conn := c }
    | .unknown _ => { conn := c }

/-! ## The frame loop -/

/-- Room behind `used` octets of an output buffer; without a capacity there is always room. -/
def room (cap : Option Nat) (used : Nat) : Room := fun w n => cap.all fun cap => used + w + n ≤ cap

def flushConn (fits : Room) (c : Conn σ) : Conn σ × List OutFrame :=
  if c.connRecvCredit ≠ 0 ∧ fits 0 (kFrameHeaderSize + 4) then
    ({ c with connRecvWindow := c.connRecvWindow + c.connRecvCredit, connRecvCredit := 0 },
      [writeWindowUpdate 0 c.connRecvCredit])
  else (c, [])

def flushStream (fits : Room) (w : Nat) (s : Stream) : Stream × List OutFrame :=
  if s.recvCredit ≠ 0 ∧ fits w (kFrameHeaderSize + 4) then
    if s.state.receives then
      ({ s with recvWindow := s.recvWindow + s.recvCredit, recvCredit := 0 }, [writeWindowUpdate s.id s.recvCredit])
    else ({ s with recvCredit := 0 }, [])
  else (s, [])

def flushStreams (fits : Room) : Nat → List Stream → List Stream × List OutFrame
  | _, [] => ([], [])
  | w, s :: ss =>
    let (s, o₁) := flushStream fits w s
    let (ss, o₂) := flushStreams fits (w + outLen o₁) ss
    (s :: ss, o₁ ++ o₂)

def flushCredits (fits : Room) (c : Conn σ) : Conn σ × List OutFrame :=
  let (c, o₁) := flushConn fits c
  let (streams, o₂) := flushStreams fits (outLen o₁) c.streams
  ({ c with streams }, o₁ ++ o₂)

def FrameType.isRequest (t : FrameType) : Bool := t == .headers || t == .continuation || t == .data || t == .pushPromise

def ownedConflict (c : Conn σ) (h : FrameHeader) : Bool :=
  ((c.goawaySent || c.outboundStream != 0) && h.type == .headers && decide (c.lastStreamId < h.streamId) &&
    h.streamId != c.outboundStream && (c.findStream h.streamId).isNone) ||
  (h.type == .continuation && c.contRefuse && h.has kEndHeaders)

/-- A complete frame that `process` leaves in the input until it can refuse the stream or another one is served. -/
def waits (fits : Room) (c : Conn σ) (h : FrameHeader) : Bool :=
  (ownedConflict c h && !fits 0 (kFrameHeaderSize + 4)) ||
  (c.asyncStream != 0 && h.type.isRequest) ||
  (c.responseFlushPending && c.outboundStream == 0 && h.type.isRequest)

/-- How a call of `process` ends: it waits for more input, closes the connection, or has left its input. -/
inductive Status where
  | «open»
  | close
  | fault
deriving DecidableEq

/-- The state of a call of `process`: the connection, the input that is left, and what has been written and done. -/
structure Progress (σ : Type) where
  conn : Conn σ
  rest : Str
  out : List OutFrame := []
  events : List Event := []
  status : Status := .open

def Progress.goaway (cap : Option Nat) (p : Progress σ) (error : Http2Error) : Progress σ :=
  { p with
    conn := { p.conn with goawaySent := true }
    out := p.out ++ if room cap (outLen p.out) 0 (kFrameHeaderSize + 8) then [writeGoaway p.conn.lastStreamId error] else []
    status := .close }

inductive Turn where
  | wait
  | close (error : Option Http2Error)
  | handle (header : FrameHeader) (payload rest : Str)
deriving DecidableEq

/-- The decisions of the frame loop in front of `handle_frame`. -/
def nextTurn (fits : Room) (c : Conn σ) (rest : Str) : Turn :=
  match parseFrameHeader rest with
  | none => .wait
  | some h =>
    if c.ourSettings.maxFrameSize < h.length then .close (some .frameSizeError)
    else if rest.length < kFrameHeaderSize + h.length then .wait
    else if (c.client || c.grpcActive) && !fits 0 26 then .wait
    else if c.client && !c.peerSettingsSeen && (h.type != .settings || h.has kAck) then .close none
    else if waits fits c h then .wait
    else .handle h ((rest.drop kFrameHeaderSize).take h.length) (rest.drop (kFrameHeaderSize + h.length))

def Progress.flush (cap : Option Nat) (p : Progress σ) : Progress σ :=
  let (c, o) := flushCredits (room cap (outLen p.out)) p.conn
  { p with conn := c, out := p.out ++ o }

/-- A frame goes to `handle_frame`. -/
def Progress.handle (cb : Callbacks σ) (cap : Option Nat) (p : Progress σ) (h : FrameHeader) (payload rest : Str) :
    Progress σ × Verdict :=
  let r := handleFrame cb (room cap (outLen p.out)) p.conn h payload
  ({ p with conn := r.conn, rest, out := p.out ++ r.out, events := p.events ++ .frame h payload :: r.events }, r.verdict)

def Progress.settle (cap : Option Nat) : Progress σ × Verdict → Progress σ ⊕ Progress σ
  | (p, .ok) => .inl p
  | (p, .error e) => .inr (p.goaway cap e)
  | (p, .fault) => .inr { p with status := .fault }

def Progress.turn (cb : Callbacks σ) (cap : Option Nat) (p : Progress σ) : Turn → Progress σ ⊕ Progress σ
  | .wait => .inr p
  | .close (some e) => .inr (p.goaway cap e)
  | .close none => .inr { p with status := .close }
  | .handle h payload rest => Progress.settle cap (p.handle cb cap h payload rest)

/-- One turn of the frame loop of `process`. -/
def processStep (cb : Callbacks σ) (cap : Option Nat) (p : Progress σ) : Progress σ ⊕ Progress σ :=
  let p := p.flush cap
  p.turn cb cap (nextTurn (room cap (outLen p.out)) p.conn p.rest)

/-- The frame loop of `process`. -/
def frameLoop (cb : Callbacks σ) (cap : Option Nat) (p : Progress σ) : Option (Progress σ) :=
  Lib.loop (processStep cb cap) (p.rest.length + 1) p

def greet (cap : Option Nat) (c : Conn σ) (rest : Str) : Progress σ :=
  if !c.ourSettingsSent && room cap 0 0 64 then
    { conn := { c with prefaceSeen := true, ourSettingsSent := true }, rest, out := [.settings c.ourSettings.payload] }
  else { conn := { c with prefaceSeen := true }, rest }

def startProcess (cap : Option Nat) (c : Conn σ) (input : Str) : Progress σ ⊕ Progress σ :=
  if c.prefaceSeen then .inl { conn := c, rest := input }
  else
    match matchClientPreface input with
    | .error => .inr (({ conn := c, rest := input } : Progress σ).goaway cap .protocolError)
    | .incomplete => .inr { conn := c, rest := input }
    | .complete => .inl (greet cap c (input.drop kClientPreface.length))

/-- `Http2Conn::process`, absent if the frame loop does not end. -/
def process (cb : Callbacks σ) (cap : Option Nat) (c : Conn σ) (input : Str) : Option (Progress σ) :=
  match startProcess cap c input with
  | .inl p => frameLoop cb cap p
  | .inr p => some p

end Rut.Http2
