import Rut.Common.Types

/-!
# HTTP/2 frames

Port of `include/rut/runtime/http2_frame.h` and `src/runtime/http2_frame.cc`. The frames the engine writes are
kept as frames; `OutFrame.bytes` is what the `write_` functions put into the output buffer.
-/

namespace Rut.Http2

def kFrameHeaderSize : Nat := 9
def kDefaultHeaderTableSize : Nat := 4096
def kDefaultInitialWindowSize : Nat := 65535
def kDefaultMaxFrameSize : Nat := 16384
def kMaxAllowedFrameSize : Nat := 16777215
def kMaxWindowSize : Nat := 2147483647

/-- Frame types (`Http2FrameType`); an unknown octet is none of them. -/
inductive FrameType where
  | data
  | headers
  | priority
  | rstStream
  | settings
  | pushPromise
  | ping
  | goaway
  | windowUpdate
  | continuation
  | unknown (code : Nat)
deriving DecidableEq

def FrameType.ofNat : Nat → FrameType
  | 0 => .data
  | 1 => .headers
  | 2 => .priority
  | 3 => .rstStream
  | 4 => .settings
  | 5 => .pushPromise
  | 6 => .ping
  | 7 => .goaway
  | 8 => .windowUpdate
  | 9 => .continuation
  | n => .unknown n

def FrameType.code : FrameType → Nat
  | .data => 0
  | .headers => 1
  | .priority => 2
  | .rstStream => 3
  | .settings => 4
  | .pushPromise => 5
  | .ping => 6
  | .goaway => 7
  | .windowUpdate => 8
  | .continuation => 9
  | .unknown n => n

/-- Flags of a frame (`http2_flag`). -/
def kEndStream : Nat := 0x1
def kAck : Nat := 0x1
def kEndHeaders : Nat := 0x4
def kPadded : Nat := 0x8
def kPriority : Nat := 0x20

/-- Error codes (`Http2Error`); the codes of received frames are kept as numbers. -/
inductive Http2Error where
  | protocolError
  | internalError
  | flowControlError
  | streamClosed
  | frameSizeError
  | refusedStream
  | compressionError
deriving DecidableEq

def Http2Error.code : Http2Error → Nat
  | .protocolError => 0x1
  | .internalError => 0x2
  | .flowControlError => 0x3
  | .streamClosed => 0x5
  | .frameSizeError => 0x6
  | .refusedStream => 0x7
  | .compressionError => 0x9

/-- A frame header (`Http2FrameHeader`). -/
structure FrameHeader where
  length : Nat
  type : FrameType
  flags : Nat
  streamId : Nat
deriving DecidableEq

def FrameHeader.has (h : FrameHeader) (flag : Nat) : Bool := h.flags &&& flag != 0

/-- Big-endian numbers (`read_u16`, `read_u24`, `read_u32`). -/
def readBe (s : Str) : Nat := s.foldl (fun n b => n * 256 + b.toNat) 0

/-- Big-endian octets (`write_u16`, `write_u24`, `write_u32`). -/
def writeBe : Nat → Nat → Str
  | 0, _ => []
  | n + 1, v => writeBe n (v / 256) ++ [UInt8.ofNat v]

/-- `parse_frame_header`, `none` for `Incomplete`. -/
def parseFrameHeader (s : Str) : Option FrameHeader :=
  if s.length < kFrameHeaderSize then none
  else some
    { length := readBe (s.take 3)
      type := .ofNat (readBe ((s.drop 3).take 1))
      flags := readBe ((s.drop 4).take 1)
      streamId := readBe ((s.drop 5).take 4) % 2 ^ 31 }

/-- The octets of a frame header (`write_frame_header`). -/
def FrameHeader.bytes (h : FrameHeader) : Str :=
  writeBe 3 (h.length % 2 ^ 24) ++ writeBe 1 h.type.code ++ writeBe 1 h.flags ++ writeBe 4 (h.streamId % 2 ^ 31)

lemma length_writeBe (k v : Nat) : (writeBe k v).length = k := by
  induction k generalizing v with
  | zero => rfl
  | succ k ih => rw [writeBe, List.length_append, ih, List.length_singleton]

lemma readBe_writeBe (k v : Nat) : readBe (writeBe k v) = v % 256 ^ k := by
  induction k generalizing v with
  | zero => rw [pow_zero, Nat.mod_one]; rfl
  | succ k ih =>
    have hlast : (UInt8.ofNat v).toNat = v % 256 := UInt8.toNat_ofNat'
    have hread : readBe (writeBe (k + 1) v) = readBe (writeBe k (v / 256)) * 256 + (UInt8.ofNat v).toNat := by
      rw [readBe, writeBe, List.foldl_append]
      rfl
    rw [hread, ih, hlast, pow_succ', Nat.mod_mul]
    omega

/-- A written header parses as itself, but for the bits that do not fit. -/
theorem parseFrameHeader_bytes (h : FrameHeader) (rest : Str) :
    parseFrameHeader (h.bytes ++ rest) = some
      { length := h.length % 2 ^ 24
        type := .ofNat (h.type.code % 256)
        flags := h.flags % 256
        streamId := h.streamId % 2 ^ 31 } := by
  have hlen : ∀ k v, (writeBe k v).length = k := length_writeBe
  unfold parseFrameHeader FrameHeader.bytes kFrameHeaderSize
  rw [if_neg (by simp only [List.length_append, hlen]; omega)]
  simp [List.drop_append, List.drop_of_length_le, hlen, readBe_writeBe]

def kClientPreface : Str :=
  [0x50, 0x52, 0x49, 0x20, 0x2a, 0x20, 0x48, 0x54, 0x54, 0x50, 0x2f, 0x32, 0x2e, 0x30, 0x0d, 0x0a, 0x0d, 0x0a,
    0x53, 0x4d, 0x0d, 0x0a, 0x0d, 0x0a]

/-- Result of `match_client_preface`. -/
inductive PrefaceMatch where
  | complete
  | incomplete
  | error
deriving DecidableEq

def matchClientPreface (s : Str) : PrefaceMatch :=
  if s.take kClientPreface.length ≠ kClientPreface.take s.length then .error
  else if s.length < kClientPreface.length then .incomplete
  else .complete

/-! ## Settings -/

/-- `Http2Settings`. -/
structure Settings where
  headerTableSize : Nat := kDefaultHeaderTableSize
  enablePush : Nat := 1
  enableConnectProtocol : Nat := 0
  maxConcurrentStreams : Nat := 0
  initialWindowSize : Nat := kDefaultInitialWindowSize
  maxFrameSize : Nat := kDefaultMaxFrameSize
  maxHeaderListSize : Nat := 0
  hasMaxConcurrentStreams : Bool := false
  hasMaxHeaderListSize : Bool := false
deriving DecidableEq

def applySetting (s : Settings) (id val : Nat) : Except Http2Error Settings :=
  match id with
  | 0x1 => .ok { s with headerTableSize := val }
  | 0x2 => if 1 < val then .error .protocolError else .ok { s with enablePush := val }
  | 0x8 =>
    if 1 < val ∨ s.enableConnectProtocol = 1 ∧ val = 0 then .error .protocolError
    else .ok { s with enableConnectProtocol := val }
  | 0x3 => .ok { s with maxConcurrentStreams := val, hasMaxConcurrentStreams := true }
  | 0x4 => if kMaxWindowSize < val then .error .flowControlError else .ok { s with initialWindowSize := val }
  | 0x5 =>
    if val < kDefaultMaxFrameSize ∨ kMaxAllowedFrameSize < val then .error .protocolError
    else .ok { s with maxFrameSize := val }
  | 0x6 => .ok { s with maxHeaderListSize := val, hasMaxHeaderListSize := true }
  | _ => .ok s

/-- The loop of `parse_settings` over the six-octet entries. -/
def parseSettingsLoop : Str → Settings → Except Http2Error Settings
  | a :: b :: c :: d :: e :: f :: rest, s =>
    match applySetting s (readBe [a, b]) (readBe [c, d, e, f]) with
    | .ok s => parseSettingsLoop rest s
    | .error err => .error err
  | _, s => .ok s

def parseSettings (payload : Str) (s : Settings) : Except Http2Error Settings :=
  if payload.length % 6 ≠ 0 then .error .frameSizeError else parseSettingsLoop payload s

def settingBytes (id val : Nat) : Str := writeBe 2 id ++ writeBe 4 val

/-- The payload of the SETTINGS frame that announces `s`. -/
def Settings.payload (s : Settings) : Str :=
  (if s.enableConnectProtocol ≠ 0 then settingBytes 0x8 s.enableConnectProtocol else []) ++
    (if s.headerTableSize ≠ kDefaultHeaderTableSize then settingBytes 0x1 s.headerTableSize else []) ++
    (if s.enablePush ≠ 1 then settingBytes 0x2 s.enablePush else []) ++
    (if s.hasMaxConcurrentStreams then settingBytes 0x3 s.maxConcurrentStreams else []) ++
    (if s.initialWindowSize ≠ kDefaultInitialWindowSize then settingBytes 0x4 s.initialWindowSize else []) ++
    (if s.maxFrameSize ≠ kDefaultMaxFrameSize then settingBytes 0x5 s.maxFrameSize else [])

/-! ## Written frames -/

inductive OutFrame where
  | settings (payload : Str)
  | settingsAck
  | pingAck (payload : Str)
  | goaway (lastStreamId code : Nat)
  | windowUpdate (streamId increment : Nat)
  | rstStream (streamId code : Nat)
deriving DecidableEq

/-- The octets written (`write_settings_frame`, `write_settings_ack`, `write_goaway`, `write_window_update`,
`write_rst_stream`). -/
def OutFrame.bytes : OutFrame → Str
  | .settings payload => FrameHeader.bytes ⟨payload.length, .settings, 0, 0⟩ ++ payload
  | .settingsAck => FrameHeader.bytes ⟨0, .settings, kAck, 0⟩
  | .pingAck payload => FrameHeader.bytes ⟨8, .ping, kAck, 0⟩ ++ payload
  | .goaway last code => FrameHeader.bytes ⟨8, .goaway, 0, 0⟩ ++ writeBe 4 last ++ writeBe 4 code
  | .windowUpdate id inc => FrameHeader.bytes ⟨4, .windowUpdate, 0, id⟩ ++ writeBe 4 inc
  | .rstStream id code => FrameHeader.bytes ⟨4, .rstStream, 0, id⟩ ++ writeBe 4 code

/-- `write_window_update` keeps 31 bits of the increment. -/
def writeWindowUpdate (streamId increment : Nat) : OutFrame := .windowUpdate streamId (increment % 2 ^ 31)

def writeRstStream (streamId : Nat) (error : Http2Error) : OutFrame := .rstStream streamId error.code

def writeGoaway (lastStreamId : Nat) (error : Http2Error) : OutFrame := .goaway (lastStreamId % 2 ^ 31) error.code

def outLen (out : List OutFrame) : Nat := (out.map fun f => f.bytes.length).sum

end Rut.Http2
