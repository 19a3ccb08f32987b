import Rut.Common.Types
import Rut.Lib.Incremental

/-!
# WebSocket frames

Port of `src/runtime/ws_frame.cc`. A header is read by an incremental reader: `Incomplete` of the source is a stall and
`Error` a failure. The grammar of frames is stated beside it, by the bytes that a frame has on the wire.
-/

namespace Rut.Ws

open Incremental

inductive WsOpcode where
  | continuation
  | text
  | binary
  | close
  | ping
  | pong
deriving DecidableEq

namespace WsOpcode

def code : WsOpcode → Nat
  | continuation => 0
  | text => 1
  | binary => 2
  | close => 8
  | ping => 9
  | pong => 10

/-- The opcode of a number, if `ws_opcode_valid`. -/
def ofBits (b : UInt8) : Option WsOpcode :=
  [continuation, text, binary, close, ping, pong].find? fun op => op.code == b.toNat

/-- `ws_opcode_is_control`. -/
def isControl (op : WsOpcode) : Bool := UInt8.ofNat op.code &&& 0x8 != 0

end WsOpcode

def kWsMaxHeaderSize : Nat := 14
def kWsMaxControlPayload : Nat := 125

structure Key where
  k0 : UInt8
  k1 : UInt8
  k2 : UInt8
  k3 : UInt8
deriving DecidableEq

namespace Key

def zero : Key := ⟨0, 0, 0, 0⟩

def bytes (k : Key) : Str := [k.k0, k.k1, k.k2, k.k3]

/-- `mask_key[i & 3]`. -/
def get (k : Key) (i : Nat) : UInt8 :=
  match i % 4 with
  | 0 => k.k0
  | 1 => k.k1
  | 2 => k.k2
  | _ => k.k3

end Key

structure WsFrameHeader where
  fin : Bool
  masked : Bool
  opcode : WsOpcode
  mask_key : Key
  payload_len : Nat
  header_len : Nat
  compressed : Bool
deriving DecidableEq

def bigEndian (bytes : Str) : Nat := bytes.foldl (fun n b => n * 256 + b.toNat) 0

def parseLength (len7 : UInt8) : Reader UInt8 Unit (Nat × Nat) :=
  if len7 < 126 then pure (len7.toNat, 2)
  else if len7 = 126 then do
    let bytes ← Reader.take 2 ()
    if bigEndian bytes < 126 then Reader.failure else pure (bigEndian bytes, 4)
  else do
    let bytes ← Reader.take 8 ()
    if bytes.headD 0 &&& 0x80 ≠ 0 then Reader.failure
    else if bigEndian bytes ≤ 0xFFFF then Reader.failure else pure (bigEndian bytes, 10)

def parseKey : Reader UInt8 Unit Key := do
  let k0 ← Reader.token ()
  let k1 ← Reader.token ()
  let k2 ← Reader.token ()
  let k3 ← Reader.token ()
  pure ⟨k0, k1, k2, k3⟩

def parseRest (fin masked compressed : Bool) (opcode : WsOpcode) (len7 : UInt8) : Reader UInt8 Unit WsFrameHeader := do
  let (payload_len, offset) ← parseLength len7
  if masked then
    let mask_key ← parseKey
    pure ⟨fin, masked, opcode, mask_key, payload_len, offset + 4, compressed⟩
  else pure ⟨fin, masked, opcode, .zero, payload_len, offset, compressed⟩

def baseError (b0 b1 : UInt8) (opcode : WsOpcode) (require_mask allow_compressed : Bool) : Bool :=
  (b0 &&& 0x40 != 0 && (!allow_compressed || (opcode != .text && opcode != .binary))) ||
  (opcode.isControl && (b0 &&& 0x80 == 0 || b1 &&& 0x7F > 125 || (opcode == .close && b1 &&& 0x7F == 1))) ||
  require_mask != (b1 &&& 0x80 != 0)

/-- `ws_parse_header`. -/
def ws_parse_header (require_mask allow_compressed : Bool) : Reader UInt8 Unit WsFrameHeader := do
  let b0 ← Reader.token ()
  let b1 ← Reader.token ()
  if b0 &&& 0x30 ≠ 0 then Reader.failure
  else
    match WsOpcode.ofBits (b0 &&& 0x0F) with
    | none => Reader.failure
    | some opcode =>
      if baseError b0 b1 opcode require_mask allow_compressed then Reader.failure
      else parseRest (b0 &&& 0x80 != 0) (b1 &&& 0x80 != 0) (b0 &&& 0x40 != 0) opcode (b1 &&& 0x7F)

/-- `ws_unmask_chunk`. -/
def ws_unmask_chunk (payload : Str) (mask_key : Key) (offset : Nat) : Str :=
  payload.mapIdx fun i b => b ^^^ mask_key.get (offset % 4 + i % 4)

/-- `ws_unmask`. -/
def ws_unmask (payload : Str) (mask_key : Key) : Str := ws_unmask_chunk payload mask_key 0

/-- `ws_write_header`, which refuses what `ws_parse_header` would refuse. -/
def ws_write_header (op : WsOpcode) (fin masked : Bool) (mask_key : Key) (payload_len : Nat) (compressed : Bool) :
    Option Str :=
  if compressed ∧ op ≠ .text ∧ op ≠ .binary then none
  else if op.isControl ∧ (fin = false ∨ payload_len > kWsMaxControlPayload ∨ (op = .close ∧ payload_len = 1)) then none
  else if payload_len ≥ 2 ^ 63 then none
  else
    let b0 : UInt8 := (if fin then 0x80 else 0x00) ||| (if compressed then 0x40 else 0) ||| UInt8.ofNat op.code
    let mask_bit : UInt8 := if masked then 0x80 else 0x00
    let length : Str :=
      if payload_len ≤ 125 then [mask_bit ||| UInt8.ofNat payload_len]
      else if payload_len ≤ 0xFFFF then
        [mask_bit ||| 126, UInt8.ofNat (payload_len >>> 8), UInt8.ofNat payload_len]
      else (mask_bit ||| 127) :: (List.range 8).map fun i => UInt8.ofNat (payload_len >>> ((7 - i) * 8))
    some (b0 :: length ++ if masked then mask_key.bytes else [])

/-! ## Messages -/

structure WsMessageAssembler where
  in_fragmented : Bool := false
  message_opcode : WsOpcode := .text
  accumulated_len : Nat := 0
deriving DecidableEq

/-- `WsMessageStatus`, with the opcode and the length of the message on `Complete`. -/
inductive WsMessageStatus where
  | complete (opcode : WsOpcode) (total : Nat)
  | needMore
  | error
deriving DecidableEq

/-- `ws_message_feed`. -/
def ws_message_feed (m : WsMessageAssembler) (h : WsFrameHeader) (max_message_size : Nat) :
    WsMessageStatus × WsMessageAssembler :=
  if h.opcode.isControl then (.error, m)
  else if h.opcode = .continuation ∧ (m.in_fragmented = false ∨ h.compressed) then (.error, m)
  else if h.opcode ≠ .continuation ∧ m.in_fragmented then (.error, m)
  else
    let m := if h.opcode = .continuation then m else ⟨true, h.opcode, 0⟩
    if h.payload_len > 2 ^ 64 - 1 - m.accumulated_len ∨
        (max_message_size ≠ 0 ∧
          (m.accumulated_len > max_message_size ∨ h.payload_len > max_message_size - m.accumulated_len)) then
      (.error, {})
    else
      let total := m.accumulated_len + h.payload_len
      if h.fin then (.complete m.message_opcode total, {}) else (.needMore, { m with accumulated_len := total })

end Rut.Ws
