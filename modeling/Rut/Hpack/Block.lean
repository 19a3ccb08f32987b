import Rut.Hpack.Table
import Rut.Lib.Loop

/-!
# Header blocks

Port of `decode_header_block` and of `Encoder` of `src/runtime/hpack.cc`. A decoded field is a pair of views;
beside them the model keeps what the views showed when the field was decoded.
-/

namespace Rut.Hpack

open Lib

/-- A decoded field (`Header`) and what it showed when it was decoded. -/
structure Header where
  name : View
  value : View
  shown : Str × Str
deriving DecidableEq

/-- The variables of `decode_header_block`: `out` is the part of the output buffer written so far. -/
structure BlockState where
  dyn : DynamicTable
  pos : Nat
  out : Str
  headers : List Header
deriving DecidableEq

/-- Capacities of a call of `decode_header_block`. -/
structure BlockCaps where
  outCap : Nat
  maxHeaders : Nat

/-- Append a field (`headers[hc++] = {name, value}`). -/
def BlockState.push (c : BlockCaps) (st : BlockState) (name value : View) : Outcome BlockState :=
  if c.maxHeaders ≤ st.headers.length then .error
  else .ok { st with headers := st.headers ++ [⟨name, value, name.read st.out st.dyn, value.read st.out st.dyn⟩] }

def indexedField (c : BlockCaps) (src : Str) (st : BlockState) : Outcome BlockState :=
  match decodeInteger 7 src with
  | none => .error
  | some (idx, n) =>
    match resolveFull st.dyn idx with
    | none => .error
    | some (name, value) => ({ st with pos := st.pos + n }).push c name value

def sizeUpdate (src : Str) (st : BlockState) : Outcome BlockState :=
  match decodeInteger 5 src with
  | none => .error
  | some (sz, n) =>
    if st.dyn.hardMax < sz then .error
    else .ok { st with pos := st.pos + n, dyn := st.dyn.setMaxSize sz }

def literalString (c : BlockCaps) (src : Str) (st : BlockState) : Outcome (View × BlockState) :=
  (decodeString (src.drop st.pos) (c.outCap - st.out.length)).bind fun (s, n) =>
    .ok (.out st.out.length s.length, { st with pos := st.pos + n, out := st.out ++ s })

/-- The name of a literal field: a literal or a reference into the tables. -/
def literalName (c : BlockCaps) (src : Str) (st : BlockState) (nidx : Nat) : Outcome (View × BlockState) :=
  if nidx = 0 then literalString c src st
  else
    match resolveName st.dyn nidx with
    | none => .error
    | some name => .ok (name, st)

def copyName (c : BlockCaps) (st : BlockState) (nidx : Nat) (name : View) : Outcome (View × BlockState) :=
  if nidx = 0 then .ok (name, st)
  else
    let s := name.read st.out st.dyn
    let stop := st.out.length + s.length
    if c.outCap < stop % 2 ^ 32 then .error
    else if c.outCap < stop then .fault
    else .ok (.out st.out.length s.length, { st with out := st.out ++ s })

def addField (st : BlockState) (name value : View) : Outcome BlockState :=
  (st.dyn.add (name.read st.out st.dyn) (value.read st.out st.dyn)).bind fun dyn => .ok { st with dyn }

def literalField (c : BlockCaps) (src : Str) (st : BlockState) (incremental : Bool) : Outcome BlockState :=
  match decodeInteger (if incremental then 6 else 4) (src.drop st.pos) with
  | none => .error
  | some (nidx, n) =>
    (literalName c src { st with pos := st.pos + n } nidx).bind fun (name, st) =>
      (literalString c src st).bind fun (value, st) =>
        if incremental then
          (copyName c st nidx name).bind fun (name, st) =>
            (addField st name value).bind fun st => st.push c name value
        else st.push c name value

/-- The body of the loop of `decode_header_block` at an octet of the block. -/
def blockField (c : BlockCaps) (src : Str) (st : BlockState) (b : UInt8) : Outcome BlockState :=
  if b.toNat &&& 0x80 ≠ 0 then indexedField c (src.drop st.pos) st
  else if b.toNat &&& 0x20 ≠ 0 ∧ b.toNat &&& 0x40 = 0 then sizeUpdate (src.drop st.pos) st
  else literalField c src st (b.toNat &&& 0x40 ≠ 0)

/-- One turn of the loop of `decode_header_block`. -/
def blockStep (c : BlockCaps) (src : Str) (st : BlockState) : BlockState ⊕ Outcome BlockState :=
  match src[st.pos]? with
  | none => .inr (.ok st)
  | some b =>
    match blockField c src st b with
    | .ok st => .inl st
    | .error => .inr .error
    | .fault => .inr .fault

def decodeHeaderBlock (c : BlockCaps) (dyn : DynamicTable) (src : Str) : Outcome BlockState :=
  (loop (blockStep c src) (src.length + 1) { dyn, pos := 0, out := [], headers := [] }).getD .fault

/-! ## Encoder -/

/-- The encoder; `-1` of the pending updates is `none` (`Encoder`). -/
structure Encoder where
  dyn : DynamicTable
  pendingSizeUpdate : Option Nat
  pendingMinSize : Option Nat
deriving DecidableEq

def Encoder.init (buf : Str) (maxSize : Nat) : Encoder :=
  { dyn := DynamicTable.init buf maxSize, pendingSizeUpdate := none, pendingMinSize := none }

/-- `Encoder::encode`: the octets written and the encoder after them. -/
def Encoder.encode (e : Encoder) (name value : Str) : Outcome (Str × Encoder) :=
  let dynFull := dynFindFull e.dyn name value
  if 0 < dynFull then .ok (encodeInteger dynFull 7 0x80, e)
  else
    let staticFull := staticFindFull name value
    if 0 < staticFull then .ok (encodeInteger staticFull 7 0x80, e)
    else
      let nidx := staticFindName name
      let nidx := if nidx = 0 then dynFindName e.dyn name else nidx
      let o := encodeInteger nidx 6 0x40 ++ (if nidx = 0 then encodeString name else []) ++ encodeString value
      (e.dyn.add name value).bind fun dyn => .ok (o, { e with dyn })

def Encoder.setTableSize (e : Encoder) (settingsMax : Nat) : Encoder :=
  let new := if settingsMax < kHardCap then settingsMax else kHardCap
  let current := e.pendingSizeUpdate.getD e.dyn.maxSize
  if new = current then e
  else
    { dyn := e.dyn.setMaxSize new
      pendingMinSize :=
        if e.pendingSizeUpdate = none ∨ e.pendingMinSize.any (new < ·) then some new else e.pendingMinSize
      pendingSizeUpdate := some new }

def Encoder.emitPendingSizeUpdate (e : Encoder) : Str × Encoder :=
  match e.pendingSizeUpdate with
  | none => ([], e)
  | some size =>
    let first :=
      match e.pendingMinSize with
      | some min => if min ≠ size then encodeInteger min 5 0x20 else []
      | none => []
    (first ++ encodeInteger size 5 0x20, { e with pendingSizeUpdate := none, pendingMinSize := none })

end Rut.Hpack
