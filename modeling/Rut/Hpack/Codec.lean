import Rut.Hpack.Huffman

/-!
# Integers and strings of HPACK

Port of `decode_integer`, `encode_integer`, `decode_string` and `encode_string` of `src/runtime/hpack.cc`. The
input of a decoder is the list of the `len` octets it may read; lengths and offsets are `u32`.
-/

namespace Rut.Hpack

/-- The loop of `decode_integer` over the continuation octets: value and octets read. -/
def integerLoop : Str → Nat → Nat → Nat → Option (Nat × Nat)
  | [], _, _, _ => none
  | b :: src, acc, shift, i =>
    let acc := acc + (b.toNat &&& 0x7f) <<< shift
    if 0xffffffff < acc then none
    else if b.toNat &&& 0x80 = 0 then some (acc, i + 1)
    else if 28 < shift + 7 then none
    else integerLoop src acc (shift + 7) (i + 1)

/-- Value of a prefix integer and octets read, `none` for the source's 0 (`decode_integer`). -/
def decodeInteger (prefixBits : Nat) (src : Str) : Option (Nat × Nat) :=
  match src with
  | [] => none
  | b :: src =>
    let mask := 2 ^ prefixBits - 1
    let value := b.toNat &&& mask
    if value < mask then some (value, 1) else integerLoop src mask 0 1

/-- The continuation octets of `encode_integer`. -/
def integerTail (value : Nat) : Str :=
  if 128 ≤ value then UInt8.ofNat (value &&& 0x7f ||| 0x80) :: integerTail (value >>> 7) else [UInt8.ofNat value]
termination_by value
decreasing_by
  rw [Nat.shiftRight_eq_div_pow]
  omega

def encodeInteger (value prefixBits prefixTop : Nat) : Str :=
  let mask := 2 ^ prefixBits - 1
  if value < mask then [UInt8.ofNat (prefixTop ||| value)]
  else UInt8.ofNat (prefixTop ||| mask) :: integerTail (value - mask)

/-- Copy `len` octets from `src` on. -/
def readOctets (src : Str) (len : Nat) : Outcome Str := if len ≤ src.length then .ok (src.take len) else .fault

/-- A string literal and the octets read (`decode_string`). -/
def decodeString (src : Str) (cap : Nat) : Outcome (Str × Nat) :=
  match src.head?, decodeInteger 7 src with
  | some b, some (slen, hdr) =>
    let stop := (hdr + slen) % 2 ^ 32
    if src.length < stop then .error
    else if b.toNat &&& 0x80 ≠ 0 then (huffmanDecode cap (src.drop hdr) slen).bind fun s => .ok (s, stop)
    else if cap < slen then .error
    else (readOctets (src.drop hdr) slen).bind fun s => .ok (s, stop)
  | _, _ => .error

def encodeString (src : Str) : Str :=
  let hlen := huffmanEncodedLen src
  if hlen < src.length then encodeInteger hlen 7 0x80 ++ huffmanEncode src
  else encodeInteger src.length 7 0x00 ++ src

end Rut.Hpack
