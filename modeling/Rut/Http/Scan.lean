import Rut.Common.Types

/-!
# Character tables and scanners

Port of `src/runtime/simd/char_tables.h` and of the reference scanners in `src/runtime/simd/scalar.cc`. A scanner of the
source returns a position or `-1`; here it runs over the bytes `buf[pos..end)` and returns the bytes in front of the
delimiter and those behind it. `scan_header_value` and `scan_header_name` are one loop (`scanTo`).
-/

namespace Rut.Http

/-- A 256-entry table of the source, entry `b` at index `b`. -/
def tableAt (table : List Nat) (b : UInt8) : Bool := table.getD b.toNat 0 != 0

/-- Token characters (`kTokenTable`). -/
def kTokenTable : List Nat := [
  0,0,0,0,0,0,0,0,0,0,0,0,0,0,0,0,
  0,0,0,0,0,0,0,0,0,0,0,0,0,0,0,0,
  0,1,0,1,1,1,1,1,0,0,1,1,0,1,1,0,
  1,1,1,1,1,1,1,1,1,1,0,0,0,0,0,0,
  0,1,1,1,1,1,1,1,1,1,1,1,1,1,1,1,
  1,1,1,1,1,1,1,1,1,1,1,0,0,0,1,1,
  1,1,1,1,1,1,1,1,1,1,1,1,1,1,1,1,
  1,1,1,1,1,1,1,1,1,1,1,0,1,0,1,0,
  0,0,0,0,0,0,0,0,0,0,0,0,0,0,0,0,
  0,0,0,0,0,0,0,0,0,0,0,0,0,0,0,0,
  0,0,0,0,0,0,0,0,0,0,0,0,0,0,0,0,
  0,0,0,0,0,0,0,0,0,0,0,0,0,0,0,0,
  0,0,0,0,0,0,0,0,0,0,0,0,0,0,0,0,
  0,0,0,0,0,0,0,0,0,0,0,0,0,0,0,0,
  0,0,0,0,0,0,0,0,0,0,0,0,0,0,0,0,
  0,0,0,0,0,0,0,0,0,0,0,0,0,0,0,0]

/-- Header value bytes (`kHeaderValueTable`). -/
def kHeaderValueTable : List Nat := [
  0,0,0,0,0,0,0,0,0,1,0,0,0,0,0,0,
  0,0,0,0,0,0,0,0,0,0,0,0,0,0,0,0,
  1,1,1,1,1,1,1,1,1,1,1,1,1,1,1,1,
  1,1,1,1,1,1,1,1,1,1,1,1,1,1,1,1,
  1,1,1,1,1,1,1,1,1,1,1,1,1,1,1,1,
  1,1,1,1,1,1,1,1,1,1,1,1,1,1,1,1,
  1,1,1,1,1,1,1,1,1,1,1,1,1,1,1,1,
  1,1,1,1,1,1,1,1,1,1,1,1,1,1,1,0,
  1,1,1,1,1,1,1,1,1,1,1,1,1,1,1,1,
  1,1,1,1,1,1,1,1,1,1,1,1,1,1,1,1,
  1,1,1,1,1,1,1,1,1,1,1,1,1,1,1,1,
  1,1,1,1,1,1,1,1,1,1,1,1,1,1,1,1,
  1,1,1,1,1,1,1,1,1,1,1,1,1,1,1,1,
  1,1,1,1,1,1,1,1,1,1,1,1,1,1,1,1,
  1,1,1,1,1,1,1,1,1,1,1,1,1,1,1,1,
  1,1,1,1,1,1,1,1,1,1,1,1,1,1,1,1]

/-- Request target bytes (`kUriTable`). -/
def kUriTable : List Nat := [
  0,0,0,0,0,0,0,0,0,0,0,0,0,0,0,0,
  0,0,0,0,0,0,0,0,0,0,0,0,0,0,0,0,
  0,1,1,1,1,1,1,1,1,1,1,1,1,1,1,1,
  1,1,1,1,1,1,1,1,1,1,1,1,1,1,1,1,
  1,1,1,1,1,1,1,1,1,1,1,1,1,1,1,1,
  1,1,1,1,1,1,1,1,1,1,1,1,1,1,1,1,
  1,1,1,1,1,1,1,1,1,1,1,1,1,1,1,1,
  1,1,1,1,1,1,1,1,1,1,1,1,1,1,1,0,
  0,0,0,0,0,0,0,0,0,0,0,0,0,0,0,0,
  0,0,0,0,0,0,0,0,0,0,0,0,0,0,0,0,
  0,0,0,0,0,0,0,0,0,0,0,0,0,0,0,0,
  0,0,0,0,0,0,0,0,0,0,0,0,0,0,0,0,
  0,0,0,0,0,0,0,0,0,0,0,0,0,0,0,0,
  0,0,0,0,0,0,0,0,0,0,0,0,0,0,0,0,
  0,0,0,0,0,0,0,0,0,0,0,0,0,0,0,0,
  0,0,0,0,0,0,0,0,0,0,0,0,0,0,0,0]

/-- A table whose entries are the bits of a number. -/
lemma tableAt_bits {table : List Nat} {bits : Nat}
    (h : table = (List.range 256).map fun n => if bits.testBit n then 1 else 0) (b : UInt8) :
    tableAt table b = bits.testBit b.toNat := by
  have hlt : b.toNat < 256 := b.toNat_lt
  rw [tableAt, h, List.getD_eq_getElem?_getD, List.getElem?_map, List.getElem?_range hlt, Option.map_some, Option.getD_some]
  cases bits.testBit b.toNat <;> rfl

lemma tableAt_token (b : UInt8) : tableAt kTokenTable b = Nat.testBit 0x57FFFFFFC7FFFFFE03FF6CFA00000000 b.toNat :=
  tableAt_bits (by decide +kernel) b

lemma tableAt_value (b : UInt8) : tableAt kHeaderValueTable b =
    Nat.testBit 0xFFFFFFFFFFFFFFFFFFFFFFFFFFFFFFFF7FFFFFFFFFFFFFFFFFFFFFFF00000200 b.toNat :=
  tableAt_bits (by decide +kernel) b

lemma tableAt_uri (b : UInt8) : tableAt kUriTable b = Nat.testBit 0x7FFFFFFFFFFFFFFFFFFFFFFE00000000 b.toNat :=
  tableAt_bits (by decide +kernel) b

/-- Outcome of a scan: the bytes in front of the delimiter and those behind it, an invalid byte, or
the end of the buffer. -/
inductive Scan where
  | found (text rest : Str)
  | invalid
  | atEnd
deriving DecidableEq

/-- Scan for the first `stop`, all bytes before it being in `table`. -/
def scanTo (stop : UInt8) (table : List Nat) : Str → Scan
  | [] => .atEnd
  | b :: s =>
    if b = stop then .found [] s
    else if !tableAt table b then .invalid
    else
      match scanTo stop table s with
      | .found text rest => .found (b :: text) rest
      | .invalid => .invalid
      | .atEnd => .atEnd

/-- Scan a header value up to its CR (`scan_header_value`). -/
def scanHeaderValue (s : Str) : Scan := scanTo (ch '\r') kHeaderValueTable s

/-- Scan a header name up to its colon; the end of the buffer is reported like an invalid byte
(`scan_header_name`). -/
def scanHeaderName (s : Str) : Option (Str × Str) :=
  match scanTo (ch ':') kTokenTable s with
  | .found text rest => some (text, rest)
  | .invalid => none
  | .atEnd => none

/-- Outcome of `scan_uri`: the offset of the space and that of the first `?` or `#` before it. -/
inductive UriScan where
  | found (uriEnd canonEnd : Nat)
  | invalid
  | atEnd
deriving DecidableEq

/-- The loop of `scan_uri`. `canonEnd` is `none` while the source's variable still equals `end`. -/
def scanUriLoop : Str → Nat → Option Nat → UriScan
  | [], _, _ => .atEnd
  | b :: s, pos, canonEnd =>
    if b = ch ' ' then .found pos (canonEnd.getD pos)
    else if !tableAt kUriTable b then .invalid
    else
      scanUriLoop s (pos + 1)
        (if (b = ch '?' ∨ b = ch '#') ∧ canonEnd = none then some pos else canonEnd)

/-- Scan the request target, offsets counted from its first byte (`scan_uri`). -/
def scanUri (s : Str) : UriScan := scanUriLoop s 0 none

/-- End of the first `CR LF CR LF` at or behind offset `i`, 0 if there is none
(`find_header_end` with `from = 0`). -/
def findHeaderEndLoop : Str → Nat → Nat
  | a :: b :: c :: d :: s, i =>
    if a = ch '\r' ∧ b = ch '\n' ∧ c = ch '\r' ∧ d = ch '\n' then i + 4
    else findHeaderEndLoop (b :: c :: d :: s) (i + 1)
  | _, _ => 0

/-- End of the first empty line (`find_header_end`). -/
def findHeaderEnd (buf : Str) : Nat := findHeaderEndLoop buf 0

end Rut.Http
