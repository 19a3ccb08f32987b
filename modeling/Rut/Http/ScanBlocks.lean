import Rut.Http.Scan

/-!
# Scanners over blocks

Port of the scanners for x86 (`src/runtime/simd/sse2.cc`, `avx2.cc`, `avx512.cc`). A mask, as the
comparison of the lanes of a block with a constant gives it, is the list of its bits, the lowest first. What is left
behind the last block is scanned as in `scalar.cc`.
-/

namespace Rut.Http

inductive SimdVariant where
  | sse2
  | avx2
  | avx512
deriving DecidableEq

namespace SimdVariant

def width : SimdVariant → Nat
  | .sse2 => 16
  | .avx2 => 32
  | .avx512 => 64

/-- Bytes that a header value may not hold. The older instructions compare signed bytes, with the top bits flipped. -/
def badValue (v : SimdVariant) (b : UInt8) : Bool :=
  match v with
  | .avx512 => (decide (b < 0x20) && !(b == 0x09)) || b == 0x7F
  | _ => (!(b == 0x09) && (b ^^^ 0x80).toBitVec.slt (0x20 ^^^ 0x80 : UInt8).toBitVec) || b == 0x7F

/-- Bytes that a target may not hold, the space among them. -/
def badUri (v : SimdVariant) (b : UInt8) : Bool :=
  match v with
  | .avx512 => decide (b < 0x21) || b == 0x7F || b.toBitVec.msb
  | _ => b.toBitVec.slt (0x21 : UInt8).toBitVec || b == 0x7F

end SimdVariant

/-- The lowest bit of a mask (`__builtin_ctz`). -/
def ctz (mask : List Bool) : Nat := mask.findIdx id

def Scan.behind (block : Str) : Scan → Scan
  | .found text rest => .found (block ++ text) rest
  | .invalid => .invalid
  | .atEnd => .atEnd

/-- A block in the loop that `scan_header_value` and `scan_header_name` share. The latter looks the bytes in front of the
colon up one by one; that these are no colons is tested by the former only. -/
def scanBlock (stop : UInt8) (bad : UInt8 → Bool) (s block : Str) (next : Scan) : Scan :=
  let mask := block.map (· == stop)
  if mask.any id then
    if ((block.take (ctz mask)).any fun b => bad b && !(b == stop)) then .invalid
    else .found (block.take (ctz mask)) (s.drop (ctz mask + 1))
  else if block.any bad then .invalid
  else next.behind block

def scanBlocks (width : Nat) (stop : UInt8) (table : List Nat) (bad : UInt8 → Bool) : Nat → Str → Scan
  | 0, s => scanTo stop table s
  | turns + 1, s =>
    if s.length < width then scanTo stop table s
    else scanBlock stop bad s (s.take width) (scanBlocks width stop table bad turns (s.drop width))

/-- A block in the loop of `scan_uri`. -/
def scanUriBlock (bad : UInt8 → Bool) (block : Str) (pos : Nat) (canonEnd : Option Nat) (next : Option Nat → UriScan) :
    UriScan :=
  let sp := block.map (· == ch ' ')
  let qf := block.map fun b => b == ch '?' || b == ch '#'
  if sp.any id then
    let before := qf.take (ctz sp)
    if ((block.take (ctz sp)).any fun b => bad b && !(b == ch ' ')) then .invalid
    else .found (pos + ctz sp) (canonEnd.getD (pos + if before.any id then ctz before else ctz sp))
  else if block.any bad then .invalid
  else next (if qf.any id ∧ canonEnd = none then some (pos + ctz qf) else canonEnd)

def scanUriBlocks (v : SimdVariant) : Nat → Str → Nat → Option Nat → UriScan
  | 0, s, pos, canonEnd => scanUriLoop s pos canonEnd
  | turns + 1, s, pos, canonEnd =>
    if s.length < v.width then scanUriLoop s pos canonEnd
    else
      scanUriBlock v.badUri (s.take v.width) pos canonEnd (scanUriBlocks v turns (s.drop v.width) (pos + v.width))

/-- The bits of a mask from the lowest on: the offset behind the first empty line that starts at one of them. -/
def findHeaderEndMask : List Bool → Str → Nat → Option Nat
  | [], _, _ => none
  | bit :: mask, s, i =>
    if bit && s.tail.take 3 == lit ['\n','\r','\n'] then some (i + 4) else findHeaderEndMask mask s.tail (i + 1)

/-- The loop of `find_header_end` over blocks of a width, with the loop that follows it. -/
def findHeaderEndBlocks (width : Nat) (next : Str → Nat → Nat) : Nat → Str → Nat → Nat
  | 0, s, i => next s i
  | turns + 1, s, i =>
    if s.length < width then next s i
    else
      match findHeaderEndMask ((s.take width).map (· == ch '\r')) s i with
      | some e => e
      | none => findHeaderEndBlocks width next turns (s.drop width) (i + width)

namespace SimdVariant

def scanHeaderValue (v : SimdVariant) (s : Str) : Scan :=
  scanBlocks v.width (ch '\r') kHeaderValueTable v.badValue s.length s

def scanHeaderName (v : SimdVariant) (s : Str) : Option (Str × Str) :=
  match scanBlocks v.width (ch ':') kTokenTable (fun b => !tableAt kTokenTable b) s.length s with
  | .found text rest => some (text, rest)
  | .invalid => none
  | .atEnd => none

def scanUri (v : SimdVariant) (s : Str) : UriScan := scanUriBlocks v s.length s 0 none

/-- Blocks of 32 bytes are followed by blocks of 16. -/
def findHeaderEnd (v : SimdVariant) (s : Str) : Nat :=
  match v with
  | .avx2 => findHeaderEndBlocks 32 (fun t => findHeaderEndBlocks 16 findHeaderEndLoop t.length t) s.length s 0
  | _ => findHeaderEndBlocks v.width findHeaderEndLoop s.length s 0

end SimdVariant

variable {stop : UInt8} {table : List Nat} {bad : UInt8 → Bool}

lemma ctz_cons (bit : Bool) (mask : List Bool) : ctz (bit :: mask) = if bit then 0 else ctz mask + 1 := by
  rw [ctz, List.findIdx_cons]
  cases bit <;> rfl

lemma scanTo_block (hbad : ∀ b, b ≠ stop → bad b = !tableAt table b) (block s : Str) :
    scanTo stop table (block ++ s) = scanBlock stop bad (block ++ s) block (scanTo stop table s) := by
  induction block with
  | nil => cases hs : scanTo stop table s <;> exact hs
  | cons b block ih =>
    rw [List.cons_append, scanTo, ih]
    unfold scanBlock
    simp only [List.map_cons, ctz_cons]
    by_cases hb : b = stop
    · simp [hb]
    · rw [if_neg hb, beq_false_of_ne hb]
      have hnot := hbad b hb
      cases htable : tableAt table b with
      | false => simp [hb, hnot, htable]
      | true =>
        simp only [Bool.not_true, Bool.false_eq_true, if_false, List.any_cons, id_eq, Bool.false_or, List.take_succ_cons,
          List.drop_succ_cons, hnot, htable, Bool.false_and]
        split_ifs
        · rfl
        · rfl
        · rfl
        · cases scanTo stop table s <;> rfl

lemma scanBlocks_eq (hbad : ∀ b, b ≠ stop → bad b = !tableAt table b) (width turns : Nat) (s : Str) :
    scanBlocks width stop table bad turns s = scanTo stop table s := by
  induction turns generalizing s with
  | zero => rfl
  | succ turns ih =>
    rw [scanBlocks]
    split_ifs with hlen
    · rfl
    · have hblock := scanTo_block hbad (s.take width) (s.drop width)
      rw [List.take_append_drop] at hblock
      rw [ih, hblock]

lemma scanUriLoop_block (hbad : ∀ b, b ≠ ch ' ' → bad b = !tableAt kUriTable b) (block s : Str) (pos : Nat)
    (canonEnd : Option Nat) :
    scanUriLoop (block ++ s) pos canonEnd = scanUriBlock bad block pos canonEnd (scanUriLoop s (pos + block.length)) := by
  induction block generalizing pos canonEnd with
  | nil => simp [scanUriBlock]
  | cons b block ih =>
    rw [List.cons_append, scanUriLoop, ih]
    unfold scanUriBlock
    simp only [List.map_cons, ctz_cons]
    by_cases hb : b = ch ' '
    · simp [hb]
    · rw [if_neg hb, beq_false_of_ne hb]
      have hnot := hbad b hb
      cases htable : tableAt kUriTable b with
      | false => simp [hb, hnot, htable]
      | true =>
        have hadd : ∀ n, pos + 1 + n = pos + (n + 1) := by omega
        simp only [Bool.not_true, Bool.false_eq_true, if_false, List.any_cons, id_eq, Bool.false_or, List.take_succ_cons,
          hnot, htable, Bool.false_and, ctz_cons, hadd, List.length_cons]
        cases hq : (b == ch '?' || b == ch '#') with
        | false =>
          have hne : ¬(b = ch '?' ∨ b = ch '#') := by simpa using hq
          simp only [hne, false_and, if_false, Bool.false_or, Bool.false_eq_true]
          split_ifs <;> rfl
        | true =>
          have hmark : b = ch '?' ∨ b = ch '#' := by simpa using hq
          simp only [hmark, true_and, Bool.true_or, if_true]
          cases canonEnd with
          | none => simp
          | some e => simp

lemma scanUriBlocks_eq {v : SimdVariant} (hbad : ∀ b, b ≠ ch ' ' → v.badUri b = !tableAt kUriTable b) (turns : Nat)
    (s : Str) (pos : Nat) (canonEnd : Option Nat) : scanUriBlocks v turns s pos canonEnd = scanUriLoop s pos canonEnd := by
  induction turns generalizing s pos canonEnd with
  | zero => rfl
  | succ turns ih =>
    rw [scanUriBlocks]
    split_ifs with hlen
    · rfl
    · have hblock := scanUriLoop_block hbad (s.take v.width) (s.drop v.width) pos canonEnd
      rw [List.take_append_drop, List.length_take_of_le (Nat.not_lt.mp hlen)] at hblock
      rw [hblock, funext (ih (s.drop v.width) (pos + v.width))]

/-! ## Empty lines -/

lemma findHeaderEndLoop_cons (a : UInt8) (s : Str) (i : Nat) : findHeaderEndLoop (a :: s) i =
    if (a == ch '\r') && s.take 3 == lit ['\n','\r','\n'] then i + 4 else findHeaderEndLoop s (i + 1) := by
  rcases s with - | ⟨b, - | ⟨c, - | ⟨d, s⟩⟩⟩
  · simp [findHeaderEndLoop, lit]
  · simp [findHeaderEndLoop, lit]
  · simp [findHeaderEndLoop, lit]
  · rw [findHeaderEndLoop]
    simp [lit]

lemma findHeaderEndMask_spec (width : Nat) (s : Str) (i : Nat) : findHeaderEndLoop s i =
    (findHeaderEndMask ((s.take width).map (· == ch '\r')) s i).getD (findHeaderEndLoop (s.drop width) (i + width)) := by
  induction width generalizing s i with
  | zero => rfl
  | succ width ih =>
    cases s with
    | nil => rfl
    | cons a s =>
      rw [findHeaderEndLoop_cons, List.take_succ_cons, List.map_cons, findHeaderEndMask, List.drop_succ_cons, List.tail_cons]
      split_ifs
      · rfl
      · rw [ih, Nat.add_right_comm, Nat.add_assoc]

lemma findHeaderEndBlocks_eq {next} (hnext : ∀ s i, next s i = findHeaderEndLoop s i) (width turns : Nat) (s : Str)
    (i : Nat) : findHeaderEndBlocks width next turns s i = findHeaderEndLoop s i := by
  induction turns generalizing s i with
  | zero => exact hnext s i
  | succ turns ih =>
    rw [findHeaderEndBlocks, hnext]
    split_ifs with hlen
    · rfl
    · rw [findHeaderEndMask_spec width s i]
      cases findHeaderEndMask ((s.take width).map (· == ch '\r')) s i with
      | none => exact ih _ _
      | some e => rfl

lemma badValue_eq (v : SimdVariant) : ∀ b, b ≠ ch '\r' → v.badValue b = !tableAt kHeaderValueTable b := by
  simp only [tableAt_value]
  cases v <;> exact forall_uint8 (by decide +kernel)

lemma badUri_eq (v : SimdVariant) : ∀ b, b ≠ ch ' ' → v.badUri b = !tableAt kUriTable b := by
  simp only [tableAt_uri]
  cases v <;> exact forall_uint8 (by decide +kernel)

end Rut.Http
