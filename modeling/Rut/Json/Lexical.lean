import Rut.Common.Types

/-!
# The lexical layer of the JSON codec

Port of the first part of `include/rut/runtime/json.h`: `Writer`, `hex4`, `scalar`, `decode` and `quote`. A position in
a view is the list of the bytes from there on; a function that answers false is `none`. `StringText` says which texts
are strings of RFC 8259 and what they decode to. `decode` reads exactly these, and what `quote` writes decodes to what
was quoted.
-/

namespace Rut.Json

def kMaxBytes : Nat := 8192
def kMaxNodes : Nat := 2048
def kMaxDepth : Nat := 64

/-! ## Writer -/

/-- `Writer`: the bytes written so far into a buffer of `cap` bytes. -/
structure Writer where
  out : Str
  cap : Nat
  ok : Bool
  fits : out.length ≤ cap

namespace Writer

/-- A writer at the start of a buffer of `cap` bytes. -/
def fresh (cap : Nat) : Writer := ⟨[], cap, true, Nat.zero_le cap⟩

def put (w : Writer) (c : UInt8) : Writer :=
  if h : w.out.length = w.cap then { w with ok := false }
  else ⟨w.out ++ [c], w.cap, w.ok, by have := w.fits; simp; omega⟩

def text (w : Writer) (s : Str) : Writer :=
  if h : w.cap - w.out.length < s.length then { w with ok := false }
  else ⟨w.out ++ s, w.cap, w.ok, by have := w.fits; simp; omega⟩

def puts (w : Writer) (s : Str) : Writer := s.foldl put w

/-- `return w.ok`: the writer when everything put into it fitted. -/
def done (w : Writer) : Option Writer := if w.ok then some w else none

/-- All of `s` behind what was written, when it fits. The methods of the writer are calls of this. -/
def emit (w : Writer) (s : Str) : Option Writer :=
  if h : w.ok = true ∧ w.out.length + s.length ≤ w.cap then
    some ⟨w.out ++ s, w.cap, true, by rw [List.length_append]; exact h.2⟩
  else none

variable {w w' : Writer} {c : UInt8} {s t : Str}

@[simp] lemma fresh_ok (cap : Nat) : (fresh cap).ok = true := rfl

@[simp] lemma fresh_cap (cap : Nat) : (fresh cap).cap = cap := rfl

@[simp] lemma fresh_out (cap : Nat) : (fresh cap).out = [] := rfl

lemma emit_eq_some (h : w.emit s = some w') :
    w.out.length + s.length ≤ w.cap ∧ w'.out = w.out ++ s ∧ w'.cap = w.cap ∧ w'.ok = true := by
  rw [emit] at h
  split at h
  next hroom =>
    cases h
    exact ⟨hroom.2, rfl, rfl, rfl⟩
  next => cases h

lemma emit_isSome : (w.emit s).isSome ↔ w.ok = true ∧ w.out.length + s.length ≤ w.cap := by
  rw [emit]
  split <;> simp_all

lemma emit_of_full (h : ¬ (w.ok = true ∧ w.out.length + s.length ≤ w.cap)) : w.emit s = none := by
  rw [emit, dif_neg h]

lemma emit_congr (hok : w.ok = true ↔ w'.ok = true) (hcap : w.cap = w'.cap) (hout : w.out ++ s = w'.out ++ t) :
    w.emit s = w'.emit t := by
  have hlen := congrArg List.length hout
  rw [List.length_append, List.length_append] at hlen
  simp only [emit, hout, hcap, hlen, hok]

@[simp] lemma done_eq (w : Writer) : w.done = w.emit [] := by
  obtain ⟨out, cap, ok, fits⟩ := w
  cases ok <;> simp [done, emit, fits]

@[simp] lemma emit_put (w : Writer) (c : UInt8) (s : Str) : (w.put c).emit s = w.emit (c :: s) := by
  rw [put]
  split
  next hfull =>
    rw [emit_of_full (by simp), emit_of_full]
    rw [List.length_cons]
    omega
  next => apply emit_congr <;> simp

@[simp] lemma emit_text (w : Writer) (s t : Str) : (w.text s).emit t = w.emit (s ++ t) := by
  rw [text]
  split
  next hfull =>
    rw [emit_of_full (by simp), emit_of_full]
    rw [List.length_append]
    omega
  next => apply emit_congr <;> simp

@[simp] lemma emit_puts (w : Writer) (s t : Str) : (w.puts s).emit t = w.emit (s ++ t) := by
  induction s generalizing w with
  | nil => rfl
  | cons c s ih =>
    rw [puts, List.foldl_cons, ← puts, ih, emit_put]
    rfl

@[simp] lemma emit_bind_emit (w : Writer) (s t : Str) : ((w.emit s).bind fun w => w.emit t) = w.emit (s ++ t) := by
  cases hs : w.emit s with
  | none =>
    have hfull : ¬ (w.ok = true ∧ w.out.length + s.length ≤ w.cap) := by
      rw [← emit_isSome, hs]
      simp
    rw [Option.bind_none, emit_of_full]
    rintro ⟨hok, hroom⟩
    rw [List.length_append] at hroom
    exact hfull ⟨hok, by omega⟩
  | some w' =>
    obtain ⟨-, hout, hcap, hok⟩ := emit_eq_some hs
    have hroom := emit_isSome.1 (hs ▸ rfl : (w.emit s).isSome)
    apply emit_congr
    · simp [hok, hroom.1]
    · exact hcap
    · rw [hout, List.append_assoc]

lemma emit_fresh {cap} (h : s.length ≤ cap) : (fresh cap).emit s = some ⟨s, cap, true, h⟩ := by
  simp [emit, fresh, h]

end Writer

/-! ## Unicode scalars -/

def IsScalar (cp : Nat) : Prop := cp ≤ 0x10ffff ∧ ¬ (0xd800 ≤ cp ∧ cp ≤ 0xdfff)

instance (cp : Nat) : Decidable (IsScalar cp) := inferInstanceAs (Decidable (_ ∧ _))

/-- The bytes `Writer::utf8` puts for a code point. -/
def utf8 (cp : Nat) : Str :=
  if cp < 0x80 then [UInt8.ofNat cp]
  else if cp < 0x800 then [UInt8.ofNat (0xc0 ||| cp >>> 6), UInt8.ofNat (0x80 ||| cp &&& 63)]
  else if cp < 0x10000 then
    [UInt8.ofNat (0xe0 ||| cp >>> 12), UInt8.ofNat (0x80 ||| cp >>> 6 &&& 63), UInt8.ofNat (0x80 ||| cp &&& 63)]
  else
    [UInt8.ofNat (0xf0 ||| cp >>> 18), UInt8.ofNat (0x80 ||| cp >>> 12 &&& 63),
      UInt8.ofNat (0x80 ||| cp >>> 6 &&& 63), UInt8.ofNat (0x80 ||| cp &&& 63)]

/-- The loop of `scalar` over the `n` bytes behind the lead byte. -/
def continuation : Nat → Nat → Str → Option (Nat × Str)
  | 0, cp, rest => some (cp, rest)
  | _ + 1, _, [] => none
  | n + 1, cp, d :: rest =>
    if d &&& 0xc0 ≠ 0x80 then none else continuation n (cp <<< 6 ||| (d &&& 63).toNat) rest

/-- A sequence with `n` bytes behind the lead byte, of at least `min`. -/
def sequence (n min cp : Nat) (rest : Str) : Option (Nat × Str) :=
  match continuation n cp rest with
  | none => none
  | some (cp, rest) =>
    if min ≤ cp ∧ cp ≤ 0x10ffff ∧ ¬ (0xd800 ≤ cp ∧ cp ≤ 0xdfff) then some (cp, rest) else none

def scalar : Str → Option (Nat × Str)
  | [] => none
  | c :: rest =>
    if c < 128 then some (c.toNat, rest)
    else if 0xc2 ≤ c ∧ c ≤ 0xdf then sequence 1 0x80 (c &&& 31).toNat rest
    else if 0xe0 ≤ c ∧ c ≤ 0xef then sequence 2 0x800 (c &&& 15).toNat rest
    else if 0xf0 ≤ c ∧ c ≤ 0xf4 then sequence 3 0x10000 (c &&& 7).toNat rest
    else none

def tailByte (v : Nat) : UInt8 := UInt8.ofNat (0x80 + v % 64)

lemma tailByte_and (v : Nat) : tailByte v &&& 0xc0 = 0x80 ∧ (tailByte v &&& 63).toNat = v % 64 := by
  have hall : ∀ n < 64, UInt8.ofNat (0x80 + n) &&& 0xc0 = 0x80 ∧ (UInt8.ofNat (0x80 + n) &&& 63).toNat = n := by
    decide
  exact hall _ (Nat.mod_lt v (by decide))

lemma and63_lt (d : UInt8) : (d &&& 63).toNat < 64 := by
  exact Nat.lt_of_le_of_lt Nat.and_le_right (by decide)

lemma shift_or {cp v} (hv : v < 64) : cp <<< 6 ||| v = cp * 64 + v := by
  rw [Nat.shiftLeft_eq, Nat.mul_comm, ← Nat.two_pow_add_eq_or_of_lt hv cp, Nat.mul_comm]

lemma or_tail (v : Nat) : UInt8.ofNat (0x80 ||| v &&& 63) = tailByte v := by
  have hand : v &&& 63 = v % 64 := Nat.and_two_pow_sub_one_eq_mod v 6
  have hor := Nat.two_pow_add_eq_or_of_lt (i := 6) (Nat.mod_lt v (by decide)) 2
  rw [tailByte, hand, ← hor]

/-- The `n` low groups of six bits of a number, each in a byte behind the lead byte. -/
def tails : Nat → Nat → Str
  | 0, _ => []
  | n + 1, v => tailByte (v / 64 ^ n) :: tails n v

lemma lead_and :
    (∀ n < 32, (UInt8.ofNat (0xc0 + n) &&& 31).toNat = n) ∧ (∀ n < 16, (UInt8.ofNat (0xe0 + n) &&& 15).toNat = n) ∧
      ∀ n < 8, (UInt8.ofNat (0xf0 + n) &&& 7).toNat = n := by
  decide

lemma eq_of_bits (c : UInt8) : (c &&& 0xc0 = 0x80 → c = tailByte (c &&& 63).toNat) ∧
    (0xc2 ≤ c ∧ c ≤ 0xdf → c = UInt8.ofNat (0xc0 + (c &&& 31).toNat) ∧ (c &&& 31).toNat < 32) ∧
    (0xe0 ≤ c ∧ c ≤ 0xef → c = UInt8.ofNat (0xe0 + (c &&& 15).toNat) ∧ (c &&& 15).toNat < 16) ∧
    (0xf0 ≤ c ∧ c ≤ 0xf4 → c = UInt8.ofNat (0xf0 + (c &&& 7).toNat)) := by
  revert c
  apply forall_uint8
  decide +kernel

lemma eq_tailByte (d : UInt8) (h : d &&& 0xc0 = 0x80) : d = tailByte (d &&& 63).toNat := (eq_of_bits d).1 h

lemma eq_lead_two {c : UInt8} (h : 0xc2 ≤ c ∧ c ≤ 0xdf) :
    c = UInt8.ofNat (0xc0 + (c &&& 31).toNat) ∧ (c &&& 31).toNat < 32 := (eq_of_bits c).2.1 h

lemma eq_lead_three {c : UInt8} (h : 0xe0 ≤ c ∧ c ≤ 0xef) :
    c = UInt8.ofNat (0xe0 + (c &&& 15).toNat) ∧ (c &&& 15).toNat < 16 := (eq_of_bits c).2.2.1 h

lemma eq_lead_four {c : UInt8} (h : 0xf0 ≤ c ∧ c ≤ 0xf4) : c = UInt8.ofNat (0xf0 + (c &&& 7).toNat) :=
  (eq_of_bits c).2.2.2 h

lemma or_lead (k n : Nat) {v : Nat} (hv : v < 2 ^ n) : 2 ^ n * k ||| v = 2 ^ n * k + v :=
  (Nat.two_pow_add_eq_or_of_lt hv k).symm

lemma utf8_eq {cp} (h : cp ≤ 0x10ffff) : utf8 cp = if cp < 0x80 then [UInt8.ofNat cp]
      else if cp < 0x800 then UInt8.ofNat (0xc0 + cp / 64 ^ 1) :: tails 1 cp
      else if cp < 0x10000 then UInt8.ofNat (0xe0 + cp / 64 ^ 2) :: tails 2 cp
      else UInt8.ofNat (0xf0 + cp / 64 ^ 3) :: tails 3 cp := by
  simp only [utf8, or_tail, Nat.shiftRight_eq_div_pow, tails, Nat.reducePow, Nat.div_one]
  split_ifs with h₁ h₂ h₃
  · rfl
  · have hlead := or_lead 6 5 (v := cp / 64) (by omega)
    simp only [Nat.reducePow, Nat.reduceMul] at hlead
    rw [hlead]
  · have hlead := or_lead 14 4 (v := cp / 4096) (by omega)
    simp only [Nat.reducePow, Nat.reduceMul] at hlead
    rw [hlead]
  · have hlead := or_lead 30 3 (v := cp / 262144) (by omega)
    simp only [Nat.reducePow, Nat.reduceMul] at hlead
    rw [hlead]

lemma continuation_iff {n cp v s rest} :
    continuation n cp s = some (v, rest) ↔ v / 64 ^ n = cp ∧ s = tails n v ++ rest := by
  induction n generalizing cp s with
  | zero =>
    simp only [continuation, Option.some.injEq, Prod.mk.injEq, pow_zero, Nat.div_one, tails, List.nil_append]
    rw [eq_comm]
  | succ n ih =>
    have hdiv : v / 64 ^ (n + 1) = v / 64 ^ n / 64 := by rw [pow_succ, Nat.div_div_eq_div_mul]
    cases s with
    | nil => simp [continuation, tails]
    | cons d s =>
      have hlt := and63_lt d
      rw [continuation, tails, List.cons_append, List.cons.injEq, hdiv]
      split
      next hmark =>
        -- a byte that does not continue a sequence is none of `tails`
        refine iff_of_false (by simp) ?_
        rintro ⟨-, rfl, -⟩
        exact hmark (tailByte_and _).1
      next hmark =>
        rw [ne_eq, not_not] at hmark
        rw [shift_or hlt, ih]
        constructor
        · rintro ⟨hv, hs⟩
          refine ⟨by omega, ?_, hs⟩
          rw [eq_tailByte d hmark, tailByte, tailByte]
          congr 2
          omega
        · rintro ⟨rfl, rfl, hs⟩
          rw [(tailByte_and _).2]
          exact ⟨by omega, hs⟩

lemma sequence_iff {n min cp v s rest} :
    sequence n min cp s = some (v, rest) ↔ (v / 64 ^ n = cp ∧ s = tails n v ++ rest) ∧ min ≤ v ∧ IsScalar v := by
  rw [← continuation_iff, sequence]
  split
  next heq => simp [heq]
  next cp' rest' heq =>
    rw [heq]
    split
    next hv =>
      simp only [Option.some.injEq, Prod.mk.injEq]
      constructor
      · rintro ⟨rfl, rfl⟩
        exact ⟨⟨rfl, rfl⟩, hv⟩
      · exact fun h => h.1
    next hv =>
      refine iff_of_false (by simp) ?_
      rintro ⟨hsame, hgood⟩
      cases hsame
      exact hv hgood

lemma scalar_one {n : Nat} (h : n < 128) (rest : Str) : scalar (UInt8.ofNat n :: rest) = some (n, rest) := by
  have hn : (UInt8.ofNat n).toNat = n := UInt8.toNat_ofNat_of_lt' (show n < 256 by omega)
  rw [scalar, if_pos (UInt8.lt_iff_toNat_lt.2 (by rw [hn]; exact h)), hn]

lemma scalar_lead {n : Nat} (low : 0xc2 ≤ n) (high : n ≤ 0xf4) (rest : Str) : scalar (UInt8.ofNat n :: rest) =
      if n ≤ 0xdf then sequence 1 0x80 (UInt8.ofNat n &&& 31).toNat rest
      else if n ≤ 0xef then sequence 2 0x800 (UInt8.ofNat n &&& 15).toNat rest
      else sequence 3 0x10000 (UInt8.ofNat n &&& 7).toNat rest := by
  have hn : (UInt8.ofNat n).toNat = n := UInt8.toNat_ofNat_of_lt' (show n < 256 by omega)
  simp only [scalar, UInt8.lt_iff_toNat_lt, UInt8.le_iff_toNat_le, hn, UInt8.reduceToNat]
  split_ifs <;> first | rfl | omega

/-- `scalar` reads the encodings of the scalars, and nothing else. -/
lemma scalar_iff {s rest cp} : scalar s = some (cp, rest) ↔ IsScalar cp ∧ s = utf8 cp ++ rest := by
  constructor
  · intro h
    cases s with
    | nil => cases h
    | cons c s =>
      rw [scalar] at h
      split_ifs at h with h₁ h₂ h₃ h₄
      · cases h
        have hlt : c.toNat < 0x80 := UInt8.lt_iff_toNat_lt.1 h₁
        refine ⟨⟨by omega, by omega⟩, ?_⟩
        rw [utf8, if_pos hlt, UInt8.ofNat_toNat]
        rfl
      · obtain ⟨⟨hlead, rfl⟩, hmin, hscalar⟩ := sequence_iff.1 h
        obtain ⟨hc, hlt⟩ := eq_lead_two h₂
        rw [← hlead] at hc hlt
        rw [utf8_eq hscalar.1, if_neg (by omega), if_pos (by omega), ← hc]
        exact ⟨hscalar, rfl⟩
      · obtain ⟨⟨hlead, rfl⟩, hmin, hscalar⟩ := sequence_iff.1 h
        obtain ⟨hc, hlt⟩ := eq_lead_three h₃
        rw [← hlead] at hc hlt
        rw [utf8_eq hscalar.1, if_neg (by omega), if_neg (by omega), if_pos (by omega), ← hc]
        exact ⟨hscalar, rfl⟩
      · obtain ⟨⟨hlead, rfl⟩, hmin, hscalar⟩ := sequence_iff.1 h
        have hc := eq_lead_four h₄
        rw [← hlead] at hc
        rw [utf8_eq hscalar.1, if_neg (by omega), if_neg (by omega), if_neg (by omega), ← hc]
        exact ⟨hscalar, rfl⟩
  · rintro ⟨hscalar, rfl⟩
    have hbound := hscalar.1
    obtain ⟨htwo, hthree, hfour⟩ := lead_and
    rw [utf8_eq hbound]
    split_ifs with h₁ h₂ h₃
    · exact scalar_one h₁ rest
    · have hlt : cp / 64 ^ 1 < 32 := by omega
      rw [List.cons_append, scalar_lead (by omega) (by omega), if_pos (by omega), htwo _ hlt, sequence_iff]
      exact ⟨⟨rfl, rfl⟩, by omega, hscalar⟩
    · have hlt : cp / 64 ^ 2 < 16 := by omega
      rw [List.cons_append, scalar_lead (by omega) (by omega), if_neg (by omega), if_pos (by omega), hthree _ hlt,
        sequence_iff]
      exact ⟨⟨rfl, rfl⟩, by omega, hscalar⟩
    · have hlt : cp / 64 ^ 3 < 8 := by omega
      rw [List.cons_append, scalar_lead (by omega) (by omega), if_neg (by omega), if_neg (by omega), hfour _ hlt,
        sequence_iff]
      exact ⟨⟨rfl, rfl⟩, by omega, hscalar⟩

lemma utf8_length_le (cp : Nat) :
    1 ≤ (utf8 cp).length ∧ (cp < 0x80 → (utf8 cp).length = 1) ∧ (cp < 0x10000 → (utf8 cp).length ≤ 3) ∧
      (utf8 cp).length ≤ 4 := by
  rw [utf8]
  split_ifs <;> simp <;> omega

/-! ## Strings -/

/-- The digit of `hex4`. -/
def hexDigit (c : UInt8) : Option Nat :=
  if ch '0' ≤ c ∧ c ≤ ch '9' then some (c.toNat - (ch '0').toNat)
  else if ch 'a' ≤ c ∧ c ≤ ch 'f' then some (c.toNat - (ch 'a').toNat + 10)
  else if ch 'A' ≤ c ∧ c ≤ ch 'F' then some (c.toNat - (ch 'A').toNat + 10)
  else none

/-- The loop of `hex4` with `n` digits to read. -/
def hexLoop : Nat → Nat → Str → Option (Nat × Str)
  | 0, cp, rest => some (cp, rest)
  | _ + 1, _, [] => none
  | n + 1, cp, c :: rest =>
    match hexDigit c with
    | none => none
    | some d => hexLoop n (cp <<< 4 ||| d) rest

def hex4 (rest : Str) : Option (Nat × Str) := hexLoop 4 0 rest

def escape (e : UInt8) : Option Nat :=
  if e = ch '"' then some 0x22
  else if e = ch '\\' then some 0x5c
  else if e = ch '/' then some 0x2f
  else if e = ch 'b' then some 8
  else if e = ch 'f' then some 12
  else if e = ch 'n' then some 10
  else if e = ch 'r' then some 13
  else if e = ch 't' then some 9
  else none

/-- `case 'u'` of `decode`. -/
def codeUnit (rest : Str) : Option (Nat × Str) :=
  match hex4 rest with
  | none => none
  | some (cp, rest) =>
    if 0xd800 ≤ cp ∧ cp ≤ 0xdbff then
      match rest with
      | b :: u :: rest =>
        if b ≠ ch '\\' ∨ u ≠ ch 'u' then none
        else
          match hex4 rest with
          | none => none
          | some (lo, rest) =>
            if lo < 0xdc00 ∨ 0xdfff < lo then none
            else some (0x10000 + (cp - 0xd800) <<< 10 + lo - 0xdc00, rest)
      | _ => none
    else if 0xdc00 ≤ cp ∧ cp ≤ 0xdfff then none
    else some (cp, rest)

/-- The branch of `decode` behind a backslash. -/
def escaped : Str → Option (Nat × Str)
  | [] => none
  | e :: rest => if e = ch 'u' then codeUnit rest else (escape e).map fun cp => (cp, rest)

/-- The branch of `decode` for a character that stands for itself. -/
def printable (rest : Str) : Option (Nat × Str) :=
  match scalar rest with
  | none => none
  | some (cp, rest) => if cp < 32 then none else some (cp, rest)

/-- The code point a turn of the loop of `decode` reads. -/
def character : Str → Option (Nat × Str)
  | [] => none
  | c :: rest => if c = ch '\\' then escaped rest else printable (c :: rest)

/-- The loop of `decode`. Every turn reads a byte, so that a turn for each byte is enough. -/
def decodeLoop : Nat → Str → Writer → Option (Str × Writer)
  | 0, _, _ => none
  | _ + 1, [], _ => none
  | turns + 1, c :: rest, out =>
    if c = ch '"' then out.done.map fun out => (rest, out)
    else
      match character (c :: rest) with
      | none => none
      | some (cp, rest) => decodeLoop turns rest (out.puts (utf8 cp))

def decode : Str → Writer → Option (Str × Writer)
  | [], _ => none
  | c :: rest, out => if c ≠ ch '"' then none else decodeLoop (rest.length + 1) rest out

def HexText (t : Str) (v : Nat) : Prop :=
  ∃ a b c d, t.map hexDigit = [some a, some b, some c, some d] ∧ v = ((a * 16 + b) * 16 + c) * 16 + d

/-- One character of a string of RFC 8259, section 7: itself, an escape of one letter, an escaped
code unit, or a pair of escaped surrogates. -/
inductive CharText : Str → Nat → Prop where
  | plain {cp} :
    IsScalar cp →
    0x20 ≤ cp →
    cp ≠ 0x22 →
    cp ≠ 0x5c →
    CharText (utf8 cp) cp
  | letter {e cp} :
    escape e = some cp →
    CharText [ch '\\', e] cp
  | unit {t cp} :
    HexText t cp →
    ¬ (0xd800 ≤ cp ∧ cp ≤ 0xdfff) →
    CharText (ch '\\' :: ch 'u' :: t) cp
  | pair {t t' hi lo} :
    HexText t hi →
    0xd800 ≤ hi ∧ hi ≤ 0xdbff →
    HexText t' lo →
    0xdc00 ≤ lo ∧ lo ≤ 0xdfff →
    CharText (ch '\\' :: ch 'u' :: t ++ ch '\\' :: ch 'u' :: t') (0x10000 + (hi - 0xd800) * 0x400 + (lo - 0xdc00))

inductive CharsText : Str → Str → Prop where
  | nil : CharsText [] []
  | cons {t cp ts bytes} :
    CharText t cp →
    CharsText ts bytes →
    CharsText (t ++ ts) (utf8 cp ++ bytes)

def StringText (t content : Str) : Prop := ∃ ts, t = ch '"' :: ts ++ [ch '"'] ∧ CharsText ts content

lemma hexDigit_lt {c d} (h : hexDigit c = some d) : d < 16 := by
  revert h d
  apply forall_uint8 (P := fun c => ∀ {d}, hexDigit c = some d → d < 16)
  have hall : ∀ n < 256, ∀ d ∈ hexDigit (UInt8.ofNat n), d < 16 := by decide +kernel
  intro n hn d h
  exact hall n hn d h

lemma hexLoop_iff {n cp v s rest} : hexLoop n cp s = some (v, rest) ↔
      ∃ t, ∃ ds : List Nat, s = t ++ rest ∧ t.map hexDigit = ds.map some ∧ ds.length = n ∧
        v = ds.foldl (fun v d => v * 16 + d) cp := by
  induction n generalizing cp s with
  | zero =>
    simp only [hexLoop, Option.some.injEq, Prod.mk.injEq]
    constructor
    · rintro ⟨rfl, rfl⟩
      exact ⟨[], [], rfl, rfl, rfl, rfl⟩
    · rintro ⟨t, ds, rfl, ht, hlen, rfl⟩
      rw [List.length_eq_zero_iff] at hlen
      subst hlen
      rw [List.map_nil, List.map_eq_nil_iff] at ht
      subst ht
      exact ⟨rfl, rfl⟩
  | succ n ih =>
    constructor
    · intro h
      cases s with
      | nil => cases h
      | cons c s =>
        rw [hexLoop] at h
        split at h
        next => cases h
        next d hd =>
          obtain ⟨t, ds, rfl, ht, rfl, rfl⟩ := ih.1 h
          refine ⟨c :: t, d :: ds, rfl, ?_, rfl, ?_⟩
          · rw [List.map_cons, List.map_cons, hd, ht]
          · have hor := Nat.two_pow_add_eq_or_of_lt (i := 4) (hexDigit_lt hd) cp
            rw [List.foldl_cons, Nat.shiftLeft_eq, Nat.mul_comm, ← hor, Nat.mul_comm]
    · rintro ⟨t, ds, rfl, ht, hlen, rfl⟩
      cases ds with
      | nil => cases hlen
      | cons d ds =>
        rw [List.map_cons, List.map_eq_cons_iff] at ht
        obtain ⟨c, t, rfl, hd, hds⟩ := ht
        have hor := Nat.two_pow_add_eq_or_of_lt (i := 4) (hexDigit_lt hd) cp
        rw [List.cons_append, hexLoop, hd]
        apply ih.2
        refine ⟨t, ds, rfl, hds, Nat.succ.inj hlen, ?_⟩
        rw [List.foldl_cons, Nat.shiftLeft_eq, Nat.mul_comm cp, ← hor, Nat.mul_comm]

/-- `hex4` reads four digits. -/
lemma hex4_iff {v s rest} : hex4 s = some (v, rest) ↔ ∃ t, s = t ++ rest ∧ HexText t v := by
  rw [hex4, hexLoop_iff]
  constructor
  · rintro ⟨t, ds, rfl, ht, hlen, rfl⟩
    match ds, hlen with
    | [a, b, c, d], _ => exact ⟨t, rfl, a, b, c, d, ht, by simp⟩
  · rintro ⟨t, rfl, a, b, c, d, ht, rfl⟩
    exact ⟨t, [a, b, c, d], rfl, ht, rfl, by simp⟩

lemma HexText.length {t v} (h : HexText t v) : t.length = 4 := by
  obtain ⟨a, b, c, d, ht, -⟩ := h
  simpa using congrArg List.length ht

lemma HexText.lt {t v} (h : HexText t v) : v < 0x10000 := by
  obtain ⟨a, b, c, d, ht, rfl⟩ := h
  have hall : ∀ x, some x ∈ [some a, some b, some c, some d] → x < 16 := by
    intro x hx
    rw [← ht, List.mem_map] at hx
    obtain ⟨e, -, he⟩ := hx
    exact hexDigit_lt he
  have ha := hall a (by simp)
  have hb := hall b (by simp)
  have hc := hall c (by simp)
  have hd := hall d (by simp)
  omega

/-! ### What `decode` reads -/

lemma utf8_ne_nil (cp : Nat) : utf8 cp ≠ [] := by
  have hlen := (utf8_length_le cp).1
  intro h
  rw [h] at hlen
  cases hlen

lemma utf8_head {cp c} {t : Str} (hs : IsScalar cp) (ht : utf8 cp = c :: t) (hc : c < 128) : cp = c.toNat := by
  have h : scalar (c :: t) = some (cp, []) := scalar_iff.2 ⟨hs, by rw [← ht, List.append_nil]⟩
  rw [scalar, if_pos hc] at h
  cases h
  rfl

lemma codeUnit_sound {s rest cp} (h : codeUnit s = some (cp, rest)) :
    ∃ t, s = t ++ rest ∧ CharText (ch '\\' :: ch 'u' :: t) cp := by
  rw [codeUnit] at h
  split at h
  next => cases h
  next hi s₁ hhi =>
    obtain ⟨t, rfl, ht⟩ := hex4_iff.1 hhi
    split at h
    next hpair =>
      split at h
      next b u s₂ =>
        split at h
        next => cases h
        next hbu =>
          simp only [not_or, ne_eq, not_not] at hbu
          obtain ⟨rfl, rfl⟩ := hbu
          split at h
          next => cases h
          next lo s₃ hlo =>
            obtain ⟨t', rfl, ht'⟩ := hex4_iff.1 hlo
            split at h
            next => cases h
            next hrange =>
              simp only [Option.some.injEq, Prod.mk.injEq] at h
              obtain ⟨rfl, rfl⟩ := h
              refine ⟨t ++ ch '\\' :: ch 'u' :: t', by simp, ?_⟩
              have hvalue : 0x10000 + (hi - 0xd800) <<< 10 + lo - 0xdc00 =
                  0x10000 + (hi - 0xd800) * 0x400 + (lo - 0xdc00) := by
                omega
              rw [hvalue]
              exact .pair ht hpair ht' (by omega)
      next => cases h
    next hhigh =>
      split at h
      next => cases h
      next hlow =>
        cases h
        exact ⟨t, rfl, .unit ht (by omega)⟩

lemma escaped_sound {s rest cp} (h : escaped s = some (cp, rest)) :
    ∃ t, s = t ++ rest ∧ CharText (ch '\\' :: t) cp := by
  cases s with
  | nil => cases h
  | cons e s =>
    rw [escaped] at h
    split at h
    next hu =>
      subst hu
      obtain ⟨t, rfl, ht⟩ := codeUnit_sound h
      exact ⟨_, rfl, ht⟩
    next =>
      simp only [Option.map_eq_some_iff, Prod.mk.injEq] at h
      obtain ⟨cp, he, rfl, rfl⟩ := h
      exact ⟨[e], rfl, .letter he⟩

lemma printable_iff {s rest cp} : printable s = some (cp, rest) ↔ IsScalar cp ∧ s = utf8 cp ++ rest ∧ 32 ≤ cp := by
  rw [← and_assoc, ← scalar_iff, printable]
  split
  next heq => simp [heq]
  next cp' rest' heq =>
    rw [heq]
    split
    next hlow =>
      refine iff_of_false (by simp) ?_
      rintro ⟨⟨rfl, -⟩, hhigh⟩
      omega
    next hhigh =>
      simp only [Option.some.injEq, Prod.mk.injEq]
      constructor
      · rintro ⟨rfl, rfl⟩
        exact ⟨⟨rfl, rfl⟩, by omega⟩
      · exact fun h => h.1

lemma character_sound {c} {s rest : Str} {cp} (h : character (c :: s) = some (cp, rest))
    (hc : c ≠ ch '"') : ∃ t, c :: s = t ++ rest ∧ CharText t cp := by
  rw [character] at h
  split at h
  next hslash =>
    subst hslash
    obtain ⟨t, rfl, ht⟩ := escaped_sound h
    exact ⟨_, rfl, ht⟩
  next hslash =>
    obtain ⟨hs, htext, hprint⟩ := printable_iff.1 h
    have hhead : ∀ b : UInt8, b < 128 → c ≠ b → cp ≠ b.toNat := by
      intro b hb hne hcp
      rw [utf8, if_pos (by rw [hcp]; exact UInt8.lt_iff_toNat_lt.1 hb), hcp, UInt8.ofNat_toNat] at htext
      exact hne (List.cons.inj htext).1
    exact ⟨_, htext, .plain hs hprint (hhead (ch '"') (by decide) hc) (hhead (ch '\\') (by decide) hslash)⟩

lemma escape_ne {e cp} (h : escape e = some cp) : e ≠ ch 'u' := by
  rintro rfl
  cases h

lemma CharText.character {t cp} (h : CharText t cp) (rest : Str) :
    ∃ c s, t ++ rest = c :: s ∧ c ≠ ch '"' ∧ character (c :: s) = some (cp, rest) := by
  cases h with
  | plain hs hprint hquote hslash =>
    obtain ⟨c, tail, ht⟩ := List.exists_cons_of_ne_nil (utf8_ne_nil cp)
    have hne : ∀ b : UInt8, b < 128 → cp ≠ b.toNat → c ≠ b := by
      rintro b hb hcp rfl
      exact hcp (utf8_head hs ht hb)
    refine ⟨c, tail ++ rest, by rw [ht]; rfl, hne (ch '"') (by decide) hquote, ?_⟩
    rw [Json.character, if_neg (hne (ch '\\') (by decide) hslash), printable_iff, ht]
    exact ⟨hs, rfl, hprint⟩
  | @letter e cp he =>
    refine ⟨ch '\\', e :: rest, rfl, by decide, ?_⟩
    rw [Json.character, if_pos rfl, escaped, if_neg (escape_ne he), he]
    rfl
  | @unit t cp ht hrange =>
    refine ⟨ch '\\', ch 'u' :: (t ++ rest), rfl, by decide, ?_⟩
    have hhex : hex4 (t ++ rest) = some (cp, rest) := hex4_iff.2 ⟨t, rfl, ht⟩
    rw [Json.character, if_pos rfl, escaped, if_pos rfl, codeUnit, hhex]
    simp only
    rw [if_neg (by omega), if_neg (by omega)]
  | @pair t t' hi lo ht hhi ht' hlo =>
    refine ⟨ch '\\', ch 'u' :: (t ++ ch '\\' :: ch 'u' :: (t' ++ rest)), by simp, by decide, ?_⟩
    have hhex : hex4 (t ++ ch '\\' :: ch 'u' :: (t' ++ rest)) = some (hi, ch '\\' :: ch 'u' :: (t' ++ rest)) :=
      hex4_iff.2 ⟨t, rfl, ht⟩
    have hhex' : hex4 (t' ++ rest) = some (lo, rest) := hex4_iff.2 ⟨t', rfl, ht'⟩
    rw [Json.character, if_pos rfl, escaped, if_pos rfl, codeUnit, hhex]
    simp only
    rw [if_pos hhi, if_neg (by simp), hhex']
    simp only
    have hvalue : 0x10000 + (hi - 0xd800) <<< 10 + lo - 0xdc00 =
        0x10000 + (hi - 0xd800) * 0x400 + (lo - 0xdc00) := by
      omega
    rw [if_neg (by omega), hvalue]

/-- The loop of `decode` reads the characters up to the quotation mark. -/
lemma decodeLoop_sound {turns s rest out out'} (h : decodeLoop turns s out = some (rest, out')) :
    ∃ ts content, s = ts ++ ch '"' :: rest ∧ CharsText ts content ∧ out.emit content = some out' := by
  induction turns generalizing s out with
  | zero => cases h
  | succ turns ih =>
    cases s with
    | nil => cases h
    | cons c s =>
      rw [decodeLoop] at h
      split at h
      next hquote =>
        subst hquote
        simp only [Writer.done_eq, Option.map_eq_some_iff, Prod.mk.injEq] at h
        obtain ⟨w, hw, rfl, rfl⟩ := h
        exact ⟨[], [], rfl, .nil, hw⟩
      next hquote =>
        split at h
        next => cases h
        next cp s' hchar =>
          obtain ⟨t, ht, hct⟩ := character_sound hchar hquote
          obtain ⟨ts, content, rfl, hts, hout⟩ := ih h
          rw [Writer.emit_puts] at hout
          exact ⟨t ++ ts, utf8 cp ++ content, by rw [ht, List.append_assoc], .cons hct hts, hout⟩

lemma decodeLoop_complete {turns} {ts content rest : Str} {out out'} (h : CharsText ts content)
    (hturns : ts.length < turns) (hout : out.emit content = some out') :
    decodeLoop turns (ts ++ ch '"' :: rest) out = some (rest, out') := by
  induction h generalizing turns out with
  | nil =>
    cases turns with
    | zero => cases hturns
    | succ turns => rw [List.nil_append, decodeLoop, if_pos rfl, Writer.done_eq, hout, Option.map_some]
  | @cons t cp ts bytes hct hts ih =>
    cases turns with
    | zero => cases hturns
    | succ turns =>
      obtain ⟨c, s, hs, hquote, hchar⟩ := hct.character (ts ++ ch '"' :: rest)
      -- the character has a byte, so that a turn less is enough for the others
      have hlen : 1 ≤ t.length := by
        cases t with
        | nil =>
          obtain ⟨c, s, hs, hquote, -⟩ := hct.character [ch '"']
          cases hs
          exact absurd rfl hquote
        | cons => simp
      rw [List.length_append] at hturns
      rw [List.append_assoc, hs, decodeLoop, if_neg hquote, hchar]
      apply ih (by omega)
      rwa [Writer.emit_puts]

/-- `decode` reads the strings of RFC 8259 and writes what they stand for. -/
lemma decode_iff {s rest out out'} : decode s out = some (rest, out') ↔
      ∃ t content, s = t ++ rest ∧ StringText t content ∧ out.emit content = some out' := by
  constructor
  · intro h
    cases s with
    | nil => cases h
    | cons c s =>
      rw [decode] at h
      split at h
      next => cases h
      next hquote =>
        rw [ne_eq, not_not] at hquote
        subst hquote
        obtain ⟨ts, content, rfl, hts, hout⟩ := decodeLoop_sound h
        exact ⟨ch '"' :: ts ++ [ch '"'], content, by simp, ⟨ts, rfl, hts⟩, hout⟩
  · rintro ⟨t, content, rfl, ⟨ts, rfl, hts⟩, hout⟩
    rw [List.append_assoc, List.cons_append, List.singleton_append, decode, if_neg (by simp)]
    apply decodeLoop_complete hts ?_ hout
    rw [List.length_append]
    omega

lemma escape_lt {e cp} (h : escape e = some cp) : cp < 0x80 := by
  unfold escape at h
  repeat
    obtain ⟨-, ⟨⟩⟩ | ⟨-, h⟩ := ite_eq_iff.mp h
    · decide
  cases h

lemma CharText.length {t cp} (h : CharText t cp) : (utf8 cp).length ≤ t.length := by
  obtain ⟨-, hone, hthree, hfour⟩ := utf8_length_le cp
  cases h with
  | plain => exact Nat.le_refl _
  | letter he =>
    rw [hone (escape_lt he)]
    simp
  | unit ht hrange =>
    simp [ht.length]
    omega
  | pair ht _ ht' _ =>
    simp only [List.cons_append, List.length_cons, List.length_append, ht.length, ht'.length]
    omega

lemma CharsText.length {ts content} (h : CharsText ts content) : content.length ≤ ts.length := by
  induction h with
  | nil => exact Nat.le_refl _
  | cons hct _ ih =>
    have := hct.length
    rw [List.length_append, List.length_append]
    omega

lemma StringText.length {t content} (h : StringText t content) : content.length ≤ t.length := by
  obtain ⟨ts, rfl, hts⟩ := h
  have := hts.length
  simp
  omega

lemma StringText.unique {t t' content content' rest rest'} (h : StringText t content)
    (h' : StringText t' content') (heq : t ++ rest = t' ++ rest') : content = content' ∧ rest = rest' := by
  have hroom := @Writer.emit_fresh content (content.length + content'.length) (by omega)
  have hroom' := @Writer.emit_fresh content' (content.length + content'.length) (by omega)
  have hdec := decode_iff.2 ⟨t, content, (rfl : t ++ rest = t ++ rest), h, hroom⟩
  have hdec' := decode_iff.2 ⟨t', content', heq, h', hroom'⟩
  have hboth := hdec.symm.trans hdec'
  simp only [Option.some.injEq, Prod.mk.injEq, Writer.mk.injEq] at hboth
  exact ⟨hboth.2.1, hboth.1⟩

/-! ### What `quote` writes -/

/-- `digits` of `quote`. -/
def hexDigits : Str := lit ['0','1','2','3','4','5','6','7','8','9','a','b','c','d','e','f']

/-- A turn of the loop of `quote`, for the code point read. -/
def quoteChar (out : Writer) (cp : Nat) : Writer :=
  if cp = 0x22 ∨ cp = 0x5c then (out.put (ch '\\')).put (UInt8.ofNat cp)
  else if cp < 32 then
    ((out.text (lit ['\\','u','0','0'])).put (hexDigits.getD (cp >>> 4) 0)).put (hexDigits.getD (cp &&& 15) 0)
  else out.puts (utf8 cp)

/-- The loop of `quote`. -/
def quoteLoop : Nat → Str → Writer → Option Writer
  | _, [], out => (out.put (ch '"')).done
  | 0, _ :: _, _ => none
  | turns + 1, c :: rest, out =>
    match scalar (c :: rest) with
    | none => none
    | some (cp, rest) => quoteLoop turns rest (quoteChar out cp)

def quote (s : Str) (out : Writer) : Option Writer := quoteLoop s.length s (out.put (ch '"'))

/-- The text `quote` writes for a code point. -/
def quotedChar (cp : Nat) : Str :=
  if cp = 0x22 ∨ cp = 0x5c then [ch '\\', UInt8.ofNat cp]
  else if cp < 32 then lit ['\\','u','0','0'] ++ [hexDigits.getD (cp >>> 4) 0, hexDigits.getD (cp &&& 15) 0]
  else utf8 cp

inductive Utf8Text : Str → List Nat → Prop where
  | nil : Utf8Text [] []
  | cons {cp s cps} :
    IsScalar cp →
    Utf8Text s cps →
    Utf8Text (utf8 cp ++ s) (cp :: cps)

/-- The string `quote` writes for the code points of its argument. -/
def quoted (cps : List Nat) : Str := ch '"' :: cps.flatMap quotedChar ++ [ch '"']

@[simp] lemma emit_quoteChar (out : Writer) (cp : Nat) (s : Str) :
    (quoteChar out cp).emit s = out.emit (quotedChar cp ++ s) := by
  rw [quoteChar, quotedChar]
  split_ifs <;> simp

lemma quotedChar_text {cp} (h : IsScalar cp) : CharText (quotedChar cp) cp := by
  rw [quotedChar]
  split_ifs with hquote hlow
  · rcases hquote with rfl | rfl
    · exact .letter rfl
    · exact .letter rfl
  · have hhex : ∀ n < 32, (lit ['0','0'] ++ [hexDigits.getD (n >>> 4) 0, hexDigits.getD (n &&& 15) 0]).map hexDigit =
        [some 0, some 0, some (n / 16), some (n % 16)] := by decide
    exact .unit ⟨0, 0, cp / 16, cp % 16, hhex cp hlow, by omega⟩ (by omega)
  · exact .plain h (by omega) (by omega) (by omega)

lemma Utf8Text.chars {s cps} (h : Utf8Text s cps) : CharsText (cps.flatMap quotedChar) s := by
  induction h with
  | nil => exact .nil
  | cons hcp _ ih => exact .cons (quotedChar_text hcp) ih

lemma Utf8Text.quoted {s : Str} {cps : List Nat} (h : Utf8Text s cps) : StringText (quoted cps) s :=
  ⟨_, rfl, h.chars⟩

lemma quoteLoop_utf8 {turns s cps} (h : Utf8Text s cps) (hturns : s.length ≤ turns)
    (out : Writer) : quoteLoop turns s out = out.emit (cps.flatMap quotedChar ++ [ch '"']) := by
  induction h generalizing turns out with
  | nil => cases turns <;> simp [quoteLoop]
  | @cons cp s cps hcp _ ih =>
    obtain ⟨c, t, ht⟩ := List.exists_cons_of_ne_nil (utf8_ne_nil cp)
    have hscalar : scalar (c :: (t ++ s)) = some (cp, s) := scalar_iff.2 ⟨hcp, by rw [ht]; rfl⟩
    rw [ht, List.cons_append, List.length_cons, List.length_append] at hturns
    cases turns with
    | zero => cases hturns
    | succ turns =>
      rw [ht, List.cons_append, quoteLoop, hscalar]
      simp only
      rw [ih (by omega), emit_quoteChar, List.flatMap_cons, List.append_assoc]

/-- `quote` writes the string for a text that is well-formed UTF-8. -/
lemma quote_utf8 {s cps} (h : Utf8Text s cps) (out : Writer) : quote s out = out.emit (quoted cps) := by
  rw [quote, quoteLoop_utf8 h (Nat.le_refl _), Writer.emit_put]
  rfl

lemma quoteLoop_sound {turns s out out'} (h : quoteLoop turns s out = some out') : ∃ cps, Utf8Text s cps := by
  induction turns generalizing s out with
  | zero =>
    cases s with
    | nil => exact ⟨[], .nil⟩
    | cons => cases h
  | succ turns ih =>
    cases s with
    | nil => exact ⟨[], .nil⟩
    | cons c s =>
      rw [quoteLoop] at h
      split at h
      next => cases h
      next cp s' hscalar =>
        obtain ⟨hcp, hs⟩ := scalar_iff.1 hscalar
        obtain ⟨cps, hcps⟩ := ih h
        rw [hs]
        exact ⟨cp :: cps, .cons hcp hcps⟩

lemma CharsText.utf8 {ts content} (h : CharsText ts content) : ∃ cps, Utf8Text content cps := by
  induction h with
  | nil => exact ⟨[], .nil⟩
  | @cons t cp ts bytes hct _ ih =>
    obtain ⟨cps, hcps⟩ := ih
    refine ⟨cp :: cps, .cons ?_ hcps⟩
    cases hct with
    | plain hs => exact hs
    | letter he =>
      have hlow := escape_lt he
      exact ⟨by omega, by omega⟩
    | unit ht hrange => exact ⟨by have := ht.lt; omega, hrange⟩
    | pair _ hhi _ hlo => exact ⟨by omega, by omega⟩

end Rut.Json
