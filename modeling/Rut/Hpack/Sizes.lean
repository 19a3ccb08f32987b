import Rut.Hpack.Integer
import Rut.Hpack.Block
import Rut.Hpack.HuffmanExact

/-!
# Sizes of encoded fields

How many octets `encode_integer`, `encode_string` and `encode_header` write, by the lengths of what they are given.
-/

namespace Rut.Hpack

/-- `encode_header`: a literal without indexing, or a reference to the static table. -/
def encodeHeader (name value : Str) : Str :=
  let full := staticFindFull name value
  if 0 < full then encodeInteger full 7 0x80
  else
    let nidx := staticFindName name
    encodeInteger nidx 4 0x00 ++ (if nidx = 0 then encodeString name else []) ++ encodeString value

def lengthOctets (n : Nat) : Nat :=
  if n < 127 then 1
  else if n < 127 + 128 then 2
  else if n < 127 + 128 ^ 2 then 3
  else if n < 127 + 128 ^ 3 then 4
  else if n < 127 + 128 ^ 4 then 5
  else 6

def huffmanSize (s : Str) : Nat := ((s.map fun b => (huffCode (octetSym b)).bits).sum + 7) / 8

def stringSize (s : Str) : Nat :=
  if huffmanSize s % 2 ^ 32 < s.length then lengthOctets (huffmanSize s % 2 ^ 32) + huffmanSize s
  else lengthOctets s.length + s.length

def fieldSize (name value : Str) : Nat :=
  if 0 < staticFindFull name value then 1
  else if staticFindName name = 0 then 1 + stringSize name + stringSize value
  else (if staticFindName name < 15 then 1 else 2) + stringSize value

/-! ## Integers -/

lemma length_integerTail {v k} (hlt : v < 128 ^ (k + 1)) (hge : k = 0 ∨ 128 ^ k ≤ v) :
    (integerTail v).length = k + 1 := by
  obtain ⟨more, last, htail, -, -, -, hlt', hge'⟩ := integerTail_groups v
  rw [htail, List.length_append, List.length_singleton]
  have hpow {a b : Nat} (h : 128 ^ a < 128 ^ b) : a < b := (Nat.pow_lt_pow_iff_right (by decide)).mp h
  have hle : k < more.length + 1 := by
    rcases hge with rfl | hge
    · omega
    · exact hpow (Nat.lt_of_le_of_lt hge hlt')
  have hle' : more.length < k + 1 := by
    by_cases hnil : more = []
    · rw [hnil, List.length_nil]
      omega
    · exact hpow (Nat.lt_of_le_of_lt (hge' hnil) hlt)
  omega

lemma length_encodeInteger {v} (top : Nat) (hv : v < 2 ^ 32) : (encodeInteger v 7 top).length = lengthOctets v := by
  rw [encodeInteger, lengthOctets]
  by_cases h : v < 127
  · have hmask : v < 2 ^ 7 - 1 := h
    simp only [if_pos hmask, if_pos h]
    rfl
  have hmask : ¬ v < 2 ^ 7 - 1 := h
  simp only [if_neg hmask, if_neg h, List.length_cons]
  split_ifs with h₁ h₂ h₃ h₄
  · rw [length_integerTail (k := 0) (by omega) (.inl rfl)]
  · rw [length_integerTail (k := 1) (by omega) (.inr (by omega))]
  · rw [length_integerTail (k := 2) (by omega) (.inr (by omega))]
  · rw [length_integerTail (k := 3) (by omega) (.inr (by omega))]
  · rw [length_integerTail (k := 4) (by omega) (.inr (by omega))]

lemma length_encodeInteger_index {v bits} (top : Nat) (hbits : 4 ≤ bits) (hv : v ≤ 61) :
    (encodeInteger v bits top).length = if v < 2 ^ bits - 1 then 1 else 2 := by
  rw [encodeInteger]
  by_cases h : v < 2 ^ bits - 1
  · simp only [if_pos h]
    rfl
  · simp only [if_neg h, List.length_cons]
    rw [length_integerTail (k := 0) (by omega) (.inl rfl)]

/-! ## Strings -/

lemma length_codeWords (s : Str) : (codeWords s).length = (s.map fun b => (huffCode (octetSym b)).bits).sum := by
  induction s with
  | nil => rfl
  | cons b s ih =>
    rw [codeWords, List.flatMap_cons, List.length_append, List.map_cons, List.sum_cons, ← ih, HuffCode.word,
      Lib.natBits_length]
    rfl

lemma length_huffmanEncode (s : Str) : (huffmanEncode s).length = huffmanSize s := by
  obtain ⟨pad, hpad, hbits⟩ := huffmanEncode_bits s
  have hlen := congrArg List.length hbits
  rw [← codeWords_eq, bitsOf_length, List.length_append, List.length_replicate, length_codeWords] at hlen
  rw [huffmanSize]
  omega

lemma length_encodeString {s} (hs : s.length < 2 ^ 32) : (encodeString s).length = stringSize s := by
  have hlen : huffmanEncodedLen s = huffmanSize s % 2 ^ 32 := rfl
  rw [encodeString, stringSize, hlen]
  split_ifs with h
  · rw [List.length_append, length_encodeInteger _ (by omega), length_huffmanEncode]
  · rw [List.length_append, length_encodeInteger _ hs]

/-! ## Fields -/

lemma findIndex_le {α} (p : α → Bool) (l : List α) : findIndex p l ≤ l.length := by
  unfold findIndex
  split
  · rename_i i h
    obtain ⟨hlt, -⟩ := List.findIdx?_eq_some_iff_getElem.mp h
    exact hlt
  · exact Nat.zero_le _

lemma static_long {name} (value : Str) (h : 27 < name.length) :
    staticFindName name = 0 ∧ staticFindFull name value = 0 := by
  have hshort : ∀ e ∈ kStatic, e.1.length ≤ 27 := by decide
  have hname : ∀ e ∈ kStatic, e.1 ≠ name := by
    rintro e he rfl
    have := hshort e he
    omega
  have hnone : kStatic.findIdx? (fun e => e.1 == name) = none :=
    List.findIdx?_eq_none_iff.mpr fun e he => beq_false_of_ne (hname e he)
  have hnone' : kStatic.findIdx? (fun e => e == (name, value)) = none :=
    List.findIdx?_eq_none_iff.mpr fun e he => beq_false_of_ne fun h => hname e he (congrArg Prod.fst h)
  constructor
  · rw [staticFindName, findIndex, hnone]
  · rw [staticFindFull, findIndex, hnone']

lemma length_encodeHeader {name value} (hname : name.length < 2 ^ 32) (hvalue : value.length < 2 ^ 32) :
    (encodeHeader name value).length = fieldSize name value := by
  have hfull : staticFindFull name value ≤ 61 := findIndex_le _ kStatic
  have hidx : staticFindName name ≤ 61 := findIndex_le _ kStatic
  rw [encodeHeader, fieldSize]
  by_cases h : 0 < staticFindFull name value
  · rw [if_pos h, if_pos h, length_encodeInteger_index _ (by decide) hfull, if_pos (by omega)]
  rw [if_neg h, if_neg h]
  by_cases hnew : staticFindName name = 0
  · rw [if_pos hnew]
    simp only [hnew, if_true, List.length_append, length_encodeString hname, length_encodeString hvalue]
    rfl
  · rw [if_neg hnew]
    simp only [if_neg hnew, List.append_nil, List.length_append, length_encodeString hvalue]
    rw [length_encodeInteger_index _ (by decide) hidx]
    rfl

end Rut.Hpack
