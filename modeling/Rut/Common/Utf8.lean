import Rut.Common.Types

/-!
# UTF-8

Port of `include/rut/common/utf8.h`. What `utf8_valid` accepts are the concatenations of the encodings of Unicode scalar
values; `Char` is the type of these and `String.utf8EncodeChar` their encoding of RFC 3629.
-/

namespace Rut

/-- The bytes behind the lead byte of a sequence, with the bits `cp` of the lead byte. -/
def utf8Sequence (cp min_cp : Nat) (tail : Str) : Bool :=
  let point := tail.foldl (fun cp cc => cp <<< 6 ||| (cc &&& 0x3F).toNat) cp
  (tail.all fun cc => cc &&& 0xC0 == 0x80) && decide (min_cp ≤ point) && decide (point ≤ 0x10FFFF) &&
    !(decide (0xD800 ≤ point) && decide (point ≤ 0xDFFF))

/-- `utf8_valid`. -/
def utf8_valid : Str → Bool
  | [] => true
  | c :: rest =>
    if c < 0x80 then utf8_valid rest
    else if c &&& 0xE0 = 0xC0 then
      match rest with
      | c₁ :: rest => utf8Sequence (c &&& 0x1F).toNat 0x80 [c₁] && utf8_valid rest
      | _ => false
    else if c &&& 0xF0 = 0xE0 then
      match rest with
      | c₁ :: c₂ :: rest => utf8Sequence (c &&& 0x0F).toNat 0x800 [c₁, c₂] && utf8_valid rest
      | _ => false
    else if c &&& 0xF8 = 0xF0 then
      match rest with
      | c₁ :: c₂ :: c₃ :: rest => utf8Sequence (c &&& 0x07).toNat 0x10000 [c₁, c₂, c₃] && utf8_valid rest
      | _ => false
    else false

/-! ## The bits of the bytes -/

lemma utf8_marks (c : UInt8) :
    (c &&& 0xC0 = 0x80 ↔ 0x80 ≤ c.toNat ∧ c.toNat < 0xC0) ∧ (c &&& 0xE0 = 0xC0 ↔ 0xC0 ≤ c.toNat ∧ c.toNat < 0xE0) ∧
      (c &&& 0xF0 = 0xE0 ↔ 0xE0 ≤ c.toNat ∧ c.toNat < 0xF0) ∧ (c &&& 0xF8 = 0xF0 ↔ 0xF0 ≤ c.toNat ∧ c.toNat < 0xF8) := by
  revert c
  apply forall_uint8
  decide +kernel

lemma utf8_bits (c : UInt8) :
    (c &&& 0x3F).toNat = c.toNat % 64 ∧ (c &&& 0x1F).toNat = c.toNat % 32 ∧ (c &&& 0x0F).toNat = c.toNat % 16 ∧
      (c &&& 0x07).toNat = c.toNat % 8 := by
  exact ⟨Nat.and_two_pow_sub_one_eq_mod _ 6, Nat.and_two_pow_sub_one_eq_mod _ 5, Nat.and_two_pow_sub_one_eq_mod _ 4,
    Nat.and_two_pow_sub_one_eq_mod _ 3⟩

def utf8Point (cp : Nat) (tail : Str) : Nat := tail.foldl (fun cp cc => cp * 64 + cc.toNat % 64) cp

lemma utf8Sequence_iff {cp min_cp tail} : utf8Sequence cp min_cp tail = true ↔
      (∀ cc ∈ tail, 0x80 ≤ cc.toNat ∧ cc.toNat < 0xC0) ∧ min_cp ≤ utf8Point cp tail ∧ (utf8Point cp tail).isValidChar := by
  have hpoint : tail.foldl (fun cp cc => cp <<< 6 ||| (cc &&& 0x3F).toNat) cp = utf8Point cp tail := by
    congr 1
    funext cp cc
    have hlt : cc.toNat % 64 < 2 ^ 6 := Nat.mod_lt _ (by decide)
    rw [(utf8_bits cc).1, ← Nat.shiftLeft_add_eq_or_of_lt hlt, Nat.shiftLeft_eq]
  have htail : ∀ cc : UInt8, (cc &&& 0xC0 == 0x80) = true ↔ 0x80 ≤ cc.toNat ∧ cc.toNat < 0xC0 := by
    intro cc
    rw [beq_iff_eq, (utf8_marks cc).1]
  unfold utf8Sequence
  grind

/-! ## The encodings -/

lemma exists_char {v : Nat} (h : v.isValidChar) : ∃ x : Char, x.val.toNat = v :=
  ⟨Char.ofNat v, by simp [Char.ofNat, h, Char.ofNatAux]⟩

lemma utf8Encode_toNat (x : Char) : (String.utf8EncodeChar x).map UInt8.toNat = if x.val.toNat ≤ 0x7f then [x.val.toNat]
      else if x.val.toNat ≤ 0x7ff then [0xC0 + x.val.toNat / 64, 0x80 + x.val.toNat % 64]
      else if x.val.toNat ≤ 0xffff then
        [0xE0 + x.val.toNat / 4096, 0x80 + x.val.toNat / 64 % 64, 0x80 + x.val.toNat % 64] else
        [0xF0 + x.val.toNat / 262144, 0x80 + x.val.toNat / 4096 % 64, 0x80 + x.val.toNat / 64 % 64,
          0x80 + x.val.toNat % 64] := by
  have hvalid : x.val.toNat.isValidChar := x.valid
  unfold String.utf8EncodeChar
  dsimp only
  split_ifs with h₁ h₂ h₃
  all_goals
    simp only [List.map_cons, List.map_nil, UInt8.toNat_ofNat', List.cons.injEq, and_true]
    omega

lemma utf8Encode_eq (x : Char) (s : Str) :
    String.utf8EncodeChar x = s ↔ (String.utf8EncodeChar x).map UInt8.toNat = s.map UInt8.toNat :=
  (List.map_injective_iff.mpr fun _ _ => UInt8.toNat_inj.mp).eq_iff.symm

lemma utf8_two {c c₁} (hc : c &&& 0xE0 = 0xC0) :
    utf8Sequence (c &&& 0x1F).toNat 0x80 [c₁] = true ↔ ∃ x : Char, String.utf8EncodeChar x = [c, c₁] := by
  rw [utf8Sequence_iff, (utf8_bits c).2.1]
  rw [(utf8_marks c).2.1] at hc
  simp only [List.mem_singleton, forall_eq, utf8Point, List.foldl_cons, List.foldl_nil, utf8Encode_eq, utf8Encode_toNat,
    List.map_cons, List.map_nil]
  constructor
  · rintro ⟨h₁, hmin, hvalid⟩
    obtain ⟨x, hx⟩ := exists_char hvalid
    refine ⟨x, ?_⟩
    rw [hx, if_neg (by omega), if_pos (by omega)]
    simp only [List.cons.injEq, and_true]
    omega
  · rintro ⟨x, hx⟩
    have hvalid : x.val.toNat.isValidChar := x.valid
    split_ifs at hx
    all_goals simp only [List.cons.injEq, and_true, reduceCtorEq, and_false] at hx
    have hv : c.toNat % 32 * 64 + c₁.toNat % 64 = x.val.toNat := by omega
    rw [hv]
    exact ⟨by omega, by omega, hvalid⟩

lemma utf8_three {c c₁ c₂} (hc : c &&& 0xF0 = 0xE0) :
    utf8Sequence (c &&& 0x0F).toNat 0x800 [c₁, c₂] = true ↔ ∃ x : Char, String.utf8EncodeChar x = [c, c₁, c₂] := by
  rw [utf8Sequence_iff, (utf8_bits c).2.2.1]
  rw [(utf8_marks c).2.2.1] at hc
  simp only [List.forall_mem_cons, utf8Point, List.foldl_cons, List.foldl_nil, utf8Encode_eq, utf8Encode_toNat,
    List.map_cons, List.map_nil]
  constructor
  · rintro ⟨⟨h₁, h₂, -⟩, hmin, hvalid⟩
    obtain ⟨x, hx⟩ := exists_char hvalid
    refine ⟨x, ?_⟩
    rw [hx, if_neg (by omega), if_neg (by omega), if_pos (by omega)]
    simp only [List.cons.injEq, and_true]
    omega
  · rintro ⟨x, hx⟩
    have hvalid : x.val.toNat.isValidChar := x.valid
    split_ifs at hx
    all_goals simp only [List.cons.injEq, and_true, reduceCtorEq, and_false] at hx
    have hv : (c.toNat % 16 * 64 + c₁.toNat % 64) * 64 + c₂.toNat % 64 = x.val.toNat := by omega
    rw [hv]
    exact ⟨⟨by omega, by omega, List.forall_mem_nil _⟩, by omega, hvalid⟩

lemma utf8_four {c c₁ c₂ c₃} (hc : c &&& 0xF8 = 0xF0) : utf8Sequence (c &&& 0x07).toNat 0x10000 [c₁, c₂, c₃] = true ↔
      ∃ x : Char, String.utf8EncodeChar x = [c, c₁, c₂, c₃] := by
  rw [utf8Sequence_iff, (utf8_bits c).2.2.2]
  rw [(utf8_marks c).2.2.2] at hc
  simp only [List.forall_mem_cons, utf8Point, List.foldl_cons, List.foldl_nil, utf8Encode_eq, utf8Encode_toNat,
    List.map_cons, List.map_nil]
  constructor
  · rintro ⟨⟨h₁, h₂, h₃, -⟩, hmin, hvalid⟩
    obtain ⟨x, hx⟩ := exists_char hvalid
    refine ⟨x, ?_⟩
    rw [hx, if_neg (by omega), if_neg (by omega), if_neg (by omega)]
    simp only [List.cons.injEq, and_true]
    omega
  · rintro ⟨x, hx⟩
    have hvalid : x.val.toNat.isValidChar := x.valid
    split_ifs at hx
    all_goals simp only [List.cons.injEq, and_true, reduceCtorEq, and_false] at hx
    have hv : ((c.toNat % 8 * 64 + c₁.toNat % 64) * 64 + c₂.toNat % 64) * 64 + c₃.toNat % 64 = x.val.toNat := by
      omega
    rw [hv]
    exact ⟨⟨by omega, by omega, by omega, List.forall_mem_nil _⟩, by omega, hvalid⟩

lemma utf8_one {c} (hc : c < 0x80) : ∃ x : Char, String.utf8EncodeChar x = [c] := by
  have hlt : c.toNat < 128 := UInt8.lt_iff_toNat_lt.mp hc
  obtain ⟨x, hx⟩ := exists_char (v := c.toNat) (.inl (by omega))
  refine ⟨x, (utf8Encode_eq x _).mpr ?_⟩
  rw [utf8Encode_toNat, hx, if_pos (by omega)]
  rfl

/-! ## Whole strings -/

lemma utf8_valid_one {c} (hc : c < 0x80) (s : Str) : utf8_valid (c :: s) = utf8_valid s := by
  rw [utf8_valid.eq_def]
  exact if_pos hc

lemma utf8_lead_ge {c : UInt8} (h : 0x80 ≤ c.toNat) : ¬c < 0x80 := by
  exact Nat.not_lt.mpr h

lemma utf8_valid_two {c} (hc : c &&& 0xE0 = 0xC0) (c₁ : UInt8) (s : Str) :
    utf8_valid (c :: c₁ :: s) = (utf8Sequence (c &&& 0x1F).toNat 0x80 [c₁] && utf8_valid s) := by
  have hge := (utf8_marks c).2.1.mp hc
  rw [utf8_valid.eq_def]
  dsimp only
  rw [if_neg (utf8_lead_ge (by omega)), if_pos hc]

lemma utf8_valid_three {c} (hc : c &&& 0xF0 = 0xE0) (c₁ c₂ : UInt8) (s : Str) :
    utf8_valid (c :: c₁ :: c₂ :: s) = (utf8Sequence (c &&& 0x0F).toNat 0x800 [c₁, c₂] && utf8_valid s) := by
  have hge := (utf8_marks c).2.2.1.mp hc
  rw [utf8_valid.eq_def]
  dsimp only
  rw [if_neg (utf8_lead_ge (by omega)),
    if_neg (by rw [(utf8_marks c).2.1]; omega), if_pos hc]

lemma utf8_valid_four {c} (hc : c &&& 0xF8 = 0xF0) (c₁ c₂ c₃ : UInt8) (s : Str) :
    utf8_valid (c :: c₁ :: c₂ :: c₃ :: s) = (utf8Sequence (c &&& 0x07).toNat 0x10000 [c₁, c₂, c₃] && utf8_valid s) := by
  have hge := (utf8_marks c).2.2.2.mp hc
  rw [utf8_valid.eq_def]
  dsimp only
  rw [if_neg (utf8_lead_ge (by omega)),
    if_neg (by rw [(utf8_marks c).2.1]; omega), if_neg (by rw [(utf8_marks c).2.2.1]; omega), if_pos hc]

lemma utf8_valid_encode (x : Char) (s : Str) : utf8_valid (String.utf8EncodeChar x ++ s) = utf8_valid s := by
  have hmap := utf8Encode_toNat x
  generalize hb : String.utf8EncodeChar x = b at hmap
  have hvalid : x.val.toNat.isValidChar := x.valid
  split_ifs at hmap with h₁ h₂ h₃
  · obtain ⟨c, rfl, hc⟩ := List.map_eq_singleton_iff.mp hmap
    exact utf8_valid_one (UInt8.lt_iff_toNat_lt.mpr (by rw [hc]; exact Nat.lt_succ_of_le h₁)) s
  · obtain ⟨c, b, rfl, hc, hb₁⟩ := List.map_eq_cons_iff.mp hmap
    obtain ⟨c₁, rfl, -⟩ := List.map_eq_singleton_iff.mp hb₁
    have hlead : c &&& 0xE0 = 0xC0 := (utf8_marks c).2.1.mpr (by omega)
    rw [List.cons_append, List.singleton_append, utf8_valid_two hlead, (utf8_two hlead).mpr ⟨x, hb⟩, Bool.true_and]
  · obtain ⟨c, b, rfl, hc, hb₁⟩ := List.map_eq_cons_iff.mp hmap
    obtain ⟨c₁, b, rfl, -, hb₂⟩ := List.map_eq_cons_iff.mp hb₁
    obtain ⟨c₂, rfl, -⟩ := List.map_eq_singleton_iff.mp hb₂
    have hlead : c &&& 0xF0 = 0xE0 := (utf8_marks c).2.2.1.mpr (by omega)
    rw [List.cons_append, List.cons_append, List.singleton_append, utf8_valid_three hlead,
      (utf8_three hlead).mpr ⟨x, hb⟩, Bool.true_and]
  · obtain ⟨c, b, rfl, hc, hb₁⟩ := List.map_eq_cons_iff.mp hmap
    obtain ⟨c₁, b, rfl, -, hb₂⟩ := List.map_eq_cons_iff.mp hb₁
    obtain ⟨c₂, b, rfl, -, hb₃⟩ := List.map_eq_cons_iff.mp hb₂
    obtain ⟨c₃, rfl, -⟩ := List.map_eq_singleton_iff.mp hb₃
    have hlead : c &&& 0xF8 = 0xF0 := (utf8_marks c).2.2.2.mpr (by omega)
    rw [List.cons_append, List.cons_append, List.cons_append, List.singleton_append, utf8_valid_four hlead,
      (utf8_four hlead).mpr ⟨x, hb⟩, Bool.true_and]

lemma utf8Text_append {b s : Str} (h : ∃ x : Char, String.utf8EncodeChar x = b)
    (hs : ∃ xs : List Char, s = xs.flatMap String.utf8EncodeChar) :
    ∃ xs : List Char, b ++ s = xs.flatMap String.utf8EncodeChar := by
  obtain ⟨x, rfl⟩ := h
  obtain ⟨xs, rfl⟩ := hs
  exact ⟨x :: xs, List.flatMap_cons.symm⟩

/-- `utf8_valid` accepts the concatenations of encodings of Unicode scalar values, and nothing else. -/
theorem utf8_valid_iff (b : Str) : utf8_valid b = true ↔ ∃ xs : List Char, b = xs.flatMap String.utf8EncodeChar := by
  constructor
  · intro h
    -- a lead byte with too few bytes behind it, and a byte that leads nothing, contradict `h`
    induction b using utf8_valid.induct with
    | case1 => exact ⟨[], rfl⟩
    | case2 c s hc ih =>
      rw [utf8_valid_one hc] at h
      exact utf8Text_append (utf8_one hc) (ih h)
    | case3 c hc hlead c₁ s ih =>
      rw [utf8_valid_two hlead, Bool.and_eq_true] at h
      exact utf8Text_append ((utf8_two hlead).mp h.1) (ih h.2)
    | case5 c hc hne hlead c₁ c₂ s ih =>
      rw [utf8_valid_three hlead, Bool.and_eq_true] at h
      exact utf8Text_append ((utf8_three hlead).mp h.1) (ih h.2)
    | case7 c hc hne₁ hne₂ hlead c₁ c₂ c₃ s ih =>
      rw [utf8_valid_four hlead, Bool.and_eq_true] at h
      exact utf8Text_append ((utf8_four hlead).mp h.1) (ih h.2)
    | case4 c s hc hlead hshort =>
      rw [utf8_valid.eq_def] at h
      dsimp only at h
      rw [if_neg hc, if_pos hlead] at h
      split at h
      · exact (hshort _ _ rfl).elim
      · cases h
    | case6 c s hc hne hlead hshort =>
      rw [utf8_valid.eq_def] at h
      dsimp only at h
      rw [if_neg hc, if_neg hne, if_pos hlead] at h
      split at h
      · exact (hshort _ _ _ rfl).elim
      · cases h
    | case8 c s hc hne₁ hne₂ hlead hshort =>
      rw [utf8_valid.eq_def] at h
      dsimp only at h
      rw [if_neg hc, if_neg hne₁, if_neg hne₂, if_pos hlead] at h
      split at h
      · exact (hshort _ _ _ _ rfl).elim
      · cases h
    | case9 c s hc hne₁ hne₂ hne₃ =>
      rw [utf8_valid.eq_def] at h
      dsimp only at h
      rw [if_neg hc, if_neg hne₁, if_neg hne₂, if_neg hne₃] at h
      cases h
  · rintro ⟨xs, rfl⟩
    induction xs with
    | nil => rfl
    | cons x xs ih => rw [List.flatMap_cons, utf8_valid_encode, ih]

end Rut
