import Rut.Hpack.Codec

/-!
# Prefix integers

The integers of RFC 7541 5.1 without the arithmetic of `decode_integer`: a prefix that is not full is the value, a full
one is followed by groups of seven bits, the last one without the top bit (`IntegerText`). `decode_integer` reads such
a text exactly if it has at most five octets behind the prefix and a value of 32 bits.
-/

namespace Rut.Hpack

def groupsValue : Str → Nat
  | [] => 0
  | b :: src => b.toNat % 128 + 128 * groupsValue src

/-- The input starts with an integer of the given value in the given number of octets. -/
inductive IntegerText (bits : Nat) : Str → Nat → Nat → Prop where
  | short {b : UInt8} {src : Str} (h : b.toNat % 2 ^ bits < 2 ^ bits - 1) :
    IntegerText bits (b :: src) (b.toNat % 2 ^ bits) 1
  | long {b last : UInt8} {more src : Str} (h : b.toNat % 2 ^ bits = 2 ^ bits - 1) (hmore : ∀ c ∈ more, 128 ≤ c.toNat)
    (hlast : last.toNat < 128) :
    IntegerText bits (b :: (more ++ last :: src)) (2 ^ bits - 1 + groupsValue (more ++ [last])) (more.length + 2)

inductive Truncated (bits : Nat) : Str → Prop where
  | empty : Truncated bits []
  | open {b : UInt8} {more : Str} (h : b.toNat % 2 ^ bits = 2 ^ bits - 1) (hmore : ∀ c ∈ more, 128 ≤ c.toNat) :
    Truncated bits (b :: more)

lemma groups_cases (src : Str) : (∀ c ∈ src, 128 ≤ c.toNat) ∨
    ∃ (more : Str) (last : UInt8) (rest : Str),
      src = more ++ last :: rest ∧ (∀ c ∈ more, 128 ≤ c.toNat) ∧ last.toNat < 128 := by
  induction src with
  | nil => exact .inl (by simp)
  | cons b src ih =>
    by_cases hb : b.toNat < 128
    · exact .inr ⟨[], b, src, rfl, by simp, hb⟩
    obtain hall | ⟨more, last, rest, rfl, hmore, hlast⟩ := ih
    · exact .inl (List.forall_mem_cons.mpr ⟨by omega, hall⟩)
    · exact .inr ⟨b :: more, last, rest, rfl, List.forall_mem_cons.mpr ⟨by omega, hmore⟩, hlast⟩

lemma truncated_or_text (bits : Nat) (src : Str) : Truncated bits src ∨ ∃ v n, IntegerText bits src v n := by
  cases src with
  | nil => exact .inl .empty
  | cons b src =>
    by_cases hb : b.toNat % 2 ^ bits < 2 ^ bits - 1
    · exact .inr ⟨_, _, .short hb⟩
    have hfull : b.toNat % 2 ^ bits = 2 ^ bits - 1 := by
      omega
    obtain hall | ⟨more, last, rest, rfl, hmore, hlast⟩ := groups_cases src
    · exact .inl (.open hfull hall)
    · exact .inr ⟨_, _, .long hfull hmore hlast⟩

/-! ## Decoding -/

section octet

variable (b : UInt8)

lemma and_low : b.toNat &&& 0x7f = b.toNat % 128 := Nat.and_two_pow_sub_one_eq_mod b.toNat 7

lemma and_top : b.toNat &&& 0x80 = 0 ↔ b.toNat < 128 :=
  forall_uint8 (P := fun b => b.toNat &&& 0x80 = 0 ↔ b.toNat < 128) (by decide +kernel) b

end octet

lemma integerLoop_open {src} (hsrc : ∀ c ∈ src, 128 ≤ c.toNat) (acc shift i : Nat) :
    integerLoop src acc shift i = none := by
  induction src generalizing acc shift i with
  | nil => rfl
  | cons b src ih =>
    obtain ⟨hb, hsrc⟩ := List.forall_mem_cons.mp hsrc
    have htop : ¬ (b.toNat &&& 0x80 = 0) := fun h => absurd ((and_top b).mp h) (by omega)
    simp only [integerLoop, if_neg htop]
    split_ifs
    · rfl
    · rfl
    · exact ih hsrc _ _ _

lemma integerLoop_text {more last} (hmore : ∀ c ∈ more, 128 ≤ c.toNat) (hlast : last.toNat < 128)
    (rest : Str) (acc k i : Nat) (hk : k ≤ 4) : integerLoop (more ++ last :: rest) acc (7 * k) i =
      if k + more.length ≤ 4 ∧ acc + 2 ^ (7 * k) * groupsValue (more ++ [last]) < 2 ^ 32 then
        some (acc + 2 ^ (7 * k) * groupsValue (more ++ [last]), i + more.length + 1) else none := by
  induction more generalizing acc k i with
  | nil =>
    have hvalue : acc + (last.toNat &&& 0x7f) <<< (7 * k) = acc + 2 ^ (7 * k) * groupsValue [last] := by
      rw [and_low, Nat.shiftLeft_eq, Nat.mul_comm, groupsValue, groupsValue]
      rfl
    simp only [List.nil_append, integerLoop, hvalue, (and_top last).mpr hlast, if_true, List.length_nil, Nat.add_zero]
    by_cases hbig : 0xffffffff < acc + 2 ^ (7 * k) * groupsValue [last]
    · rw [if_pos hbig, if_neg (by omega)]
    · rw [if_neg hbig, if_pos ⟨hk, by omega⟩]
  | cons b more ih =>
    obtain ⟨hb, hmore⟩ := List.forall_mem_cons.mp hmore
    have htop : ¬ (b.toNat &&& 0x80 = 0) := fun h => absurd ((and_top b).mp h) (by omega)
    have hacc : acc + (b.toNat &&& 0x7f) <<< (7 * k) = acc + 2 ^ (7 * k) * (b.toNat % 128) := by
      rw [and_low, Nat.shiftLeft_eq, Nat.mul_comm]
    have hvalue : acc + 2 ^ (7 * k) * groupsValue (b :: more ++ [last]) =
        acc + 2 ^ (7 * k) * (b.toNat % 128) + 2 ^ (7 * (k + 1)) * groupsValue (more ++ [last]) := by
      rw [List.cons_append, groupsValue, Nat.mul_add 7, Nat.pow_add]
      ring
    simp only [List.cons_append, integerLoop, hacc, if_neg htop, List.length_cons]
    rw [← List.cons_append, hvalue]
    by_cases hbig : 0xffffffff < acc + 2 ^ (7 * k) * (b.toNat % 128)
    · -- the sum only grows
      rw [if_pos hbig, if_neg (by omega)]
    rw [if_neg hbig]
    by_cases hshift : 28 < 7 * k + 7
    · rw [if_pos hshift, if_neg (by omega)]
    rw [if_neg hshift, ← Nat.mul_succ, ih hmore _ (k + 1) (i + 1) (by omega)]
    simp only [Nat.add_assoc, Nat.add_comm 1]

section decode

variable {bits : Nat} {src : Str} {v n : Nat}

lemma decodeInteger_truncated (h : Truncated bits src) : decodeInteger bits src = none := by
  cases h with
  | empty => rfl
  | @«open» b more h hmore =>
    simp only [decodeInteger, Nat.and_two_pow_sub_one_eq_mod, h, Nat.lt_irrefl, if_false]
    exact integerLoop_open hmore _ _ _

lemma decodeInteger_text (hbits : bits ≤ 8) (h : IntegerText bits src v n) :
    decodeInteger bits src = if n ≤ 6 ∧ v < 2 ^ 32 then some (v, n) else none := by
  have hpow : 2 ^ bits ≤ 2 ^ 8 := Nat.pow_le_pow_right (by decide) hbits
  cases h with
  | short h =>
    simp only [decodeInteger, Nat.and_two_pow_sub_one_eq_mod, if_pos h]
    rw [if_pos ⟨by omega, by omega⟩]
  | @long b last more rest h hmore hlast =>
    simp only [decodeInteger, Nat.and_two_pow_sub_one_eq_mod, h, Nat.lt_irrefl, if_false]
    have hloop := integerLoop_text hmore hlast rest (2 ^ bits - 1) 0 1 (by omega)
    rw [Nat.mul_zero, Nat.pow_zero, Nat.one_mul, Nat.zero_add] at hloop
    rw [hloop]
    by_cases hfits : more.length ≤ 4 ∧ 2 ^ bits - 1 + groupsValue (more ++ [last]) < 2 ^ 32
    · rw [if_pos hfits, if_pos ⟨by omega, hfits.2⟩, Nat.add_comm 1]
    · rw [if_neg hfits, if_neg (fun h => hfits ⟨by omega, h.2⟩)]

end decode

/-! ## Encoding -/

lemma integerTail_groups (v : Nat) : ∃ more last, integerTail v = more ++ [last] ∧ (∀ c ∈ more, 128 ≤ c.toNat) ∧
    last.toNat < 128 ∧ groupsValue (more ++ [last]) = v ∧ v < 128 ^ (more.length + 1) ∧
      (more ≠ [] → 128 ^ more.length ≤ v) := by
  induction v using Nat.strongRecOn with
  | ind v ih =>
    rw [integerTail]
    by_cases hv : 128 ≤ v
    · rw [if_pos hv, Nat.shiftRight_eq_div_pow]
      obtain ⟨more, last, htail, hmore, hlast, hvalue, hlt, hge⟩ := ih (v / 2 ^ 7) (by omega)
      have hbyte : (UInt8.ofNat (v &&& 0x7f ||| 0x80)).toNat = v % 128 + 128 := by
        have hand : v &&& 0x7f = v % 128 := Nat.and_two_pow_sub_one_eq_mod v 7
        have hor := Nat.two_pow_add_eq_or_of_lt (i := 7) (Nat.mod_lt v (by decide)) 1
        rw [hand, Nat.or_comm, UInt8.toNat_ofNat']
        change (2 ^ 7 * 1 ||| v % 2 ^ 7) % 2 ^ 8 = _
        omega
      refine ⟨UInt8.ofNat (v &&& 0x7f ||| 0x80) :: more, last, by rw [htail]; rfl, ?_, hlast, ?_, ?_, ?_⟩
      · exact List.forall_mem_cons.mpr ⟨by omega, hmore⟩
      · rw [List.cons_append, groupsValue, hvalue, hbyte]
        omega
      · rw [List.length_cons, Nat.pow_succ]
        omega
      · intro _
        rw [List.length_cons, Nat.pow_succ]
        cases more with
        | nil => simpa using hv
        | cons c more =>
          have := hge (by simp)
          omega
    · rw [if_neg hv]
      have hbyte : (UInt8.ofNat v).toNat = v := by
        rw [UInt8.toNat_ofNat']
        omega
      refine ⟨[], UInt8.ofNat v, rfl, by simp, by omega, ?_, by simpa using hv, fun h => absurd rfl h⟩
      rw [List.nil_append, groupsValue, groupsValue, hbyte]
      omega

lemma prefixed_octet {bits top x} (hbits : bits ≤ 8) (htop : top < 256) (hflags : top % 2 ^ bits = 0)
    (hx : x < 2 ^ bits) : (UInt8.ofNat (top ||| x)).toNat % 2 ^ bits = x := by
  obtain ⟨k, rfl⟩ := Nat.dvd_of_mod_eq_zero hflags
  rw [← Nat.two_pow_add_eq_or_of_lt hx, UInt8.toNat_ofNat']
  have hdvd : 2 ^ bits ∣ 2 ^ 8 := Nat.pow_dvd_pow 2 hbits
  rw [Nat.mod_mod_of_dvd _ hdvd, Nat.mul_add_mod, Nat.mod_eq_of_lt hx]

lemma encodeInteger_text {bits top v} (hbits : bits ≤ 8) (htop : top < 256) (hflags : top % 2 ^ bits = 0)
    (hv : v < 2 ^ 32) (suffix : Str) :
    IntegerText bits (encodeInteger v bits top ++ suffix) v (encodeInteger v bits top).length ∧
      (encodeInteger v bits top).length ≤ 6 := by
  rw [encodeInteger]
  by_cases hsmall : v < 2 ^ bits - 1
  · simp only [if_pos hsmall]
    have hoctet := prefixed_octet hbits htop hflags (x := v) (by omega)
    refine ⟨?_, by simp⟩
    have htext : IntegerText bits (UInt8.ofNat (top ||| v) :: suffix) _ 1 := .short (by omega)
    rwa [hoctet] at htext
  · simp only [if_neg hsmall]
    have hoctet := prefixed_octet hbits htop hflags (x := 2 ^ bits - 1) (by omega)
    obtain ⟨more, last, htail, hmore, hlast, hvalue, -, hge⟩ := integerTail_groups (v - (2 ^ bits - 1))
    have htext : IntegerText bits (_ :: (more ++ last :: suffix)) _ _ := .long hoctet hmore hlast
    rw [hvalue, Nat.add_sub_cancel' (by omega)] at htext
    rw [htail]
    simp only [List.cons_append, List.append_assoc, List.nil_append, List.length_cons, List.length_append,
      List.length_nil, Nat.zero_add] at htext ⊢
    refine ⟨htext, ?_⟩
    by_contra hlong
    have hne : more ≠ [] := by
      rintro rfl
      simp at hlong
    have hle := hge hne
    have hmono : 128 ^ 5 ≤ 128 ^ more.length := Nat.pow_le_pow_right (by decide) (by omega)
    omega

/-- The integer codec is exact. What is written for a value of 32 bits, under any flags above the prefix and in front
of anything, is read back as this value in as many octets. On any input the decoder fails exactly if the integer is
truncated, has more than 32 bits or takes more than five octets behind the prefix; otherwise it returns the value and
the octets of the integer it is given. -/
theorem integer_codec {bits : Nat} (hbits : bits ≤ 8) :
    (∀ (v : UInt32) (flags : UInt8) (suffix : Str), flags.toNat % 2 ^ bits = 0 →
      decodeInteger bits (encodeInteger v.toNat bits flags.toNat ++ suffix) =
        some (v.toNat, (encodeInteger v.toNat bits flags.toNat).length)) ∧
    (∀ src : Str, decodeInteger bits src = none ↔
      Truncated bits src ∨ ∃ v n, IntegerText bits src v n ∧ (2 ^ 32 ≤ v ∨ 6 < n)) ∧
    ∀ (src : Str) (v n : Nat), decodeInteger bits src = some (v, n) →
      IntegerText bits src v n ∧ v < 2 ^ 32 ∧ n ≤ 6 := by
  refine ⟨fun v flags suffix hflags => ?_, fun src => ?_, fun src v n h => ?_⟩
  · obtain ⟨htext, hlen⟩ := encodeInteger_text hbits flags.toNat_lt hflags v.toNat_lt suffix
    rw [decodeInteger_text hbits htext, if_pos ⟨hlen, v.toNat_lt⟩]
  · constructor
    · intro hnone
      obtain htrunc | ⟨v, n, htext⟩ := truncated_or_text bits src
      · exact .inl htrunc
      · refine .inr ⟨v, n, htext, ?_⟩
        rw [decodeInteger_text hbits htext] at hnone
        by_contra hfits
        rw [not_or, Nat.not_le, Nat.not_lt] at hfits
        rw [if_pos ⟨hfits.2, hfits.1⟩] at hnone
        cases hnone
    · rintro (htrunc | ⟨v, n, htext, hbad⟩)
      · exact decodeInteger_truncated htrunc
      · rw [decodeInteger_text hbits htext, if_neg (by omega)]
  · obtain htrunc | ⟨v', n', htext⟩ := truncated_or_text bits src
    · rw [decodeInteger_truncated htrunc] at h
      cases h
    · rw [decodeInteger_text hbits htext] at h
      obtain ⟨hfits, h⟩ := Option.ite_none_right_eq_some.mp h
      cases h
      exact ⟨htext, hfits.2, hfits.1⟩

/-- The greatest value behind a prefix of one bit, and a truncated one. -/
theorem integer_codec_one :
    decodeInteger 1 (encodeInteger 4294967295 1 0xfe ++ [7]) = some (4294967295, 6) ∧
      decodeInteger 1 [0xff, 0xff] = none := by
  have hcodec := @integer_codec 1 (by decide)
  have htrunc : Truncated 1 [0xff, 0xff] := .open (by decide) (by simp)
  refine ⟨?_, (hcodec.2.1 [0xff, 0xff]).mpr (.inl htrunc)⟩
  have hlen : (encodeInteger 4294967295 1 0xfe).length = 6 := by simp [encodeInteger, integerTail]
  have hv : (4294967295 : UInt32).toNat = 4294967295 := by decide
  have hflags : (0xfe : UInt8).toNat = 0xfe := rfl
  have h := hcodec.1 4294967295 0xfe [7] rfl
  rwa [hv, hflags, hlen] at h

end Rut.Hpack
