import Rut.Lib.Bits

/-!
# Base 64

Bytes as strings of digits of six bits each. The encoding takes the bytes in groups of three and fills the last digit
with zeros; a string of digits is the encoding of bytes exactly if its bits are those of the bytes and fewer than six
zeros.
-/

namespace Rut.Lib

def byteBits (bytes : List UInt8) : List Bool := bytes.flatMap fun c => natBits 8 c.toNat

def digitBits (digits : List Nat) : List Bool := digits.flatMap (natBits 6)

def base64Digits : List UInt8 → List Nat
  | [] => []
  | [a] => [a.toNat / 4, a.toNat % 4 * 16]
  | [a, b] => [a.toNat / 4, a.toNat % 4 * 16 + b.toNat / 16, b.toNat % 16 * 4]
  | a :: b :: c :: bytes =>
    [a.toNat / 4, a.toNat % 4 * 16 + b.toNat / 16, b.toNat % 16 * 4 + c.toNat / 64, c.toNat % 64] ++ base64Digits bytes

structure Alphabet where
  char : Nat → UInt8
  value : UInt8 → Option Nat
  value_char : ∀ d < 64, value (char d) = some d
  char_value : ∀ c d, value c = some d → d < 64 ∧ char d = c

variable {bytes bytes' : List UInt8} {digits digits' : List Nat} {k : Nat}

@[simp] lemma byteBits_nil : byteBits [] = [] := rfl

@[simp] lemma byteBits_append (l l' : List UInt8) : byteBits (l ++ l') = byteBits l ++ byteBits l' :=
  List.flatMap_append

@[simp] lemma digitBits_append (l l' : List Nat) : digitBits (l ++ l') = digitBits l ++ digitBits l' :=
  List.flatMap_append

lemma byteBits_length (l : List UInt8) : (byteBits l).length = 8 * l.length := by
  induction l with
  | nil => rfl
  | cons c l ih =>
    have hcons : byteBits (c :: l) = natBits 8 c.toNat ++ byteBits l := rfl
    rw [hcons, List.length_append, natBits_length, ih, List.length_cons]
    omega

lemma digitBits_length (l : List Nat) : (digitBits l).length = 6 * l.length := by
  induction l with
  | nil => rfl
  | cons d l ih =>
    have hcons : digitBits (d :: l) = natBits 6 d ++ digitBits l := rfl
    rw [hcons, List.length_append, natBits_length, ih, List.length_cons]
    omega

lemma digitBits_inj (hlen : digits.length = digits'.length) (h : ∀ d ∈ digits, d < 64) (h' : ∀ d ∈ digits', d < 64)
    (heq : digitBits digits = digitBits digits') : digits = digits' := by
  induction digits generalizing digits' with
  | nil => exact (List.length_eq_zero_iff.1 hlen.symm).symm
  | cons d digits ih =>
    cases digits' with
    | nil => cases hlen
    | cons d' digits' =>
      obtain ⟨hd, hrest⟩ := List.append_inj heq (by rw [natBits_length, natBits_length])
      have hhead : d = d' := natBits_inj (h d List.mem_cons_self) (h' d' List.mem_cons_self) hd
      have htail := ih (Nat.succ.inj hlen) (fun x hx => h x (List.mem_cons_of_mem _ hx))
        (fun x hx => h' x (List.mem_cons_of_mem _ hx)) hrest
      rw [hhead, htail]

lemma byteBits_inj (hlen : bytes.length = bytes'.length) (heq : byteBits bytes = byteBits bytes') : bytes = bytes' := by
  induction bytes generalizing bytes' with
  | nil => exact (List.length_eq_zero_iff.1 hlen.symm).symm
  | cons c bytes ih =>
    cases bytes' with
    | nil => cases hlen
    | cons c' bytes' =>
      obtain ⟨hc, hrest⟩ := List.append_inj heq (by rw [natBits_length, natBits_length])
      have hhead : c = c' := UInt8.toNat_inj.1 (natBits_inj c.toNat_lt c'.toNat_lt hc)
      rw [hhead, ih (Nat.succ.inj hlen) hrest]

lemma base64Digits_lt (bytes : List UInt8) : ∀ d ∈ base64Digits bytes, d < 64 := by
  induction bytes using base64Digits.induct with
  | case1 => simp [base64Digits]
  | case2 a =>
    have ha := a.toNat_lt
    simp only [base64Digits, List.mem_cons, List.not_mem_nil, or_false]
    rintro d (rfl | rfl) <;> omega
  | case3 a b =>
    have ha := a.toNat_lt
    have hb := b.toNat_lt
    simp only [base64Digits, List.mem_cons, List.not_mem_nil, or_false]
    rintro d (rfl | rfl | rfl) <;> omega
  | case4 a b c bytes ih =>
    have ha := a.toNat_lt
    have hb := b.toNat_lt
    have hc := c.toNat_lt
    simp only [base64Digits, List.cons_append, List.nil_append, List.mem_cons]
    rintro d (rfl | rfl | rfl | rfl | hd)
    · omega
    · omega
    · omega
    · omega
    · exact ih d hd

/-- Unused bits behind `n` bytes. -/
def unusedBits (n : Nat) : Nat := if n % 3 = 1 then 4 else if n % 3 = 2 then 2 else 0

lemma natBits_join (n : Nat) {v w} (hw : w < 2 ^ k) : natBits (n + k) (v * 2 ^ k + w) = natBits n v ++ natBits k w := by
  rw [Nat.mul_comm, Nat.two_pow_add_eq_or_of_lt hw, Nat.mul_comm, ← Nat.shiftLeft_eq, natBits_shift_or n hw]

lemma natBits_zero (n : Nat) : natBits n 0 = List.replicate n false := by
  induction n with
  | zero => rfl
  | succ n ih => rw [natBits, Nat.zero_div, ih, List.replicate_succ']; rfl

lemma digitBits_base64Digits (bytes : List UInt8) :
    digitBits (base64Digits bytes) = byteBits bytes ++ List.replicate (unusedBits bytes.length) false := by
  -- how the bytes are cut
  have hsix : ∀ a : Nat, natBits 8 a = natBits 6 (a / 4) ++ natBits 2 a := fun a => natBits_add 6 2 a
  have hfour : ∀ b : Nat, natBits 8 b = natBits 4 (b / 16) ++ natBits 4 b := fun b => natBits_add 4 4 b
  have htwo : ∀ c : Nat, natBits 8 c = natBits 2 (c / 64) ++ natBits 6 c := fun c => natBits_add 2 6 c
  -- how the digits are put together
  have hsecond : ∀ a b : Nat, b < 16 → natBits 6 (a % 4 * 16 + b) = natBits 2 a ++ natBits 4 b := by
    intro a b hb
    rw [← natBits_mod 2 a]
    exact natBits_join (k := 4) 2 hb
  have hthird : ∀ b c : Nat, c < 4 → natBits 6 (b % 16 * 4 + c) = natBits 4 b ++ natBits 2 c := by
    intro b c hc
    rw [← natBits_mod 4 b]
    exact natBits_join (k := 2) 4 hc
  induction bytes using base64Digits.induct with
  | case1 => rfl
  | case2 a =>
    have hlast := hsecond a.toNat 0 (by omega)
    simp only [Nat.add_zero] at hlast
    simp [digitBits, byteBits, base64Digits, unusedBits, hsix, hlast, natBits_zero]
  | case3 a b =>
    have hb := b.toNat_lt
    have hlast := hthird b.toNat 0 (by omega)
    simp only [Nat.add_zero] at hlast
    have hmid := hsecond a.toNat (b.toNat / 16) (by omega)
    simp [digitBits, byteBits, base64Digits, unusedBits, hsix a.toNat, hfour b.toNat, hmid, hlast, natBits_zero]
  | case4 a b c bytes ih =>
    have hb := b.toNat_lt
    have hc := c.toNat_lt
    have hunused : unusedBits (bytes.length + 1 + 1 + 1) = unusedBits bytes.length := by
      rw [unusedBits, unusedBits, show (bytes.length + 1 + 1 + 1) % 3 = bytes.length % 3 by omega]
    have hmid := hsecond a.toNat (b.toNat / 16) (by omega)
    have hlast := hthird b.toNat (c.toNat / 64) (by omega)
    have hlow : natBits 6 (c.toNat % 64) = natBits 6 c.toNat := natBits_mod 6 c.toNat
    rw [base64Digits, digitBits_append, ih]
    simp [digitBits, byteBits, hsix a.toNat, hfour b.toNat, htwo c.toNat, hmid, hlast, hlow, hunused]

lemma base64Digits_length (bytes : List UInt8) : (base64Digits bytes).length = (8 * bytes.length + 5) / 6 := by
  have hbits := congrArg List.length (digitBits_base64Digits bytes)
  rw [digitBits_length, List.length_append, byteBits_length, List.length_replicate, unusedBits] at hbits
  split_ifs at hbits <;> omega

lemma eq_base64Digits_iff (h : ∀ d ∈ digits, d < 64) :
    digits = base64Digits bytes ↔ ∃ k < 6, digitBits digits = byteBits bytes ++ List.replicate k false := by
  constructor
  · rintro rfl
    refine ⟨_, ?_, digitBits_base64Digits bytes⟩
    rw [unusedBits]
    split_ifs <;> omega
  · rintro ⟨k, hk, hbits⟩
    have hlen := congrArg List.length hbits
    rw [digitBits_length, List.length_append, byteBits_length, List.length_replicate] at hlen
    have hlen' := congrArg List.length (digitBits_base64Digits bytes)
    rw [digitBits_length, List.length_append, byteBits_length, List.length_replicate] at hlen'
    have hunused : unusedBits bytes.length < 6 := by
      rw [unusedBits]
      split_ifs <;> omega
    refine digitBits_inj (by omega) h (base64Digits_lt bytes) ?_
    rw [hbits, digitBits_base64Digits, show k = unusedBits bytes.length by omega]

lemma base64Digits_inj (h : base64Digits bytes = base64Digits bytes') : bytes = bytes' := by
  have hlen : bytes.length = bytes'.length := by
    have hlen := congrArg List.length h
    rw [base64Digits_length, base64Digits_length] at hlen
    omega
  have hbits := congrArg digitBits h
  rw [digitBits_base64Digits, digitBits_base64Digits, hlen] at hbits
  exact byteBits_inj hlen (List.append_cancel_right hbits)

namespace Alphabet

variable (alphabet : Alphabet)

def encode (bytes : List UInt8) : List UInt8 := (base64Digits bytes).map alphabet.char

/-- The padding behind `n` bytes. -/
def padding (n : Nat) : List UInt8 := List.replicate ((3 - n % 3) % 3) 61

/-- The encoding, filled up to groups of four characters with `=`. -/
def padded (bytes : List UInt8) : List UInt8 := alphabet.encode bytes ++ padding bytes.length

lemma encode_inj (h : alphabet.encode bytes = alphabet.encode bytes') : bytes = bytes' := by
  apply base64Digits_inj
  have hmap := congrArg (List.map alphabet.value) h
  rw [encode, encode, List.map_map, List.map_map] at hmap
  have hvalue : ∀ l : List UInt8, (base64Digits l).map (alphabet.value ∘ alphabet.char) = (base64Digits l).map some :=
    fun l => List.map_congr_left fun d hd => alphabet.value_char d (base64Digits_lt l d hd)
  rw [hvalue, hvalue] at hmap
  exact List.map_injective_iff.2 (Option.some_injective _) hmap

lemma encode_length (bytes : List UInt8) : (alphabet.encode bytes).length = (8 * bytes.length + 5) / 6 := by
  rw [encode, List.length_map, base64Digits_length]

lemma padded_length (bytes : List UInt8) : (alphabet.padded bytes).length = (bytes.length + 2) / 3 * 4 := by
  rw [padded, List.length_append, encode_length, padding, List.length_replicate]
  omega

lemma value_of_mem_encode {c} (h : c ∈ alphabet.encode bytes) : ∃ d, alphabet.value c = some d := by
  obtain ⟨d, hd, rfl⟩ := List.mem_map.1 h
  exact ⟨d, alphabet.value_char d (base64Digits_lt bytes d hd)⟩

end Alphabet

end Rut.Lib
