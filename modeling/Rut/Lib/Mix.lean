import Mathlib.Data.Nat.Basic
import Mathlib.Tactic.Common

/-!
# Mixing of words

The steps that mixing functions of hash tables are made of do not lose anything: a word times an odd constant, and a
word with its own upper bits put over the lower ones.
-/

namespace Rut.Lib

variable {w : Nat}

lemma mul_injective {c inv} (hinv : c * inv = 1#w) : Function.Injective fun x : BitVec w => x * c := by
  intro x y h
  dsimp only at h
  calc x = x * c * inv := by rw [BitVec.mul_assoc, hinv, BitVec.mul_one]
    _ = y * c * inv := by rw [h]
    _ = y := by rw [BitVec.mul_assoc, hinv, BitVec.mul_one]

lemma eq_zero_of_shift {n} (hn : 0 < n) {d : BitVec w} (h : d = d >>> n) : d = 0 := by
  have hnat : d.toNat = d.toNat / 2 ^ n := by
    conv_lhs => rw [h]
    rw [BitVec.toNat_ushiftRight, Nat.shiftRight_eq_div_pow]
  have hzero : d.toNat = 0 := by
    by_contra hne
    have hlt : d.toNat / 2 ^ n < d.toNat := Nat.div_lt_self (Nat.pos_of_ne_zero hne) (Nat.one_lt_two_pow (Nat.ne_of_gt hn))
    omega
  exact BitVec.eq_of_toNat_eq hzero

lemma xorShift_injective {n} (hn : 0 < n) : Function.Injective fun x : BitVec w => x ^^^ (x >>> n) := by
  intro x y h
  dsimp only at h
  have hd : x ^^^ y = (x ^^^ y) >>> n := by
    rw [BitVec.ushiftRight_xor_distrib]
    calc x ^^^ y = (x ^^^ x >>> n) ^^^ (x >>> n ^^^ y) := by
          rw [BitVec.xor_assoc, ← BitVec.xor_assoc (x >>> n), BitVec.xor_self, BitVec.zero_xor]
      _ = (y ^^^ y >>> n) ^^^ (x >>> n ^^^ y) := by rw [h]
      _ = x >>> n ^^^ y >>> n := by
          rw [BitVec.xor_comm (x >>> n) y, BitVec.xor_assoc, BitVec.xor_comm (y >>> n), ← BitVec.xor_assoc,
            ← BitVec.xor_assoc, BitVec.xor_self, BitVec.zero_xor]
  have hzero := eq_zero_of_shift hn hd
  exact BitVec.xor_eq_zero_iff.mp hzero

end Rut.Lib
