import Mathlib

/-!
# Numbers as bit strings

The low bits of a number, most significant bit first.
-/

namespace Rut.Lib

/-- The `n` low bits of a number. -/
def natBits : Nat → Nat → List Bool
  | 0, _ => []
  | n + 1, v => natBits n (v / 2) ++ [v % 2 == 1]

variable {n k v w : Nat}

@[simp] lemma natBits_length : (natBits n v).length = n := by
  induction n generalizing v with
  | zero => rfl
  | succ n ih => simp [natBits, ih]

lemma natBits_mod (n v : Nat) : natBits n (v % 2 ^ n) = natBits n v := by
  induction n generalizing v with
  | zero => rfl
  | succ n ih =>
    rw [natBits, natBits]
    have hdiv : v % 2 ^ (n + 1) / 2 = v / 2 % 2 ^ n := by
      rw [Nat.pow_succ', Nat.mod_mul_right_div_self]
    have hmod : v % 2 ^ (n + 1) % 2 = v % 2 := Nat.mod_mod_of_dvd _ (dvd_pow_self 2 (Nat.succ_ne_zero n))
    rw [hdiv, hmod, ih]

lemma natBits_congr (h : v % 2 ^ n = w % 2 ^ n) : natBits n v = natBits n w := by
  rw [← natBits_mod, h, natBits_mod]

lemma natBits_add (n k v : Nat) : natBits (n + k) v = natBits n (v / 2 ^ k) ++ natBits k v := by
  induction k generalizing v with
  | zero => simp [natBits]
  | succ k ih =>
    rw [← Nat.add_assoc, natBits, natBits, ih, Nat.div_div_eq_div_mul, ← Nat.pow_succ', List.append_assoc]

lemma natBits_inj (hv : v < 2 ^ n) (hw : w < 2 ^ n) (h : natBits n v = natBits n w) : v = w := by
  induction n generalizing v w with
  | zero => omega
  | succ n ih =>
    obtain ⟨hhigh, hlow⟩ := List.append_inj' h rfl
    have hdiv := ih (by omega) (by omega) hhigh
    have hbit : v % 2 = 1 ↔ w % 2 = 1 := by simpa [beq_eq_beq] using hlow
    omega

lemma exists_natBits (l : List Bool) : ∃ v < 2 ^ l.length, natBits l.length v = l := by
  induction l using List.reverseRecOn with
  | nil => exact ⟨0, Nat.one_pos, rfl⟩
  | append_singleton l b ih =>
    obtain ⟨v, hv, heq⟩ := ih
    refine ⟨2 * v + b.toNat, ?_, ?_⟩
    · rw [List.length_append, List.length_singleton, Nat.pow_succ]
      cases b <;> simp <;> omega
    · rw [List.length_append, List.length_singleton, natBits]
      have hdiv : (2 * v + b.toNat) / 2 = v := by cases b <;> simp <;> omega
      rw [hdiv, heq]
      cases b <;> simp

/-- Appending `k` bits to a number. -/
lemma natBits_shift_or (n : Nat) {v w k} (hw : w < 2 ^ k) :
    natBits (n + k) (v <<< k ||| w) = natBits n v ++ natBits k w := by
  rw [Nat.shiftLeft_eq, Nat.mul_comm, Nat.two_pow_add_eq_or_of_lt hw v |>.symm, natBits_add]
  have hdiv : (2 ^ k * v + w) / 2 ^ k = v := by
    rw [Nat.mul_add_div (Nat.two_pow_pos k), Nat.div_eq_of_lt hw, Nat.add_zero]
  have hmod : (2 ^ k * v + w) % 2 ^ k = w % 2 ^ k := by rw [Nat.mul_add_mod]
  rw [hdiv, natBits_congr hmod]

lemma natBits_ones (n : Nat) : natBits n (2 ^ n - 1) = List.replicate n true := by
  induction n with
  | zero => rfl
  | succ n ih =>
    have hpos := Nat.two_pow_pos n
    have hdiv : (2 ^ (n + 1) - 1) / 2 = 2 ^ n - 1 := by omega
    have hmod : (2 ^ (n + 1) - 1) % 2 = 1 := by omega
    rw [natBits, hdiv, ih, hmod, List.replicate_succ']
    rfl

end Rut.Lib
