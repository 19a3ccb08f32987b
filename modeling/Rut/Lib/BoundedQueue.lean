import Mathlib

/-!
# Queues with a bound on their total size

Elements have a size, the oldest comes first. To make room, elements are dropped at the front until the rest fits; an
element that does not fit at all empties the queue.
-/

namespace Rut.Lib.BoundedQueue

variable {α : Type} (size : α → Nat)

def total (l : List α) : Nat := (l.map size).sum

def fit (m : Nat) : List α → List α
  | [] => []
  | a :: l => if total size (a :: l) ≤ m then a :: l else fit m l

def push (m : Nat) (l : List α) (a : α) : List α := if m < size a then [] else fit size (m - size a) l ++ [a]

@[simp] lemma total_nil : total size [] = 0 := rfl

@[simp] lemma total_cons (a : α) (l : List α) : total size (a :: l) = size a + total size l := rfl

@[simp] lemma total_append (l l' : List α) : total size (l ++ l') = total size l + total size l' := by
  rw [total, List.map_append, List.sum_append]
  rfl

variable {size} {m m' : Nat} {l : List α}

lemma fit_of_le (h : total size l ≤ m) : fit size m l = l := by
  cases l with
  | nil => rfl
  | cons a l => rw [fit, if_pos h]

lemma fit_cons_of_lt {a} (h : m < total size (a :: l)) : fit size m (a :: l) = fit size m l := by
  rw [fit, if_neg (Nat.not_le.mpr h)]

lemma total_fit_le (m : Nat) (l : List α) : total size (fit size m l) ≤ m := by
  induction l with
  | nil => exact Nat.zero_le m
  | cons a l ih =>
    rw [fit]
    split
    · assumption
    · exact ih

lemma fit_fit (m m' : Nat) (l : List α) : fit size m' (fit size m l) = fit size (min m m') l := by
  induction l with
  | nil => rfl
  | cons a l ih =>
    by_cases h : total size (a :: l) ≤ m
    · rw [fit_of_le h]
      by_cases h' : total size (a :: l) ≤ m'
      · rw [fit_of_le h', fit_of_le (Nat.le_min.mpr ⟨h, h'⟩)]
      · rw [fit_cons_of_lt (Nat.not_le.mp h'), fit_cons_of_lt (by omega), ← ih]
        -- the rest fits the first room as well
        rw [fit_of_le (Nat.le_trans (Nat.le_add_left _ _) h)]
    · rw [fit_cons_of_lt (Nat.not_le.mp h), fit_cons_of_lt (by omega), ih]

end Rut.Lib.BoundedQueue
