import Mathlib.Data.List.Basic
import Mathlib.Tactic.Ring

/-!
# The generic cell rate algorithm

A meter keeps the theoretical arrival time of the next cell. A cell conforms unless it is earlier than that by more
than the tolerance, and a conforming cell moves the arrival time on by the interval of emission. Whatever else moves
the arrival time on, and whatever order the clocks of the cells are in, the cells of an interval are bounded.
-/

namespace Rut.Lib.Gcra

variable {emit tau a b n tat tat' now : Nat}

/-- A cell at `now` conforms. -/
def Conforms (tau tat now : Nat) : Prop := tat ≤ now + tau

instance : Decidable (Conforms tau tat now) := inferInstanceAs (Decidable (_ ≤ _))

def next (emit tat now : Nat) : Nat := max now tat + emit

def ConformAll (emit tau : Nat) : Nat → List Nat → Prop
  | _, [] => True
  | tat, now :: cells => Conforms tau tat now ∧ ConformAll emit tau (next emit tat now) cells

instance decidableConformAll (emit tau : Nat) : ∀ tat cells, Decidable (ConformAll emit tau tat cells)
  | _, [] => inferInstanceAs (Decidable True)
  | tat, now :: cells =>
    have := decidableConformAll emit tau (next emit tat now) cells
    inferInstanceAs (Decidable (_ ∧ _))

/-- The arrival time accounts for `n` cells of the interval from `a` to `b`. -/
structure Paced (emit tau a b n tat : Nat) : Prop where
  arrival : n ≠ 0 → a + n * emit ≤ tat
  spaced : n ≠ 0 → (n - 1) * emit ≤ b - a + tau

namespace Paced

lemma none : Paced emit tau a b 0 tat := ⟨fun h => absurd rfl h, fun h => absurd rfl h⟩

lemma mono (h : Paced emit tau a b n tat) (hle : tat ≤ tat') : Paced emit tau a b n tat' :=
  ⟨fun hn => (h.arrival hn).trans hle, h.spaced⟩

lemma cell (h : Paced emit tau a b n tat) (ha : a ≤ now) (hb : now ≤ b) (hc : Conforms tau tat now) :
    Paced emit tau a b (n + 1) (next emit tat now) := by
  unfold Conforms at hc
  have hnext : (n + 1) * emit = n * emit + emit := by ring
  by_cases hn : n = 0
  · subst hn
    refine ⟨fun _ => ?_, fun _ => by omega⟩
    unfold next
    omega
  · have harrival := h.arrival hn
    refine ⟨fun _ => ?_, fun _ => ?_⟩
    · unfold next
      omega
    · rw [Nat.add_sub_cancel]
      omega

lemma count (h : Paced emit tau a b n tat) (hemit : 0 < emit) : n ≤ (b - a + tau) / emit + 1 := by
  by_cases hn : n = 0
  · rw [hn]
    exact Nat.zero_le _
  · have hdiv := (Nat.le_div_iff_mul_le hemit).mpr (h.spaced hn)
    omega

end Paced

def within (a b : Nat) (cells : List Nat) : List Nat := cells.filter fun now => a ≤ now ∧ now ≤ b

lemma ConformAll.paced {cells} (h : ConformAll emit tau tat cells) (hn : Paced emit tau a b n tat) :
    ∃ tat', Paced emit tau a b (n + (within a b cells).length) tat' := by
  induction cells generalizing tat n with
  | nil => exact ⟨tat, hn⟩
  | cons now cells ih =>
    obtain ⟨hc, hrest⟩ := h
    by_cases hin : a ≤ now ∧ now ≤ b
    · obtain ⟨tat', hpaced⟩ := ih hrest (hn.cell hin.1 hin.2 hc)
      rw [within, List.filter_cons_of_pos (by simpa using hin), List.length_cons, ← Nat.add_assoc, Nat.add_right_comm]
      exact ⟨tat', hpaced⟩
    · rw [within, List.filter_cons_of_neg (by simpa using hin)]
      exact ih hrest (hn.mono (by unfold next; omega))

/-- No interval holds more conforming cells than its length and the tolerance pay for, and one. -/
theorem ConformAll.count_le {cells : List Nat} (h : ConformAll emit tau tat cells) (hemit : 0 < emit) :
    (within a b cells).length ≤ (b - a + tau) / emit + 1 := by
  obtain ⟨tat', hpaced⟩ := h.paced (a := a) (b := b) Paced.none
  rw [Nat.zero_add] at hpaced
  exact hpaced.count hemit

end Rut.Lib.Gcra
