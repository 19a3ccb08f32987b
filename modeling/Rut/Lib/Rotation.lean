import Mathlib.Data.Int.ModEq
import Mathlib.Data.Nat.Count
import Mathlib.Order.Interval.Finset.Nat

/-!
# Taking turns

A cursor goes round the numbers below `n` and stops each time at the next one of a set, just behind the one it stopped at
before. As many stops as the set has elements are all different.
-/

namespace Rut.Lib.Rotation

variable {E : Nat → Prop} {n c c' r : Nat} {l : List Nat}

/-- The first number of the set at or cyclically after `c`. -/
def IsNext (E : Nat → Prop) (n c r : Nat) : Prop :=
  ∃ step < n, r = (c + step) % n ∧ E r ∧ ∀ s < step, ¬ E ((c + s) % n)

inductive Turns (E : Nat → Prop) (n c : Nat) : List Nat → Nat → Prop where
  | nil : Turns E n c [] c
  | snoc {l : List Nat} {c' c'' r : Nat} (h : Turns E n c l c') (hr : IsNext E n c' r) (hc : c'' % n = (r + 1) % n) :
      Turns E n c (l ++ [r]) c''

section count

variable [DecidablePred E]

lemma count_rotate (n c : Nat) : Nat.count (fun x => E ((c + x) % n)) n = Nat.count E n := by
  have hperiodic : Nat.count (fun x => E (x % n)) (c + n) = Nat.count (fun x => E (x % n)) (n + c) := by
    rw [Nat.add_comm]
  rw [Nat.count_add, Nat.count_add] at hperiodic
  simp only [Nat.add_mod_left] at hperiodic
  have hfirst : Nat.count (fun x => E (x % n)) n = Nat.count E n := by
    rw [Nat.count_eq_card_filter_range, Nat.count_eq_card_filter_range]
    congr 1
    apply Finset.filter_congr
    intro x hx
    rw [Nat.mod_eq_of_lt (Finset.mem_range.mp hx)]
  omega

lemma count_gap {p} [DecidablePred p] {a b} (h : ∀ s < b, ¬ p (a + s)) : Nat.count p (a + b) = Nat.count p a := by
  induction b with
  | zero => rfl
  | succ b ih =>
    rw [← Nat.add_assoc, Nat.count_succ, if_neg (h b (Nat.lt_succ_self b)), ih fun s hs => h s (Nat.lt_succ_of_lt hs)]
    rfl

lemma exists_of_count_lt {p} [DecidablePred p] {a b} (h : Nat.count p a < Nat.count p b) :
    ∃ x, a ≤ x ∧ x < b ∧ p x := by
  by_contra hnone
  have hle : a ≤ b := by
    by_contra hlt
    exact absurd (Nat.count_monotone p (Nat.le_of_not_le hlt)) (Nat.not_le.mpr h)
  have hgap := count_gap (p := p) (a := a) (b := b - a) fun s hs hp => hnone ⟨a + s, by omega, by omega, hp⟩
  rw [Nat.add_sub_cancel' hle] at hgap
  omega

end count

/-- The cursor has gone round to `T`, and the stops are the numbers it has passed. -/
structure Passed (E : Nat → Prop) [DecidablePred E] (n c : Nat) (l : List Nat) (c' T : Nat) : Prop where
  le : T ≤ n
  cursor : c' % n = (c + T) % n
  stops : ∀ r ∈ l, ∃ x < T, r = (c + x) % n
  count : Nat.count (fun x => E ((c + x) % n)) T = l.length
  nodup : l.Nodup

lemma mod_add_inj {c x y n : Nat} (hx : x < n) (hy : y < n) (h : (c + x) % n = (c + y) % n) : x = y := by
  have hmod : x % n = y % n := Nat.ModEq.add_left_cancel' c h
  rwa [Nat.mod_eq_of_lt hx, Nat.mod_eq_of_lt hy] at hmod

lemma Passed.snoc [DecidablePred E] {T c''} (h : Passed E n c l c' T) (hmore : l.length < Nat.count E n)
    (hr : IsNext E n c' r) (hc : c'' % n = (r + 1) % n) : ∃ T', Passed E n c (l ++ [r]) c'' T' := by
  obtain ⟨step, -, hreq, hE, hbefore⟩ := hr
  have hoffset : ∀ s, (c' + s) % n = (c + (T + s)) % n := by
    intro s
    rw [Nat.add_mod, h.cursor, ← Nat.add_mod, Nat.add_assoc]
  rw [hoffset] at hreq
  simp only [hoffset] at hbefore
  -- some number that was not passed is left on this round, so that the stop is on it
  rw [← count_rotate n c, ← h.count] at hmore
  obtain ⟨x, hTx, hxn, hx⟩ := exists_of_count_lt hmore
  have hle : T + step ≤ x := by
    by_contra hlt
    refine hbefore (x - T) (by omega) ?_
    rwa [Nat.add_sub_cancel' hTx]
  have hcount := count_gap (p := fun x => E ((c + x) % n)) hbefore
  rw [hreq] at hE
  refine ⟨T + step + 1, by omega, ?_, ?_, ?_, ?_⟩
  · rw [hc, hreq, Nat.mod_add_mod, Nat.add_assoc]
  · intro q hq
    rcases List.mem_append.mp hq with hq | hq
    · obtain ⟨y, hy, heq⟩ := h.stops q hq
      exact ⟨y, by omega, heq⟩
    · cases List.mem_singleton.mp hq
      exact ⟨T + step, by omega, hreq⟩
  · rw [Nat.count_succ, if_pos hE, hcount, h.count, List.length_append]
    rfl
  · refine List.nodup_append.mpr ⟨h.nodup, List.nodup_singleton r, ?_⟩
    intro q hq q' hq' heq
    cases List.mem_singleton.mp hq'
    obtain ⟨y, hy, hqy⟩ := h.stops q hq
    have hsame := mod_add_inj (c := c) (by omega) (by omega) (hqy.symm.trans (heq.trans hreq))
    omega

lemma Turns.nodup [DecidablePred E] (h : Turns E n c l c') (hle : l.length ≤ Nat.count E n) : l.Nodup := by
  have hpassed : ∃ T, Passed E n c l c' T := by
    induction h with
    | nil => exact ⟨0, Nat.zero_le _, rfl, fun _ hr => absurd hr List.not_mem_nil, Nat.count_zero _, List.nodup_nil⟩
    | snoc h hr hc ih =>
      rw [List.length_append, List.length_singleton] at hle
      obtain ⟨T, hT⟩ := ih (Nat.le_of_succ_le hle)
      exact hT.snoc hle hr hc
  obtain ⟨T, hT⟩ := hpassed
  exact hT.nodup

end Rut.Lib.Rotation
