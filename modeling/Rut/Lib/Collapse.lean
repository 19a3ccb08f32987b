import Mathlib.Data.List.Destutter
import Mathlib.Data.List.TakeWhile

/-!
# Collapsing runs

Every run of a separator is cut to a single one, all else stays. The result is a normal form: it is fixed by another
turn, and two lists have the same one if they differ only in the lengths of the runs.
-/

namespace Rut.Lib

variable {α : Type*} [DecidableEq α] {a c : α} {s t l m : List α} {n : Nat}

def Unrepeated (a x y : α) : Prop := ¬(x = a ∧ y = a)

instance (a : α) : DecidableRel (Unrepeated a) := fun _ _ => inferInstanceAs (Decidable (¬_))

/-- The list with its runs of `a` cut to one. -/
def collapse (a : α) (l : List α) : List α := l.destutter (Unrepeated a)

/-- The lists differ only in the lengths of the runs of `a`. -/
inductive SameRuns (a : α) : List α → List α → Prop where
  | nil : SameRuns a [] []
  | other {c : α} {s t : List α} (hc : c ≠ a) (h : SameRuns a s t) : SameRuns a (c :: s) (c :: t)
  | run {s t : List α} (m n : Nat) (hs : s.head? ≠ some a) (ht : t.head? ≠ some a) (h : SameRuns a s t) :
      SameRuns a (List.replicate (m + 1) a ++ s) (List.replicate (n + 1) a ++ t)

@[simp] lemma collapse_nil : collapse a ([] : List α) = [] := rfl

lemma collapse_repeat (a : α) (s : List α) : collapse a (a :: a :: s) = collapse a (a :: s) :=
  List.destutter'_cons_neg _ fun h => h ⟨rfl, rfl⟩

lemma collapse_step (h : Unrepeated a c (s.head?.getD a) ∨ s = []) : collapse a (c :: s) = c :: collapse a s := by
  cases s with
  | nil => rfl
  | cons d s => exact List.destutter'_cons_pos _ (h.resolve_right (List.cons_ne_nil d s))

lemma collapse_other (hc : c ≠ a) (s : List α) : collapse a (c :: s) = c :: collapse a s :=
  collapse_step (.inl fun h => hc h.1)

lemma collapse_last (hs : s.head? ≠ some a) : collapse a (a :: s) = a :: collapse a s := by
  cases s with
  | nil => rfl
  | cons d s => exact collapse_step (.inl fun h => hs (congrArg some h.2))

lemma collapse_run (hs : s.head? ≠ some a) : collapse a (List.replicate (n + 1) a ++ s) = a :: collapse a s := by
  induction n with
  | zero => exact collapse_last hs
  | succ n ih =>
    rw [List.replicate_succ, List.replicate_succ, List.cons_append, List.cons_append, collapse_repeat]
    exact ih

lemma collapse_idem (l : List α) : collapse a (collapse a l) = collapse a l := List.destutter_idem _ _

lemma collapse_unrepeated (l : List α) : (collapse a l).IsChain (Unrepeated a) := List.isChain_destutter _ l

lemma mem_of_mem_collapse (h : c ∈ collapse a l) : c ∈ l := (List.destutter_sublist _ l).subset h

lemma exists_run (l : List α) :
    l = [] ∨ (∃ c s, c ≠ a ∧ l = c :: s) ∨ ∃ n s, s.head? ≠ some a ∧ l = List.replicate (n + 1) a ++ s := by
  cases l with
  | nil => exact .inl rfl
  | cons c s =>
    by_cases hc : c = a
    · subst hc
      refine .inr (.inr ⟨(s.takeWhile (· == c)).length, s.dropWhile (· == c), ?_, ?_⟩)
      · have hhead := List.head?_dropWhile_not (· == c) s
        intro h
        rw [h] at hhead
        simp at hhead
      · have hrun : s.takeWhile (· == c) = List.replicate (s.takeWhile (· == c)).length c :=
          List.eq_replicate_of_mem fun b hb => by simpa using List.mem_takeWhile_imp hb
        rw [List.replicate_succ, List.cons_append, ← hrun, List.takeWhile_append_dropWhile]
    · exact .inr (.inl ⟨c, s, hc, rfl⟩)

lemma collapse_head (a : α) (s : List α) : ∃ t, collapse a (a :: s) = a :: t := by
  rcases exists_run (a := a) (a :: s) with h | ⟨c, t, hc, h⟩ | ⟨n, t, ht, h⟩
  · cases h
  · exact absurd (List.cons.inj h).1.symm hc
  · exact ⟨collapse a t, by rw [h, collapse_run ht]⟩

lemma collapse_eq_iff : collapse a l = collapse a m ↔ SameRuns a l m := by
  constructor
  · intro h
    induction hn : l.length using Nat.strongRecOn generalizing l m with
    | ind n ih =>
      subst hn
      rcases exists_run (a := a) l with rfl | ⟨c, s, hc, rfl⟩ | ⟨k, s, hs, rfl⟩
      · obtain rfl : m = [] := (List.destutter_eq_nil _).mp h.symm
        exact .nil
      · rw [collapse_other hc] at h
        rcases exists_run (a := a) m with rfl | ⟨d, t, hd, rfl⟩ | ⟨k, t, ht, rfl⟩
        · cases h
        · rw [collapse_other hd] at h
          obtain ⟨rfl, hrest⟩ := List.cons.inj h
          exact .other hc (ih _ (by simp) hrest rfl)
        · rw [collapse_run ht] at h
          exact absurd (List.cons.inj h).1 hc
      · rw [collapse_run hs] at h
        rcases exists_run (a := a) m with rfl | ⟨d, t, hd, rfl⟩ | ⟨j, t, ht, rfl⟩
        · cases h
        · rw [collapse_other hd] at h
          exact absurd (List.cons.inj h).1.symm hd
        · rw [collapse_run ht] at h
          exact .run k j hs ht (ih _ (by simp) (List.cons.inj h).2 rfl)
  · intro h
    induction h with
    | nil => rfl
    | other hc _ ih => rw [collapse_other hc, collapse_other hc, ih]
    | run m n hs ht _ ih => rw [collapse_run hs, collapse_run ht, ih]

end Rut.Lib
