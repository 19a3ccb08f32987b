import Mathlib

/-!
# Linked slots

A doubly linked list through the slots of an array: each slot has a link to the one in front of it and to the one behind
it, and there is a link to the first one. A slot is linked in at the front and can be unlinked anywhere. `Linked` says
which slots the list goes through, in which order.
-/

structure Links where
  prev : Nat → Option Nat := fun _ => none
  next : Nat → Option Nat := fun _ => none
  head : Option Nat := none

namespace Links

def setAt (f : Nat → Option Nat) (at' : Option Nat) (x : Option Nat) : Nat → Option Nat :=
  match at' with
  | some i => Function.update f i x
  | none => f

def link (l : Links) (i : Nat) : Links where
  prev := setAt (Function.update l.prev i none) l.head (some i)
  next := Function.update l.next i l.head
  head := some i

def unlink (l : Links) (i : Nat) : Links where
  prev := Function.update (setAt l.prev (l.next i) (l.prev i)) i none
  next := Function.update (setAt l.next (l.prev i) (l.next i)) i none
  head := if (l.prev i).isSome then l.head else l.next i

structure Linked (l : Links) (L : List Nat) : Prop where
  nodup : L.Nodup
  head : l.head = L.head?
  next : ∀ A i B, L = A ++ i :: B → l.next i = B.head?
  prev : ∀ A i B, L = A ++ i :: B → l.prev i = A.getLast?

variable {l : Links} {L A B : List Nat} {i j : Nat}

lemma link_prev (l : Links) (i : Nat) : (l.link i).prev = setAt (Function.update l.prev i none) l.head (some i) := rfl

lemma link_next (l : Links) (i : Nat) : (l.link i).next = Function.update l.next i l.head := rfl

lemma unlink_prev (l : Links) (i : Nat) :
    (l.unlink i).prev = Function.update (setAt l.prev (l.next i) (l.prev i)) i none := rfl

lemma unlink_next (l : Links) (i : Nat) :
    (l.unlink i).next = Function.update (setAt l.next (l.prev i) (l.next i)) i none := rfl

lemma unlink_head (l : Links) (i : Nat) : (l.unlink i).head = if (l.prev i).isSome then l.head else l.next i := rfl

lemma setAt_eq (f : Nat → Option Nat) (at' x : Option Nat) (j : Nat) :
    setAt f at' x j = if at' = some j then x else f j := by
  cases at' with
  | none => rfl
  | some i =>
    by_cases h : i = j
    · subst h
      rw [setAt, Function.update_self, if_pos rfl]
    · rw [setAt, Function.update_of_ne (Ne.symm h), if_neg (by simpa using h)]

lemma Linked.empty : ({} : Links).Linked [] :=
  ⟨List.nodup_nil, rfl, fun A i B h => by simp at h, fun A i B h => by simp at h⟩

lemma Linked.link (h : l.Linked L) (hi : i ∉ L) : (l.link i).Linked (i :: L) := by
  refine ⟨List.nodup_cons.mpr ⟨hi, h.nodup⟩, rfl, ?_, ?_⟩
  · intro A j B hL
    rcases List.cons_eq_append_iff.mp hL with ⟨rfl, hcons⟩ | ⟨A', rfl, hL'⟩
    · obtain ⟨rfl, rfl⟩ := List.cons.inj hcons
      rw [link_next, Function.update_self, h.head]
    · have hj : j ≠ i := fun hji => hi (hL' ▸ hji ▸ by simp)
      rw [link_next, Function.update_of_ne hj]
      exact h.next A' j B hL'
  · intro A j B hL
    rcases List.cons_eq_append_iff.mp hL with ⟨rfl, hcons⟩ | ⟨A', rfl, hL'⟩
    · obtain ⟨rfl, rfl⟩ := List.cons.inj hcons
      have hhead : ¬l.head = some j := by
        rw [h.head]
        exact fun hj => hi (List.mem_of_mem_head? hj)
      rw [link_prev, setAt_eq, if_neg hhead, Function.update_self]
      rfl
    · have hj : j ≠ i := fun hji => hi (hL' ▸ hji ▸ by simp)
      rw [link_prev, setAt_eq, h.head, hL', Function.update_of_ne hj]
      cases A' with
      | nil => simp
      | cons a A' =>
        have ha : a ≠ j := by
          have hnd := h.nodup
          rw [hL', List.cons_append, List.nodup_cons] at hnd
          rintro rfl
          exact hnd.1 (by simp)
        rw [List.cons_append, List.head?_cons, if_neg (by simpa using ha), h.prev (a :: A') j B hL',
          List.getLast?_cons_cons]

lemma append_split {B'} (h : A ++ B = L ++ j :: B') : (∃ C, B = C ++ j :: B' ∧ L = A ++ C) ∨ ∃ C, A = L ++ j :: C ∧ B' = C ++ B := by
  rcases List.append_eq_append_iff.mp h with ⟨C, hL, hB⟩ | ⟨C, hA, hB⟩
  · exact .inl ⟨C, hB, hL⟩
  · cases C with
    | nil => exact .inl ⟨[], by simpa using hB.symm, by simpa using hA.symm⟩
    | cons c C =>
      obtain ⟨rfl, rfl⟩ := List.cons.inj hB
      exact .inr ⟨C, hA, rfl⟩

lemma Linked.unlink (h : l.Linked (A ++ i :: B)) : (l.unlink i).Linked (A ++ B) := by
  have hnext := h.next A i B rfl
  have hprev := h.prev A i B rfl
  have hnd := h.nodup
  rw [List.nodup_append, List.nodup_cons] at hnd
  obtain ⟨hA, ⟨hiB, hB⟩, hAB⟩ := hnd
  have hiA : i ∉ A := fun hi => hAB i hi i List.mem_cons_self rfl
  have hapart : ∀ j ∈ A, j ∉ B := fun j hj hj' => hAB j hj j (List.mem_cons_of_mem _ hj') rfl
  refine ⟨List.nodup_append.mpr ⟨hA, hB, fun a ha b hb hab => hapart a ha (hab ▸ hb)⟩, ?_, ?_, ?_⟩
  · rw [unlink_head, hprev, hnext, h.head]
    cases A with
    | nil => rfl
    | cons a A => simp [List.getLast?_cons]
  · intro A' j B' hL
    rw [unlink_next]
    rcases append_split hL with ⟨C, hBC, rfl⟩ | ⟨C, hAC, rfl⟩
    · -- The slot stands behind the one that is taken out.
      have hjB : j ∈ B := hBC ▸ by simp
      have hj : j ≠ i := fun hji => hiB (hji ▸ hjB)
      have hlast : ¬A.getLast? = some j := fun hl => hapart j (List.mem_of_getLast? hl) hjB
      rw [Function.update_of_ne hj, setAt_eq, hprev, if_neg hlast]
      exact h.next (A ++ i :: C) j B' (by rw [hBC]; simp)
    · have hjA : j ∈ A := hAC ▸ by simp
      have hj : j ≠ i := fun hji => hiA (hji ▸ hjA)
      rw [Function.update_of_ne hj, setAt_eq, hprev, hnext, h.next A' j (C ++ i :: B) (by rw [hAC]; simp)]
      cases C with
      | nil =>
        rw [hAC, List.getLast?_append, List.getLast?_singleton]
        simp
      | cons c C =>
        have hlast : ¬A.getLast? = some j := by
          rw [hAC, List.nodup_append, List.nodup_cons] at hA
          rw [hAC, List.getLast?_append, List.getLast?_cons_cons]
          intro hl
          rw [List.getLast?_cons, Option.some_or] at hl
          exact hA.2.1.1 (by
            have := List.mem_of_getLast? (l := c :: C) (a := j) (by rw [List.getLast?_cons]; exact hl)
            exact this)
        rw [if_neg hlast]
        rfl
  · intro A' j B' hL
    rw [unlink_prev]
    rcases append_split hL with ⟨C, hBC, rfl⟩ | ⟨C, hAC, rfl⟩
    · have hjB : j ∈ B := hBC ▸ by simp
      have hj : j ≠ i := fun hji => hiB (hji ▸ hjB)
      rw [Function.update_of_ne hj, setAt_eq, hnext, hprev, h.prev (A ++ i :: C) j B' (by rw [hBC]; simp)]
      cases C with
      | nil => simp [hBC]
      | cons c C =>
        have hc : c ≠ j := by
          rw [hBC, List.cons_append, List.nodup_cons] at hB
          rintro rfl
          exact hB.1 (by simp)
        rw [hBC, List.cons_append, List.head?_cons, if_neg (by simpa using hc)]
        simp [List.getLast?_append, List.getLast?_cons]
    · have hjA : j ∈ A := hAC ▸ by simp
      have hj : j ≠ i := fun hji => hiA (hji ▸ hjA)
      have hhead : ¬B.head? = some j := fun hh => hapart j hjA (List.mem_of_mem_head? hh)
      rw [Function.update_of_ne hj, setAt_eq, hnext, if_neg hhead]
      exact h.prev A' j (C ++ i :: B) (by rw [hAC]; simp)

end Links
