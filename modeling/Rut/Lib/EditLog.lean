import Mathlib.Data.List.Basic

/-!
# Logs of edits of a list

A list of items that are found by a key is edited by a log: an edit can drop all items of its key, and can append one
item of its own. The result of a log is known without the lists in between: the items no edit drops, and then the items
of those edits that no later edit drops.
-/

namespace Rut.Lib

structure Edit (κ α : Type) where
  key : κ
  /-- All items of the key are dropped. -/
  clears : Bool
  /-- The item appended then. -/
  item : Option α
deriving DecidableEq

namespace Edit

variable {κ α : Type} (keyOf : α → κ)

def Keyed (log : List (Edit κ α)) : Prop := ∀ e ∈ log, ∀ a ∈ e.item, keyOf a = e.key

section
variable {keyOf} {log : List (Edit κ α)} {e : Edit κ α}

lemma Keyed.head (h : Keyed keyOf (e :: log)) : ∀ a ∈ e.item, keyOf a = e.key := h e List.mem_cons_self

lemma Keyed.tail (h : Keyed keyOf (e :: log)) : Keyed keyOf log := fun f hf => h f (List.mem_cons_of_mem _ hf)

end

variable [DecidableEq κ]

def apply (l : List α) (e : Edit κ α) : List α :=
  (if e.clears then l.filter fun a => keyOf a ≠ e.key else l) ++ e.item.toList

def applyAll (l : List α) (log : List (Edit κ α)) : List α := log.foldl (apply keyOf) l

def dropped (log : List (Edit κ α)) (k : κ) : Bool := log.any fun e => e.clears && e.key == k

def survivors : List (Edit κ α) → List α
  | [] => []
  | e :: log => (if dropped log e.key then [] else e.item.toList) ++ survivors log

def essential : List (Edit κ α) → List (Edit κ α)
  | [] => []
  | e :: log => (if e.item.isSome && dropped log e.key then [] else [e]) ++ essential log

/-- The first value of a key, read off the log and the first value before it. -/
def first (k : κ) (log : List (Edit κ α)) (fallback : Option α) : Option α :=
  log.foldl (fun found e => if e.key ≠ k then found else if e.clears then e.item else found.or e.item) fallback

variable {keyOf} {log : List (Edit κ α)} {e : Edit κ α} {l : List α} {k : κ}

lemma dropped_cons : dropped (e :: log) k = ((e.clears && e.key == k) || dropped log k) := rfl

lemma filter_dropped_cons : l.filter (fun a => !dropped (e :: log) (keyOf a)) =
      (if e.clears then l.filter fun a => keyOf a ≠ e.key else l).filter fun a => !dropped log (keyOf a) := by
  cases hc : e.clears with
  | false => simp [dropped_cons, hc]
  | true =>
    rw [if_pos rfl, List.filter_filter]
    apply List.filter_congr
    intro a _
    rw [dropped_cons, hc, Bool.true_and, Bool.not_or, Bool.and_comm]
    congr 1
    rcases Decidable.em (keyOf a = e.key) with hk | hk
    · simp [hk]
    · simp [hk, Ne.symm hk]

/-- The result of a log. -/
theorem applyAll_eq (h : Keyed keyOf log) (l : List α) :
    applyAll keyOf l log = l.filter (fun a => !dropped log (keyOf a)) ++ survivors log := by
  induction log generalizing l with
  | nil => simp [applyAll, dropped, survivors]
  | cons e log ih =>
    have hitem : e.item.toList.filter (fun a => !dropped log (keyOf a)) =
        if dropped log e.key then [] else e.item.toList := by
      cases hi : e.item with
      | none => simp
      | some a =>
        have hkey := h.head a hi
        cases hd : dropped log e.key <;> simp [hkey, hd]
    rw [applyAll, List.foldl_cons, ← applyAll, ih h.tail, apply, List.filter_append, hitem, filter_dropped_cons,
      survivors, List.append_assoc]

lemma Keyed.essential (h : Keyed keyOf log) : Keyed keyOf (essential log) := by
  induction log with
  | nil => exact h
  | cons e log ih =>
    intro f hf
    rcases List.mem_append.1 hf with hf | hf
    · have hfe : f = e := by
        split_ifs at hf
        · cases hf
        · exact List.mem_singleton.1 hf
      rw [hfe]
      exact h.head
    · exact ih h.tail f hf

lemma dropped_essential (log : List (Edit κ α)) (k : κ) : dropped (essential log) k = dropped log k := by
  induction log with
  | nil => rfl
  | cons e log ih =>
    have happ : dropped (essential (e :: log)) k =
        (dropped (if e.item.isSome && dropped log e.key then [] else [e]) k || dropped log k) := by
      rw [essential, ← ih]
      simp [dropped, List.any_append]
    rw [happ, dropped_cons]
    split_ifs with hout
    · rw [Bool.and_eq_true] at hout
      rcases Decidable.em (e.key = k) with rfl | hne
      · simp [hout.2]
      · simp [dropped, hne]
    · simp [dropped]

lemma survivors_essential (log : List (Edit κ α)) : survivors (essential log) = survivors log := by
  induction log with
  | nil => rfl
  | cons e log ih =>
    rw [essential, survivors]
    split_ifs with hout hdrop hdrop
    · rw [List.nil_append, List.nil_append, ih]
    · rw [Bool.and_eq_true] at hout
      exact absurd hout.2 hdrop
    · -- an edit without an item stays, whatever comes later
      rw [hdrop, Bool.and_true, Bool.not_eq_true, Option.isSome_eq_false_iff, Option.isNone_iff_eq_none] at hout
      rw [List.singleton_append, survivors, ih, hout]
      simp
    · rw [List.singleton_append, survivors, dropped_essential, if_neg hdrop, ih]

/-- Leaving out what later edits drop changes nothing. -/
theorem applyAll_essential (h : Keyed keyOf log) (l : List α) :
    applyAll keyOf l (essential log) = applyAll keyOf l log := by
  rw [applyAll_eq h, applyAll_eq h.essential, survivors_essential]
  simp only [dropped_essential]

lemma filter_applyAll (h : Keyed keyOf log) (p : κ → Bool) (l : List α) :
    (applyAll keyOf l log).filter (fun a => p (keyOf a)) =
      applyAll keyOf (l.filter fun a => p (keyOf a)) (log.map fun e => { e with item := e.item.filter fun _ => p e.key }) := by
  induction log generalizing l with
  | nil => rfl
  | cons e log ih =>
    rw [applyAll, List.foldl_cons, ← applyAll, ih h.tail, List.map_cons, applyAll, applyAll, List.foldl_cons]
    congr 1
    rw [apply, apply, List.filter_append]
    congr 1
    · cases e.clears
      · rfl
      · simp only [if_true, List.filter_filter]
        apply List.filter_congr
        intro a _
        exact Bool.and_comm _ _
    · cases hi : e.item with
      | none => rfl
      | some a =>
        have hkey := h.head a hi
        cases hp : p e.key <;> simp [hkey, hp, Option.filter]

/-- The first item of a key is the one read off the log. -/
theorem find?_applyAll (h : Keyed keyOf log) (l : List α) (k : κ) :
    (applyAll keyOf l log).find? (fun a => keyOf a = k) = first k log (l.find? fun a => keyOf a = k) := by
  induction log generalizing l with
  | nil => rfl
  | cons e log ih =>
    have hstep : (apply keyOf l e).find? (fun a => keyOf a = k) =
        if e.key ≠ k then l.find? (fun a => keyOf a = k)
        else if e.clears then e.item else (l.find? fun a => keyOf a = k).or e.item := by
      have hitem : e.item.toList.find? (fun a => keyOf a = k) = if e.key ≠ k then none else e.item := by
        cases hi : e.item with
        | none => simp
        | some a =>
          have hkey := h.head a hi
          rcases Decidable.em (e.key = k) with hk | hk <;> simp [hkey, hk]
      rw [apply, List.find?_append, hitem]
      rcases Decidable.em (e.key = k) with hk | hk
      · have hnone : (l.filter fun a => keyOf a ≠ e.key).find? (fun a => keyOf a = k) = none := by
          rw [List.find?_eq_none]
          intro a ha
          rw [List.mem_filter, hk] at ha
          simpa using ha.2
        cases hc : e.clears with
        | false => simp [hk]
        | true => simp only [if_true, hnone, if_neg (not_not.2 hk), Option.none_or]
      · have hother : (l.filter fun a => keyOf a ≠ e.key).find? (fun a => keyOf a = k) =
            l.find? fun a => keyOf a = k := by
          rw [List.find?_filter]
          congr 1
          funext a
          rw [Bool.eq_iff_iff]
          simp only [ne_eq, decide_not, Bool.not_eq_true', decide_eq_false_iff_not, decide_eq_true_eq]
          constructor
          · exact fun h => h.2
          · exact fun ha => ⟨fun hae => hk (hae.symm.trans ha), ha⟩
        cases hc : e.clears with
        | false => simp [hk]
        | true => simp only [if_true, hother, if_pos (show e.key ≠ k from hk), Option.or_none]
    rw [applyAll, List.foldl_cons, ← applyAll, ih h.tail, hstep, first, first, List.foldl_cons]

end Edit

end Rut.Lib
