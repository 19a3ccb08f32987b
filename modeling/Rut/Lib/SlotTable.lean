import Mathlib

/-!
# Sets in fixed arrays

A table is an array of slots of which the first `count` are in use. An entry is searched for from the front; it is added
behind the last one if it is not there yet, and removed by moving the entries behind it down by one slot. Such a table
holds a set: no operation makes an entry occur twice.
-/

/-- A table of at most `cap` entries. -/
structure SlotTable (α : Type) (cap : Nat) where
  slots : Nat → α
  count : Nat
  count_le : count ≤ cap

namespace SlotTable

variable {α : Type} {cap : Nat}

def empty (blank : α) : SlotTable α cap := ⟨fun _ => blank, 0, Nat.zero_le cap⟩

def entries (t : SlotTable α cap) : List α := (List.range t.count).map t.slots

def clear (blank : α) (t : SlotTable α cap) : SlotTable α cap :=
  ⟨fun i => if i < t.count then blank else t.slots i, 0, Nat.zero_le cap⟩

lemma mem_entries {a} {t : SlotTable α cap} : a ∈ t.entries ↔ ∃ i < t.count, t.slots i = a := by
  simp [entries]

lemma entries_length (t : SlotTable α cap) : t.entries.length = t.count := by
  rw [entries, List.length_map, List.length_range]

@[simp] lemma entries_empty (blank : α) : (empty blank : SlotTable α cap).entries = [] := rfl

/-- Move the next `n` slots down by one. -/
def shift (slots : Nat → α) : Nat → Nat → Nat → α
  | 0, _ => slots
  | n + 1, j => shift (Function.update slots (j - 1) (slots j)) n (j + 1)

lemma shift_apply {slots : Nat → α} {n j k} (hj : 0 < j) : shift slots n j k = if j ≤ k + 1 ∧ k + 1 < j + n then slots (k + 1) else slots k := by
  induction n generalizing slots j with
  | zero => rw [shift, if_neg (by omega)]
  | succ n ih =>
    rw [shift, ih (Nat.succ_pos j)]
    by_cases hk : k = j - 1
    · subst hk
      rw [if_neg (by omega), Function.update_self, if_pos (by omega), Nat.sub_add_cancel hj]
    · by_cases hin : j + 1 ≤ k + 1 ∧ k + 1 < j + 1 + n
      · rw [if_pos hin, if_pos (by omega), Function.update_of_ne (by omega)]
      · rw [if_neg hin, if_neg (by omega), Function.update_of_ne hk]

variable [DecidableEq α]

/-- The first of the next `n` slots that holds the entry. -/
def search (slots : Nat → α) (a : α) : Nat → Nat → Option Nat
  | 0, _ => none
  | n + 1, i => if slots i = a then some i else search slots a n (i + 1)

def add (t : SlotTable α cap) (a : α) : Bool × SlotTable α cap :=
  match search t.slots a t.count 0 with
  | some _ => (true, t)
  | none =>
    if h : cap ≤ t.count then (false, t)
    else (true, ⟨Function.update t.slots t.count a, t.count + 1, Nat.lt_of_not_le h⟩)

def remove (blank : α) (t : SlotTable α cap) (a : α) : Bool × SlotTable α cap :=
  match search t.slots a t.count 0 with
  | some i =>
    (true, ⟨Function.update (shift t.slots (t.count - (i + 1)) (i + 1)) (t.count - 1) blank, t.count - 1,
      (Nat.sub_le _ _).trans t.count_le⟩)
  | none => (false, t)

variable {slots : Nat → α} {a b : α} {n i k : Nat} {t : SlotTable α cap} {blank : α}

lemma search_none (h : search slots a n i = none) : ∀ k, i ≤ k → k < i + n → slots k ≠ a := by
  induction n generalizing i with
  | zero => omega
  | succ n ih =>
    intro k hik hk
    rw [search] at h
    split_ifs at h with ha
    rcases Nat.eq_or_lt_of_le hik with rfl | hlt
    · exact ha
    · exact ih h k hlt (by omega)

lemma search_some (h : search slots a n i = some k) : i ≤ k ∧ k < i + n ∧ slots k = a := by
  induction n generalizing i with
  | zero => cases h
  | succ n ih =>
    rw [search] at h
    split_ifs at h with ha
    · cases h
      exact ⟨le_rfl, by omega, ha⟩
    · obtain ⟨h₁, h₂, h₃⟩ := ih h
      exact ⟨by omega, by omega, h₃⟩

lemma search_mem (h : search t.slots a t.count 0 = some i) : a ∈ t.entries := by
  obtain ⟨-, hi, ha⟩ := search_some h
  exact mem_entries.mpr ⟨i, by omega, ha⟩

lemma search_not_mem (h : search t.slots a t.count 0 = none) : a ∉ t.entries := by
  intro hmem
  obtain ⟨i, hi, ha⟩ := mem_entries.mp hmem
  exact search_none h i (Nat.zero_le i) (by omega) ha

lemma add_false_iff : (t.add a).1 = false ↔ a ∉ t.entries ∧ t.count = cap := by
  rw [add]
  cases h : search t.slots a t.count 0 with
  | some i => simp [search_mem h]
  | none =>
    have hle := t.count_le
    by_cases hfull : cap ≤ t.count
    · simpa [hfull, search_not_mem h] using Nat.le_antisymm hle hfull
    · have hne : t.count ≠ cap := by omega
      simp [hfull, hne]

lemma entries_add (t : SlotTable α cap) (a : α) :
    (t.add a).2.entries = if a ∈ t.entries ∨ t.count = cap then t.entries else t.entries ++ [a] := by
  rw [add]
  cases h : search t.slots a t.count 0 with
  | some i => rw [if_pos (.inl (search_mem h))]
  | none =>
    have hle := t.count_le
    by_cases hfull : cap ≤ t.count
    · rw [dif_pos hfull, if_pos (.inr (Nat.le_antisymm hle hfull))]
    · rw [dif_neg hfull, if_neg (not_or.mpr ⟨search_not_mem h, by omega⟩)]
      simp only [entries, List.range_succ, List.map_append, List.map_cons, List.map_nil, Function.update_self]
      congr 1
      apply List.map_congr_left
      intro i hi
      exact Function.update_of_ne (Nat.ne_of_lt (List.mem_range.mp hi)) ..

lemma mem_add : b ∈ (t.add a).2.entries ↔ b ∈ t.entries ∨ ((t.add a).1 = true ∧ b = a) := by
  rw [← Bool.not_eq_false, add_false_iff, entries_add]
  by_cases hin : a ∈ t.entries ∨ t.count = cap
  · rw [if_pos hin]
    constructor
    · exact .inl
    · rintro (hb | ⟨hok, rfl⟩)
      · exact hb
      · by_contra hb
        exact hok ⟨hb, hin.resolve_left hb⟩
  · rw [if_neg hin, List.mem_append, List.mem_singleton]
    rw [not_or] at hin
    exact or_congr_right (and_iff_right fun h => hin.2 h.2).symm

lemma nodup_add (h : t.entries.Nodup) : (t.add a).2.entries.Nodup := by
  rw [entries_add]
  split_ifs with hin
  · exact h
  · rw [not_or] at hin
    exact List.nodup_append.mpr ⟨h, List.nodup_singleton a, fun x hx y hy => by
      rw [List.mem_singleton.mp hy]
      exact fun hxa => hin.1 (hxa ▸ hx)⟩

lemma entries_remove (h : search t.slots a t.count 0 = some i) :
    (t.remove blank a).2.entries = t.entries.eraseIdx i := by
  obtain ⟨-, hi, -⟩ := search_some h
  rw [remove, h]
  apply List.ext_getElem
  · rw [entries_length, List.length_eraseIdx_of_lt (by rw [entries_length]; omega), entries_length]
  · intro k hk hk'
    rw [entries_length] at hk
    dsimp only at hk
    simp only [entries, List.getElem_map, List.getElem_range, List.getElem_eraseIdx]
    rw [Function.update_of_ne (by omega), shift_apply (Nat.succ_pos i)]
    by_cases hik : k < i
    · rw [if_neg (by omega), dif_pos hik]
    · rw [if_pos (by omega), dif_neg hik]

lemma remove_eq (hnone : search t.slots a t.count 0 = none) : t.remove blank a = (false, t) := by
  rw [remove, hnone]

lemma mem_remove (hn : t.entries.Nodup) : b ∈ (t.remove blank a).2.entries ↔ b ∈ t.entries ∧ b ≠ a := by
  cases h : search t.slots a t.count 0 with
  | none =>
    rw [remove_eq h]
    exact ⟨fun hb => ⟨hb, fun hba => search_not_mem h (hba ▸ hb)⟩, And.left⟩
  | some i =>
    obtain ⟨-, hi, ha⟩ := search_some h
    have hlt : i < t.entries.length := by
      rw [entries_length]
      omega
    have hget : t.entries[i] = a := by simpa [entries] using ha
    rw [entries_remove h, ← hn.erase_getElem i hlt, hget, hn.mem_erase_iff, and_comm]

lemma nodup_remove (hn : t.entries.Nodup) : (t.remove blank a).2.entries.Nodup := by
  cases h : search t.slots a t.count 0 with
  | none => rwa [remove_eq h]
  | some i =>
    rw [entries_remove h]
    exact hn.sublist (List.eraseIdx_sublist ..)

end SlotTable
