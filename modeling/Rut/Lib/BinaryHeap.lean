import Mathlib.Data.List.Perm.Basic
import Mathlib.Order.Nat
import Mathlib.Order.Basic

/-!
# Binary heaps in an array

The children of place `i` are at `2 * i + 1` and `2 * i + 2`. Sifting moves one element along a path of the tree; an
array that is in order but for one place is in order again afterwards, and it holds the same elements.
-/

namespace Rut.Lib.BinaryHeap

variable {α : Type*} (key : α → Nat)

/-- The key at a place inside the array. -/
def keyAt (a : Array α) (i : Nat) : Nat := a[i]?.elim 0 key

def parent (i : Nat) : Nat := (i - 1) / 2

/-- Each turn goes up one level, so that `i` turns are enough. -/
def siftUp : Nat → Array α → Nat → Array α
  | 0, a, _ => a
  | fuel + 1, a, i =>
    if i = 0 ∨ keyAt key a (parent i) ≤ keyAt key a i then a
    else siftUp fuel (a.swapIfInBounds (parent i) i) (parent i)

/-- The place of the smallest key among `i` and its children. -/
def smallest (a : Array α) (i : Nat) : Nat :=
  let s := if 2 * i + 1 < a.size ∧ keyAt key a (2 * i + 1) < keyAt key a i then 2 * i + 1 else i
  if 2 * i + 2 < a.size ∧ keyAt key a (2 * i + 2) < keyAt key a s then 2 * i + 2 else s

def siftDown : Nat → Array α → Nat → Array α
  | 0, a, _ => a
  | fuel + 1, a, i =>
    if smallest key a i = i then a else siftDown fuel (a.swapIfInBounds (smallest key a i) i) (smallest key a i)

/-- The last element takes the place `i`. -/
def cut (a : Array α) (i : Nat) : Array α := (a.swapIfInBounds i (a.size - 1)).pop

/-- No element is before its parent. -/
def Ordered (a : Array α) : Prop := ∀ j, 0 < j → j < a.size → keyAt key a (parent j) ≤ keyAt key a j

/-- In order but for the places `skip`, which are at `i`: its parent is not behind its children. -/
structure OrderedBut (a : Array α) (i : Nat) (skip : Nat → Prop) : Prop where
  rest : ∀ j, 0 < j → j < a.size → ¬skip j → keyAt key a (parent j) ≤ keyAt key a j
  grand : ∀ j, 0 < j → j < a.size → parent j = i → 0 < i → keyAt key a (parent i) ≤ keyAt key a j

/-- In order but for `i` under its parent. -/
def UpOrder (a : Array α) (i : Nat) : Prop := OrderedBut key a i (· = i)

/-- In order but for the children of `i`. -/
def DownOrder (a : Array α) (i : Nat) : Prop := OrderedBut key a i (parent · = i)

variable {key} {a : Array α} {i j : Nat}

lemma parent_lt (h : 0 < i) : parent i < i := by
  unfold parent
  omega

lemma keyAt_swap (hi : i < a.size) (hj : j < a.size) (k : Nat) : keyAt key (a.swapIfInBounds i j) k =
    if k = i then keyAt key a j else if k = j then keyAt key a i else keyAt key a k := by
  rw [Array.swapIfInBounds_def, dif_pos hi, dif_pos hj]
  unfold keyAt
  rw [Array.getElem?_swap]
  grind

lemma swap_perm (a : Array α) (i j : Nat) : (a.swapIfInBounds i j).toList.Perm a.toList := by
  rw [Array.swapIfInBounds_def]
  split_ifs with hi hj
  · exact (Array.swap_perm hi hj).toList
  · exact .rfl
  · exact .rfl

lemma keyAt_push_of_lt {x : α} (h : i < a.size) : keyAt key (a.push x) i = keyAt key a i := by
  rw [keyAt, keyAt, Array.getElem?_push, if_neg (Nat.ne_of_lt h)]

/-! ## Sifting -/

lemma siftUp_perm (fuel : Nat) (a : Array α) (i : Nat) : (siftUp key fuel a i).toList.Perm a.toList := by
  induction fuel generalizing a i with
  | zero => exact .rfl
  | succ fuel ih =>
    rw [siftUp]
    split_ifs
    · exact .rfl
    · exact (ih _ _).trans (swap_perm a _ _)

lemma siftDown_perm (fuel : Nat) (a : Array α) (i : Nat) : (siftDown key fuel a i).toList.Perm a.toList := by
  induction fuel generalizing a i with
  | zero => exact .rfl
  | succ fuel ih =>
    rw [siftDown]
    split_ifs
    · exact .rfl
    · exact (ih _ _).trans (swap_perm a _ _)

lemma UpOrder.step (h : UpOrder key a i) (hi : 0 < i) (hlt : i < a.size)
    (hkey : keyAt key a i < keyAt key a (parent i)) : UpOrder key (a.swapIfInBounds (parent i) i) (parent i) := by
  have hp := parent_lt hi
  have hswap := @keyAt_swap _ key _ _ _ (hp.trans hlt) hlt
  constructor
  · intro j hj hjlt hne
    rw [Array.size_swapIfInBounds] at hjlt
    have hrest := h.rest j hj hjlt
    have hgrand := h.grand j hj hjlt
    rw [hswap, hswap, if_neg hne]
    by_cases hji : j = i
    · rw [hji, if_pos rfl, if_pos rfl]
      exact hkey.le
    rw [if_neg hji]
    split_ifs with h₁ h₂
    · have hle := hrest hji
      rw [h₁] at hle
      exact hkey.le.trans hle
    · exact hgrand h₂ hi
    · exact hrest hji
  · intro j hj hjlt hpar hpos
    rw [Array.size_swapIfInBounds] at hjlt
    have hup := parent_lt hpos
    have hfirst := h.rest (parent i) hpos (hp.trans hlt) hp.ne
    have hrest := h.rest j hj hjlt
    rw [hpar] at hrest
    have hjp := parent_lt hj
    rw [hswap, hswap, if_neg hup.ne, if_neg (hup.trans hp).ne]
    split_ifs with h₁ h₂
    · omega
    · exact hfirst
    · exact hfirst.trans (hrest h₂)

lemma siftUp_ordered {fuel} (h : UpOrder key a i) (hlt : i < a.size) (hfuel : i ≤ fuel) :
    Ordered key (siftUp key fuel a i) := by
  induction fuel generalizing a i with
  | zero => exact fun j hj hjlt => h.rest j hj hjlt (by omega)
  | succ fuel ih =>
    rw [siftUp]
    split_ifs with hstop
    · intro j hj hjlt
      rcases eq_or_ne j i with rfl | hne
      · exact hstop.resolve_left hj.ne'
      · exact h.rest j hj hjlt hne
    · rw [not_or, Nat.not_le] at hstop
      have hi := Nat.pos_of_ne_zero hstop.1
      have hp := parent_lt hi
      exact ih (h.step hi hlt hstop.2) (by rw [Array.size_swapIfInBounds]; omega) (by omega)

/-- The place found is `i` or one of its children, and no child is before it. -/
lemma smallest_spec (a : Array α) (i : Nat) :
    (smallest key a i = i ∨ 0 < smallest key a i ∧ smallest key a i < a.size ∧ parent (smallest key a i) = i ∧
      keyAt key a (smallest key a i) < keyAt key a i) ∧
    ∀ j, 0 < j → j < a.size → parent j = i → keyAt key a (smallest key a i) ≤ keyAt key a j := by
  have hchild : ∀ j, 0 < j → parent j = i → j = 2 * i + 1 ∨ j = 2 * i + 2 := by
    unfold parent
    omega
  have hl : parent (2 * i + 1) = i := by unfold parent; omega
  have hr : parent (2 * i + 2) = i := by unfold parent; omega
  unfold smallest
  refine ⟨by grind, fun j hj hjlt hpar => ?_⟩
  rcases hchild j hj hpar with rfl | rfl
  · grind
  · grind

lemma DownOrder.step (h : DownOrder key a i) {s} (hs : 0 < s) (hslt : s < a.size) (hpar : parent s = i)
    (hkey : keyAt key a s < keyAt key a i)
    (hmin : ∀ j, 0 < j → j < a.size → parent j = i → keyAt key a s ≤ keyAt key a j) :
    DownOrder key (a.swapIfInBounds s i) s := by
  have his : i < s := hpar ▸ parent_lt hs
  have hswap := @keyAt_swap _ key _ _ _ hslt (his.trans hslt)
  constructor
  · intro j hj hjlt hne
    rw [Array.size_swapIfInBounds] at hjlt
    have hjp := parent_lt hj
    rw [hswap, hswap, if_neg hne]
    by_cases hpi : parent j = i
    · rw [if_pos hpi]
      split_ifs with h₁ h₂
      · exact hkey.le
      · omega
      · exact hmin j hj hjlt hpi
    rw [if_neg hpi]
    split_ifs with h₁ h₂
    · rw [h₁] at hpi
      exact absurd hpar hpi
    · subst h₂
      exact h.grand s hs hslt hpar hj
    · exact h.rest j hj hjlt hpi
  · intro j hj hjlt hparj _
    rw [Array.size_swapIfInBounds] at hjlt
    have hjp := parent_lt hj
    have hrest := h.rest j hj hjlt (by omega)
    rw [hparj] at hrest
    rw [hswap, hswap, hpar, if_neg his.ne, if_pos rfl, if_neg (by omega), if_neg (by omega)]
    exact hrest

lemma siftDown_ordered {fuel} (h : DownOrder key a i) (hfuel : a.size ≤ i + fuel) :
    Ordered key (siftDown key fuel a i) := by
  induction fuel generalizing a i with
  | zero =>
    intro j hj hjlt
    have hp := parent_lt hj
    apply h.rest j hj hjlt
    change j < a.size at hjlt
    rintro rfl
    unfold parent at *
    omega
  | succ fuel ih =>
    obtain ⟨hplace, hmin⟩ := @smallest_spec _ key a i
    rw [siftDown]
    split_ifs with hstop
    · intro j hj hjlt
      by_cases hpar : parent j = i
      · rw [hpar]
        rw [hstop] at hmin
        exact hmin j hj hjlt hpar
      · exact h.rest j hj hjlt hpar
    · obtain ⟨hs, hslt, hpar, hkey⟩ := hplace.resolve_left hstop
      have his := parent_lt hs
      exact ih (h.step hs hslt hpar hkey hmin) (by rw [Array.size_swapIfInBounds]; omega)

lemma Ordered.down (h : Ordered key a) (hi : i < a.size) : DownOrder key a i := by
  refine ⟨fun j hj hjlt _ => h j hj hjlt, fun j hj hjlt hpar hpos => ?_⟩
  have hj' := h j hj hjlt
  rw [hpar] at hj'
  exact (h i hpos hi).trans hj'

/-- An element put anywhere goes up or down, never both. -/
lemma OrderedBut.sift (h : OrderedBut key a i fun j => j = i ∨ parent j = i) (hi : i < a.size) :
    Ordered key (siftDown key a.size (siftUp key i a i) i) := by
  have hsize := (@siftUp_perm _ key i a i).length_eq
  rw [Array.length_toList, Array.length_toList] at hsize
  by_cases hup : 0 < i ∧ keyAt key a i < keyAt key a (parent i)
  · have hord : UpOrder key a i := by
      refine ⟨fun j hj hjlt hne => ?_, h.grand⟩
      by_cases hpar : parent j = i
      · rw [hpar]
        exact hup.2.le.trans (h.grand j hj hjlt hpar hup.1)
      · exact h.rest j hj hjlt (not_or.mpr ⟨hne, hpar⟩)
    exact siftDown_ordered ((siftUp_ordered hord hi le_rfl).down (by omega)) (by omega)
  · have hstay : siftUp key i a i = a := by
      cases i with
      | zero => rfl
      | succ n => exact if_pos (.inr (by omega))
    rw [hstay]
    refine siftDown_ordered ⟨fun j hj hjlt hpar => ?_, h.grand⟩ (by omega)
    rcases eq_or_ne j i with rfl | hne
    · omega
    · exact h.rest j hj hjlt (not_or.mpr ⟨hne, hpar⟩)

/-! ## Taking an element out -/

lemma keyAt_cut (hj : j < a.size - 1) (hne : j ≠ i) : keyAt key (cut a i) j = keyAt key a j := by
  have hpop : keyAt key (cut a i) j = keyAt key (a.swapIfInBounds i (a.size - 1)) j := by
    rw [keyAt, keyAt, cut, Array.getElem?_pop, Array.size_swapIfInBounds, if_pos hj]
  rw [hpop]
  by_cases hi : i < a.size
  · rw [keyAt_swap hi (by omega), if_neg hne, if_neg hj.ne]
  · rw [Array.swapIfInBounds_def, dif_neg hi]

lemma size_cut (a : Array α) (i : Nat) : (cut a i).size = a.size - 1 := by
  rw [cut, Array.size_pop, Array.size_swapIfInBounds]

lemma cut_perm {x} (hx : a[i]? = some x) : a.toList.Perm (x :: (cut a i).toList) := by
  obtain ⟨hi, rfl⟩ := Array.getElem?_eq_some_iff.mp hx
  have hne : (a.swapIfInBounds i (a.size - 1)).toList ≠ [] := by
    rw [← List.length_pos_iff, Array.length_toList, Array.size_swapIfInBounds]
    omega
  have hlast : (a.swapIfInBounds i (a.size - 1)).toList.getLast hne = a[i] := by
    rw [List.getLast_eq_getElem]
    simp only [Array.getElem_toList, Array.length_toList, Array.size_swapIfInBounds, Array.getElem_swapIfInBounds]
    grind
  have hsplit : (a.swapIfInBounds i (a.size - 1)).toList = (cut a i).toList ++ [a[i]] := by
    rw [cut, Array.toList_pop, ← hlast, List.dropLast_append_getLast]
  have hperm := (swap_perm a i (a.size - 1)).symm
  rw [hsplit] at hperm
  exact hperm.trans (List.perm_append_singleton _ _)

lemma Ordered.cut (h : Ordered key a) (i : Nat) : OrderedBut key (cut a i) i fun j => j = i ∨ parent j = i := by
  constructor
  · intro j hj hjlt hskip
    obtain ⟨hne, hpar⟩ := not_or.mp hskip
    rw [size_cut] at hjlt
    have hp := parent_lt hj
    rw [keyAt_cut (by omega) hpar, keyAt_cut hjlt hne]
    exact h j hj (by omega)
  · intro j hj hjlt hpar hpos
    rw [size_cut] at hjlt
    have hp := parent_lt hj
    have hup := parent_lt hpos
    have hchild := h j hj (by omega)
    rw [hpar] at hchild
    rw [keyAt_cut (by omega) hup.ne, keyAt_cut hjlt (by omega)]
    exact (h i hpos (by omega)).trans hchild

/-- The element at the root is a smallest one. -/
lemma Ordered.root_le (h : Ordered key a) (hi : i < a.size) : keyAt key a 0 ≤ keyAt key a i := by
  induction i using Nat.strongRecOn with
  | ind i ih =>
    rcases Nat.eq_zero_or_pos i with rfl | hpos
    · exact le_rfl
    · have hp := parent_lt hpos
      exact (ih _ hp (hp.trans hi)).trans (h i hpos hi)

end Rut.Lib.BinaryHeap
