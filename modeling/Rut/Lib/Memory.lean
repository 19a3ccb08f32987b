import Mathlib.Data.List.Basic
import Mathlib.Data.List.Range

/-!
# Memory

A block of memory is a function from positions to cells. Besides reading and writing the rules are about the position
from which on a block is blank.
-/

namespace Rut.Lib.Memory

variable {α : Type*} {m : Nat → α} {i j n : Nat} {xs : List α}

/-- `n` cells from a position on. -/
def read (m : Nat → α) (i n : Nat) : List α := (List.range n).map fun k => m (i + k)

def write (m : Nat → α) (i : Nat) (xs : List α) : Nat → α :=
  fun k => (if i ≤ k then xs[k - i]? else none).getD (m k)

/-- The first `n` cells filled with `z`. -/
def clear (z : α) (m : Nat → α) (n : Nat) : Nat → α := fun k => if k < n then z else m k

/-- All cells from a position on are `z`. -/
def Blank (z : α) (m : Nat → α) (i : Nat) : Prop := ∀ k, i ≤ k → m k = z

@[simp] lemma length_read (m : Nat → α) (i n : Nat) : (read m i n).length = n := by
  rw [read, List.length_map, List.length_range]

@[simp] lemma read_zero (m : Nat → α) (i : Nat) : read m i 0 = [] := rfl

lemma read_add (m : Nat → α) (i a b : Nat) : read m i (a + b) = read m i a ++ read m (i + a) b := by
  unfold read
  rw [List.range_add, List.map_append, List.map_map]
  refine congrArg _ (List.map_congr_left fun k _ => ?_)
  exact congrArg m (Nat.add_assoc i a k).symm

lemma read_succ (m : Nat → α) (i n : Nat) : read m i (n + 1) = m i :: read m (i + 1) n := by
  rw [Nat.add_comm, read_add]
  rfl

lemma read_congr {m'} (h : ∀ k, i ≤ k → k < i + n → m' k = m k) : read m' i n = read m i n := by
  refine List.map_congr_left fun k hk => ?_
  have hlt := List.mem_range.mp hk
  exact h (i + k) (Nat.le_add_right i k) (Nat.add_lt_add_left hlt i)

lemma read_drop (m : Nat → α) {a n} (h : a ≤ n) : read m (i + a) (n - a) = (read m i n).drop a := by
  have hsplit := read_add m i a (n - a)
  rw [Nat.add_sub_cancel' h] at hsplit
  rw [hsplit, List.drop_left' (length_read m i a)]

lemma write_of_lt {k} (h : k < i) : write m i xs k = m k := by
  rw [write, if_neg (Nat.not_le.mpr h), Option.getD_none]

lemma write_of_ge {k} (h : i + xs.length ≤ k) : write m i xs k = m k := by
  have hnone : xs[k - i]? = none := List.getElem?_eq_none (by omega)
  rw [write, if_pos (by omega), hnone, Option.getD_none]

lemma write_nil (m : Nat → α) (i : Nat) : write m i [] = m :=
  funext fun k => (Nat.lt_or_ge k i).elim write_of_lt fun hk => write_of_ge hk

lemma read_write_of_le (h : j + n ≤ i) : read (write m i xs) j n = read m j n :=
  read_congr fun _ _ hk => write_of_lt (Nat.lt_of_lt_of_le hk h)

lemma read_write_of_ge (h : i + xs.length ≤ j) : read (write m i xs) j n = read m j n :=
  read_congr fun _ hk _ => write_of_ge (h.trans hk)

lemma read_write (m : Nat → α) (i : Nat) (xs : List α) : read (write m i xs) i xs.length = xs := by
  refine List.ext_getElem (length_read ..) fun k hk hk' => ?_
  have hget : xs[i + k - i]? = some xs[k] := by
    rw [Nat.add_sub_cancel_left]
    exact List.getElem?_eq_getElem hk'
  simp only [read, List.getElem_map, List.getElem_range]
  rw [write, if_pos (Nat.le_add_right i k), hget, Option.getD_some]

/-- The cells from `lo` up to `hi` moved up by `d`; the cells they leave keep their content. -/
def shiftUp (m : Nat → α) (lo hi d : Nat) : Nat → α := fun k => if lo + d ≤ k ∧ k < hi + d then m (k - d) else m k

lemma shiftUp_succ {lo hi d} (h : lo ≤ hi) : shiftUp (write m (hi + d) [m hi]) lo hi d = shiftUp m lo (hi + 1) d := by
  funext k
  unfold shiftUp
  by_cases htop : k = hi + d
  · subst htop
    have hnot : ¬ (lo + d ≤ hi + d ∧ hi + d < hi + d) := by omega
    rw [if_neg hnot, if_pos (by omega), Nat.add_sub_cancel, write, if_pos le_rfl, Nat.sub_self]
    rfl
  · by_cases hin : lo + d ≤ k ∧ k < hi + d
    · rw [if_pos hin, if_pos (by omega), write_of_lt (by omega)]
    · rw [if_neg hin, if_neg (by omega)]
      rcases Nat.lt_or_ge k (hi + d) with hlt | hge
      · exact write_of_lt hlt
      · exact write_of_ge (by simp; omega)

lemma read_shiftUp (m : Nat → α) {lo hi d} (h : lo ≤ hi) :
    read (shiftUp m lo hi d) (lo + d) (hi - lo) = read m lo (hi - lo) := by
  refine List.map_congr_left fun k hk => ?_
  have hlt := List.mem_range.mp hk
  have hin : lo + d ≤ lo + d + k ∧ lo + d + k < hi + d := by omega
  have hpos : lo + d + k - d = lo + k := by omega
  rw [shiftUp, if_pos hin, hpos]

lemma read_shiftUp_of_le {lo hi d : Nat} (h : i + n ≤ lo + d) : read (shiftUp m lo hi d) i n = read m i n :=
  read_congr fun k _ hk => if_neg (by omega)

lemma write_cons (m : Nat → α) (i : Nat) (x : α) (xs : List α) : write (write m i [x]) (i + 1) xs = write m i (x :: xs) := by
  funext k
  rcases Nat.lt_trichotomy k i with hlt | rfl | hgt
  · rw [write_of_lt (by omega), write_of_lt hlt, write_of_lt hlt]
  · rw [write_of_lt (Nat.lt_succ_self k), write, write, if_pos le_rfl, if_pos le_rfl, Nat.sub_self]
    rfl
  · have hsub : k - i = k - (i + 1) + 1 := by omega
    have hone : write m i [x] k = m k := write_of_ge hgt
    have hle : i + 1 ≤ k := hgt
    rw [write, hone, write, if_pos hle, if_pos hgt.le, hsub, List.getElem?_cons_succ]

namespace Blank

variable {z : α}

lemma mono (h : Blank z m i) (hij : i ≤ j) : Blank z m j := fun k hk => h k (hij.trans hk)

lemma write (h : Blank z m j) (hj : i + xs.length ≤ j) : Blank z (write m i xs) j := by
  intro k hk
  rw [write_of_ge (hj.trans hk)]
  exact h k hk

lemma clear (h : Blank z m n) : Blank z (clear z m n) 0 := by
  intro k _
  unfold Memory.clear
  split
  · rfl
  · exact h k (by omega)

end Blank

end Rut.Lib.Memory
