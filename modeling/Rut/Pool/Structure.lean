import Rut.Pool.PoolInv

/-!
# Pointers into the slice pool

`SlicePool::alloc` and `SlicePool::free` with the pointers they return and take. `free` first finds out whether a
pointer is to a slice or a bulk buffer, and does nothing with one that is not the start of a buffer in use. The free
stack and the slices in use part the slices committed so far, over every sequence of these operations.
-/

namespace Rut.Pool

structure Placement where
  base : Nat
  bulk_base : Nat
deriving DecidableEq

def Placement.address (m : Placement) : Buf → Nat
  | .slice i => m.base + i * kSliceSize
  | .bulk i => m.bulk_base + i * kBulkSliceSize

variable {κ : Type}

namespace SlicePool

/-- `alloc`, with the pointer. -/
def allocPtr (m : Placement) (pool : SlicePool κ) (h : Holder κ) : Option Nat × SlicePool κ :=
  ((pool.alloc h).1.map m.address, (pool.alloc h).2)

/-- `is_bulk` of a pointer. -/
def isBulkPtr (m : Placement) (pool : SlicePool κ) (ptr : Nat) : Bool :=
  pool.bulk_base && decide (m.bulk_base ≤ ptr ∧ ptr < m.bulk_base + pool.bulk_max_count * kBulkSliceSize)

/-- `free` of a pointer; a null pointer is 0. -/
def freePtr (m : Placement) (pool : SlicePool κ) (ptr : Nat) : SlicePool κ :=
  if pool.isBulkPtr m ptr then
    let offset := ptr - m.bulk_base
    if offset % kBulkSliceSize ≠ 0 then pool else pool.free_bulk (offset / kBulkSliceSize) kBulkSliceSize false
  else if ptr = 0 ∨ pool.base = false ∨ pool.count = 0 then pool
  else if ptr < m.base ∨ ptr ≥ m.base + pool.count * kSliceSize then pool
  else
    let offset := ptr - m.base
    if offset % kSliceSize ≠ 0 then pool else pool.free_slice (offset / kSliceSize)

def InUse (m : Placement) (pool : SlicePool κ) (ptr : Nat) : Prop := ∃ b, pool.held b ≠ none ∧ ptr = m.address b

/-- The operations on a pool; `grow` is the private one that `alloc` calls. -/
inductive PoolOp (κ : Type) where
  | alloc (h : Holder κ)
  | alloc_bulk (h : Holder κ)
  | free (ptr : Nat)
  | grow

def apply (m : Placement) (pool : SlicePool κ) : PoolOp κ → SlicePool κ
  | .alloc h => (pool.allocPtr m h).2
  | .alloc_bulk h => (pool.alloc_bulk h).2
  | .free ptr => pool.freePtr m ptr
  | .grow => pool.grow.2

def run (m : Placement) (pool : SlicePool κ) (ops : List (PoolOp κ)) : SlicePool κ := ops.foldl (apply m) pool

variable {m : Placement} {pool : SlicePool κ} {ptr : Nat}

lemma Allocates.inv {h r} (hr : Allocates pool h r) : r.2.Inv := by
  obtain ⟨_ | ⟨b, dirty⟩, pool'⟩ := r
  · exact Same.inv hr
  · exact hr.1.inv

/-- `free` does nothing, or takes back the buffer that the pointer is the start of. -/
lemma freePtr_cases (m : Placement) (pool : SlicePool κ) (ptr : Nat) : pool.freePtr m ptr = pool ∨
    (∃ i, ptr = m.address (.bulk i) ∧ pool.freePtr m ptr = pool.free_bulk i kBulkSliceSize false) ∨
    ∃ i, ptr = m.address (.slice i) ∧ pool.freePtr m ptr = pool.free_slice i := by
  unfold freePtr
  by_cases hbulk : pool.isBulkPtr m ptr = true
  · rw [if_pos hbulk]
    rw [isBulkPtr, Bool.and_eq_true, decide_eq_true_eq] at hbulk
    by_cases hmod : (ptr - m.bulk_base) % kBulkSliceSize = 0
    · refine .inr (.inl ⟨(ptr - m.bulk_base) / kBulkSliceSize, ?_, if_neg (not_not.mpr hmod)⟩)
      have := Nat.div_add_mod' (ptr - m.bulk_base) kBulkSliceSize
      rw [Placement.address]
      omega
    · exact .inl (if_pos hmod)
  · rw [if_neg hbulk]
    by_cases hnull : ptr = 0 ∨ pool.base = false ∨ pool.count = 0
    · exact .inl (if_pos hnull)
    · rw [if_neg hnull]
      by_cases hrange : ptr < m.base ∨ ptr ≥ m.base + pool.count * kSliceSize
      · exact .inl (if_pos hrange)
      · rw [if_neg hrange]
        by_cases hmod : (ptr - m.base) % kSliceSize = 0
        · refine .inr (.inr ⟨(ptr - m.base) / kSliceSize, ?_, if_neg (not_not.mpr hmod)⟩)
          have := Nat.div_add_mod' (ptr - m.base) kSliceSize
          rw [Placement.address]
          omega
        · exact .inl (if_pos hmod)

lemma freePtr_ignored (h : ¬pool.InUse m ptr) : pool.freePtr m ptr = pool := by
  obtain heq | ⟨i, hptr, heq⟩ | ⟨i, hptr, heq⟩ := pool.freePtr_cases m ptr
  · exact heq
  · have hfree : pool.held (.bulk i) = none := by
      by_contra hheld
      exact h ⟨.bulk i, hheld, hptr⟩
    rw [heq, free_bulk, if_pos (.inr hfree)]
  · have hfree : pool.held (.slice i) = none := by
      by_contra hheld
      exact h ⟨.slice i, hheld, hptr⟩
    rw [heq, free_slice, if_pos (.inr (.inr (.inr (.inr hfree))))]

lemma Inv.apply (hi : pool.Inv) (op : PoolOp κ) : (pool.apply m op).Inv := by
  cases op with
  | alloc h => exact (hi.alloc h).inv
  | alloc_bulk h => exact (hi.alloc_bulk h).inv
  | free ptr =>
    rw [SlicePool.apply]
    obtain heq | ⟨i, -, heq⟩ | ⟨i, -, heq⟩ := pool.freePtr_cases m ptr
    · rwa [heq]
    · rw [heq]
      exact hi.free_bulk_full.inv
    · rw [heq]
      exact (hi.free_slice i).inv
  | grow => exact hi.grow.inv

lemma Inv.run (hi : pool.Inv) (m : Placement) (ops : List (PoolOp κ)) : (pool.run m ops).Inv := by
  induction ops generalizing pool with
  | nil => exact hi
  | cons op ops ih => exact ih (hi.apply op)

structure Parted (pool : SlicePool κ) : Prop where
  distinct : pool.free_stack.Nodup
  below : ∀ i ∈ pool.free_stack, i < pool.count
  disjoint : ∀ i ∈ pool.free_stack, pool.held (.slice i) = none
  cover : ∀ i, i < pool.count ↔ i ∈ pool.free_stack ∨ pool.held (.slice i) ≠ none
  cached : pool.cached_count ≤ min pool.cache_limit pool.free_stack.length

lemma Inv.parted (hi : pool.Inv) : pool.Parted where
  distinct := hi.slices.nodup
  below := fun i h => ((hi.slices.stack i).mp h).1
  disjoint := fun i h => ((hi.slices.stack i).mp h).2
  cover := by
    intro i
    rw [hi.slices.stack]
    constructor
    · intro hlt
      by_cases hheld : pool.held (.slice i) = none
      · exact .inl ⟨hlt, hheld⟩
      · exact .inr hheld
    · rintro (⟨hlt, -⟩ | hheld)
      · exact hlt
      · exact hi.slices.held_lt i hheld
  cached := le_min hi.slices.cached.2 hi.slices.cached.1

lemma Inv.alloc_slice (hi : pool.Inv) (h : Holder κ) {b} (hb : (pool.alloc h).1 = some b) :
    ∃ i, b = .slice i ∧ pool.held (.slice i) = none ∧ (pool.alloc h).2.held (.slice i) = some h := by
  have hlent := hi.alloc h
  rw [hb] at hlent
  have hslice : ∃ i, b = .slice i := by
    revert hb
    unfold SlicePool.alloc SlicePool.pop
    split
    · split
      · split <;> rintro ⟨⟩
        exact ⟨_, rfl⟩
      · rintro ⟨⟩
    · split <;> rintro ⟨⟩
      exact ⟨_, rfl⟩
  obtain ⟨i, rfl⟩ := hslice
  refine ⟨i, rfl, hlent.1.free, ?_⟩
  rw [hlent.1.held, Function.update_self]

end SlicePool

/-- The structure of a pool: after every sequence of operations on it the free stack and the slices in use part the
slices, the resident ones are bounded, `alloc` returns no slice in use, and `free` does nothing with a pointer that is
not the start of a buffer in use: a null, foreign or misaligned one, or one to a buffer that is free. -/
theorem slice_pool_structure (m : Placement) (limit : Nat) (adaptive reuse : Bool) (sys : Nat → Bool)
    (n prealloc cache_slices bulk_capacity : Nat) (hn : n + kGrowStep ≤ 2 ^ 32) (ops : List (SlicePool.PoolOp κ)) :
    let pool := ((SlicePool.fresh limit adaptive reuse sys : SlicePool κ).init n prealloc cache_slices bulk_capacity).run m ops
    pool.Parted ∧
    (∀ h ptr, (pool.allocPtr m h).1 = some ptr → ∃ i, ptr = m.address (.slice i) ∧ pool.held (.slice i) = none ∧
      i < (pool.allocPtr m h).2.count ∧ (pool.allocPtr m h).2.held (.slice i) = some h) ∧
    ∀ ptr, ¬pool.InUse m ptr → pool.freePtr m ptr = pool := by
  have hinit := ((SlicePool.fresh_inv (κ := κ) limit adaptive reuse sys).init prealloc cache_slices bulk_capacity rfl hn).1
  have hi := hinit.run m ops
  refine ⟨hi.parted, fun h ptr hptr => ?_, fun ptr => SlicePool.freePtr_ignored⟩
  obtain ⟨b, hb, rfl⟩ := Option.map_eq_some_iff.mp hptr
  obtain ⟨i, rfl, hfree, hheld⟩ := hi.alloc_slice h hb
  refine ⟨i, rfl, hfree, ?_, hheld⟩
  apply (hi.alloc h).inv.slices.held_lt i
  rw [hheld]
  exact nofun

def freedTwice : SlicePool Unit :=
  ((SlicePool.fresh 64 false false fun _ => true : SlicePool Unit).init 3 1 1 0).run ⟨0x100000, 0⟩
    [.alloc (.owner 0), .alloc (.owner 0), .free 0x108000, .free 0x108000, .free 0x104001, .free 0]

/-- The free stack holds the slice once, and it is the next one. -/
theorem freedTwice_parted :
    freedTwice.Parted ∧ freedTwice.free_stack = [2, 0] ∧ freedTwice.cached_count = 1 ∧
      (freedTwice.allocPtr ⟨0x100000, 0⟩ (.owner 0)).1 = some 0x108000 :=
  ⟨(slice_pool_structure ⟨0x100000, 0⟩ 64 false false (fun _ => true) 3 1 1 0 (by decide) _).1, by decide, by decide,
    by decide⟩

end Rut.Pool
