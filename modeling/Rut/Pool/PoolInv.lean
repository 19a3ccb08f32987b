import Mathlib.Data.List.Nodup
import Mathlib.Data.List.Perm.Basic
import Rut.Pool.SlicePool

/-!
# The invariant of the slice pool

The free stacks hold the buffers that nobody holds, and a buffer that is free is blank, or blank beyond the mark in its
first bytes. Each operation has one lemma that says what it does to the buffers.
-/

set_option linter.all false
namespace Rut.Pool

open Lib.Memory (write clear Blank)

variable {κ : Type} {pool pool' : SlicePool κ} {b : Buf} {h : Holder κ} {i dirty : Nat}

def Holder.limit : Holder κ → Buf → Nat
  | .owner written, b => min written b.capacity
  | .overwriter, b => b.capacity
  | .chain _, b => b.capacity

lemma Holder.limit_le (h : Holder κ) (b : Buf) : h.limit b ≤ b.capacity := by
  cases h with
  | owner written => exact Nat.min_le_right ..
  | overwriter => exact Nat.le_refl _
  | chain k => exact Nat.le_refl _

lemma insertBelow_perm {α stack cached} (x : α) : (insertBelow stack cached x).Perm (x :: stack) := by
  unfold insertBelow
  cases hget : stack[cached - 1]? with
  | none => exact List.Perm.refl _
  | some y =>
    dsimp only
    split
    · exact List.Perm.refl _
    · obtain ⟨hlt, rfl⟩ := List.getElem?_eq_some_iff.mp hget
      refine ((List.set_perm_cons_eraseIdx hlt x).cons _).trans ?_
      refine (List.Perm.swap _ _ _).trans ?_
      exact (List.getElem_cons_eraseIdx_perm hlt).cons x

lemma update_slice {α : Type} (f : Buf → α) (i j : Nat) (x : α) :
    Function.update f (.slice i) x (.slice j) = if j = i then x else f (.slice j) := by
  rw [Function.update_apply]
  exact if_congr (by rw [Buf.slice.injEq]) rfl rfl

lemma update_bulk {α : Type} (f : Buf → α) (i j : Nat) (x : α) :
    Function.update f (.bulk i) x (.bulk j) = if j = i then x else f (.bulk j) := by
  rw [Function.update_apply]
  exact if_congr (by rw [Buf.bulk.injEq]) rfl rfl

namespace SlicePool

structure Slices (pool : SlicePool κ) : Prop where
  base : pool.count ≠ 0 → pool.base = true
  count_le : pool.count ≤ pool.max_count
  fits : pool.max_count + kGrowStep ≤ 2 ^ 32
  nodup : pool.free_stack.Nodup
  stack : ∀ i, i ∈ pool.free_stack ↔ i < pool.count ∧ pool.held (.slice i) = none
  held_lt : ∀ i, pool.held (.slice i) ≠ none → i < pool.count
  cached : pool.cached_count ≤ pool.free_stack.length ∧ pool.cached_count ≤ pool.cache_limit
  limits : ∀ i h, pool.held (.slice i) = some h → Blank 0 (pool.data (.slice i)) (h.limit (.slice i))
  blank : ∀ i, pool.held (.slice i) = none → Blank 0 (pool.data (.slice i)) 0

def BulkEntry.mark (e : BulkEntry) (m : Bytes) : Nat := if e.deferred then deferredDirty m else 0

structure Bulks (pool : SlicePool κ) : Prop where
  base : pool.bulk_base = true → pool.base = true
  nodup : (pool.bulk_free.map BulkEntry.idx).Nodup
  stack : ∀ i, i ∈ pool.bulk_free.map BulkEntry.idx ↔
    pool.bulk_base = true ∧ i < pool.bulk_max_count ∧ pool.held (.bulk i) = none
  held_lt : ∀ i, pool.held (.bulk i) ≠ none → pool.bulk_base = true ∧ i < pool.bulk_max_count
  cached : pool.bulk_cached_count ≤ pool.bulk_free.length
  limits : ∀ i h, pool.held (.bulk i) = some h → Blank 0 (pool.data (.bulk i)) (h.limit (.bulk i))
  blank : ∀ i, pool.held (.bulk i) = none → i ∉ pool.bulk_free.map BulkEntry.idx → Blank 0 (pool.data (.bulk i)) 0
  entries : ∀ e ∈ pool.bulk_free, Blank 0 (pool.data (.bulk e.idx)) (BulkEntry.mark e (pool.data (.bulk e.idx)))

structure Inv (pool : SlicePool κ) : Prop where
  slices : pool.Slices
  bulks : pool.Bulks
  issued : ∀ x ∈ pool.issued, Blank 0 x.2 0

structure Lent (pool : SlicePool κ) (b : Buf) (h : Holder κ) (pool' : SlicePool κ) : Prop where
  inv : pool'.Inv
  free : pool.held b = none
  held : pool'.held = Function.update pool.held b (some h)
  data : ∀ b', pool.held b' ≠ none → pool'.data b' = pool.data b'

structure Returned (pool : SlicePool κ) (b : Buf) (pool' : SlicePool κ) : Prop where
  inv : pool'.Inv
  held : pool'.held = Function.update pool.held b none
  data : ∀ b' ≠ b, pool'.data b' = pool.data b'

structure Same (pool pool' : SlicePool κ) : Prop where
  inv : pool'.Inv
  held : pool'.held = pool.held
  data : ∀ b', pool.held b' ≠ none → pool'.data b' = pool.data b'

lemma fresh_inv (limit : Nat) (adaptive reuse : Bool) (sys : Nat → Bool) :
    (fresh limit adaptive reuse sys : SlicePool κ).Inv where
  slices :=
    { base := fun h => absurd rfl h
      count_le := Nat.le_refl _
      fits := show 0 + kGrowStep ≤ 2 ^ 32 by decide
      nodup := List.nodup_nil
      stack := fun i => ⟨fun h => absurd h List.not_mem_nil, fun h => absurd h.1 (Nat.not_lt_zero i)⟩
      held_lt := fun i h => absurd rfl h
      cached := ⟨Nat.le_refl _, Nat.le_refl _⟩
      limits := fun i h hh => by cases hh
      blank := fun i _ k _ => rfl }
  bulks :=
    { base := fun h => by cases h
      nodup := List.nodup_nil
      stack := fun i => ⟨fun h => absurd h List.not_mem_nil, fun h => by cases h.1⟩
      held_lt := fun i h => absurd rfl h
      cached := Nat.le_refl _
      limits := fun i h hh => by cases hh
      blank := fun i _ _ k _ => rfl
      entries := fun e he => absurd he List.not_mem_nil }
  issued := fun x hx => absurd hx List.not_mem_nil

lemma Slices.congr (hs : pool.Slices) (hbase : pool'.base = pool.base) (hcount : pool'.count = pool.count)
    (hmax : pool'.max_count = pool.max_count) (hstack : pool'.free_stack = pool.free_stack)
    (hcached : pool'.cached_count = pool.cached_count) (hlimit : pool'.cache_limit = pool.cache_limit)
    (hheld : ∀ i, pool'.held (.slice i) = pool.held (.slice i))
    (hdata : ∀ i, pool'.data (.slice i) = pool.data (.slice i)) : pool'.Slices := by
  obtain ⟨h₁, h₂, h₃, h₄, h₅, h₆, h₇, h₈, h₉⟩ := hs
  refine ⟨?_, ?_, ?_, ?_, ?_, ?_, ?_, ?_, ?_⟩
  all_goals simp only [hbase, hcount, hmax, hstack, hcached, hlimit, hheld, hdata]
  all_goals assumption

/-! ## Slices -/

/-- What `grow` does. -/
lemma Slices.grow_cases (hs : pool.Slices) : pool.grow = (false, pool) ∨ pool.grow = (false, pool.asked) ∨
      ∃ step, 0 < step ∧ pool.count + step ≤ pool.max_count ∧ pool.base = true ∧ pool.grow = (true, { pool.asked with
          free_stack := (List.range' pool.count step).reverse ++ pool.free_stack, count := pool.count + step }) := by
  unfold grow
  by_cases hcount : pool.count ≥ pool.max_count
  · exact .inl (if_pos hcount)
  rw [if_neg hcount]
  have hfits := hs.fits
  have hmod : (pool.count + kGrowStep) % 2 ^ 32 = pool.count + kGrowStep := Nat.mod_eq_of_lt (by omega)
  by_cases hsys : (pool.base && pool.sys 0) = true
  · refine .inr (.inr ?_)
    rw [hmod]
    by_cases hgt : pool.count + kGrowStep > pool.max_count
    · have hstop : (pool.count + (pool.max_count - pool.count)) % 2 ^ 32 = pool.count + (pool.max_count - pool.count) :=
        Nat.mod_eq_of_lt (by unfold kGrowStep at hfits; omega)
      refine ⟨pool.max_count - pool.count, by omega, by omega, (Bool.and_eq_true_iff.mp hsys).1, ?_⟩
      rw [if_pos hgt, if_pos hsys]
      dsimp only
      rw [hstop, Nat.add_sub_cancel_left]
    · refine ⟨kGrowStep, by decide, by omega, (Bool.and_eq_true_iff.mp hsys).1, ?_⟩
      rw [if_neg hgt, if_pos hsys]
      dsimp only
      rw [hmod, Nat.add_sub_cancel_left]
  · exact .inr (.inl (if_neg hsys))

lemma Slices.grown (hs : pool.Slices) {step} (hle : pool.count + step ≤ pool.max_count) (hbase : pool.base = true) :
    Slices { pool.asked with
      free_stack := (List.range' pool.count step).reverse ++ pool.free_stack, count := pool.count + step } where
  base := fun _ => hbase
  count_le := hle
  fits := hs.fits
  nodup := by
    refine List.nodup_append.mpr ⟨List.nodup_reverse.mpr List.nodup_range', hs.nodup, ?_⟩
    rintro i hi j hj rfl
    have hge := (List.mem_range'_1.mp (List.mem_reverse.mp hi)).1
    have hlt := ((hs.stack i).mp hj).1
    omega
  stack := by
    intro i
    rw [List.mem_append, List.mem_reverse, List.mem_range'_1, hs.stack]
    constructor
    · rintro (⟨hge, hlt⟩ | ⟨hlt, hfree⟩)
      · refine ⟨hlt, ?_⟩
        by_contra hheld
        have hlt := hs.held_lt i hheld
        omega
      · exact ⟨Nat.lt_of_lt_of_le hlt (Nat.le_add_right _ _), hfree⟩
    · rintro ⟨hlt, hfree⟩
      by_cases hi : i < pool.count
      · exact .inr ⟨hi, hfree⟩
      · exact .inl ⟨by omega, hlt⟩
  held_lt := fun i hi => Nat.lt_of_lt_of_le (hs.held_lt i hi) (Nat.le_add_right _ _)
  cached := by
    refine ⟨?_, hs.cached.2⟩
    rw [List.length_append]
    exact hs.cached.1.trans (Nat.le_add_left _ _)
  limits := hs.limits
  blank := hs.blank

/-- `grow` changes the slices that are free only. -/
lemma Inv.grow (hi : pool.Inv) : Same pool pool.grow.2 := by
  rcases hi.slices.grow_cases with h | h | ⟨step, -, hle, hbase, h⟩
  · rw [h]
    exact ⟨hi, rfl, fun _ _ => rfl⟩
  · rw [h]
    exact ⟨⟨{ hi.slices with }, { hi.bulks with }, hi.issued⟩, rfl, fun _ _ => rfl⟩
  · rw [h]
    exact ⟨⟨hi.slices.grown hle hbase, { hi.bulks with }, hi.issued⟩, rfl, fun _ _ => rfl⟩

lemma Slices.pop (hs : pool.Slices) {idx rest} (hstack : pool.free_stack = idx :: rest) :
    Slices ({ pool with free_stack := rest, cached_count := pool.cached_count - 1 }.lend (.slice idx) h) := by
  have hnodup := hs.nodup
  rw [hstack, List.nodup_cons] at hnodup
  obtain ⟨hlt, hfree⟩ := (hs.stack idx).mp (hstack ▸ List.mem_cons_self)
  refine ⟨hs.base, hs.count_le, hs.fits, hnodup.2, ?_, ?_, ?_, ?_, ?_⟩
  · intro i
    show i ∈ rest ↔ i < pool.count ∧ Function.update pool.held (.slice idx) (some h) (.slice i) = none
    have hmem := hs.stack i
    rw [hstack, List.mem_cons] at hmem
    rw [update_slice]
    by_cases hi : i = idx
    · subst hi
      exact ⟨fun hr => absurd hr hnodup.1, fun hr => by rw [if_pos rfl] at hr; cases hr.2⟩
    · rw [if_neg hi, ← hmem]
      exact ⟨.inr, fun hr => hr.resolve_left hi⟩
  · intro i hi
    change Function.update pool.held (.slice idx) (some h) (.slice i) ≠ none at hi
    rw [update_slice] at hi
    split at hi
    · rename_i heq
      exact heq ▸ hlt
    · exact hs.held_lt i hi
  · have hcached := hs.cached
    rw [hstack, List.length_cons] at hcached
    show pool.cached_count - 1 ≤ rest.length ∧ pool.cached_count - 1 ≤ pool.cache_limit
    omega
  · intro i h' hi
    change Function.update pool.held (.slice idx) (some h) (.slice i) = some h' at hi
    rw [update_slice] at hi
    split at hi
    · rename_i heq
      subst heq
      exact (hs.blank i hfree).mono (Nat.zero_le _)
    · exact hs.limits i h' hi
  · intro i hi
    change Function.update pool.held (.slice idx) (some h) (.slice i) = none at hi
    rw [update_slice] at hi
    split at hi
    · cases hi
    · exact hs.blank i hi

lemma Slices.push (hs : pool.Slices) {stack cached} {bytes : Bytes} {sys}
    (hheld : pool.held (.slice i) ≠ none) (hperm : stack.Perm (i :: pool.free_stack))
    (hcached : cached ≤ stack.length ∧ cached ≤ pool.cache_limit) (hblank : Blank 0 bytes 0) : Slices { pool with
      free_stack := stack, cached_count := cached, held := Function.update pool.held (.slice i) none,
      data := Function.update pool.data (.slice i) bytes, sys := sys } := by
  have hout : i ∉ pool.free_stack := fun hmem => hheld ((hs.stack i).mp hmem).2
  refine ⟨hs.base, hs.count_le, hs.fits, ?_, ?_, ?_, hcached, ?_, ?_⟩
  · exact hperm.nodup_iff.mpr (List.nodup_cons.mpr ⟨hout, hs.nodup⟩)
  · intro j
    show j ∈ stack ↔ j < pool.count ∧ Function.update pool.held (.slice i) none (.slice j) = none
    rw [hperm.mem_iff, List.mem_cons, hs.stack, update_slice]
    by_cases hj : j = i
    · rw [if_pos hj]
      exact ⟨fun _ => ⟨hj ▸ hs.held_lt i hheld, rfl⟩, fun _ => .inl hj⟩
    · rw [if_neg hj]
      exact ⟨fun hr => hr.resolve_left hj, .inr⟩
  · intro j hj
    change Function.update pool.held (.slice i) none (.slice j) ≠ none at hj
    rw [update_slice] at hj
    split at hj
    · exact absurd rfl hj
    · exact hs.held_lt j hj
  · intro j h' hj
    change Function.update pool.held (.slice i) none (.slice j) = some h' at hj
    rw [update_slice] at hj
    split at hj
    · cases hj
    · rename_i hne
      show Blank 0 (Function.update pool.data (.slice i) bytes (.slice j)) _
      rw [update_slice, if_neg hne]
      exact hs.limits j h' hj
  · intro j hj
    change Function.update pool.held (.slice i) none (.slice j) = none at hj
    rw [update_slice] at hj
    show Blank 0 (Function.update pool.data (.slice i) bytes (.slice j)) 0
    split at hj
    · rename_i heq
      rw [heq, Function.update_self]
      exact hblank
    · rename_i hne
      rw [update_slice, if_neg hne]
      exact hs.blank j hj

/-! ## Bulk buffers -/

lemma getWord_putWord {v} (m : Bytes) (hv : v < 2 ^ 32) : getWord (write m 0 (putWord v)) = v := by
  have h0 : write m 0 (putWord v) 0 = UInt8.ofNat v := rfl
  have h1 : write m 0 (putWord v) 1 = UInt8.ofNat (v / 256) := rfl
  have h2 : write m 0 (putWord v) 2 = UInt8.ofNat (v / 65536) := rfl
  have h3 : write m 0 (putWord v) 3 = UInt8.ofNat (v / 16777216) := rfl
  unfold getWord
  rw [h0, h1, h2, h3]
  simp only [UInt8.toNat_ofNat']
  omega

lemma deferredDirty_le (m : Bytes) : deferredDirty m ≤ kBulkSliceSize := by
  unfold deferredDirty
  split <;> omega

lemma blank_deferred {m : Bytes} (hm : Blank 0 m dirty) (hle : dirty ≤ kBulkSliceSize) :
    Blank 0 (write m 0 (putWord (max dirty 4))) (deferredDirty (write m 0 (putWord (max dirty 4)))) := by
  have hmark : deferredDirty (write m 0 (putWord (max dirty 4))) = max dirty 4 := by
    unfold deferredDirty
    unfold kBulkSliceSize at hle ⊢
    rw [getWord_putWord m (by omega), if_neg (by omega)]
  rw [hmark]
  exact (hm.mono (Nat.le_max_left ..)).write (Nat.le_max_right ..)

lemma Bulks.pop (hb : pool.Bulks) {e rest data borrowed burst issued} (hstack : pool.bulk_free = e :: rest)
    (hdata : ∀ j ≠ e.idx, data (.bulk j) = pool.data (.bulk j))
    (hblank : Blank 0 (data (.bulk e.idx)) (h.limit (.bulk e.idx))) : Bulks { pool with
      bulk_free := rest, bulk_cached_count := pool.bulk_cached_count - 1, study_bulk_borrowed := borrowed,
      study_bulk_burst := burst, held := Function.update pool.held (.bulk e.idx) (some h), data := data,
      issued := issued } := by
  have hnodup := hb.nodup
  rw [hstack, List.map_cons, List.nodup_cons] at hnodup
  obtain ⟨hbase, hlt, hfree⟩ := (hb.stack e.idx).mp (by rw [hstack]; exact List.mem_cons_self)
  refine ⟨hb.base, hnodup.2, ?_, ?_, ?_, ?_, ?_, ?_⟩
  · intro j
    show j ∈ rest.map BulkEntry.idx ↔
      _ ∧ _ ∧ Function.update pool.held (.bulk e.idx) (some h) (.bulk j) = none
    have hmem := hb.stack j
    rw [hstack, List.map_cons, List.mem_cons] at hmem
    rw [update_bulk]
    by_cases hj : j = e.idx
    · subst hj
      exact ⟨fun hr => absurd hr hnodup.1, fun hr => by rw [if_pos rfl] at hr; cases hr.2.2⟩
    · rw [if_neg hj, ← hmem]
      exact ⟨.inr, fun hr => hr.resolve_left hj⟩
  · intro j hj
    change Function.update pool.held (.bulk e.idx) (some h) (.bulk j) ≠ none at hj
    rw [update_bulk] at hj
    split at hj
    · rename_i heq
      refine ⟨hbase, ?_⟩
      rw [heq]
      exact hlt
    · exact hb.held_lt j hj
  · have hcached := hb.cached
    rw [hstack, List.length_cons] at hcached
    show pool.bulk_cached_count - 1 ≤ rest.length
    omega
  · intro j h' hj
    change Function.update pool.held (.bulk e.idx) (some h) (.bulk j) = some h' at hj
    show Blank 0 (data (.bulk j)) _
    rw [update_bulk] at hj
    split at hj
    · rename_i heq
      cases hj
      rw [heq]
      exact hblank
    · rename_i hne
      rw [hdata j hne]
      exact hb.limits j h' hj
  · intro j hj hout
    change Function.update pool.held (.bulk e.idx) (some h) (.bulk j) = none at hj
    show Blank 0 (data (.bulk j)) 0
    rw [update_bulk] at hj
    split at hj
    · cases hj
    · rename_i hne
      rw [hdata j hne]
      refine hb.blank j hj ?_
      rw [hstack, List.map_cons, List.mem_cons]
      exact fun hr => hr.elim hne hout
  · intro e' he'
    have hne : e'.idx ≠ e.idx := fun heq => hnodup.1 (heq ▸ List.mem_map_of_mem he')
    show Blank 0 (data (.bulk e'.idx)) (BulkEntry.mark e' (data (.bulk e'.idx)))
    rw [hdata _ hne]
    exact hb.entries e' (hstack ▸ List.mem_cons_of_mem _ he')

lemma Bulks.push (hb : pool.Bulks) {e stack cached borrowed} {bytes : Bytes}
    {sys} (hheld : pool.held (.bulk e.idx) ≠ none) (hperm : stack.Perm (e :: pool.bulk_free))
    (hcached : cached ≤ stack.length) (hblank : Blank 0 bytes (BulkEntry.mark e bytes)) : Bulks { pool with
      bulk_free := stack, bulk_cached_count := cached, study_bulk_borrowed := borrowed,
      held := Function.update pool.held (.bulk e.idx) none, data := Function.update pool.data (.bulk e.idx) bytes,
      sys := sys } := by
  have hout : e.idx ∉ pool.bulk_free.map BulkEntry.idx := fun hmem => hheld ((hb.stack _).mp hmem).2.2
  have hidx := hperm.map BulkEntry.idx
  rw [List.map_cons] at hidx
  refine ⟨hb.base, ?_, ?_, ?_, hcached, ?_, ?_, ?_⟩
  · exact hidx.nodup_iff.mpr (List.nodup_cons.mpr ⟨hout, hb.nodup⟩)
  · intro j
    show j ∈ stack.map BulkEntry.idx ↔ _ ∧ _ ∧ Function.update pool.held (.bulk e.idx) none (.bulk j) = none
    rw [hidx.mem_iff, List.mem_cons, hb.stack, update_bulk]
    by_cases hj : j = e.idx
    · rw [if_pos hj]
      obtain ⟨hbase, hlt⟩ := hb.held_lt _ hheld
      exact ⟨fun _ => ⟨hbase, hj ▸ hlt, rfl⟩, fun _ => .inl hj⟩
    · rw [if_neg hj]
      exact ⟨fun hr => hr.resolve_left hj, .inr⟩
  · intro j hj
    change Function.update pool.held (.bulk e.idx) none (.bulk j) ≠ none at hj
    rw [update_bulk] at hj
    split at hj
    · exact absurd rfl hj
    · exact hb.held_lt j hj
  · intro j h' hj
    change Function.update pool.held (.bulk e.idx) none (.bulk j) = some h' at hj
    show Blank 0 (Function.update pool.data (.bulk e.idx) bytes (.bulk j)) _
    rw [update_bulk] at hj ⊢
    by_cases heq : j = e.idx
    · rw [if_pos heq] at hj
      cases hj
    · rw [if_neg heq] at hj ⊢
      exact hb.limits j h' hj
  · intro j hj hj'
    change Function.update pool.held (.bulk e.idx) none (.bulk j) = none at hj
    show Blank 0 (Function.update pool.data (.bulk e.idx) bytes (.bulk j)) 0
    rw [hidx.mem_iff, List.mem_cons, not_or] at hj'
    rw [update_bulk, if_neg hj'.1] at hj ⊢
    exact hb.blank j hj hj'.2
  · intro e' he'
    show Blank 0 (Function.update pool.data (.bulk e.idx) bytes (.bulk e'.idx))
      (BulkEntry.mark e' (Function.update pool.data (.bulk e.idx) bytes (.bulk e'.idx)))
    rcases List.mem_cons.mp (hperm.mem_iff.mp he') with rfl | he'
    · rw [Function.update_self]
      exact hblank
    · have hne : e'.idx ≠ e.idx := fun heq => hout (heq ▸ List.mem_map_of_mem he')
      rw [update_bulk, if_neg hne]
      exact hb.entries e' he'

/-! ## The operations -/

/-- A buffer is lent, with the bound of the bytes that are in it, or nothing is changed. -/
def Allocates (pool : SlicePool κ) (h : Holder κ) : Option (Buf × Nat) × SlicePool κ → Prop
  | (none, pool') => Same pool pool'
  | (some (b, dirty), pool') => Lent pool b h pool' ∧ Blank 0 (pool'.data b) dirty ∧ dirty ≤ b.capacity

lemma Same.trans_allocates {pool₁ r} (hsame : Same pool pool₁) (hr : Allocates pool₁ h r) : Allocates pool h r := by
  obtain ⟨_ | ⟨b, dirty⟩, pool'⟩ := r
  · refine ⟨hr.inv, hr.held.trans hsame.held, fun b' hb' => ?_⟩
    exact (hr.data b' (by rwa [hsame.held])).trans (hsame.data b' hb')
  · obtain ⟨hlent, hblank⟩ := hr
    have hheld := hlent.held
    have hfree := hlent.free
    rw [hsame.held] at hheld hfree
    refine ⟨⟨hlent.inv, hfree, hheld, fun b' hb' => ?_⟩, hblank⟩
    exact (hlent.data b' (by rwa [hsame.held])).trans (hsame.data b' hb')

lemma Inv.pop (hi : pool.Inv) (h : Holder κ) : Allocates pool h (((pool.pop h).1.map fun b => (b, 0)), (pool.pop h).2) := by
  unfold SlicePool.pop
  cases hstack : pool.free_stack with
  | nil => exact ⟨hi, rfl, fun _ _ => rfl⟩
  | cons idx rest =>
    obtain ⟨-, hfree⟩ := (hi.slices.stack idx).mp (hstack ▸ List.mem_cons_self)
    have hblank := hi.slices.blank idx hfree
    refine ⟨⟨⟨{ hi.slices.pop hstack with }, { hi.bulks with }, ?_⟩, hfree, rfl, fun _ _ => rfl⟩, hblank, Nat.zero_le _⟩
    intro x hx
    rcases List.mem_cons.mp hx with rfl | hx
    · exact hblank
    · exact hi.issued x hx

/-- `alloc` lends a blank slice. -/
lemma Inv.alloc (hi : pool.Inv) (h : Holder κ) :
    Allocates pool h (((pool.alloc h).1.map fun b => (b, 0)), (pool.alloc h).2) := by
  have hgrow := hi.grow
  unfold SlicePool.alloc
  split
  · split <;> rename_i pool₁ heq <;> rw [heq] at hgrow
    · exact hgrow.trans_allocates (hgrow.inv.pop h)
    · exact hgrow
  · exact hi.pop h

/-- `map_bulk` changes nothing that is held. -/
lemma Inv.map_bulk (hi : pool.Inv) (hbase : pool.bulk_base = false) : Same pool pool.map_bulk.2 := by
  have hheld : ∀ i, pool.held (.bulk i) = none := by
    intro i
    by_contra hne
    rw [(hi.bulks.held_lt i hne).1] at hbase
    cases hbase
  have hempty : ∀ i, i ∉ pool.bulk_free.map BulkEntry.idx := by
    intro i hmem
    rw [((hi.bulks.stack i).mp hmem).1] at hbase
    cases hbase
  have hblank : ∀ i, Blank 0 (pool.data (.bulk i)) 0 := fun i => hi.bulks.blank i (hheld i) (hempty i)
  unfold SlicePool.map_bulk
  split
  · exact ⟨hi, rfl, fun _ _ => rfl⟩
  rename_i hguard
  rw [not_or, not_or, Bool.not_eq_false] at hguard
  split
  · refine ⟨⟨{ hi.slices with }, ?_, hi.issued⟩, rfl, fun _ _ => rfl⟩
    have hmap : ((List.range pool.bulk_max_count).map fun i => (⟨i, false⟩ : BulkEntry)).map BulkEntry.idx =
        List.range pool.bulk_max_count := by
      rw [List.map_map]
      exact List.map_id _
    refine ⟨fun _ => hguard.2.1, ?_, ?_, fun i hne => absurd (hheld i) hne, Nat.zero_le _, ?_, fun i _ _ => hblank i, ?_⟩
    · show (((List.range pool.bulk_max_count).map fun i => (⟨i, false⟩ : BulkEntry)).map BulkEntry.idx).Nodup
      rw [hmap]
      exact List.nodup_range
    · intro i
      show i ∈ ((List.range pool.bulk_max_count).map fun i => (⟨i, false⟩ : BulkEntry)).map BulkEntry.idx ↔
        true = true ∧ i < pool.bulk_max_count ∧ pool.held (.bulk i) = none
      rw [hmap, List.mem_range]
      exact ⟨fun hlt => ⟨rfl, hlt, hheld i⟩, fun hr => hr.2.1⟩
    · intro i h' hh
      exact absurd ((hheld i).symm.trans hh) (by simp)
    · intro e he
      exact (hblank e.idx).mono (Nat.zero_le _)
  · exact ⟨⟨{ hi.slices with }, { hi.bulks with }, hi.issued⟩, rfl, fun _ _ => rfl⟩

lemma Inv.pop_bulk (hi : pool.Inv) {takes_dirty}
    (hlimit : takes_dirty = true → ∀ i, h.limit (.bulk i) = kBulkSliceSize) :
    Allocates pool h (pool.pop_bulk h takes_dirty) := by
  unfold SlicePool.pop_bulk
  cases hstack : pool.bulk_free with
  | nil => exact ⟨hi, rfl, fun _ _ => rfl⟩
  | cons e rest =>
    obtain ⟨-, -, hfree⟩ := (hi.bulks.stack e.idx).mp (by rw [hstack]; exact List.mem_cons_self)
    have hentry : Blank 0 (pool.data (.bulk e.idx)) (BulkEntry.mark e (pool.data (.bulk e.idx))) :=
      hi.bulks.entries e (hstack ▸ List.mem_cons_self)
    have hmark : BulkEntry.mark e (pool.data (.bulk e.idx)) ≤ kBulkSliceSize := by
      unfold BulkEntry.mark
      split
      · exact deferredDirty_le _
      · exact Nat.zero_le _
    cases htakes : takes_dirty with
    | true =>
      have hlim := hentry.mono (hmark.trans_eq (hlimit htakes e.idx).symm)
      refine ⟨⟨⟨{ hi.slices with }, ?_, hi.issued⟩, hfree, rfl, fun _ _ => rfl⟩, hentry, hmark⟩
      exact hi.bulks.pop hstack (fun _ _ => rfl) hlim
    | false =>
      have hclear : Blank 0 (Function.update pool.data (.bulk e.idx)
          (clear 0 (pool.data (.bulk e.idx)) (BulkEntry.mark e (pool.data (.bulk e.idx)))) (.bulk e.idx)) 0 := by
        rw [Function.update_self]
        exact hentry.clear
      refine ⟨⟨⟨{ hi.slices with }, ?_, ?_⟩, hfree, rfl, ?_⟩, hclear, Nat.zero_le _⟩
      · refine hi.bulks.pop hstack (fun j hj => Function.update_of_ne (fun heq => hj (Buf.bulk.inj heq)) ..) ?_
        exact hclear.mono (Nat.zero_le _)
      · intro x hx
        rcases List.mem_cons.mp hx with rfl | hx
        · exact hclear
        · exact hi.issued x hx
      · intro b' hb'
        have hne : b' ≠ .bulk e.idx := fun heq => hb' (heq.symm ▸ hfree)
        exact Function.update_of_ne hne ..

/-- `alloc_bulk_impl` lends a buffer with the bound of the bytes in it. -/
lemma Inv.alloc_bulk_impl (hi : pool.Inv) {takes_dirty}
    (hlimit : takes_dirty = true → ∀ i, h.limit (.bulk i) = kBulkSliceSize) :
    Allocates pool h (pool.alloc_bulk_impl h takes_dirty) := by
  unfold SlicePool.alloc_bulk_impl
  split
  · exact ⟨hi, rfl, fun _ _ => rfl⟩
  split
  · exact hi.pop_bulk hlimit
  · rename_i hbase
    have hmap := hi.map_bulk (Bool.eq_false_iff.mpr hbase)
    split <;> rename_i pool₁ heq <;> rw [heq] at hmap
    · exact hmap.trans_allocates (hmap.inv.pop_bulk hlimit)
    · exact hmap

lemma Inv.alloc_bulk (hi : pool.Inv) (h : Holder κ) : Allocates pool h (pool.alloc_bulk h) :=
  hi.alloc_bulk_impl fun hf => by cases hf

lemma Inv.alloc_bulk_for_overwrite (hi : pool.Inv) : Allocates pool .overwriter pool.alloc_bulk_for_overwrite :=
  hi.alloc_bulk_impl fun _ _ => rfl

lemma Inv.alloc_response_body_bulk (hi : pool.Inv) (k : κ) :
    Allocates pool (.chain k) (pool.alloc_response_body_bulk (.chain k)) := by
  unfold SlicePool.alloc_response_body_bulk
  split
  · exact hi.alloc_bulk_impl fun _ _ => rfl
  · exact hi.alloc_bulk _

lemma Inv.capacity_of (hi : pool.Inv) (hb : pool.held b ≠ none) : pool.capacity_of b = b.capacity := by
  cases b with
  | slice i => rfl
  | bulk i =>
    obtain ⟨hbase, hlt⟩ := hi.bulks.held_lt i hb
    have hbulk : pool.is_bulk (.bulk i) = true := by
      simp only [is_bulk, hbase, hlt, decide_true, Bool.and_true]
    rw [SlicePool.capacity_of, if_pos hbulk]
    rfl

lemma Inv.limit_blank (hi : pool.Inv) (hb : pool.held b = some h) : Blank 0 (pool.data b) (h.limit b) := by
  cases b with
  | slice i => exact hi.slices.limits i h hb
  | bulk i => exact hi.bulks.limits i h hb

lemma Inv.blank_beyond (hi : pool.Inv) (b : Buf) (hb : pool.held b ≠ none) : Blank 0 (pool.data b) b.capacity := by
  obtain ⟨h, hh⟩ := Option.ne_none_iff_exists'.mp hb
  exact (hi.limit_blank hh).mono (h.limit_le _)

lemma Inv.returned_self (hi : pool.Inv) (hb : pool.held b = none) : Returned pool b pool :=
  ⟨hi, by rw [← hb, Function.update_eq_self], fun _ _ => rfl⟩

/-- `free_bulk` takes a buffer back, with the bound of the bytes in it. -/
lemma Inv.free_bulk (hi : pool.Inv) {defer} (hdirty : Blank 0 (pool.data (.bulk i)) dirty)
    (hle : dirty ≤ kBulkSliceSize) : Returned pool (.bulk i) (pool.free_bulk i dirty defer) := by
  unfold SlicePool.free_bulk
  by_cases hfree : pool.held (.bulk i) = none
  · rw [if_pos (.inr hfree)]
    exact hi.returned_self hfree
  · have hlt := (hi.bulks.held_lt i hfree).2
    rw [if_neg (not_or.mpr ⟨Nat.not_le.mpr hlt, hfree⟩)]
    have hcached := hi.bulks.cached
    have hother : ∀ m : Bytes, ∀ b' ≠ Buf.bulk i, Function.update pool.data (.bulk i) m b' = pool.data b' :=
      fun m b' hb' => Function.update_of_ne hb' ..
    dsimp only
    split
    · refine ⟨⟨hi.slices.congr rfl rfl rfl rfl rfl rfl (fun _ => rfl) fun _ => rfl, ?_, hi.issued⟩, rfl, hother _⟩
      cases defer with
      | true =>
        exact hi.bulks.push (e := ⟨i, true⟩) hfree (List.Perm.refl _) (Nat.succ_le_succ hcached)
          (blank_deferred hdirty hle)
      | false =>
        exact hi.bulks.push (e := ⟨i, false⟩) hfree (List.Perm.refl _) (Nat.succ_le_succ hcached) hdirty.clear
    · dsimp only [discard_bulk, discard, clear_bytes, setData, asked, giveBack]
      refine ⟨⟨{ hi.slices with }, ?_, hi.issued⟩, rfl, hother _⟩
      refine hi.bulks.push (e := ⟨i, false⟩) hfree (insertBelow_perm _) ?_ (Blank.clear ?_)
      · rw [(insertBelow_perm _).length_eq]
        exact Nat.le_succ_of_le hcached
      · show Blank 0 (pool.data (.bulk i)) (if pool.sys 0 then kBulkSliceSize else dirty)
        split
        · exact hdirty.mono hle
        · exact hdirty

lemma Slices.length_lt (hs : pool.Slices) (hheld : pool.held (.slice i) ≠ none) : pool.free_stack.length < pool.count := by
  have hout : i ∉ pool.free_stack := fun hmem => hheld ((hs.stack i).mp hmem).2
  have hsub : i :: pool.free_stack ⊆ List.range pool.count := by
    intro j hj
    rcases List.mem_cons.mp hj with rfl | hj
    · exact List.mem_range.mpr (hs.held_lt j hheld)
    · exact List.mem_range.mpr ((hs.stack j).mp hj).1
  have hlen := (List.subperm_of_subset (List.nodup_cons.mpr ⟨hout, hs.nodup⟩) hsub).length_le
  rwa [List.length_range, List.length_cons] at hlen

/-- `free` takes a slice back. -/
lemma Inv.free_slice (hi : pool.Inv) (i : Nat) : Returned pool (.slice i) (pool.free_slice i) := by
  unfold SlicePool.free_slice
  by_cases hfree : pool.held (.slice i) = none
  · rw [if_pos (.inr (.inr (.inr (.inr hfree))))]
    exact hi.returned_self hfree
  · have hlt := hi.slices.held_lt i hfree
    have hlen := hi.slices.length_lt hfree
    have hbase := hi.slices.base (Nat.ne_of_gt (Nat.zero_lt_of_lt hlt))
    have hmax := hi.slices.count_le
    have hcached := hi.slices.cached
    have hblank : Blank 0 (pool.data (.slice i)) kSliceSize := hi.blank_beyond (.slice i) hfree
    have hguard : ¬(pool.base = false ∨ pool.count = 0 ∨ i ≥ pool.count ∨
        pool.free_stack.length ≥ pool.max_count ∨ pool.held (.slice i) = none) := by
      rintro (h | h | h | h | h)
      · rw [h] at hbase
        cases hbase
      · omega
      · omega
      · omega
      · exact hfree h
    have hother : ∀ m : Bytes, ∀ b' ≠ Buf.slice i, Function.update pool.data (.slice i) m b' = pool.data b' :=
      fun m b' hb' => Function.update_of_ne hb' ..
    rw [if_neg hguard]
    dsimp only
    split
    · rename_i hlimit
      refine ⟨⟨?_, { hi.bulks with }, hi.issued⟩, rfl, hother _⟩
      exact hi.slices.push hfree (List.Perm.refl _) ⟨Nat.succ_le_succ hcached.1, hlimit⟩ hblank.clear
    · dsimp only [discard, clear_bytes, setData, asked, giveBack]
      refine ⟨⟨?_, { hi.bulks with }, hi.issued⟩, rfl, hother _⟩
      refine hi.slices.push hfree (insertBelow_perm _) ⟨?_, hcached.2⟩ (Blank.clear ?_)
      · rw [(insertBelow_perm _).length_eq]
        exact Nat.le_succ_of_le hcached.1
      · show Blank 0 (pool.data (.slice i)) (if pool.sys 0 then kSliceSize else kSliceSize)
        rw [ite_self]
        exact hblank

lemma Inv.is_bulk_or_free (hi : pool.Inv) (i : Nat) : pool.is_bulk (.bulk i) = true ∨ pool.held (.bulk i) = none := by
  by_cases hfree : pool.held (.bulk i) = none
  · exact .inr hfree
  · obtain ⟨hbase, hlt⟩ := hi.bulks.held_lt i hfree
    exact .inl (by simp only [is_bulk, hbase, hlt, decide_true, Bool.and_true])

lemma Inv.free_bulk_min (hi : pool.Inv) {written defer}
    (hblank : pool.held (.bulk i) ≠ none → Blank 0 (pool.data (.bulk i)) written) :
    Returned pool (.bulk i) (pool.free_bulk i (min written kBulkSliceSize) defer) := by
  by_cases hfree : pool.held (.bulk i) = none
  · unfold SlicePool.free_bulk
    rw [if_pos (.inr hfree)]
    exact hi.returned_self hfree
  · refine hi.free_bulk (fun k hk => ?_) (Nat.min_le_right ..)
    rcases Nat.le_total written kBulkSliceSize with hle | hle
    · rw [Nat.min_eq_left hle] at hk
      exact hblank hfree k hk
    · rw [Nat.min_eq_right hle] at hk
      exact hi.blank_beyond _ hfree k hk

lemma Inv.free_bulk_full (hi : pool.Inv) {defer} : Returned pool (.bulk i) (pool.free_bulk i kBulkSliceSize defer) := by
  have hmin : kBulkSliceSize = min kBulkSliceSize kBulkSliceSize := (Nat.min_self _).symm
  rw [hmin]
  exact hi.free_bulk_min fun hheld => hi.blank_beyond _ hheld

/-- `free` takes any buffer back. -/
lemma Inv.free (hi : pool.Inv) (b : Buf) : Returned pool b (pool.free b) := by
  cases b with
  | slice i => exact hi.free_slice i
  | bulk i =>
    unfold SlicePool.free
    dsimp only
    split
    · exact hi.free_bulk_full
    · rename_i hbulk
      exact hi.returned_self ((hi.is_bulk_or_free i).resolve_left hbulk)

/-- `free_written` takes a buffer back that is blank beyond the bound. -/
lemma Inv.free_written (hi : pool.Inv) {written} (hblank : pool.held b ≠ none → Blank 0 (pool.data b) written) :
    Returned pool b (pool.free_written b written) := by
  cases b with
  | slice i => exact hi.free _
  | bulk i =>
    unfold SlicePool.free_written
    dsimp only
    split
    · exact hi.free_bulk_min hblank
    · exact hi.free _

lemma Inv.free_bulk_after_overwrite (hi : pool.Inv) (b : Buf) : Returned pool b (pool.free_bulk_after_overwrite b) := by
  cases b with
  | slice i => exact hi.free _
  | bulk i =>
    unfold SlicePool.free_bulk_after_overwrite
    dsimp only
    split
    · exact hi.free_bulk_full
    · exact hi.free _

/-- `free_response_body_written` takes a buffer back that is blank beyond the bound. -/
lemma Inv.free_response_body_written (hi : pool.Inv) {written}
    (hblank : pool.held b ≠ none → Blank 0 (pool.data b) written) :
    Returned pool b (pool.free_response_body_written b written) := by
  unfold SlicePool.free_response_body_written
  split
  · split
    · exact hi.free_bulk_min hblank
    · exact hi.free_written hblank
  · exact hi.free_written hblank

lemma Inv.put (hi : pool.Inv) (h' : Holder κ) {pos bytes} (hheld : pool.held b = some h)
    (hle : h.limit b ≤ h'.limit b) (hroom : pos + bytes.length ≤ h'.limit b) :
    ((pool.put b pos bytes).lend b h').Inv := by
  have hfree : ∀ b', Function.update pool.held b (some h') b' = none ↔ pool.held b' = none := by
    intro b'
    rw [Function.update_apply]
    split
    · rename_i heq
      rw [heq, hheld]
      exact ⟨fun h => (by cases h), fun h => (by cases h)⟩
    · rfl
  have hother : ∀ b', pool.held b' = none → ((pool.put b pos bytes).lend b h').data b' = pool.data b' := by
    intro b' hb'
    refine Function.update_of_ne (fun heq => ?_) ..
    rw [heq, hheld] at hb'
    cases hb'
  have hlimit : ∀ b' h'', Function.update pool.held b (some h') b' = some h'' →
      (∀ h, pool.held b' = some h → Blank 0 (pool.data b') (h.limit b')) →
      Blank 0 (Function.update pool.data b (write (pool.data b) pos bytes) b') (h''.limit b') := by
    intro b' h'' hb' hblank
    rw [Function.update_apply] at hb' ⊢
    by_cases heq : b' = b
    · subst heq
      rw [if_pos rfl] at hb' ⊢
      cases hb'
      exact ((hblank h hheld).mono hle).write hroom
    · rw [if_neg heq] at hb' ⊢
      exact hblank h'' hb'
  have hs := hi.slices
  have hb := hi.bulks
  refine ⟨⟨hs.base, hs.count_le, hs.fits, hs.nodup, ?_, ?_, hs.cached, ?_, ?_⟩,
    ⟨hb.base, hb.nodup, ?_, ?_, hb.cached, ?_, ?_, ?_⟩, hi.issued⟩
  · intro i
    exact (hs.stack i).trans (and_congr_right fun _ => (hfree _).symm)
  · intro i hne
    exact hs.held_lt i (mt (hfree _).mpr hne)
  · intro i h'' hh
    exact hlimit _ h'' hh fun h hh => hs.limits i h hh
  · intro i hnone
    have hnone := (hfree _).mp hnone
    rw [hother _ hnone]
    exact hs.blank i hnone
  · intro i
    exact (hb.stack i).trans (and_congr_right fun _ => and_congr_right fun _ => (hfree _).symm)
  · intro i hne
    exact hb.held_lt i (mt (hfree _).mpr hne)
  · intro i h'' hh
    exact hlimit _ h'' hh fun h hh => hb.limits i h hh
  · intro i hnone hout
    have hnone := (hfree _).mp hnone
    rw [hother _ hnone]
    exact hb.blank i hnone hout
  · intro e he
    have hnone := ((hb.stack e.idx).mp (List.mem_map_of_mem he)).2.2
    rw [hother _ hnone]
    exact hb.entries e he

lemma lend_self (hheld : pool.held b = some h) : pool.lend b h = pool := by
  unfold lend
  rw [← hheld, Function.update_eq_self]

lemma Inv.chainPut (hi : pool.Inv) {k pos bytes} (hheld : pool.held b = some (.chain k))
    (hroom : pos + bytes.length ≤ b.capacity) : (pool.put b pos bytes).Inv := by
  have hput := hi.put (.chain k) hheld (Nat.le_refl _) hroom
  have hself : (pool.put b pos bytes).held b = some (.chain k) := hheld
  rwa [lend_self hself] at hput

lemma Inv.ownerPut (hi : pool.Inv) {pos bytes} (hroom : pos + bytes.length ≤ b.capacity) :
    (pool.ownerPut b pos bytes).Inv := by
  unfold SlicePool.ownerPut
  split
  · rename_i written hheld
    refine hi.put _ hheld ?_ ?_
    · exact Nat.le_min.mpr ⟨(Nat.min_le_left ..).trans (Nat.le_max_left ..), Nat.min_le_right ..⟩
    · exact Nat.le_min.mpr ⟨Nat.le_max_right .., hroom⟩
  · rename_i hheld
    have hput := hi.put .overwriter hheld (Nat.le_refl _) hroom
    have hself : (pool.put b pos bytes).held b = some .overwriter := hheld
    rwa [lend_self hself] at hput
  · exact hi

/-! ## The life of a pool -/

lemma Inv.destroy (hi : pool.Inv) : pool.destroy.Inv where
  slices := { fresh_inv (κ := κ) 0 false false pool.sys |>.slices with }
  bulks := { fresh_inv (κ := κ) 0 false false pool.sys |>.bulks with }
  issued := hi.issued

lemma Inv.preallocate (hi : pool.Inv) (steps : Nat) : (preallocate steps pool).Inv := by
  induction steps generalizing pool with
  | zero => exact hi
  | succ steps ih =>
    have hgrow := hi.grow.inv
    unfold SlicePool.preallocate
    split
    · split <;> rename_i pool₁ heq <;> rw [heq] at hgrow
      · exact ih hgrow
      · exact hgrow.destroy
    · exact hi

lemma Inv.preallocate_held (hi : pool.Inv) (hnone : ∀ b, pool.held b = none) (steps : Nat) (b : Buf) :
    (SlicePool.preallocate steps pool).held b = none := by
  induction steps generalizing pool with
  | zero => exact hnone b
  | succ steps ih =>
    have hgrow := hi.grow
    unfold SlicePool.preallocate
    split
    · split <;> rename_i pool₁ heq <;> rw [heq] at hgrow
      · exact ih hgrow.inv fun b => by rw [hgrow.held]; exact hnone b
      · rfl
    · exact hnone b

lemma Inv.unmapped (hi : pool.Inv) (hbase : pool.base = false) : pool.bulk_base = false ∧ ∀ b, pool.held b = none := by
  have hbulk : pool.bulk_base = false := by
    by_contra hne
    rw [hi.bulks.base (Bool.not_eq_false _ ▸ hne)] at hbase
    cases hbase
  refine ⟨hbulk, fun b => ?_⟩
  by_contra hne
  cases b with
  | slice i =>
    have hlt := hi.slices.held_lt i hne
    rw [hi.slices.base (Nat.ne_of_gt (Nat.zero_lt_of_lt hlt))] at hbase
    cases hbase
  | bulk i =>
    rw [(hi.bulks.held_lt i hne).1] at hbulk
    cases hbulk

/-- `init` of a pool that nothing is mapped for. -/
lemma Inv.init (hi : pool.Inv) {n} (prealloc cache_slices bulk_capacity : Nat) (hbase : pool.base = false)
    (hn : n + kGrowStep ≤ 2 ^ 32) : (pool.init n prealloc cache_slices bulk_capacity).Inv ∧
      ∀ b, (pool.init n prealloc cache_slices bulk_capacity).held b = none := by
  obtain ⟨hbulk, hnone⟩ := hi.unmapped hbase
  have hempty : ∀ i, i ∉ pool.bulk_free.map BulkEntry.idx := by
    intro i hmem
    rw [((hi.bulks.stack i).mp hmem).1] at hbulk
    cases hbulk
  have hstart : Inv { pool.asked with
      base := pool.sys 0, cache_limit := min (min cache_slices kMaxCachedSlices) n, cached_count := 0, max_count := n,
      count := 0, free_stack := [], bulk_max_count := min bulk_capacity kMaxBulkSlices, study_bulk_burst := false,
      study_bulk_borrowed := 0 } := by
    refine ⟨⟨fun h => absurd rfl h, Nat.zero_le _, hn, List.nodup_nil, ?_, fun i hne => absurd (hnone _) hne,
      ⟨Nat.zero_le _, Nat.zero_le _⟩, hi.slices.limits, hi.slices.blank⟩,
      ⟨fun h => absurd (hbulk.symm.trans h) Bool.false_ne_true, hi.bulks.nodup, ?_, fun i hne => absurd (hnone _) hne,
        hi.bulks.cached, hi.bulks.limits, hi.bulks.blank, hi.bulks.entries⟩, hi.issued⟩
    · exact fun i => ⟨fun h => absurd h List.not_mem_nil, fun h => absurd h.1 (Nat.not_lt_zero i)⟩
    · exact fun i => ⟨fun h => absurd h (hempty i), fun h => absurd (hbulk.symm.trans h.1) Bool.false_ne_true⟩
  unfold SlicePool.init
  dsimp only
  split
  · exact ⟨hstart.preallocate _, hstart.preallocate_held hnone _⟩
  · exact ⟨hstart, hnone⟩

lemma Bulks.entry_free (hb : pool.Bulks) {e : BulkEntry} (he : e ∈ pool.bulk_free) : pool.held (.bulk e.idx) = none :=
  ((hb.stack e.idx).mp (List.mem_map_of_mem he)).2.2

lemma Bulks.untag (hb : pool.Bulks) {n cached e} {bytes : Bytes} {sys}
    (hget : pool.bulk_free[n]? = some e) (hcached : cached ≤ pool.bulk_free.length) (hblank : Blank 0 bytes 0) :
    Bulks { pool with
      bulk_free := pool.bulk_free.set n ⟨e.idx, false⟩, bulk_cached_count := cached,
      data := Function.update pool.data (.bulk e.idx) bytes, sys := sys } := by
  have hidx : (pool.bulk_free.set n ⟨e.idx, false⟩).map BulkEntry.idx = pool.bulk_free.map BulkEntry.idx := by
    refine List.ext_getElem? fun j => ?_
    rw [List.getElem?_map, List.getElem?_map, List.getElem?_set]
    split
    · rename_i heq
      rw [← heq, if_pos (List.getElem?_eq_some_iff.mp hget).1, hget]
      rfl
    · rfl
  refine ⟨hb.base, ?_, ?_, hb.held_lt, ?_, ?_, ?_, ?_⟩
  · show ((pool.bulk_free.set n ⟨e.idx, false⟩).map BulkEntry.idx).Nodup
    rw [hidx]
    exact hb.nodup
  · intro i
    show i ∈ (pool.bulk_free.set n ⟨e.idx, false⟩).map BulkEntry.idx ↔ _
    rw [hidx]
    exact hb.stack i
  · show cached ≤ (pool.bulk_free.set n ⟨e.idx, false⟩).length
    rw [List.length_set]
    exact hcached
  · intro i h hh
    show Blank 0 (Function.update pool.data (.bulk e.idx) bytes (.bulk i)) _
    rw [update_bulk]
    split
    · exact hblank.mono (Nat.zero_le _)
    · exact hb.limits i h hh
  · intro i hnone hout
    show Blank 0 (Function.update pool.data (.bulk e.idx) bytes (.bulk i)) 0
    rw [hidx] at hout
    rw [update_bulk]
    split
    · exact hblank
    · exact hb.blank i hnone hout
  · intro e' he'
    show Blank 0 (Function.update pool.data (.bulk e.idx) bytes (.bulk e'.idx))
      (BulkEntry.mark e' (Function.update pool.data (.bulk e.idx) bytes (.bulk e'.idx)))
    rw [update_bulk]
    by_cases heq : e'.idx = e.idx
    · rw [if_pos heq]
      exact hblank.mono (Nat.zero_le _)
    · rw [if_neg heq]
      rcases List.mem_or_eq_of_mem_set he' with he' | rfl
      · exact hb.entries e' he'
      · exact absurd rfl heq

lemma Inv.trimTurn (hi : pool.Inv) : Same pool pool.trimTurn := by
  unfold SlicePool.trimTurn
  cases hget : pool.bulk_free[pool.bulk_cached_count - 1]? with
  | none => exact ⟨hi, rfl, fun _ _ => rfl⟩
  | some e =>
    have hmem := List.mem_of_getElem? hget
    have hfree := hi.bulks.entry_free hmem
    have hclear : Blank 0 (clear 0 (pool.data (.bulk e.idx))
        (if pool.sys 0 then kBulkSliceSize else kBulkSliceSize)) 0 := by
      rw [ite_self]
      refine Blank.clear ((hi.bulks.entries _ hmem).mono ?_)
      unfold BulkEntry.mark
      split
      · exact deferredDirty_le _
      · exact Nat.zero_le _
    refine ⟨⟨{ hi.slices with }, ?_, hi.issued⟩, rfl, fun b' hb' => ?_⟩
    · exact hi.bulks.untag hget ((Nat.sub_le ..).trans hi.bulks.cached) hclear
    · have hne : b' ≠ .bulk e.idx := fun heq => hb' (heq.symm ▸ hfree)
      exact Function.update_of_ne hne ..

/-- `study_trim_bulk_idle_cache` changes nothing that anybody holds. -/
lemma Inv.trim (hi : pool.Inv) (n : Nat) : Same pool (trim n pool) := by
  induction n generalizing pool with
  | zero => exact ⟨hi, rfl, fun _ _ => rfl⟩
  | succ n ih =>
    unfold SlicePool.trim
    split
    · have hturn := hi.trimTurn
      have hrest := ih hturn.inv
      refine ⟨hrest.inv, hrest.held.trans hturn.held, fun b' hb' => ?_⟩
      exact (hrest.data b' (by rwa [hturn.held])).trans (hturn.data b' hb')
    · exact ⟨hi, rfl, fun _ _ => rfl⟩

lemma Inv.study_trim_bulk_idle_cache (hi : pool.Inv) : Same pool pool.study_trim_bulk_idle_cache := by
  have htrim := hi.trim 8
  unfold SlicePool.study_trim_bulk_idle_cache
  split
  · exact ⟨hi, rfl, fun _ _ => rfl⟩
  dsimp only
  split
  · exact ⟨⟨{ htrim.inv.slices with }, { htrim.inv.bulks with }, htrim.inv.issued⟩, htrim.held, htrim.data⟩
  · exact htrim

end SlicePool

end Rut.Pool
