import Rut.Lib.Trace
import Rut.Pool.ChainSpec

/-!
# Pools and chains together

A system is made of pools, of owners that borrow buffers from them, and of chains. In every run of their operations the
buffers that `alloc` and `alloc_bulk` hand out are blank, and every chain is a queue of bytes that gives each node it
took from a pool back once.
-/

set_option linter.all false
namespace Rut.Pool

open Lib (Trace)
open Lib.Memory (Blank)
open SlicePool ResponseBodyChain

structure System (P κ : Type) where
  pools : P → SlicePool κ
  chains : κ → ResponseBodyChain P κ

inductive Op (P κ : Type) where
  | init (p : P) (n prealloc cache_slices bulk_capacity : Nat)
  | destroy (p : P)
  | alloc (p : P)
  | alloc_bulk (p : P)
  | alloc_bulk_for_overwrite (p : P)
  | write (p : P) (b : Buf) (pos : Nat) (bytes : List UInt8)
  | free (p : P) (b : Buf)
  | free_written (p : P) (b : Buf) (written : Nat)
  | free_bulk_after_overwrite (p : P) (b : Buf)
  | study_trim_bulk_idle_cache (p : P)
  | append (k : κ) (p : P) (src : List UInt8) (bulk_after : Nat)
  | reserve_tail (k : κ) (p : P) (bulk_after : Nat)
  | commit (k : κ) (bytes : List UInt8)
  | record_direct_write (k : κ) (pos : Nat) (bytes : List UInt8)
  | consume (k : κ) (len : Nat) (tail_pinned recycle_bulk : Bool)
  | release_recycled (k : κ)
  | release (k : κ)

variable {P κ : Type} [DecidableEq P] [DecidableEq κ]

namespace System

def setPool (s : System P κ) (p : P) (pool : SlicePool κ) : System P κ := { s with pools := Function.update s.pools p pool }

def set (s : System P κ) (p : P) (k : κ) (r : SlicePool κ × ResponseBodyChain P κ) : System P κ where
  pools := Function.update s.pools p r.1
  chains := Function.update s.chains k r.2

/-- A chain works with the pool that owns its nodes. A chain without an owner has no nodes, and touches no pool. -/
def onOwner (s : System P κ) (k : κ) (f : SlicePool κ → ResponseBodyChain P κ → SlicePool κ × ResponseBodyChain P κ) :
    System P κ :=
  match (s.chains k).owner with
  | some p => s.set p k (f (s.pools p) (s.chains k))
  | none => { s with chains := Function.update s.chains k (f {} (s.chains k)).2 }

def apply (layout : Layout) (s : System P κ) : Op P κ → System P κ
  | .init p n prealloc cache_slices bulk_capacity =>
    s.setPool p ((s.pools p).init n prealloc cache_slices bulk_capacity)
  | .destroy p => s.setPool p (s.pools p).destroy
  | .alloc p => s.setPool p ((s.pools p).alloc (.owner 0)).2
  | .alloc_bulk p => s.setPool p ((s.pools p).alloc_bulk (.owner 0)).2
  | .alloc_bulk_for_overwrite p => s.setPool p (s.pools p).alloc_bulk_for_overwrite.2
  | .write p b pos bytes => s.setPool p ((s.pools p).ownerPut b pos bytes)
  | .free p b => s.setPool p ((s.pools p).free b)
  | .free_written p b written => s.setPool p ((s.pools p).free_written b written)
  | .free_bulk_after_overwrite p b => s.setPool p ((s.pools p).free_bulk_after_overwrite b)
  | .study_trim_bulk_idle_cache p => s.setPool p (s.pools p).study_trim_bulk_idle_cache
  | .append k p src bulk_after => s.set p k (append layout p k (s.pools p) (s.chains k) src bulk_after).2
  | .reserve_tail k p bulk_after => s.set p k (reserve_tail p k (s.pools p) (s.chains k) bulk_after).2
  | .commit k bytes => s.onOwner k fun pool c => commit pool c bytes
  | .record_direct_write k pos bytes => s.onOwner k fun pool c => record_direct_write pool c pos bytes
  | .consume k len tail_pinned recycle_bulk =>
    s.onOwner k fun pool c => consume layout pool c len tail_pinned recycle_bulk
  | .release_recycled k => s.onOwner k fun pool c => release_recycled layout pool c
  | .release k => s.onOwner k fun pool c => release layout pool c

end System

def Step (layout : Layout) (s : System P κ) (o : Op P κ) (s' : System P κ) : Prop := s' = s.apply layout o

omit [DecidableEq κ] in
/-- A pool is initialised once and destroyed when nobody holds a buffer of it. Owners write inside buffers that they hold
and give them back, with a bound of the bytes written if they give one; a buffer that came with the bytes of others goes
back the same way. A receive writes inside the tail, and what is committed is not more than `write_avail`. -/
def Permits (e : System P κ × Op P κ) : Prop :=
  match e.2 with
  | .init p n _ _ _ => (e.1.pools p).base = false ∧ n + kGrowStep ≤ 2 ^ 32
  | .destroy p => ∀ b, (e.1.pools p).held b = none
  | .write p b pos bytes =>
    ((e.1.pools p).held b = some .overwriter ∨ ∃ w, (e.1.pools p).held b = some (.owner w)) ∧
      pos + bytes.length ≤ b.capacity
  | .free p b => (e.1.pools p).held b = none ∨ ∃ w, (e.1.pools p).held b = some (.owner w)
  | .free_written p b written => (e.1.pools p).held b = none ∨ ∃ w ≤ written, (e.1.pools p).held b = some (.owner w)
  | .free_bulk_after_overwrite p b =>
    (e.1.pools p).held b = none ∨ (e.1.pools p).held b = some .overwriter ∨ ∃ w, (e.1.pools p).held b = some (.owner w)
  | .commit k bytes =>
    (e.1.chains k).nodes ≠ [] ∧
      ∀ p, (e.1.chains k).owner = some p → bytes.length ≤ (e.1.chains k).write_avail p (e.1.pools p)
  | .record_direct_write k pos bytes =>
    ∃ t, (e.1.chains k).nodes.getLast? = some t ∧ pos + bytes.length ≤ t.buf.capacity - header_size
  | _ => True

def System.run (layout : Layout) (s : System P κ) : List (Op P κ) → List (System P κ × Op P κ) × System P κ
  | [] => ([], s)
  | o :: rest => ((s, o) :: (run layout (s.apply layout o) rest).1, (run layout (s.apply layout o) rest).2)

lemma System.trace_run (layout : Layout) (s : System P κ) (ops : List (Op P κ)) :
    Trace (Step layout) s (s.run layout ops).1 (s.run layout ops).2 := by
  induction ops generalizing s with
  | nil => exact .nil
  | cons o rest ih => exact (Trace.single (show Step layout s o (s.apply layout o) from rfl)).trans (ih _)

/-- Before anything has happened: the settings of the pools and the answers of the system calls are free. -/
def System.Initial (s : System P κ) : Prop :=
  (∀ p, ∃ limit adaptive reuse sys, s.pools p = SlicePool.fresh limit adaptive reuse sys) ∧ ∀ k, s.chains k = {}

/-! ## The invariant -/

structure Bare (k : κ) (c : ResponseBodyChain P κ) : Prop where
  all : c.all = []
  taken : c.taken.Perm (c.returned.map Prod.fst)
  found : ∀ r ∈ c.returned, r.2 = some (.chain k)

/-- Every chain holds its nodes in the pool that owns them, and nothing elsewhere. -/
structure System.Inv (s : System P κ) : Prop where
  pools : ∀ p, (s.pools p).Inv
  bare : ∀ k, (s.chains k).owner = none → Bare k (s.chains k)
  owned : ∀ k p, (s.chains k).owner = some p → Linked (s.pools p) p k (s.chains k)
  apart : ∀ k p, (s.chains k).owner ≠ some p → Holds (s.pools p) k []

section Inv

omit [DecidableEq P] [DecidableEq κ]

variable {pool pool' : SlicePool κ} {p : P} {k : κ} {c : ResponseBodyChain P κ} {s : System P κ}

lemma holds_fresh (limit : Nat) (adaptive reuse : Bool) (sys : Nat → Bool) :
    Holds (SlicePool.fresh limit adaptive reuse sys) k [] where
  inv := fresh_inv limit adaptive reuse sys
  nodup := List.nodup_nil
  held := fun _ => ⟨fun h => (by cases h), fun h => absurd h List.not_mem_nil⟩
  ok := fun _ h => absurd h List.not_mem_nil

lemma Bare.linked (hb : Bare k c) (h : Holds pool k []) : Linked pool p k c where
  holds := hb.all.symm ▸ h
  tail := by
    intro t ht
    rw [(List.append_eq_nil_iff.mp hb.all).1] at ht
    cases ht
  taken := by
    rw [hb.all, List.map_nil, List.append_nil]
    exact hb.taken
  found := hb.found
  owner := fun hne => absurd hb.all hne

lemma Linked.bare (h : Linked pool p k c) (ho : c.owner = none) : Bare k c := by
  have hall : c.all = [] := by
    by_contra hne
    rw [h.owner hne] at ho
    cases ho
  have htaken := h.taken
  rw [hall, List.map_nil, List.append_nil] at htaken
  exact ⟨hall, htaken, h.found⟩

lemma System.Inv.linked (h : s.Inv) (k : κ) (p : P) (ho : (s.chains k).owner = none ∨ (s.chains k).owner = some p) :
    Linked (s.pools p) p k (s.chains k) := by
  rcases ho with ho | ho
  · refine (h.bare k ho).linked (h.apart k p ?_)
    rw [ho]
    exact fun hf => by cases hf
  · exact h.owned k p ho

lemma System.Initial.inv (h : s.Initial) : s.Inv := by
  have hholds : ∀ k p, Holds (s.pools p) k [] := by
    intro k p
    obtain ⟨limit, adaptive, reuse, sys, hp⟩ := h.1 p
    rw [hp]
    exact holds_fresh ..
  refine ⟨fun p => ?_, fun k _ => ?_, fun k p ho => ?_, fun k p _ => hholds k p⟩
  · obtain ⟨limit, adaptive, reuse, sys, hp⟩ := h.1 p
    rw [hp]
    exact fresh_inv ..
  · rw [h.2 k]
    exact ⟨rfl, List.Perm.refl _, fun r hr => absurd hr List.not_mem_nil⟩
  · rw [h.2 k] at ho
    cases ho

lemma Linked.keeps (h : Linked pool p k c) (hk : Keeps k pool pool') (hi : pool'.Inv) : Linked pool' p k c :=
  { h with holds := h.holds.keeps hk hi }

end Inv

structure Idle (c c' : ResponseBodyChain P κ) : Prop where
  nodes : c'.nodes = []
  recycled : c'.recycled = none
  owner : c'.owner = none
  taken : c'.taken = c.taken
  returned : c'.returned = c.returned

omit [DecidableEq P] [DecidableEq κ] in
lemma idle_consume {layout pool} {c : ResponseBodyChain P κ} {len pinned recycle}
    (hn : c.nodes = []) (hr : c.recycled = none) (ho : c.owner = none) :
    Idle c (consume layout pool c len pinned recycle).2 := by
  unfold consume
  rw [hn]
  refine ⟨rfl, hr, ?_, rfl, rfl⟩
  show (if c.recycled.isNone then none else c.owner) = none
  rw [ho, ite_self]

omit [DecidableEq P] [DecidableEq κ] in
lemma idle_release_recycled (layout : Layout) (pool : SlicePool κ) {c : ResponseBodyChain P κ}
    (hn : c.nodes = []) (hr : c.recycled = none) (ho : c.owner = none) : Idle c (release_recycled layout pool c).2 := by
  unfold release_recycled
  rw [hr]
  refine ⟨hn, rfl, ?_, rfl, ?_⟩
  · show (if c.nodes = [] then none else c.owner) = none
    rw [ho, ite_self]
  · show c.logReturned [] = c.returned
    rw [ResponseBodyChain.logReturned, ho]
    rfl

omit [DecidableEq P] [DecidableEq κ] in
lemma idle_release {layout pool} {c : ResponseBodyChain P κ}
    (hn : c.nodes = []) (hr : c.recycled = none) (ho : c.owner = none) : Idle c (release layout pool c).2 := by
  unfold release
  rw [hn]
  have hlog : c.logReturned [] = c.returned := by
    rw [ResponseBodyChain.logReturned, ho]
    rfl
  have hidle := idle_release_recycled layout pool (c := { c with nodes := [], returned := c.logReturned [] }) rfl hr ho
  exact ⟨hidle.nodes, hidle.recycled, rfl, hidle.taken, hidle.returned.trans hlog⟩

namespace System.Inv

variable {pool' : SlicePool κ} {p : P} {k : κ} {c' : ResponseBodyChain P κ} {s : System P κ}

omit [DecidableEq κ] in
lemma setPool (h : s.Inv) (hi : pool'.Inv) (hk : ∀ k, Keeps k (s.pools p) pool') : (s.setPool p pool').Inv := by
  refine ⟨fun p' => ?_, h.bare, fun k p' ho => ?_, fun k p' ho => ?_⟩
  · show (Function.update s.pools p pool' p').Inv
    rw [Function.update_apply]
    split
    · exact hi
    · exact h.pools p'
  · show Linked (Function.update s.pools p pool' p') p' k (s.chains k)
    rw [Function.update_apply]
    split
    · rename_i heq
      subst heq
      exact (h.owned k p' ho).keeps (hk k) hi
    · exact h.owned k p' ho
  · show Holds (Function.update s.pools p pool' p') k []
    rw [Function.update_apply]
    split
    · rename_i heq
      subst heq
      exact (h.apart k p' ho).keeps (hk k) hi
    · exact h.apart k p' ho

lemma set (h : s.Inv) (ho : (s.chains k).owner = none ∨ (s.chains k).owner = some p)
    (hw : Works p k (s.pools p) pool' c') : (s.set p k (pool', c')).Inv := by
  have hi := hw.linked.holds.inv
  -- the chain itself, as seen from any pool
  have hself : ∀ p', p' ≠ p → Holds (s.pools p') k [] := by
    intro p' hp'
    refine h.apart k p' fun howner => ?_
    rcases ho with ho | ho
    · rw [ho] at howner
      cases howner
    · rw [ho] at howner
      exact hp' (Option.some.inj howner).symm
  refine ⟨fun p' => ?_, fun k' ho' => ?_, fun k' p' ho' => ?_, fun k' p' ho' => ?_⟩
  · show (Function.update s.pools p pool' p').Inv
    rw [Function.update_apply]
    split
    · exact hi
    · exact h.pools p'
  · show Bare k' (Function.update s.chains k c' k')
    change (Function.update s.chains k c' k').owner = none at ho'
    rw [Function.update_apply] at ho' ⊢
    by_cases hk : k' = k
    · subst hk
      rw [if_pos rfl] at ho' ⊢
      exact hw.linked.bare ho'
    · rw [if_neg hk] at ho' ⊢
      exact h.bare k' ho'
  · show Linked (Function.update s.pools p pool' p') p' k' (Function.update s.chains k c' k')
    change (Function.update s.chains k c' k').owner = some p' at ho'
    rw [Function.update_apply s.chains] at ho' ⊢
    rw [Function.update_apply]
    by_cases hk : k' = k
    · subst hk
      rw [if_pos rfl] at ho' ⊢
      have hp : p' = p := by
        rcases hw.owner with howner | howner
        · rw [ho'] at howner
          cases howner
        · rw [ho'] at howner
          exact Option.some.inj howner
      subst hp
      rw [if_pos rfl]
      exact hw.linked
    · rw [if_neg hk] at ho' ⊢
      have hlinked := h.owned k' p' ho'
      split
      · rename_i heq
        subst heq
        exact hlinked.keeps (hw.others k' hk) hi
      · exact hlinked
  · show Holds (Function.update s.pools p pool' p') k' []
    change (Function.update s.chains k c' k').owner ≠ some p' at ho'
    rw [Function.update_apply] at ho' ⊢
    by_cases hk : k' = k
    · subst hk
      rw [if_pos rfl] at ho'
      by_cases hp : p' = p
      · subst hp
        rw [if_pos rfl]
        have hnone := hw.owner.resolve_right ho'
        have hholds := hw.linked.holds
        rwa [(hw.linked.bare hnone).all] at hholds
      · rw [if_neg hp]
        exact hself p' hp
    · rw [if_neg hk] at ho'
      have hapart := h.apart k' p' ho'
      split
      · rename_i heq
        subst heq
        exact hapart.keeps (hw.others k' hk) hi
      · exact hapart

omit [DecidableEq P] [DecidableEq κ] in
lemma unowned (h : s.Inv) (ho : (s.chains k).owner = none) :
    (s.chains k).nodes = [] ∧ (s.chains k).recycled = none := by
  have hnil := List.append_eq_nil_iff.mp (h.bare k ho).all
  exact ⟨hnil.1, Option.toList_eq_nil_iff.mp hnil.2⟩

omit [DecidableEq P] in
lemma setIdle (h : s.Inv) (ho : (s.chains k).owner = none) (hidle : Idle (s.chains k) c') :
    Inv { s with chains := Function.update s.chains k c' } := by
  have hall : c'.all = [] := by
    rw [ResponseBodyChain.all, hidle.nodes, hidle.recycled]
    rfl
  have hbare := h.bare k ho
  refine ⟨h.pools, fun k' ho' => ?_, fun k' p ho' => ?_, fun k' p ho' => ?_⟩
  · show Bare k' (Function.update s.chains k c' k')
    change (Function.update s.chains k c' k').owner = none at ho'
    by_cases hk : k' = k
    · subst hk
      rw [Function.update_self]
      refine ⟨hall, ?_, ?_⟩
      · rw [hidle.taken, hidle.returned]
        exact hbare.taken
      · rw [hidle.returned]
        exact hbare.found
    · rw [Function.update_of_ne hk] at ho' ⊢
      exact h.bare k' ho'
  · show Linked (s.pools p) p k' (Function.update s.chains k c' k')
    change (Function.update s.chains k c' k').owner = some p at ho'
    by_cases hk : k' = k
    · rw [hk, Function.update_self, hidle.owner] at ho'
      cases ho'
    · rw [Function.update_of_ne hk] at ho' ⊢
      exact h.owned k' p ho'
  · show Holds (s.pools p) k' []
    by_cases hk : k' = k
    · subst hk
      refine h.apart k' p ?_
      rw [ho]
      exact fun hf => by cases hf
    · change (Function.update s.chains k c' k').owner ≠ some p at ho'
      rw [Function.update_of_ne hk] at ho'
      exact h.apart k' p ho'

lemma onOwner (h : s.Inv) {f} (hsome : ∀ p, (s.chains k).owner = some p →
      Works p k (s.pools p) (f (s.pools p) (s.chains k)).1 (f (s.pools p) (s.chains k)).2)
    (hnone : (s.chains k).owner = none → Idle (s.chains k) (f {} (s.chains k)).2) : (s.onOwner k f).Inv := by
  unfold System.onOwner
  split
  · rename_i p ho
    exact h.set (.inr ho) (hsome p ho)
  · rename_i ho
    exact h.setIdle ho (hnone ho)

end System.Inv

section Steps

variable {p : P} {k : κ} {s : System P κ} {layout : Layout}

lemma set_self (s : System P κ) (p : P) (k : κ) : s.set p k (s.pools p, s.chains k) = s := by
  unfold System.set
  rw [Function.update_eq_self, Function.update_eq_self]

omit [DecidableEq κ] in
lemma append_foreign {pool c src bulk_after}
    (ho : c.owner ≠ none ∧ c.owner ≠ some p) : append layout p k pool c src bulk_after = (false, pool, c) := by
  exact if_pos (.inr ho)

omit [DecidableEq κ] in
lemma reserve_tail_foreign {pool c bulk_after}
    (ho : c.owner ≠ none ∧ c.owner ≠ some p) : (reserve_tail p k pool c bulk_after).2 = (pool, c) := by
  unfold reserve_tail
  split
  · rfl
  · rfl

omit [DecidableEq κ] in
lemma permits_commit {bytes} (h : s.Inv) (hp : Permits (s, .commit k bytes)) :
    ∃ p t, (s.chains k).owner = some p ∧ (s.chains k).nodes.getLast? = some t ∧
      t.len + bytes.length ≤ t.buf.capacity - header_size := by
  obtain ⟨hne, havail⟩ := hp
  obtain ⟨t, ht⟩ := Option.ne_none_iff_exists'.mp (mt List.getLast?_eq_none_iff.mp hne)
  cases ho : (s.chains k).owner with
  | none => exact absurd (h.unowned ho).1 hne
  | some p =>
    have hlinked := h.linked k p (.inr ho)
    have hmem : t ∈ (s.chains k).all := List.mem_append_left _ (List.mem_of_getLast? ht)
    have hok := hlinked.holds.ok t hmem
    have hlen := hok.len
    have hroom := hok.room
    have hle := havail p ho
    have hcap : t.buf.capacity ≤ kMaxBody := by
      cases t.buf with
      | slice i => exact show kSliceSize ≤ kMaxBody by decide
      | bulk i => exact show kBulkSliceSize ≤ kMaxBody by decide
    rw [write_avail, ht, Option.elim_some, capacity_seen, if_pos ho, hlinked.holds.capacity hmem,
      sub32_of_le (by omega) (by omega)] at hle
    exact ⟨p, t, rfl, ht, by omega⟩

omit [DecidableEq P] [DecidableEq κ] in
lemma not_chain {pool : SlicePool κ} {b} (h : pool.held b = none ∨ ∃ w, pool.held b = some (.owner w)) (k : κ) :
    pool.held b ≠ some (.chain k) := by
  intro hk
  rcases h with h | ⟨w, h⟩
  · rw [h] at hk
    cases hk
  · rw [h] at hk
    cases hk

omit [DecidableEq κ] in
lemma keeps_of_none {pool pool' : SlicePool κ} (h : ∀ b, pool.held b = none) (h' : ∀ b, pool'.held b = none) :
    Keeps k pool pool' where
  held := fun b => by rw [h, h']
  data := fun b hb => by rw [h] at hb; cases hb

omit [DecidableEq κ] in
lemma keeps_ownerPut {pool b pos bytes} (h : pool.held b = some .overwriter ∨ ∃ w, pool.held b = some (.owner w)) :
    Keeps k pool (pool.ownerPut b pos bytes) := by
  have hdata : ∀ b', pool.held b' = some (.chain k) → (pool.put b pos bytes).data b' = pool.data b' := by
    intro b' hb'
    refine Function.update_of_ne (fun heq => ?_) ..
    rw [heq] at hb'
    rcases h with h | ⟨w, h⟩ <;> rw [h] at hb' <;> cases hb'
  unfold ownerPut
  rcases h with h | ⟨w, h⟩
  · rw [h]
    exact ⟨fun _ => Iff.rfl, hdata⟩
  · rw [h]
    refine ⟨fun b' => ?_, hdata⟩
    show Function.update pool.held b _ b' = _ ↔ _
    rw [Function.update_apply]
    split
    · rename_i heq
      rw [heq, h]
      exact ⟨fun hf => (by cases hf), fun hf => (by cases hf)⟩
    · rfl

def Op.chain : Op P κ → Option κ
  | .append k _ _ _ | .reserve_tail k _ _ | .commit k _ | .record_direct_write k _ _ | .consume k _ _ _ => some k
  | .release_recycled k | .release k => some k
  | _ => none

omit [DecidableEq κ] in
lemma allocates_keeps {pool : SlicePool κ} {holder r}
    (hr : Allocates pool holder r) (hne : ∀ k, holder ≠ .chain k) : r.2.Inv ∧ ∀ k, Keeps k pool r.2 := by
  obtain ⟨_ | ⟨b, dirty⟩, pool'⟩ := r
  · exact ⟨hr.inv, fun k => hr.keeps k⟩
  · exact ⟨hr.1.inv, fun k => hr.1.keeps (hne k)⟩

lemma System.Inv.poolStep (h : s.Inv) (layout : Layout) {o} (hp : Permits (s, o)) (hchain : o.chain = none) :
    ∃ p pool', s.apply layout o = s.setPool p pool' ∧ pool'.Inv ∧ ∀ k, Keeps k (s.pools p) pool' := by
  cases o with
  | init p n prealloc cache_slices bulk_capacity =>
    obtain ⟨hbase, hn⟩ := hp
    obtain ⟨hi, hnone⟩ := (h.pools p).init prealloc cache_slices bulk_capacity hbase hn
    exact ⟨p, _, rfl, hi, fun k => keeps_of_none ((h.pools p).unmapped hbase).2 hnone⟩
  | destroy p => exact ⟨p, _, rfl, (h.pools p).destroy, fun k => keeps_of_none hp fun _ => rfl⟩
  | alloc p => exact ⟨p, _, rfl, allocates_keeps ((h.pools p).alloc (.owner 0)) fun k hk => by cases hk⟩
  | alloc_bulk p => exact ⟨p, _, rfl, allocates_keeps ((h.pools p).alloc_bulk (.owner 0)) fun k hk => by cases hk⟩
  | alloc_bulk_for_overwrite p =>
    exact ⟨p, _, rfl, allocates_keeps (h.pools p).alloc_bulk_for_overwrite fun k hk => by cases hk⟩
  | write p b pos bytes => exact ⟨p, _, rfl, (h.pools p).ownerPut hp.2, fun k => keeps_ownerPut hp.1⟩
  | free p b =>
    have hreturned := (h.pools p).free b
    exact ⟨p, _, rfl, hreturned.inv, fun k => hreturned.keeps (not_chain hp k)⟩
  | free_written p b written =>
    have hfree : (s.pools p).held b = none ∨ ∃ w, (s.pools p).held b = some (.owner w) :=
      hp.imp_right fun ⟨w, _, hw⟩ => ⟨w, hw⟩
    have hreturned : Returned (s.pools p) b ((s.pools p).free_written b written) := by
      refine (h.pools p).free_written fun hheld => ?_
      obtain ⟨w, hw, hown⟩ := hp.resolve_left hheld
      exact ((h.pools p).limit_blank hown).mono ((Nat.min_le_left ..).trans hw)
    exact ⟨p, _, rfl, hreturned.inv, fun k => hreturned.keeps (not_chain hfree k)⟩
  | free_bulk_after_overwrite p b =>
    have hreturned := (h.pools p).free_bulk_after_overwrite b
    refine ⟨p, _, rfl, hreturned.inv, fun k => hreturned.keeps ?_⟩
    rcases hp with hp | hp | hp
    · exact not_chain (.inl hp) k
    · rw [hp]
      exact fun hk => by cases hk
    · exact not_chain (.inr hp) k
  | study_trim_bulk_idle_cache p =>
    have hsame := (h.pools p).study_trim_bulk_idle_cache
    exact ⟨p, _, rfl, hsame.inv, fun k => hsame.keeps k⟩
  | _ => cases hchain

omit [DecidableEq κ] in
lemma owned_or_foreign (s : System P κ) (k : κ) (p : P) : ((s.chains k).owner = none ∨ (s.chains k).owner = some p) ∨
      ((s.chains k).owner ≠ none ∧ (s.chains k).owner ≠ some p) := by
  by_cases h : (s.chains k).owner = none ∨ (s.chains k).owner = some p
  · exact .inl h
  · exact .inr (not_or.mp h)

lemma System.Inv.apply (h : s.Inv) {o} (hp : Permits (s, o)) : (s.apply layout o).Inv := by
  cases o with
  | append k p src bulk_after =>
    rcases owned_or_foreign s k p with ho | hown
    · exact h.set ho (append_spec (h.linked k p ho) ho).1
    · show (s.set p k (append layout p k (s.pools p) (s.chains k) src bulk_after).2).Inv
      rw [append_foreign hown, set_self]
      exact h
  | reserve_tail k p bulk_after =>
    rcases owned_or_foreign s k p with ho | hown
    · exact h.set ho (reserve_tail_spec (h.linked k p ho) ho).1
    · show (s.set p k (reserve_tail p k (s.pools p) (s.chains k) bulk_after).2).Inv
      rw [reserve_tail_foreign hown, set_self]
      exact h
  | commit k bytes =>
    obtain ⟨p, t, ho, ht, hroom⟩ := permits_commit h hp
    show (s.onOwner k fun pool c => commit pool c bytes).Inv
    refine h.onOwner ?_ ?_
    · exact fun p ho => (commit_spec (h.linked k p (.inr ho)) ht hroom).1
    · intro hnone
      rw [ho] at hnone
      cases hnone
  | record_direct_write k pos bytes =>
    obtain ⟨t, ht, hroom⟩ := hp
    show (s.onOwner k fun pool c => record_direct_write pool c pos bytes).Inv
    refine h.onOwner ?_ ?_
    · exact fun p ho => (record_direct_write_spec (h.linked k p (.inr ho)) ht hroom).1
    · intro hnone
      rw [(h.unowned hnone).1] at ht
      cases ht
  | consume k len tail_pinned recycle_bulk =>
    show (s.onOwner k fun pool c => consume layout pool c len tail_pinned recycle_bulk).Inv
    refine h.onOwner ?_ ?_
    · exact fun p ho => (consume_spec (h.linked k p (.inr ho)) (.inr ho)).1
    · intro hnone
      obtain ⟨hn, hr⟩ := h.unowned hnone
      exact idle_consume hn hr hnone
  | release_recycled k =>
    show (s.onOwner k fun pool c => release_recycled layout pool c).Inv
    refine h.onOwner ?_ ?_
    · exact fun p ho => (release_recycled_spec layout (h.linked k p (.inr ho)) (.inr ho)).1
    · intro hnone
      obtain ⟨hn, hr⟩ := h.unowned hnone
      exact idle_release_recycled layout _ hn hr hnone
  | release k =>
    show (s.onOwner k fun pool c => release layout pool c).Inv
    refine h.onOwner ?_ ?_
    · exact fun p ho => (release_spec (h.linked k p (.inr ho)) (.inr ho)).1
    · intro hnone
      obtain ⟨hn, hr⟩ := h.unowned hnone
      exact idle_release hn hr hnone
  | _ =>
    obtain ⟨p, pool', heq, hi, hk⟩ := h.poolStep layout hp rfl
    rw [heq]
    exact h.setPool hi hk

lemma run_inv {s₀ u} (h₀ : s₀.Initial) (h : Trace (Step layout) s₀ u s) (hok : ∀ e ∈ u, Permits e) : s.Inv := by
  refine h.inv hok h₀.inv fun s o s' hp hinv hs => ?_
  rw [show s' = s.apply layout o from hs]
  exact hinv.apply hp

/-- In every run, whatever the settings of the pools are and whichever system calls fail, all that `alloc` and `alloc_bulk`
have handed out was blank, to the chains as well. -/
theorem issued_blank {s₀ : System P κ} {u : List (System P κ × Op P κ)} (h₀ : s₀.Initial)
    (h : Trace (Step layout) s₀ u s) (hok : ∀ e ∈ u, Permits e) (p : P) :
    ∀ x ∈ (s.pools p).issued, ∀ i, x.2 i = 0 :=
  fun x hx i => ((run_inv h₀ h hok).pools p).issued x hx i (Nat.zero_le i)

def reusing : System Unit Unit where
  pools := fun _ => SlicePool.fresh 64 false true fun _ => true
  chains := fun _ => {}

lemma reusing_initial : reusing.Initial := ⟨fun _ => ⟨64, false, true, fun _ => true, rfl⟩, fun _ => rfl⟩

def filler : Layout := ⟨fun _ _ => List.replicate header_size 255, fun _ _ => List.length_replicate⟩

/-- A chain leaves a body in a bulk buffer, which is then handed out again. -/
def leftBody : List (Op Unit Unit) := [.init () 2 0 0 1, .append () () [1, 2, 3] 0, .release (), .alloc_bulk ()]

/-- The bulk buffer that a body was left in is blank. -/
theorem leftBody_blank :
    (((reusing.run filler leftBody).2.pools ()).issued.map Prod.fst = [.bulk 0]) ∧
      ∀ x ∈ ((reusing.run filler leftBody).2.pools ()).issued, ∀ i, x.2 i = 0 := by
  refine ⟨by decide +kernel, ?_⟩
  refine issued_blank reusing_initial (reusing.trace_run filler leftBody) ?_ ()
  have hinit : Permits (reusing, .init () 2 0 0 1) := ⟨rfl, by decide⟩
  exact List.forall_mem_cons.mpr ⟨hinit, List.forall_mem_cons.mpr ⟨trivial, List.forall_mem_cons.mpr ⟨trivial,
    List.forall_mem_cons.mpr ⟨trivial, fun e he => absurd he List.not_mem_nil⟩⟩⟩⟩

end Steps

/-! ## Chains are queues -/

def System.readable (s : System P κ) (k : κ) : List UInt8 :=
  match (s.chains k).owner with
  | some p => Pool.readable (s.pools p) (s.chains k).nodes
  | none => []

def enqueue (layout : Layout) (k : κ) (q : List UInt8) (e : System P κ × Op P κ) : List UInt8 :=
  match e.2 with
  | .append k' p src bulk_after =>
    if k' = k then q ++ appended (append layout p k' (e.1.pools p) (e.1.chains k') src bulk_after).1 src else q
  | .commit k' bytes => if k' = k then q ++ bytes else q
  | .consume k' len _ _ => if k' = k then q.drop len else q
  | .release k' => if k' = k then [] else q
  | _ => q

def queue (layout : Layout) (u : List (System P κ × Op P κ)) (k : κ) : List UInt8 := u.foldl (enqueue layout k) []

omit [DecidableEq P] [DecidableEq κ] in
/-- What a chain takes is not more than it holds, a commit does not exceed the bound of a body, as its caller checks, and a
receive writes behind the bytes of the tail. -/
def Proper (e : System P κ × Op P κ) : Prop :=
  match e.2 with
  | .commit k bytes => (e.1.chains k).size + bytes.length ≤ kMaxBody
  | .consume k len _ _ => len ≤ (e.1.chains k).size
  | .record_direct_write k pos _ => ∀ t, (e.1.chains k).nodes.getLast? = some t → t.len ≤ pos
  | _ => True

structure Queues (s : System P κ) (k : κ) (q : List UInt8) : Prop where
  read : s.readable k = q
  size : (s.chains k).size = q.length
  max : q.length ≤ kMaxBody

section Queue

variable {p : P} {k k' : κ} {s : System P κ} {layout : Layout} {pool' : SlicePool κ} {c' : ResponseBodyChain P κ}
  {q q' : List UInt8}

omit [DecidableEq P] [DecidableEq κ] in
lemma System.Inv.readable_eq (h : s.Inv) (ho : (s.chains k).owner = none ∨ (s.chains k).owner = some p) :
    s.readable k = Pool.readable (s.pools p) (s.chains k).nodes := by
  unfold System.readable
  rcases ho with ho | ho
  · rw [ho, (h.unowned ho).1]
    rfl
  · rw [ho]

omit [DecidableEq P] [DecidableEq κ] in
lemma Queues.sized (h : s.Inv) (hq : Queues s k q) (ho : (s.chains k).owner = none ∨ (s.chains k).owner = some p) :
    Pool.readable (s.pools p) (s.chains k).nodes = q ∧ Sized (s.pools p) (s.chains k) := by
  have hread := (h.readable_eq ho).symm.trans hq.read
  refine ⟨hread, ?_, ?_⟩
  · rw [hread]
    exact hq.size
  · rw [hq.size]
    exact hq.max

lemma queues_set (hw : Works p k (s.pools p) pool' c') (hread : Pool.readable pool' c'.nodes = q')
    (hsz : Sized pool' c') : Queues (s.set p k (pool', c')) k q' := by
  have hc : (s.set p k (pool', c')).chains k = c' := Function.update_self ..
  have hp : (s.set p k (pool', c')).pools p = pool' := Function.update_self ..
  refine ⟨?_, ?_, ?_⟩
  · unfold System.readable
    rw [hc]
    cases ho : c'.owner with
    | none =>
      rw [← hread, (List.append_eq_nil_iff.mp (hw.linked.bare ho).all).1]
      rfl
    | some p' =>
      have heq : p' = p := by
        rcases hw.owner with h | h
        · rw [h] at ho
          cases ho
        · rw [h] at ho
          exact (Option.some.inj ho).symm
      subst heq
      exact (congrArg (Pool.readable · c'.nodes) hp).trans hread
  · rw [hc, hsz.size, hread]
  · rw [← hread, ← hsz.size]
    exact hsz.max

omit [DecidableEq κ] in
lemma queues_setPool (h : s.Inv) (hq : Queues s k q) (hk : Keeps k (s.pools p) pool') : Queues (s.setPool p pool') k q := by
  refine ⟨?_, hq.size, hq.max⟩
  rw [← hq.read]
  unfold System.readable
  show (match (s.chains k).owner with
    | some p' => Pool.readable (Function.update s.pools p pool' p') (s.chains k).nodes
    | none => []) = _
  cases ho : (s.chains k).owner with
  | none => rfl
  | some p' =>
    dsimp only
    rw [Function.update_apply]
    split
    · rename_i heq
      subst heq
      refine readable_congr fun n hn => hk.data _ ?_
      exact (h.linked k p' (.inr ho)).holds.held_of_mem (List.mem_append_left _ hn)
    · rfl

lemma queues_set_other (h : s.Inv) (hq : Queues s k q) (hne : k ≠ k') (hw : Works p k' (s.pools p) pool' c') :
    Queues (s.set p k' (pool', c')) k q := by
  have hset := queues_setPool h hq (hw.others k hne)
  have hc : (s.set p k' (pool', c')).chains k = s.chains k := Function.update_of_ne hne ..
  refine ⟨?_, ?_, hset.max⟩
  · rw [← hset.read]
    unfold System.readable
    rw [hc]
    rfl
  · rw [hc]
    exact hq.size

omit [DecidableEq P] in
lemma queues_idle (hidle : Idle (s.chains k) c') (hzero : c'.size = 0) :
    Queues { s with chains := Function.update s.chains k c' } k [] := by
  refine ⟨?_, ?_, Nat.zero_le _⟩
  · unfold System.readable
    show (match (Function.update s.chains k c' k).owner with
      | some p => Pool.readable (s.pools p) (Function.update s.chains k c' k).nodes
      | none => []) = []
    rw [Function.update_self, hidle.owner]
  · show (Function.update s.chains k c' k).size = 0
    rw [Function.update_self]
    exact hzero

omit [DecidableEq P] in
lemma queues_chain_other (hq : Queues s k q) (hne : k ≠ k') :
    Queues { s with chains := Function.update s.chains k' c' } k q := by
  have hc : Function.update s.chains k' c' k = s.chains k := Function.update_of_ne hne ..
  refine ⟨?_, ?_, hq.max⟩
  · rw [← hq.read]
    unfold System.readable
    show (match (Function.update s.chains k' c' k).owner with
      | some p => Pool.readable (s.pools p) (Function.update s.chains k' c' k).nodes
      | none => []) = _
    rw [hc]
  · show (Function.update s.chains k' c' k).size = q.length
    rw [hc]
    exact hq.size

lemma queues_onOwner (h : s.Inv) (hq : Queues s k q) {f} (hworks : ∀ p, (s.chains k').owner = some p →
      Works p k' (s.pools p) (f (s.pools p) (s.chains k')).1 (f (s.pools p) (s.chains k')).2)
    (hself : ∀ p, k' = k → (s.chains k').owner = some p → Pool.readable (s.pools p) (s.chains k').nodes = q →
      Sized (s.pools p) (s.chains k') →
      Pool.readable (f (s.pools p) (s.chains k')).1 (f (s.pools p) (s.chains k')).2.nodes = q' ∧
        Sized (f (s.pools p) (s.chains k')).1 (f (s.pools p) (s.chains k')).2)
    (hnone : (s.chains k').owner = none → k' = k → q = [] → (s.chains k').size = 0 →
      Idle (s.chains k') (f {} (s.chains k')).2 ∧ q' = [] ∧ (f {} (s.chains k')).2.size = 0) :
    Queues (s.onOwner k' f) k (if k' = k then q' else q) := by
  unfold System.onOwner
  by_cases hk : k' = k
  · subst hk
    rw [if_pos rfl]
    split
    · rename_i p ho
      obtain ⟨hread, hsz⟩ := hq.sized h (.inr ho)
      obtain ⟨hread', hsz'⟩ := hself p rfl ho hread hsz
      exact queues_set (hworks p ho) hread' hsz'
    · rename_i ho
      have hnil : q = [] := by
        rw [← hq.read, System.readable, ho]
      obtain ⟨hidle, hq', hzero⟩ := hnone ho rfl hnil (by rw [hq.size, hnil]; rfl)
      rw [hq']
      exact queues_idle hidle hzero
  · rw [if_neg hk]
    split
    · rename_i p ho
      exact queues_set_other h hq (Ne.symm hk) (hworks p ho)
    · exact queues_chain_other hq (Ne.symm hk)

lemma queues_withPool (h : s.Inv) (hq : Queues s k q) (hworks : Works p k' (s.pools p) pool' c')
    (hself : k' = k → Pool.readable pool' c'.nodes = q' ∧ Sized pool' c') :
    Queues (s.set p k' (pool', c')) k (if k' = k then q' else q) := by
  by_cases hk : k' = k
  · subst hk
    rw [if_pos rfl]
    exact queues_set hworks (hself rfl).1 (hself rfl).2
  · rw [if_neg hk]
    exact queues_set_other h hq (Ne.symm hk) hworks

lemma Queues.apply (hq : Queues s k q) (h : s.Inv) (layout : Layout) (o : Op P κ) (hp : Permits (s, o))
    (hproper : Proper (s, o)) : Queues (s.apply layout o) k (enqueue layout k q (s, o)) := by
  cases o with
  | append k' p src bulk_after =>
    rcases owned_or_foreign s k' p with ho | hown
    · obtain ⟨hworks, hread, hsized⟩ := @append_spec P κ (s.pools p) p k' (s.chains k') layout _ (h.linked k' p ho) ho
        src bulk_after
      refine queues_withPool h hq hworks fun hk => ?_
      subst hk
      obtain ⟨hq', hsz⟩ := hq.sized h ho
      exact ⟨hread.trans (by rw [hq']), hsized hsz⟩
    · show Queues (s.set p k' (append layout p k' (s.pools p) (s.chains k') src bulk_after).2) k
        (if k' = k then q ++ appended (append layout p k' (s.pools p) (s.chains k') src bulk_after).1 src else q)
      rw [append_foreign hown, set_self, show appended false src = [] from rfl, List.append_nil, ite_self]
      exact hq
  | reserve_tail k' p bulk_after =>
    show Queues (s.set p k' (reserve_tail p k' (s.pools p) (s.chains k') bulk_after).2) k q
    rcases owned_or_foreign s k' p with ho | hown
    · obtain ⟨hworks, hread, hsized⟩ := @reserve_tail_spec P κ (s.pools p) p k' (s.chains k') _ (h.linked k' p ho) ho
        bulk_after
      rw [← ite_self (c := k' = k) (d := inferInstance) q]
      refine queues_withPool h hq hworks fun hk => ?_
      subst hk
      obtain ⟨hq', hsz⟩ := hq.sized h ho
      exact ⟨hread.trans hq', hsized hsz⟩
    · rw [reserve_tail_foreign hown, set_self]
      exact hq
  | commit k' bytes =>
    obtain ⟨p, t, ho, ht, hroom⟩ := permits_commit h hp
    have hspec := fun p ho => @commit_spec P κ (s.pools p) p k' (s.chains k') (h.linked k' p (.inr ho)) t bytes ht hroom
    show Queues (s.onOwner k' fun pool c => commit pool c bytes) k (if k' = k then q ++ bytes else q)
    refine queues_onOwner h hq (fun p ho => (hspec p ho).1) (fun p hk ho hread hsz => ?_) fun hnone => ?_
    · exact ⟨(hspec p ho).2.1.trans (by rw [hread]), (hspec p ho).2.2 hproper hsz⟩
    · rw [ho] at hnone
      cases hnone
  | record_direct_write k' pos bytes =>
    obtain ⟨t, ht, hroom⟩ := hp
    have hspec := fun p ho =>
      @record_direct_write_spec P κ (s.pools p) p k' (s.chains k') (h.linked k' p (.inr ho)) t pos bytes ht hroom
    show Queues (s.onOwner k' fun pool c => record_direct_write pool c pos bytes) k q
    rw [← ite_self (c := k' = k) (d := inferInstance) q]
    refine queues_onOwner h hq (fun p ho => (hspec p ho).1) (fun p hk ho hread hsz => ?_) fun hnone => ?_
    · obtain ⟨hread', hsz'⟩ := (hspec p ho).2 (hproper t ht)
      exact ⟨hread'.trans hread, hsz' hsz⟩
    · rw [(h.unowned hnone).1] at ht
      cases ht
  | consume k' len tail_pinned recycle_bulk =>
    have hspec := fun p ho => @consume_spec P κ (s.pools p) p k' (s.chains k') layout (h.linked k' p (.inr ho)) (.inr ho)
      len tail_pinned recycle_bulk
    show Queues (s.onOwner k' fun pool c => consume layout pool c len tail_pinned recycle_bulk) k
      (if k' = k then q.drop len else q)
    refine queues_onOwner h hq (fun p ho => (hspec p ho).1) (fun p hk ho hread hsz => ?_) fun hnone hk hnil hzero => ?_
    · have hlen : len ≤ (s.chains k').size := hproper
      obtain ⟨hread', hsz'⟩ := (hspec p ho).2 (by rwa [← hsz.size])
      exact ⟨hread'.trans (by rw [hread]), hsz' hsz⟩
    · obtain ⟨hn, hr⟩ := h.unowned hnone
      refine ⟨idle_consume hn hr hnone, by rw [hnil, List.drop_nil], ?_⟩
      unfold consume
      rw [hn]
      exact hzero
  | release_recycled k' =>
    have hspec := fun p ho => @release_recycled_spec P κ (s.pools p) p k' (s.chains k') layout (h.linked k' p (.inr ho))
      (.inr ho)
    show Queues (s.onOwner k' fun pool c => release_recycled layout pool c) k q
    rw [← ite_self (c := k' = k) (d := inferInstance) q]
    refine queues_onOwner h hq (fun p ho => (hspec p ho).1) (fun p hk ho hread hsz => ?_) fun hnone hk hnil hzero => ?_
    · exact ⟨(hspec p ho).2.2.2.1.trans hread, (hspec p ho).2.2.2.2 hsz⟩
    · obtain ⟨hn, hr⟩ := h.unowned hnone
      exact ⟨idle_release_recycled layout _ hn hr hnone, hnil, hzero⟩
  | release k' =>
    have hspec := fun p ho => @release_spec P κ (s.pools p) p k' (s.chains k') layout (h.linked k' p (.inr ho)) (.inr ho)
    show Queues (s.onOwner k' fun pool c => release layout pool c) k (if k' = k then [] else q)
    refine queues_onOwner h hq (fun p ho => (hspec p ho).1) (fun p hk ho _ _ => (hspec p ho).2.2.2) fun hnone _ _ _ => ?_
    obtain ⟨hn, hr⟩ := h.unowned hnone
    exact ⟨idle_release hn hr hnone, rfl, rfl⟩
  | _ =>
    obtain ⟨p, pool', heq, hi, hk⟩ := h.poolStep layout hp rfl
    rw [heq]
    exact queues_setPool h hq (hk k)

omit [DecidableEq P] [DecidableEq κ] in
lemma initial_queues (h : s.Initial) : Queues s k [] := by
  refine ⟨?_, ?_, Nat.zero_le _⟩
  · rw [System.readable, h.2 k]
  · rw [h.2 k]
    rfl

lemma run_queues {s₀ u} (h₀ : s₀.Initial) (h : Trace (Step layout) s₀ u s)
    (hok : ∀ e ∈ u, Permits e ∧ Proper e) : Queues s k (queue layout u k) := by
  induction h with
  | nil => exact initial_queues h₀
  | @snoc u s s' o ht hs ih =>
    have hbefore : ∀ e ∈ u, Permits e ∧ Proper e := fun e he => hok e (List.mem_append_left _ he)
    obtain ⟨hp, hproper⟩ := hok _ (List.mem_append_right _ (List.mem_singleton_self _))
    have hinv := run_inv h₀ ht fun e he => (hbefore e he).1
    rw [show s' = s.apply layout o from hs, queue, List.foldl_append]
    exact (ih hbefore).apply hinv layout o hp hproper

def System.holding (s : System P κ) (k : κ) : List (P × Buf) :=
  (s.chains k).owner.toList.flatMap fun p => (s.chains k).all.map fun n => (p, n.buf)

omit [DecidableEq P] [DecidableEq κ] in
lemma System.Inv.ledger (h : s.Inv) (k : κ) :
    (s.chains k).taken.Perm ((s.chains k).returned.map Prod.fst ++ s.holding k) ∧
      ∀ r ∈ (s.chains k).returned, r.2 = some (.chain k) := by
  unfold System.holding
  cases ho : (s.chains k).owner with
  | none =>
    have hbare := h.bare k ho
    rw [Option.toList_none, List.flatMap_nil, List.append_nil]
    exact ⟨hbare.taken, hbare.found⟩
  | some p =>
    have hlinked := h.owned k p ho
    rw [Option.toList_some, List.flatMap_singleton]
    exact ⟨hlinked.taken, hlinked.found⟩

omit [DecidableEq P] [DecidableEq κ] in
lemma System.Inv.held_iff (h : s.Inv) (k : κ) (p : P) (b : Buf) :
    (s.pools p).held b = some (.chain k) ↔ (p, b) ∈ s.holding k := by
  unfold System.holding
  by_cases ho : (s.chains k).owner = some p
  · rw [(h.owned k p ho).holds.held b, ho, Option.toList_some, List.flatMap_singleton, List.mem_map, List.mem_map]
    refine exists_congr fun n => and_congr_right fun _ => ?_
    rw [Prod.mk.injEq, and_iff_right rfl]
  · have hnone : (s.pools p).held b ≠ some (.chain k) :=
      fun hb => absurd ((h.apart k p ho).held b |>.mp hb) List.not_mem_nil
    refine iff_of_false hnone fun hb => ?_
    obtain ⟨p', hp', hmem⟩ := List.mem_flatMap.mp hb
    obtain ⟨n, -, heq⟩ := List.mem_map.mp hmem
    cases heq
    exact ho (Option.mem_toList.mp hp')

/-- After `release` a chain holds nothing. -/
lemma System.Inv.holding_release (h : s.Inv) (k : κ) : (s.apply layout (.release k)).holding k = [] := by
  show (s.onOwner k fun pool c => release layout pool c).holding k = []
  unfold System.onOwner
  cases ho : (s.chains k).owner with
  | none =>
    obtain ⟨hn, hr⟩ := h.unowned ho
    unfold System.holding
    dsimp only
    rw [Function.update_self, (idle_release hn hr ho).owner]
    rfl
  | some p =>
    obtain ⟨-, -, hnone, -⟩ := @release_spec P κ (s.pools p) p k (s.chains k) layout (h.owned k p ho) (.inr ho)
    unfold System.holding System.set
    dsimp only
    rw [Function.update_self, hnone]
    rfl

def halfRead : List (Op Unit Unit) :=
  [.init () 2 0 0 1, .append () () [1, 2, 3] 0, .reserve_tail () () 0, .commit () [4, 5], .consume () 4 true true]

end Queue

end Rut.Pool
