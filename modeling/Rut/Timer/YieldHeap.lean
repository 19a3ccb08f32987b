import Mathlib.Data.List.Induction
import Rut.Lib.BinaryHeap

/-!
# Deadlines of yielded handlers

Port of `YieldHeap` of `include/rut/runtime/epoll_event_loop.h`: a min-heap of the deadlines at which handlers that
yielded are resumed. The entries up to `size` are the array of the model. The capacity is documented for one live entry
of a connection, and removal is exact under that condition: of several entries one may be moved in front of the scan.
-/

namespace Rut.Timer

open Lib.BinaryHeap

structure YieldEntry where
  deadlineNs : Nat
  handlerGen : Nat
  connId : Nat
deriving DecidableEq

structure YieldHeap where
  entries : Array YieldEntry
  capacity : Nat

namespace YieldHeap

def init (connectionCount : Nat) : YieldHeap := ⟨#[], connectionCount⟩

def top (h : YieldHeap) : Option YieldEntry := h.entries[0]?

def push (h : YieldHeap) (e : YieldEntry) : Bool × YieldHeap :=
  if h.capacity = 0 ∨ h.capacity + 256 ≤ h.entries.size then (false, h)
  else (true, { h with entries := siftUp YieldEntry.deadlineNs h.entries.size (h.entries.push e) h.entries.size })

def sift (a : Array YieldEntry) (i : Nat) : Array YieldEntry :=
  siftDown YieldEntry.deadlineNs a.size (siftUp YieldEntry.deadlineNs i a i) i

def pop (h : YieldHeap) : YieldHeap :=
  if h.entries.size = 0 then h
  else { h with entries := siftDown YieldEntry.deadlineNs h.entries.size (cut h.entries 0) 0 }

/-- The loop of `remove_by_conn`. A turn moves on or takes an entry out, so that one for each entry is enough. -/
def removeLoop (connId : Nat) : Nat → Nat → Array YieldEntry → Array YieldEntry
  | 0, _, a => a
  | fuel + 1, i, a =>
    match a[i]? with
    | none => a
    | some e =>
      if e.connId ≠ connId then removeLoop connId fuel (i + 1) a
      else removeLoop connId fuel i (if i < (cut a i).size then sift (cut a i) i else cut a i)

/-- `remove_by_conn`, with the number of entries removed. -/
def removeByConn (h : YieldHeap) (connId : Nat) : Nat × YieldHeap :=
  let a := removeLoop connId h.entries.size 0 h.entries
  (h.entries.size - a.size, { h with entries := a })

inductive YieldOp where
  | push (e : YieldEntry)
  | pop
  | removeByConn (connId : Nat)
  | clear

def apply (h : YieldHeap) : YieldOp → YieldHeap
  | .push e => (h.push e).2
  | .pop => h.pop
  | .removeByConn connId => (h.removeByConn connId).2
  | .clear => { h with entries := #[] }

def run (connectionCount : Nat) (ops : List YieldOp) : YieldHeap := ops.foldl apply (init connectionCount)

/-- What holds of every heap. -/
structure Inv (h : YieldHeap) : Prop where
  ordered : Ordered YieldEntry.deadlineNs h.entries
  room : h.entries.size ≤ h.capacity + 256

variable {h : YieldHeap} {a : Array YieldEntry} {connId i : Nat}

lemma Inv.push (hi : h.Inv) (e : YieldEntry) : (h.push e).2.Inv := by
  unfold YieldHeap.push
  split_ifs with hfull
  · exact hi
  have hsize := (@siftUp_perm _ YieldEntry.deadlineNs h.entries.size (h.entries.push e) h.entries.size).length_eq
  simp only [Array.length_toList, Array.size_push] at hsize
  refine ⟨siftUp_ordered ⟨fun j hj hjlt hne => ?_, fun j hj hjlt hpar _ => ?_⟩ (by simp) le_rfl, by dsimp only; omega⟩
  · rw [Array.size_push] at hjlt
    have hp := parent_lt hj
    rw [keyAt_push_of_lt (by omega), keyAt_push_of_lt (by omega)]
    exact hi.ordered j hj (by omega)
  · rw [Array.size_push] at hjlt
    have hp := parent_lt hj
    omega

lemma sift_perm (a : Array YieldEntry) (i : Nat) : (sift a i).toList.Perm a.toList :=
  (siftDown_perm _ _ _).trans (siftUp_perm _ _ _)

/-- The heap without the entry at `i`. -/
lemma sift_cut (ho : Ordered YieldEntry.deadlineNs a) (i : Nat) :
    Ordered YieldEntry.deadlineNs (if i < (cut a i).size then sift (cut a i) i else cut a i) ∧
      (if i < (cut a i).size then sift (cut a i) i else cut a i).toList.Perm (cut a i).toList := by
  split_ifs with hi
  · exact ⟨(ho.cut i).sift hi, sift_perm _ _⟩
  · refine ⟨fun j hj hjlt => (ho.cut i).rest j hj hjlt ?_, .rfl⟩
    have hp := parent_lt hj
    omega

lemma Inv.pop (hi : h.Inv) : h.pop.Inv := by
  unfold YieldHeap.pop
  split_ifs with hzero
  · exact hi
  have hsize := (@siftDown_perm _ YieldEntry.deadlineNs h.entries.size (cut h.entries 0) 0).length_eq
  have hcut := size_cut h.entries 0
  have hroom := hi.room
  simp only [Array.length_toList] at hsize
  refine ⟨siftDown_ordered ⟨fun j hj hjlt hpar => ?_, (hi.ordered.cut 0).grand⟩ (by omega), by dsimp only; omega⟩
  exact (hi.ordered.cut 0).rest j hj hjlt (not_or.mpr ⟨hj.ne', hpar⟩)

lemma top_le (hi : h.Inv) {t e} (ht : h.top = some t) (he : e ∈ h.entries.toList) : t.deadlineNs ≤ e.deadlineNs := by
  obtain ⟨i, hlt, rfl⟩ := List.getElem_of_mem he
  rw [Array.length_toList] at hlt
  have hle := hi.ordered.root_le hlt
  have htop : h.entries[0]? = some t := ht
  rwa [keyAt, keyAt, htop, Array.getElem?_eq_getElem hlt] at hle

lemma pop_perm {t} (ht : h.top = some t) : h.entries.toList.Perm (t :: h.pop.entries.toList) := by
  have hpos : h.entries.size ≠ 0 := by
    intro hzero
    rw [top, Array.getElem?_eq_none hzero.le] at ht
    cases ht
  rw [YieldHeap.pop, if_neg hpos]
  exact (cut_perm ht).trans ((siftDown_perm _ _ _).symm.cons t)

lemma push_perm {e} (hok : (h.push e).1 = true) : (h.push e).2.entries.toList.Perm (e :: h.entries.toList) := by
  unfold YieldHeap.push at hok ⊢
  split_ifs at hok ⊢
  refine (siftUp_perm _ _ _).trans ?_
  rw [Array.toList_push]
  exact List.perm_append_singleton _ _

/-- What the scan takes out are entries of the connection, and a single one is found. -/
lemma removeLoop_spec (connId : Nat) {fuel} (ho : Ordered YieldEntry.deadlineNs a) :
    ∃ removed, a.toList.Perm (removed ++ (removeLoop connId fuel i a).toList) ∧ (∀ e ∈ removed, e.connId = connId) ∧
      Ordered YieldEntry.deadlineNs (removeLoop connId fuel i a) ∧
      (a.size ≤ i + fuel → (∀ k e, k < i → a[k]? = some e → e.connId ≠ connId) →
        a.toList.countP (·.connId = connId) ≤ 1 → ∀ e ∈ (removeLoop connId fuel i a).toList, e.connId ≠ connId) := by
  induction fuel generalizing a i with
  | zero =>
    refine ⟨[], .rfl, List.forall_mem_nil _, ho, fun hend hscanned _ e he => ?_⟩
    obtain ⟨k, hk, rfl⟩ := List.getElem_of_mem he
    rw [removeLoop, Array.length_toList] at hk
    exact hscanned k _ (by omega) (Array.getElem?_eq_getElem hk)
  | succ fuel ih =>
    cases hentry : a[i]? with
    | none =>
      rw [removeLoop, hentry]
      refine ⟨[], .rfl, List.forall_mem_nil _, ho, fun _ hscanned _ e he => ?_⟩
      obtain ⟨k, hk, rfl⟩ := List.getElem_of_mem he
      rw [Array.length_toList] at hk
      exact hscanned k _ (hk.trans_le (Array.getElem?_eq_none_iff.mp hentry)) (Array.getElem?_eq_getElem hk)
    | some e =>
      have hi := (Array.getElem?_eq_some_iff.mp hentry).1
      by_cases hconn : e.connId = connId
      · obtain ⟨hord, hperm⟩ := sift_cut ho i
        obtain ⟨removed, hsplit, hall, hres, -⟩ := ih (i := i) hord
        have htake := cut_perm hentry
        have hstep : removeLoop connId (fuel + 1) i a =
            removeLoop connId fuel i (if i < (cut a i).size then sift (cut a i) i else cut a i) := by
          rw [removeLoop, hentry]
          exact if_neg (not_not.mpr hconn)
        rw [hstep]
        have hrest := (htake.trans (hperm.symm.cons e)).trans (hsplit.cons e)
        refine ⟨e :: removed, hrest, List.forall_mem_cons.mpr ⟨hconn, hall⟩, hres, fun _ _ hone x hx hxc => ?_⟩
        -- Two entries of the connection would have been there.
        rw [hrest.countP_eq, List.countP_cons, List.countP_append] at hone
        have hpos : 0 < (removeLoop connId fuel i (if i < (cut a i).size then sift (cut a i) i else cut a i)).toList.countP
            (·.connId = connId) := List.countP_pos_iff.mpr ⟨x, hx, decide_eq_true hxc⟩
        rw [if_pos (decide_eq_true hconn)] at hone
        omega
      · obtain ⟨removed, hsplit, hall, hres, hexact⟩ := ih (i := i + 1) ho
        have hstep : removeLoop connId (fuel + 1) i a = removeLoop connId fuel (i + 1) a := by
          rw [removeLoop, hentry]
          exact if_pos hconn
        rw [hstep]
        refine ⟨removed, hsplit, hall, hres, fun hend hscanned => hexact (by omega) fun k x hk hx => ?_⟩
        rcases Nat.lt_succ_iff_lt_or_eq.mp hk with hlt | rfl
        · exact hscanned k x hlt hx
        · rw [hentry] at hx
          cases hx
          exact hconn

lemma Inv.apply (hi : h.Inv) (op : YieldOp) : (h.apply op).Inv ∧ (h.apply op).capacity = h.capacity := by
  cases op with
  | push e =>
    refine ⟨hi.push e, ?_⟩
    simp only [YieldHeap.apply, YieldHeap.push]
    split_ifs <;> rfl
  | pop =>
    refine ⟨hi.pop, ?_⟩
    simp only [YieldHeap.apply, YieldHeap.pop]
    split_ifs <;> rfl
  | removeByConn connId =>
    obtain ⟨removed, hperm, -, hord, -⟩ := @removeLoop_spec _ 0 connId h.entries.size hi.ordered
    have hlen := hperm.length_eq
    have hroom := hi.room
    simp only [List.length_append, Array.length_toList] at hlen
    exact ⟨⟨hord, by simp only [YieldHeap.apply, removeByConn]; omega⟩, rfl⟩
  | clear => exact ⟨⟨fun j _ hj => absurd hj (Nat.not_lt_zero j), Nat.zero_le _⟩, rfl⟩

lemma run_inv (connectionCount : Nat) (ops : List YieldOp) :
    (run connectionCount ops).Inv ∧ (run connectionCount ops).capacity = connectionCount := by
  induction ops using List.reverseRecOn with
  | nil => exact ⟨⟨fun j _ hj => absurd hj (Nat.not_lt_zero j), Nat.zero_le _⟩, rfl⟩
  | append_singleton ops op ih =>
    rw [run, List.foldl_append]
    obtain ⟨hinv, hcap⟩ := ih.1.apply op
    exact ⟨hinv, hcap.trans ih.2⟩

/-- After every sequence of operations the heap is a priority queue of its entries: the top is a smallest one and is
the one that `pop` takes out, an entry is added unless the heap is full, and `remove_by_conn` takes out entries of the
connection only, and the one there is. -/
theorem yield_heap_queue (connectionCount : Nat) (ops : List YieldOp) :
    let h := run connectionCount ops
    (∀ t, h.top = some t → (∀ e ∈ h.entries.toList, t.deadlineNs ≤ e.deadlineNs) ∧
      h.entries.toList.Perm (t :: h.pop.entries.toList)) ∧
    (∀ e, (h.push e).1 = true → (h.push e).2.entries.toList.Perm (e :: h.entries.toList)) ∧
    (∀ e, (h.push e).1 = false ↔ connectionCount = 0 ∨ h.entries.size = connectionCount + 256) ∧
    ∀ connId, ∃ removed, h.entries.toList.Perm (removed ++ (h.removeByConn connId).2.entries.toList) ∧
      (h.removeByConn connId).1 = removed.length ∧ (∀ e ∈ removed, e.connId = connId) ∧
      (h.entries.toList.countP (·.connId = connId) ≤ 1 →
        ∀ e ∈ (h.removeByConn connId).2.entries.toList, e.connId ≠ connId) := by
  obtain ⟨hi, hcap⟩ := run_inv connectionCount ops
  refine ⟨fun t ht => ⟨fun e he => top_le hi ht he, pop_perm ht⟩, fun e => push_perm, fun e => ?_, fun connId => ?_⟩
  · have hroom := hi.room
    rw [YieldHeap.push, hcap]
    split_ifs with hfull
    · simp only [true_iff]
      omega
    · simp only [false_iff]
      omega
  · obtain ⟨removed, hperm, hall, -, hexact⟩ :=
      @removeLoop_spec _ 0 connId (run connectionCount ops).entries.size hi.ordered
    refine ⟨removed, hperm, ?_, hall, hexact (by omega) fun k _ hk => absurd hk (Nat.not_lt_zero k)⟩
    have hlen := hperm.length_eq
    simp only [List.length_append, Array.length_toList] at hlen
    simp only [removeByConn]
    omega

end YieldHeap

end Rut.Timer
