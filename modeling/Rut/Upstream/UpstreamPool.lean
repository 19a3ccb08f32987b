import Rut.Lib.LinkedSlots

/-!
# The pool of idle upstream connections

Port of `include/rut/runtime/upstream_pool.h`. Parked connections stand in slots of an array, and the slots in use form
a list through it, the most recently parked one first, which sweeping and taking walk. Calls of `close` are returned as
the descriptors closed; the answers of the liveness probe are given to `takeIdle`. The free stack is a list with its top
first, and `kNoSlot` is an absent link.
-/

set_option linter.all false
namespace Rut.Upstream

structure UpstreamConn where
  fd : Int := -1
  upstreamId : Nat := 0
  backendIdx : Nat := 0
  idle : Bool := false
  allocated : Bool := false
  parkedSec : Nat := 0
deriving DecidableEq

def kMaxConns : Nat := 4096

def allFree : List Nat := (List.range kMaxConns).reverse

structure UpstreamPool where
  conns : Nat → UpstreamConn
  freeStack : List Nat
  links : Links
  idleCount : Nat

/-- Seconds between two readings of a `u32` clock. -/
def secondsSince (now parked : Nat) : Nat := (now + 2 ^ 32 - parked) % 2 ^ 32

lemma secondsSince_eq {now parked} (h : parked ≤ now) (hnow : now < 2 ^ 32) :
    secondsSince now parked = now - parked := by
  have hsum : now + 2 ^ 32 - parked = now - parked + 2 ^ 32 := by omega
  rw [secondsSince, hsum, Nat.add_mod_right, Nat.mod_eq_of_lt (by omega)]

namespace UpstreamPool

def init : UpstreamPool where
  conns := fun _ => {}
  freeStack := allFree
  links := {}
  idleCount := 0

def putIdle (pool : UpstreamPool) (fd : Int) (upstreamId backendIdx nowSec : Nat) : Bool × UpstreamPool :=
  match pool.freeStack with
  | idx :: rest =>
    if fd < 0 then (false, pool)
    else
      (true,
        { conns := Function.update pool.conns idx ⟨fd, upstreamId, backendIdx, true, true, nowSec⟩
          freeStack := rest
          links := pool.links.link idx
          idleCount := (pool.idleCount + 1) % 2 ^ 32 })
  | [] => (false, pool)

def releaseSlot (pool : UpstreamPool) (i : Nat) : UpstreamPool where
  conns := Function.update pool.conns i {}
  freeStack := if pool.freeStack.length < kMaxConns then i :: pool.freeStack else pool.freeStack
  links := pool.links.unlink i
  idleCount := pool.idleCount - 1

/-- The loop of `sweep`. -/
def sweepLoop (nowSec maxIdleSec : Nat) : Nat → Option Nat → UpstreamPool → List Int × UpstreamPool
  | fuel + 1, some i, pool =>
    let next := pool.links.next i
    let c := pool.conns i
    if secondsSince nowSec c.parkedSec ≥ maxIdleSec then
      let (closed, pool) := sweepLoop nowSec maxIdleSec fuel next (pool.releaseSlot i)
      (c.fd :: closed, pool)
    else sweepLoop nowSec maxIdleSec fuel next pool
  | _, _, pool => ([], pool)

/-- `sweep`, with the descriptors closed. -/
def sweep (pool : UpstreamPool) (nowSec maxIdleSec : Nat) : List Int × UpstreamPool :=
  if pool.idleCount = 0 then ([], pool) else sweepLoop nowSec maxIdleSec (kMaxConns + 1) pool.links.head pool

/-- What `take_idle` returns and closes. -/
structure Taken where
  fd : Option Int := none
  closed : List Int := []
deriving DecidableEq

def Taken.close (t : Taken) (fd : Int) : Taken := { t with closed := fd :: t.closed }

/-- The loop of `take_idle`; the probes answer in turn whether a socket is healthy. -/
def takeIdleLoop (upstreamId backendIdx : Nat) :
    Nat → Option Nat → (Nat → Bool) → UpstreamPool → Taken × UpstreamPool
  | fuel + 1, some i, healthy, pool =>
    let next := pool.links.next i
    let c := pool.conns i
    if c.upstreamId ≠ upstreamId ∨ c.backendIdx ≠ backendIdx then
      takeIdleLoop upstreamId backendIdx fuel next healthy pool
    else if healthy 0 then ({ fd := some c.fd }, pool.releaseSlot i)
    else
      let (t, pool) := takeIdleLoop upstreamId backendIdx fuel next (fun n => healthy (n + 1)) (pool.releaseSlot i)
      (t.close c.fd, pool)
  | _, _, _, pool => ({}, pool)

def takeIdle (pool : UpstreamPool) (upstreamId backendIdx : Nat) (healthy : Nat → Bool) : Taken × UpstreamPool :=
  if pool.idleCount = 0 then ({}, pool)
  else takeIdleLoop upstreamId backendIdx (kMaxConns + 1) pool.links.head healthy pool

def openFds (pool : UpstreamPool) : List Int :=
  ((List.range kMaxConns).map fun i => (pool.conns i).fd).filter fun fd => decide (0 ≤ fd)

def reset (pool : UpstreamPool) : UpstreamPool where
  conns := fun i => if i < kMaxConns then {} else pool.conns i
  freeStack := allFree
  links := {}
  idleCount := 0

def shutdown (pool : UpstreamPool) : List Int × UpstreamPool := (pool.openFds, pool.reset)

def drain (pool : UpstreamPool) : List Int × UpstreamPool := if pool.idleCount = 0 then ([], pool) else pool.shutdown

end UpstreamPool

/-! ## Parked connections -/

def Expired (nowSec maxIdleSec : Nat) (c : UpstreamConn) : Bool := decide (secondsSince nowSec c.parkedSec ≥ maxIdleSec)

def takeParked (upstreamId backendIdx : Nat) : (Nat → Bool) → List UpstreamConn → UpstreamPool.Taken × List UpstreamConn
  | _, [] => ({}, [])
  | healthy, c :: cs =>
    if c.upstreamId ≠ upstreamId ∨ c.backendIdx ≠ backendIdx then
      ((takeParked upstreamId backendIdx healthy cs).1, c :: (takeParked upstreamId backendIdx healthy cs).2)
    else if healthy 0 then ({ fd := some c.fd }, cs)
    else
      ((takeParked upstreamId backendIdx (fun n => healthy (n + 1)) cs).1.close c.fd,
        (takeParked upstreamId backendIdx (fun n => healthy (n + 1)) cs).2)

namespace UpstreamPool

/-- The pool has parked connections in the given slots, the most recently parked one first. -/
structure Parks (pool : UpstreamPool) (slots : List Nat) : Prop where
  linked : pool.links.Linked slots
  free_nodup : pool.freeStack.Nodup
  free : ∀ i, i ∈ pool.freeStack ↔ i < kMaxConns ∧ i ∉ slots
  lt : ∀ i ∈ slots, i < kMaxConns
  parked : ∀ i ∈ slots, (pool.conns i).idle = true ∧ (pool.conns i).allocated = true ∧ 0 ≤ (pool.conns i).fd
  blank : ∀ i ∉ slots, pool.conns i = {}
  count : pool.idleCount = slots.length

def contents (pool : UpstreamPool) (slots : List Nat) : List UpstreamConn := slots.map pool.conns

variable {pool : UpstreamPool} {slots A B : List Nat} {i : Nat}

lemma mem_allFree {i} : i ∈ allFree ↔ i < kMaxConns := by
  rw [allFree, List.mem_reverse, List.mem_range]

lemma nodup_allFree : allFree.Nodup := by
  exact List.nodup_reverse.mpr List.nodup_range

lemma Parks.empty (hconns : ∀ i, pool.conns i = {}) (hstack : pool.freeStack = allFree) (hlinks : pool.links = {})
    (hcount : pool.idleCount = 0) : pool.Parks [] where
  linked := hlinks ▸ .empty
  free_nodup := hstack ▸ nodup_allFree
  free := fun i => by simp [hstack, mem_allFree]
  lt := fun i h => absurd h List.not_mem_nil
  parked := fun i h => absurd h List.not_mem_nil
  blank := fun i _ => hconns i
  count := hcount

lemma releaseSlot_conns (pool : UpstreamPool) (i : Nat) : (pool.releaseSlot i).conns = Function.update pool.conns i {} := rfl

lemma Parks.perm (h : pool.Parks slots) : (slots ++ pool.freeStack).Perm (List.range kMaxConns) := by
  apply (List.perm_ext_iff_of_nodup _ List.nodup_range).mpr
  · intro i
    rw [List.mem_append, h.free, List.mem_range]
    constructor
    · rintro (hi | hi)
      · exact h.lt i hi
      · exact hi.1
    · intro hi
      by_cases hs : i ∈ slots
      · exact .inl hs
      · exact .inr ⟨hi, hs⟩
  · exact List.nodup_append.mpr ⟨h.linked.nodup, h.free_nodup, fun a ha b hb hab => ((h.free b).mp hb).2 (hab ▸ ha)⟩

lemma Parks.length (h : pool.Parks slots) : slots.length + pool.freeStack.length = kMaxConns := by
  rw [← List.length_append, h.perm.length_eq, List.length_range]

lemma Parks.put (h : pool.Parks slots) {rest c} (hstack : pool.freeStack = i :: rest)
    (hidle : c.idle = true) (halloc : c.allocated = true) (hfd : 0 ≤ c.fd) :
    Parks { conns := Function.update pool.conns i c, freeStack := rest, links := pool.links.link i,
            idleCount := (pool.idleCount + 1) % 2 ^ 32 } (i :: slots) := by
  obtain ⟨hlt, hi⟩ := (h.free i).mp (hstack ▸ List.mem_cons_self)
  have hnd := h.free_nodup
  rw [hstack, List.nodup_cons] at hnd
  refine ⟨h.linked.link hi, hnd.2, fun j => ?_, ?_, ?_, ?_, ?_⟩
  · have hj := h.free j
    rw [hstack, List.mem_cons] at hj
    rw [List.mem_cons, not_or]
    constructor
    · intro hr
      obtain ⟨hjlt, hjs⟩ := hj.mp (.inr hr)
      exact ⟨hjlt, fun hji => hnd.1 (hji ▸ hr), hjs⟩
    · rintro ⟨hjlt, hji, hjs⟩
      exact (hj.mpr ⟨hjlt, hjs⟩).resolve_left hji
  · exact List.forall_mem_cons.mpr ⟨hlt, h.lt⟩
  · refine List.forall_mem_cons.mpr ⟨?_, fun j hj => ?_⟩
    · dsimp only
      rw [Function.update_self]
      exact ⟨hidle, halloc, hfd⟩
    · dsimp only
      have hji : j ≠ i := fun hji => hi (hji ▸ hj)
      rw [Function.update_of_ne hji]
      exact h.parked j hj
  · intro j hj
    rw [List.mem_cons, not_or] at hj
    dsimp only
    rw [Function.update_of_ne hj.1]
    exact h.blank j hj.2
  · have hlen := h.length
    rw [hstack, List.length_cons, kMaxConns] at hlen
    rw [h.count, List.length_cons, Nat.mod_eq_of_lt (by omega)]

lemma putIdle_cases (pool : UpstreamPool) (fd : Int) (upstreamId backendIdx nowSec : Nat) :
    pool.putIdle fd upstreamId backendIdx nowSec = (false, pool) ∨
    ∃ idx rest, pool.freeStack = idx :: rest ∧ 0 ≤ fd ∧ pool.putIdle fd upstreamId backendIdx nowSec =
      (true, { conns := Function.update pool.conns idx ⟨fd, upstreamId, backendIdx, true, true, nowSec⟩, freeStack := rest,
               links := pool.links.link idx, idleCount := (pool.idleCount + 1) % 2 ^ 32 }) := by
  rw [putIdle]
  cases pool.freeStack with
  | nil => exact .inl rfl
  | cons idx rest =>
    by_cases hfd : fd < 0
    · exact .inl (if_pos hfd)
    · exact .inr ⟨idx, rest, rfl, Int.not_lt.mp hfd, if_neg hfd⟩

lemma Parks.release (h : pool.Parks (A ++ i :: B)) : (pool.releaseSlot i).Parks (A ++ B) := by
  have hnd := h.linked.nodup
  have hout : i ∉ A ++ B := (List.nodup_middle.mp hnd).notMem
  have hmem : ∀ j, j ∈ A ++ i :: B ↔ j = i ∨ j ∈ A ++ B := by
    intro j
    rw [List.mem_append, List.mem_cons, List.mem_append]
    tauto
  have hlt : i < kMaxConns := h.lt i (by simp)
  have hin : i ∉ pool.freeStack := fun hi => ((h.free i).mp hi).2 (by simp)
  have hlen := h.length
  have hroom : pool.freeStack.length < kMaxConns := by
    rw [List.length_append, List.length_cons] at hlen
    omega
  refine ⟨h.linked.unlink, ?_, fun j => ?_, fun j hj => h.lt j ((hmem j).mpr (.inr hj)), fun j hj => ?_, fun j hj => ?_, ?_⟩
  · rw [releaseSlot, if_pos hroom]
    exact List.nodup_cons.mpr ⟨hin, h.free_nodup⟩
  · rw [releaseSlot, if_pos hroom, List.mem_cons, h.free, hmem]
    constructor
    · rintro (rfl | ⟨hj, hjs⟩)
      · exact ⟨hlt, hout⟩
      · exact ⟨hj, fun hab => hjs (.inr hab)⟩
    · rintro ⟨hj, hjs⟩
      by_cases hji : j = i
      · exact .inl hji
      · exact .inr ⟨hj, fun hor => hor.elim hji hjs⟩
  · have hji : j ≠ i := fun hji => hout (hji ▸ hj)
    rw [releaseSlot_conns, Function.update_of_ne hji]
    exact h.parked j ((hmem j).mpr (.inr hj))
  · by_cases hji : j = i
    · rw [releaseSlot_conns, hji, Function.update_self]
    · rw [releaseSlot_conns, Function.update_of_ne hji]
      exact h.blank j fun hm => ((hmem j).mp hm).elim hji hj
  · rw [releaseSlot, h.count]
    simp

lemma contents_release (h : pool.Parks (A ++ i :: B)) : ∀ j ∈ A ++ B, (pool.releaseSlot i).conns j = pool.conns j := by
  intro j hj
  have hout : i ∉ A ++ B := (List.nodup_middle.mp h.linked.nodup).notMem
  have hji : j ≠ i := fun hji => hout (hji ▸ hj)
  rw [releaseSlot_conns, Function.update_of_ne hji]

lemma sweepLoop_spec {now maxIdle fuel} (h : pool.Parks (A ++ B)) (hfuel : B.length ≤ fuel) :
    (sweepLoop now maxIdle fuel B.head? pool).1 =
        (B.filter fun i => Expired now maxIdle (pool.conns i)).map (fun i => (pool.conns i).fd) ∧
      (sweepLoop now maxIdle fuel B.head? pool).2.Parks (A ++ B.filter fun i => !Expired now maxIdle (pool.conns i)) ∧
      ∀ j ∈ A ++ B.filter fun i => !Expired now maxIdle (pool.conns i),
        (sweepLoop now maxIdle fuel B.head? pool).2.conns j = pool.conns j := by
  induction B generalizing A pool fuel with
  | nil =>
    have hend : sweepLoop now maxIdle fuel none pool = ([], pool) := by cases fuel <;> rfl
    rw [List.head?_nil, hend]
    exact ⟨rfl, h, fun _ _ => rfl⟩
  | cons i B ih =>
    obtain _ | fuel := fuel
    · cases hfuel
    have hfuel := Nat.le_of_succ_le_succ hfuel
    have hnext := h.linked.next A i B rfl
    rw [List.head?_cons, sweepLoop, hnext]
    by_cases hexp : secondsSince now (pool.conns i).parkedSec ≥ maxIdle
    · -- The link behind the slot was read before the slot is released.
      have hsame := contents_release h
      have hfilter : ∀ p : UpstreamConn → Bool,
          (B.filter fun j => p ((pool.releaseSlot i).conns j)) = B.filter fun j => p (pool.conns j) := by
        intro p
        exact List.filter_congr fun j hj => by rw [hsame j (List.mem_append_right _ hj)]
      obtain ⟨hclosed, hparks, hconns⟩ := ih h.release hfuel
      rw [hfilter (Expired now maxIdle)] at hclosed
      rw [hfilter fun c => !Expired now maxIdle c] at hparks hconns
      have he : Expired now maxIdle (pool.conns i) = true := decide_eq_true hexp
      simp only [if_pos hexp, List.filter_cons, he, if_true, Bool.not_true, Bool.false_eq_true, if_false, List.map_cons]
      refine ⟨?_, hparks, fun j hj => ?_⟩
      · rw [hclosed]
        congr 1
        apply List.map_congr_left
        intro j hj
        rw [hsame j (List.mem_append_right _ (List.mem_of_mem_filter hj))]
      · have hin : j ∈ A ++ B := by
          rcases List.mem_append.mp hj with hj | hj
          · exact List.mem_append_left _ hj
          · exact List.mem_append_right _ (List.mem_of_mem_filter hj)
        exact (hconns j hj).trans (hsame j hin)
    · have he : Expired now maxIdle (pool.conns i) = false := decide_eq_false hexp
      simp only [if_neg hexp, List.filter_cons, he, Bool.not_false, if_true, Bool.false_eq_true, if_false]
      have h' : pool.Parks ((A ++ [i]) ++ B) := by rwa [List.append_assoc]
      have := ih h' hfuel
      rwa [List.append_assoc] at this

lemma takeIdleLoop_spec {upstreamId backendIdx fuel} (healthy : Nat → Bool) (h : pool.Parks (A ++ B))
    (hfuel : B.length ≤ fuel) :
    ∃ K, (takeIdleLoop upstreamId backendIdx fuel B.head? healthy pool).2.Parks (A ++ K) ∧ K ⊆ B ∧
      (∀ j ∈ A ++ K, (takeIdleLoop upstreamId backendIdx fuel B.head? healthy pool).2.conns j = pool.conns j) ∧
      takeParked upstreamId backendIdx healthy (pool.contents B) =
        ((takeIdleLoop upstreamId backendIdx fuel B.head? healthy pool).1, pool.contents K) := by
  induction B generalizing A pool fuel healthy with
  | nil =>
    have hend : takeIdleLoop upstreamId backendIdx fuel none healthy pool = ({}, pool) := by cases fuel <;> rfl
    rw [List.head?_nil, hend]
    exact ⟨[], h, List.Subset.refl _, fun _ _ => rfl, rfl⟩
  | cons i B ih =>
    obtain _ | fuel := fuel
    · cases hfuel
    have hfuel := Nat.le_of_succ_le_succ hfuel
    have hnext := h.linked.next A i B rfl
    have hsame := contents_release h
    rw [List.head?_cons, takeIdleLoop, hnext, contents, List.map_cons, takeParked]
    by_cases hother : (pool.conns i).upstreamId ≠ upstreamId ∨ (pool.conns i).backendIdx ≠ backendIdx
    · rw [if_pos hother, if_pos hother]
      have h' : pool.Parks ((A ++ [i]) ++ B) := by rwa [List.append_assoc]
      obtain ⟨K, hparks, hsub, hconns, htake⟩ := ih healthy h' hfuel
      rw [List.append_assoc] at hparks hconns
      rw [contents] at htake
      exact ⟨i :: K, hparks, List.cons_subset_cons i hsub, hconns, by rw [htake]; rfl⟩
    · rw [if_neg hother, if_neg hother]
      by_cases hhealthy : healthy 0 = true
      · rw [if_pos hhealthy, if_pos hhealthy]
        exact ⟨B, h.release, List.subset_cons_self i B, hsame, rfl⟩
      · rw [if_neg hhealthy, if_neg hhealthy]
        obtain ⟨K, hparks, hsub, hconns, htake⟩ := ih (fun n => healthy (n + 1)) h.release hfuel
        have hB : (pool.releaseSlot i).contents B = B.map pool.conns :=
          List.map_congr_left fun j hj => hsame j (List.mem_append_right _ hj)
        have hK : (pool.releaseSlot i).contents K = pool.contents K :=
          List.map_congr_left fun j hj => hsame j (List.mem_append_right _ (hsub hj))
        rw [hB, hK] at htake
        refine ⟨K, hparks, fun j hj => List.mem_cons_of_mem _ (hsub hj), fun j hj => ?_, by rw [htake]⟩
        have hin : j ∈ A ++ B := by
          rcases List.mem_append.mp hj with hj | hj
          · exact List.mem_append_left _ hj
          · exact List.mem_append_right _ (hsub hj)
        exact (hconns j hj).trans (hsame j hin)

end UpstreamPool

/-! ## Exactly once -/

lemma takeParked_perm (upstreamId backendIdx : Nat) (healthy : Nat → Bool) (cs : List UpstreamConn) :
    (cs.map UpstreamConn.fd).Perm
      ((takeParked upstreamId backendIdx healthy cs).1.closed ++ (takeParked upstreamId backendIdx healthy cs).1.fd.toList ++
        (takeParked upstreamId backendIdx healthy cs).2.map UpstreamConn.fd) := by
  induction cs generalizing healthy with
  | nil => exact List.Perm.refl _
  | cons c cs ih =>
    rw [takeParked]
    split_ifs
    · exact ((ih healthy).cons c.fd).trans List.perm_middle.symm
    · exact List.Perm.refl _
    · exact (ih _).cons c.fd

lemma takeParked_endpoint {upstreamId backendIdx healthy cs fd}
    (h : (takeParked upstreamId backendIdx healthy cs).1.fd = some fd) :
    ∃ c ∈ cs, c.fd = fd ∧ c.upstreamId = upstreamId ∧ c.backendIdx = backendIdx := by
  induction cs generalizing healthy with
  | nil => cases h
  | cons c cs ih =>
    rw [takeParked] at h
    split_ifs at h with hother
    · obtain ⟨d, hd, hfd⟩ := ih h
      exact ⟨d, List.mem_cons_of_mem _ hd, hfd⟩
    · rw [not_or, not_not, not_not] at hother
      exact ⟨c, List.mem_cons_self, Option.some.inj h, hother⟩
    · obtain ⟨d, hd, hfd⟩ := ih h
      exact ⟨d, List.mem_cons_of_mem _ hd, hfd⟩

namespace UpstreamPool

variable {pool : UpstreamPool} {slots : List Nat}

lemma Parks.count_zero (h : pool.Parks slots) (hcount : pool.idleCount = 0) : slots = [] :=
  List.length_eq_zero_iff.mp (h.count ▸ hcount)

lemma Parks.short (h : pool.Parks slots) : slots.length ≤ kMaxConns + 1 := by
  have := h.length
  omega

lemma Parks.takeIdle (h : pool.Parks slots) (upstreamId backendIdx : Nat) (healthy : Nat → Bool) :
    ∃ K, (pool.takeIdle upstreamId backendIdx healthy).2.Parks K ∧ K ⊆ slots ∧
      (∀ j ∈ K, (pool.takeIdle upstreamId backendIdx healthy).2.conns j = pool.conns j) ∧
      takeParked upstreamId backendIdx healthy (pool.contents slots) =
        ((pool.takeIdle upstreamId backendIdx healthy).1, pool.contents K) := by
  rw [UpstreamPool.takeIdle]
  by_cases hcount : pool.idleCount = 0
  · obtain rfl := h.count_zero hcount
    rw [if_pos hcount]
    exact ⟨[], h, List.Subset.refl _, fun _ _ => rfl, rfl⟩
  · rw [if_neg hcount, h.linked.head]
    exact takeIdleLoop_spec (A := []) healthy h h.short

lemma Parks.sweep (h : pool.Parks slots) (now maxIdle : Nat) : (pool.sweep now maxIdle).1 =
        (slots.filter fun i => Expired now maxIdle (pool.conns i)).map (fun i => (pool.conns i).fd) ∧
      (pool.sweep now maxIdle).2.Parks (slots.filter fun i => !Expired now maxIdle (pool.conns i)) ∧
      ∀ j ∈ slots.filter fun i => !Expired now maxIdle (pool.conns i), (pool.sweep now maxIdle).2.conns j = pool.conns j := by
  rw [UpstreamPool.sweep]
  by_cases hcount : pool.idleCount = 0
  · obtain rfl := h.count_zero hcount
    rw [if_pos hcount]
    exact ⟨rfl, h, fun _ _ => rfl⟩
  · rw [if_neg hcount, h.linked.head]
    exact sweepLoop_spec (A := []) h h.short

lemma Parks.shutdown (h : pool.Parks slots) :
    pool.shutdown.1.Perm (slots.map fun i => (pool.conns i).fd) ∧ pool.shutdown.2.Parks [] := by
  rw [UpstreamPool.shutdown]
  dsimp only
  constructor
  · have hfree : (pool.freeStack.map fun i => (pool.conns i).fd).filter (fun fd => decide (0 ≤ fd)) = [] := by
      rw [List.filter_eq_nil_iff]
      intro fd hfd
      obtain ⟨i, hi, rfl⟩ := List.mem_map.mp hfd
      rw [h.blank i ((h.free i).mp hi).2]
      decide
    have hparked : (slots.map fun i => (pool.conns i).fd).filter (fun fd => decide (0 ≤ fd)) =
        slots.map fun i => (pool.conns i).fd := by
      rw [List.filter_eq_self]
      intro fd hfd
      obtain ⟨i, hi, rfl⟩ := List.mem_map.mp hfd
      exact decide_eq_true (h.parked i hi).2.2
    have hperm := (h.perm.map fun i => (pool.conns i).fd).filter fun fd => decide (0 ≤ fd)
    rw [List.map_append, List.filter_append, hfree, hparked, List.append_nil] at hperm
    exact hperm.symm
  · refine .empty (fun i => ?_) (by rw [reset]) (by rw [reset]) (by rw [reset])
    rw [reset]
    dsimp only
    split_ifs with hi
    · rfl
    · exact h.blank i fun hs => hi (h.lt i hs)

lemma Parks.drain (h : pool.Parks slots) :
    pool.drain.1.Perm (slots.map fun i => (pool.conns i).fd) ∧ pool.drain.2.Parks [] := by
  rw [UpstreamPool.drain]
  by_cases hcount : pool.idleCount = 0
  · obtain rfl := h.count_zero hcount
    rw [if_pos hcount]
    exact ⟨List.Perm.refl _, h⟩
  · rw [if_neg hcount]
    exact h.shutdown

end UpstreamPool

/-! ## Runs -/

inductive UpstreamOp where
  | put (fd : Int) (upstreamId backendIdx nowSec : Nat)
  | take (upstreamId backendIdx : Nat) (healthy : Nat → Bool)
  | sweep (nowSec maxIdleSec : Nat)
  | drain
  | shutdown

structure Ledger where
  put : List Int := []
  closed : List Int := []
  taken : List Int := []

def Ledger.closes (l : Ledger) (fds : List Int) : Ledger := { l with closed := fds ++ l.closed }

def upstreamStep (s : UpstreamPool × Ledger) : UpstreamOp → UpstreamPool × Ledger
  | .put fd upstreamId backendIdx nowSec =>
    let r := s.1.putIdle fd upstreamId backendIdx nowSec
    (r.2, { s.2 with put := if r.1 then fd :: s.2.put else s.2.put })
  | .take upstreamId backendIdx healthy =>
    let r := s.1.takeIdle upstreamId backendIdx healthy
    (r.2, { s.2.closes r.1.closed with taken := r.1.fd.toList ++ s.2.taken })
  | .sweep nowSec maxIdleSec =>
    let r := s.1.sweep nowSec maxIdleSec
    (r.2, s.2.closes r.1)
  | .drain => (s.1.drain.2, s.2.closes s.1.drain.1)
  | .shutdown => (s.1.shutdown.2, s.2.closes s.1.shutdown.1)

def upstreamRun (ops : List UpstreamOp) : UpstreamPool × Ledger := ops.foldl upstreamStep (.init, {})

def UpstreamPool.fds (pool : UpstreamPool) (slots : List Nat) : List Int := slots.map fun i => (pool.conns i).fd

/-- Every descriptor that was parked is closed, handed out or still parked. -/
structure Accounts (s : UpstreamPool × Ledger) (slots : List Nat) : Prop where
  parks : s.1.Parks slots
  once : s.2.put.Perm (s.2.closed ++ s.2.taken ++ s.1.fds slots)

section run

variable {s : UpstreamPool × Ledger} {slots : List Nat}

lemma Ledger.close {put closed taken parked kept more : List Int} (h : put.Perm (closed ++ taken ++ parked))
    (hsplit : parked.Perm (more ++ kept)) : put.Perm (more ++ closed ++ taken ++ kept) := by
  refine h.trans ((hsplit.append_left _).trans ?_)
  rw [List.append_assoc, List.append_assoc, List.append_assoc]
  refine List.Perm.trans ?_ (List.perm_append_comm_assoc closed more (taken ++ kept))
  exact (List.perm_append_comm_assoc taken more kept).append_left closed

lemma Accounts.close {closed : List Int} {pool : UpstreamPool} {K : List Nat} (h : Accounts s slots)
    (hparks : pool.Parks K) (hsplit : (s.1.fds slots).Perm (closed ++ pool.fds K)) :
    Accounts (pool, s.2.closes closed) K :=
  ⟨hparks, Ledger.close h.once hsplit⟩

lemma fds_contents (pool : UpstreamPool) (slots : List Nat) :
    (pool.contents slots).map UpstreamConn.fd = pool.fds slots := by
  rw [UpstreamPool.contents, List.map_map]
  rfl

lemma fds_same {pool pool' : UpstreamPool} {K : List Nat} (h : ∀ j ∈ K, pool'.conns j = pool.conns j) :
    pool'.fds K = pool.fds K :=
  List.map_congr_left fun j hj => by rw [h j hj]

lemma fds_put (pool : UpstreamPool) {pool' : UpstreamPool} {idx c} (hout : idx ∉ slots)
    (h : pool'.conns = Function.update pool.conns idx c) : pool'.fds (idx :: slots) = c.fd :: pool.fds slots := by
  rw [UpstreamPool.fds, List.map_cons, h, Function.update_self]
  congr 1
  apply List.map_congr_left
  intro j hj
  have hji : j ≠ idx := fun hji => hout (hji ▸ hj)
  rw [Function.update_of_ne hji]

lemma all_closed {pool : UpstreamPool} {closed} (h : closed.Perm (slots.map fun i => (pool.conns i).fd))
    (pool' : UpstreamPool) : (pool.fds slots).Perm (closed ++ pool'.fds []) := by
  rw [UpstreamPool.fds, UpstreamPool.fds, List.map_nil, List.append_nil]
  exact h.symm

lemma Accounts.step (h : Accounts s slots) (op : UpstreamOp) : ∃ K, Accounts (upstreamStep s op) K ∧
      ((∃ gone, (s.1.fds slots).Perm (gone ++ (upstreamStep s op).1.fds K)) ∨
        ∃ fd upstreamId backendIdx nowSec, op = .put fd upstreamId backendIdx nowSec ∧
          (upstreamStep s op).1.fds K = fd :: s.1.fds slots) := by
  cases op with
  | put fd upstreamId backendIdx nowSec =>
    rw [upstreamStep]
    obtain heq | ⟨idx, rest, hstack, hfd, heq⟩ := s.1.putIdle_cases fd upstreamId backendIdx nowSec
    · rw [heq]
      exact ⟨slots, h, .inl ⟨[], List.Perm.refl _⟩⟩
    · have hout : idx ∉ slots := ((h.parks.free idx).mp (hstack ▸ List.mem_cons_self)).2
      have hfds : (s.1.putIdle fd upstreamId backendIdx nowSec).2.fds (idx :: slots) = fd :: s.1.fds slots := by
        rw [heq, fds_put s.1 (c := ⟨fd, upstreamId, backendIdx, true, true, nowSec⟩) hout rfl]
      have hparks : (s.1.putIdle fd upstreamId backendIdx nowSec).2.Parks (idx :: slots) := by
        rw [heq]
        exact h.parks.put hstack rfl rfl hfd
      refine ⟨idx :: slots, ⟨hparks, ?_⟩, .inr ⟨fd, _, _, _, rfl, hfds⟩⟩
      rw [hfds, heq, if_pos rfl]
      exact (h.once.cons fd).trans List.perm_middle.symm
  | take upstreamId backendIdx healthy =>
    obtain ⟨K, hparks, -, hconns, htake⟩ := h.parks.takeIdle upstreamId backendIdx healthy
    have hperm := takeParked_perm upstreamId backendIdx healthy (s.1.contents slots)
    rw [htake, fds_contents, fds_contents, ← fds_same hconns] at hperm
    refine ⟨K, ⟨hparks, ?_⟩, .inl ⟨_, hperm⟩⟩
    rw [List.append_assoc] at hperm
    refine (Ledger.close h.once hperm).trans ?_
    rw [upstreamStep, Ledger.closes]
    simp only [List.append_assoc]
    refine List.Perm.append_left _ (List.Perm.append_left _ ?_)
    exact List.perm_append_comm_assoc _ _ _
  | sweep nowSec maxIdleSec =>
    obtain ⟨hclosed, hparks, hconns⟩ := h.parks.sweep nowSec maxIdleSec
    have hsplit : (s.1.fds slots).Perm ((s.1.sweep nowSec maxIdleSec).1 ++ (s.1.sweep nowSec maxIdleSec).2.fds
        (slots.filter fun i => !Expired nowSec maxIdleSec (s.1.conns i))) := by
      rw [fds_same hconns, hclosed, UpstreamPool.fds, UpstreamPool.fds, ← List.map_append]
      exact ((List.filter_append_perm _ slots).map _).symm
    exact ⟨_, h.close hparks hsplit, .inl ⟨_, hsplit⟩⟩
  | drain =>
    obtain ⟨hclosed, hparks⟩ := h.parks.drain
    have hsplit := all_closed hclosed s.1.drain.2
    exact ⟨[], h.close hparks hsplit, .inl ⟨_, hsplit⟩⟩
  | shutdown =>
    obtain ⟨hclosed, hparks⟩ := h.parks.shutdown
    have hsplit := all_closed hclosed s.1.shutdown.2
    exact ⟨[], h.close hparks hsplit, .inl ⟨_, hsplit⟩⟩

lemma Accounts.init : Accounts (.init, {}) [] := by
  have hparks : UpstreamPool.init.Parks [] := by
    refine .empty (fun i => ?_) ?_ ?_ ?_ <;> rw [UpstreamPool.init]
  refine ⟨hparks, ?_⟩
  exact List.Perm.nil

def HandedOver (ops : List UpstreamOp) : Prop :=
  ∀ pre fd upstreamId backendIdx nowSec post, ops = pre ++ .put fd upstreamId backendIdx nowSec :: post →
    ∀ i, ((upstreamRun pre).1.conns i).fd ≠ fd

lemma HandedOver.init {ops op} (h : HandedOver (ops ++ [op])) : HandedOver ops := by
  rintro pre fd upstreamId backendIdx nowSec post rfl
  exact h pre fd upstreamId backendIdx nowSec (post ++ [op]) (by simp)

lemma upstreamRun_accounts (ops : List UpstreamOp) :
    ∃ slots, Accounts (upstreamRun ops) slots ∧ (HandedOver ops → ((upstreamRun ops).1.fds slots).Nodup) := by
  induction ops using List.reverseRecOn with
  | nil => exact ⟨[], Accounts.init, fun _ => List.nodup_nil⟩
  | append_singleton ops op ih =>
    obtain ⟨slots, h, hnodup⟩ := ih
    obtain ⟨K, hK, hfds⟩ := h.step op
    have hrun : upstreamRun (ops ++ [op]) = upstreamStep (upstreamRun ops) op := by
      rw [upstreamRun, upstreamRun, List.foldl_append]
      rfl
    rw [hrun]
    refine ⟨K, hK, fun hover => ?_⟩
    rcases hfds with ⟨gone, hgone⟩ | ⟨fd, upstreamId, backendIdx, nowSec, rfl, hput⟩
    · exact (List.nodup_append.mp (hgone.nodup_iff.mp (hnodup hover.init))).2.1
    · rw [hput]
      refine List.nodup_cons.mpr ⟨fun hmem => ?_, hnodup hover.init⟩
      obtain ⟨i, -, hi⟩ := List.mem_map.mp hmem
      exact hover ops fd upstreamId backendIdx nowSec [] rfl i hi

end run

/-- Ownership of descriptors: after every sequence of operations the slots in use form the idle list, counted by
`idle_count`, and the others are on the free stack and hold nothing; every descriptor that was put in has been closed or
handed out, or is parked, once for each time; one that is taken was parked for the endpoint; and a sweep closes those
idle for at least the limit. -/
theorem upstream_pool_ownership (ops : List UpstreamOp) :
    ∃ slots, (upstreamRun ops).1.Parks slots ∧
      (upstreamRun ops).1.idleCount = kMaxConns - (upstreamRun ops).1.freeStack.length ∧
      (upstreamRun ops).2.put.Perm ((upstreamRun ops).2.closed ++ (upstreamRun ops).2.taken ++ (upstreamRun ops).1.fds slots) ∧
      (HandedOver ops → ((upstreamRun ops).1.fds slots).Nodup) ∧
      (∀ upstreamId backendIdx healthy fd,
        ((upstreamRun ops).1.takeIdle upstreamId backendIdx healthy).1.fd = some fd →
          ∃ i ∈ slots, ((upstreamRun ops).1.conns i).fd = fd ∧ ((upstreamRun ops).1.conns i).upstreamId = upstreamId ∧
            ((upstreamRun ops).1.conns i).backendIdx = backendIdx) ∧
      ∀ now maxIdle,
        ((upstreamRun ops).1.sweep now maxIdle).1 = (upstreamRun ops).1.fds
          (slots.filter fun i => Expired now maxIdle ((upstreamRun ops).1.conns i)) ∧
        ((upstreamRun ops).1.sweep now maxIdle).2.Parks
          (slots.filter fun i => !Expired now maxIdle ((upstreamRun ops).1.conns i)) ∧
        ∀ c, c.parkedSec ≤ now → now < 2 ^ 32 → (Expired now maxIdle c = true ↔ maxIdle ≤ now - c.parkedSec) := by
  obtain ⟨slots, h, hnodup⟩ := upstreamRun_accounts ops
  refine ⟨slots, h.parks, ?_, h.once, hnodup, ?_, ?_⟩
  · have hlen := h.parks.length
    rw [h.parks.count]
    omega
  · intro upstreamId backendIdx healthy fd hfd
    obtain ⟨K, -, -, -, htake⟩ := h.parks.takeIdle upstreamId backendIdx healthy
    have hfd' : (takeParked upstreamId backendIdx healthy ((upstreamRun ops).1.contents slots)).1.fd = some fd := by
      rw [htake]
      exact hfd
    obtain ⟨c, hc, hend⟩ := takeParked_endpoint hfd'
    obtain ⟨i, hi, rfl⟩ := List.mem_map.mp hc
    exact ⟨i, hi, hend⟩
  · intro now maxIdle
    obtain ⟨hclosed, hparks, -⟩ := h.parks.sweep now maxIdle
    refine ⟨hclosed, hparks, fun c hle hnow => ?_⟩
    rw [Expired, decide_eq_true_eq, secondsSince_eq hle hnow]

/-- A descriptor that is parked is handed out for its endpoint. -/
theorem parked_seven :
    HandedOver [.put 7 1 0 100] ∧
      ((upstreamRun [.put 7 1 0 100]).1.takeIdle 1 0 fun _ => true).1.fd = some 7 ∧
      ∃ slots, ((upstreamRun [.put 7 1 0 100]).1.fds slots).Nodup ∧
        ∃ i ∈ slots, ((upstreamRun [.put 7 1 0 100]).1.conns i).fd = 7 := by
  have hover : HandedOver [.put 7 1 0 100] := by
    intro pre fd upstreamId backendIdx nowSec post hops i
    rcases List.cons_eq_append_iff.mp hops with ⟨rfl, hcons⟩ | ⟨pre', -, hcons⟩
    · cases hcons
      show ((-1 : Int)) ≠ 7
      decide
    · simp at hcons
  have htake : ((upstreamRun [.put 7 1 0 100]).1.takeIdle 1 0 fun _ => true).1.fd = some 7 := by decide +kernel
  obtain ⟨slots, -, -, -, hnodup, htaken, -⟩ := upstream_pool_ownership [.put 7 1 0 100]
  obtain ⟨i, hi, hfd, -⟩ := htaken 1 0 (fun _ => true) 7 htake
  exact ⟨hover, htake, slots, hnodup hover, i, hi, hfd⟩

end Rut.Upstream
