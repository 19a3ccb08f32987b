import Mathlib

/-!
# The cap on requests in flight

Port of `include/rut/runtime/upstream_concurrency.h`. An attempt increments the counter of the upstream and, if it finds
it at the cap, decrements it again; the two are separate atomic steps, between which other threads run. All of them act
on one location, so that every execution is an interleaving of them. The counter is a `u32`.
-/

namespace Rut.Upstream

def kMaxUpstreams : Nat := 64

/-- The counter of an upstream, the threads between the increment and the decrement of an attempt that fails, and how
many slots are acquired and not released. -/
structure Gauge (T : Type) where
  inflight : Nat := 0
  undoing : Finset T := ∅
  held : Nat := 0

inductive GaugeAct (T : Type) where
  | tryAcquire (t : T)
  | undo (t : T)
  | release
deriving DecidableEq

variable {T : Type}

namespace Gauge

/-- `fetch_add` of 1. -/
def add (g : Gauge T) : Gauge T := { g with inflight := (g.inflight + 1) % 2 ^ 32 }

/-- `fetch_sub` of 1. -/
def sub (g : Gauge T) : Gauge T := { g with inflight := (2 ^ 32 - 1 + g.inflight) % 2 ^ 32 }

section Act

variable [DecidableEq T]

/-- The first step of `try_acquire`: the attempt succeeds, or goes on to undo its increment. -/
def tryAcquire (uid max : Nat) (g : Gauge T) (t : T) : Gauge T :=
  if max = 0 ∨ uid ≥ kMaxUpstreams then { g with held := g.held + 1 }
  else if g.inflight ≥ max then { g.add with undoing := insert t g.undoing }
  else { g.add with held := g.held + 1 }

def undo (g : Gauge T) (t : T) : Gauge T := { g.sub with undoing := g.undoing.erase t }

/-- `release` of a slot. -/
def release (uid : Nat) (g : Gauge T) : Gauge T :=
  let g' := if uid ≥ kMaxUpstreams then g else g.sub
  { g' with held := g.held - 1 }

/-- A step, if it can be taken: a thread makes one attempt at a time, and a slot is released once. -/
def step (uid max : Nat) (g : Gauge T) : GaugeAct T → Option (Gauge T)
  | .tryAcquire t => if t ∈ g.undoing then none else some (g.tryAcquire uid max t)
  | .undo t => if t ∈ g.undoing then some (g.undo t) else none
  | .release => if g.held = 0 then none else some (g.release uid)

def run (uid max : Nat) : Gauge T → List (GaugeAct T) → Option (Gauge T)
  | g, [] => some g
  | g, a :: as => (g.step uid max a).bind fun g => run uid max g as

end Act

end Gauge

def GaugeAct.Decrements {T : Type} (uid : Nat) : GaugeAct T → Prop
  | .tryAcquire _ => False
  | .undo _ => True
  | .release => uid < kMaxUpstreams

namespace Gauge

structure Capped (max : Nat) (g : Gauge T) : Prop where
  held_le : g.held ≤ max
  counted : g.inflight = g.held + g.undoing.card

lemma Capped.start (max : Nat) : Capped max ({} : Gauge T) := ⟨Nat.zero_le _, rfl⟩

@[simp] lemma add_held (g : Gauge T) : g.add.held = g.held := rfl
@[simp] lemma add_undoing (g : Gauge T) : g.add.undoing = g.undoing := rfl
@[simp] lemma sub_held (g : Gauge T) : g.sub.held = g.held := rfl
@[simp] lemma sub_undoing (g : Gauge T) : g.sub.undoing = g.undoing := rfl

lemma sub_inflight {g : Gauge T} (hpos : 0 < g.inflight) (hlt : g.inflight < 2 ^ 32) :
    g.sub.inflight = g.inflight - 1 := by
  have hwrap : 2 ^ 32 - 1 + g.inflight = g.inflight - 1 + 2 ^ 32 := by omega
  rw [sub, hwrap, Nat.add_mod_right, Nat.mod_eq_of_lt (by omega)]

lemma add_inflight {g : Gauge T} (hlt : g.inflight + 1 < 2 ^ 32) : g.add.inflight = g.inflight + 1 :=
  Nat.mod_eq_of_lt hlt

section Steps

variable {uid max : Nat} {g g' : Gauge T}

-- An increment that stays finds the counter, and so the slots held, below the cap.
lemma Capped.tryAcquire [DecidableEq T] (huid : uid < kMaxUpstreams) (hmax : 0 < max) (hg : Capped max g) {t}
    (ht : t ∉ g.undoing) (hlt : g.inflight + 1 < 2 ^ 32) : Capped max (g.tryAcquire uid max t) := by
  have hin : ¬ (max = 0 ∨ uid ≥ kMaxUpstreams) := by omega
  have hadd := add_inflight hlt
  have hcount := hg.counted
  have hle := hg.held_le
  rw [Gauge.tryAcquire, if_neg hin]
  split
  case isTrue =>
    constructor
    case held_le => exact hle
    case counted =>
      simp only [add_held, hadd, Finset.card_insert_of_notMem ht]
      omega
  case isFalse hroom =>
    constructor
    case held_le =>
      simp only
      omega
    case counted =>
      simp only [add_undoing]
      omega

lemma Capped.undo [DecidableEq T] (hg : Capped max g) {t} (ht : t ∈ g.undoing) (hlt : g.inflight < 2 ^ 32) :
    Capped max (g.undo t) := by
  have hpos : 0 < g.undoing.card := Finset.card_pos.mpr ⟨t, ht⟩
  have hcount := hg.counted
  have hsub := sub_inflight (g := g) (by omega) hlt
  constructor
  case held_le => exact hg.held_le
  case counted =>
    simp only [Gauge.undo, hsub, sub_held, Finset.card_erase_of_mem ht]
    omega

lemma Capped.release (huid : uid < kMaxUpstreams) (hg : Capped max g) (hheld : g.held ≠ 0)
    (hlt : g.inflight < 2 ^ 32) : Capped max (g.release uid) := by
  have hcount := hg.counted
  have hle := hg.held_le
  have hsub := sub_inflight (g := g) (by omega) hlt
  have hin : ¬ uid ≥ kMaxUpstreams := by omega
  simp only [Gauge.release, if_neg hin]
  constructor
  case held_le =>
    simp only
    omega
  case counted =>
    simp only [hsub, sub_undoing]
    omega

lemma Capped.step [Fintype T] [DecidableEq T] (huid : uid < kMaxUpstreams) (hmax : 0 < max)
    (hfit : max + Fintype.card T < 2 ^ 32) (hg : Capped max g) {a} (h : g.step uid max a = some g') : Capped max g' := by
  have hcount := hg.counted
  have hle := hg.held_le
  have hcard : g.undoing.card ≤ Fintype.card T := Finset.card_le_univ g.undoing
  cases a with
  | tryAcquire t =>
    simp only [Gauge.step] at h
    split at h
    case isTrue => cases h
    case isFalse ht =>
      have hless : g.undoing.card < Fintype.card T := Finset.card_lt_univ_of_notMem ht
      cases h
      exact hg.tryAcquire huid hmax ht (by omega)
  | undo t =>
    simp only [Gauge.step] at h
    split at h
    case isTrue ht =>
      cases h
      exact hg.undo ht (by omega)
    case isFalse => cases h
  | release =>
    simp only [Gauge.step] at h
    split at h
    case isTrue => cases h
    case isFalse hheld =>
      cases h
      exact hg.release huid hheld (by omega)

lemma Capped.run [Fintype T] [DecidableEq T] (huid : uid < kMaxUpstreams) (hmax : 0 < max)
    (hfit : max + Fintype.card T < 2 ^ 32) (hg : Capped max g) {as} (h : g.run uid max as = some g') : Capped max g' := by
  induction as generalizing g with
  | nil =>
    cases h
    exact hg
  | cons a as ih =>
    obtain ⟨g₁, hstep, hrest⟩ := Option.bind_eq_some_iff.mp h
    exact ih (hg.step huid hmax hfit hstep) hrest

lemma Capped.pos_of_decrements [DecidableEq T] (hg : Capped max g) {a} (ha : a.Decrements uid)
    (h : g.step uid max a = some g') : 0 < g.inflight := by
  have hcount := hg.counted
  cases a with
  | tryAcquire t => exact ha.elim
  | undo t =>
    simp only [Gauge.step] at h
    split at h
    case isTrue ht =>
      have hpos : 0 < g.undoing.card := Finset.card_pos.mpr ⟨t, ht⟩
      omega
    case isFalse => cases h
  | release =>
    simp only [Gauge.step] at h
    split at h
    case isTrue => cases h
    case isFalse hheld => omega

end Steps

/-- After every interleaving of threads so few that the counter has room for one attempt of each beside the slots of
the cap, at most `max` slots are held, the counter is the slots held and the attempts to be undone, and it is not
decremented at zero. -/
theorem upstream_concurrency_cap {T : Type} [Fintype T] [DecidableEq T] {uid max : Nat} (huid : uid < kMaxUpstreams)
    (hmax : 0 < max) (hfit : max + Fintype.card T < 2 ^ 32) {as : List (GaugeAct T)} {g : Gauge T}
    (h : run uid max {} as = some g) :
    g.held ≤ max ∧ g.inflight = g.held + g.undoing.card ∧
      ∀ a g', a.Decrements uid → g.step uid max a = some g' → 0 < g.inflight := by
  have hg := (Capped.start max).run huid hmax hfit h
  refine ⟨hg.held_le, hg.counted, ?_⟩
  intro a g' ha hstep
  exact hg.pos_of_decrements ha hstep

/-- Two threads under a cap of one: the second attempt fails and is to be undone. -/
theorem twoThreads_capped :
    ((⟨2, {1}, 1⟩ : Gauge (Fin 2)).held ≤ 1 ∧ 2 = 1 + ({1} : Finset (Fin 2)).card) ∧
      ∀ a g', a.Decrements 7 → step 7 1 (⟨2, {1}, 1⟩ : Gauge (Fin 2)) a = some g' → 0 < 2 := by
  have h : run 7 1 ({} : Gauge (Fin 2)) [.tryAcquire 0, .tryAcquire 1] = some ⟨2, {1}, 1⟩ := rfl
  obtain ⟨hheld, hcount, hpos⟩ := upstream_concurrency_cap (by decide) (by decide) (by decide) h
  exact ⟨⟨hheld, hcount⟩, hpos⟩

lemma run_append [DecidableEq T] {uid max} (as bs : List (GaugeAct T)) (g : Gauge T) :
    g.run uid max (as ++ bs) = (g.run uid max as).bind fun g => g.run uid max bs := by
  induction as generalizing g with
  | nil => rfl
  | cons a as ih =>
    simp only [List.cons_append, run, Option.bind_assoc]
    congr 1
    funext g₁
    exact ih g₁

/-- Threads `0` to `k` attempt in turn, under a cap of one; none of the failed attempts is undone yet. -/
def crowd (k : Nat) : List (GaugeAct Nat) := (List.range (k + 1)).map .tryAcquire

lemma crowd_succ (k : Nat) : crowd (k + 1) = crowd k ++ [.tryAcquire (k + 1)] := by
  rw [crowd, List.range_succ, List.map_append]
  rfl

lemma run_crowd {k} (hk : k < 2 ^ 32) :
    ∃ g, run 0 1 {} (crowd k) = some g ∧ g.held = 1 ∧ g.inflight = (k + 1) % 2 ^ 32 ∧ ∀ t ∈ g.undoing, t ≤ k := by
  induction k with
  | zero => exact ⟨⟨1, ∅, 1⟩, rfl, rfl, rfl, by simp⟩
  | succ k ih =>
    obtain ⟨g, hrun, hheld, hinflight, hundoing⟩ := ih (by omega)
    have hnew : k + 1 ∉ g.undoing := fun hmem => absurd (hundoing _ hmem) (by omega)
    have hfull : g.inflight ≥ 1 := by
      omega
    refine ⟨{ g.add with undoing := insert (k + 1) g.undoing }, ?_, hheld, ?_, ?_⟩
    · rw [crowd_succ, run_append, hrun]
      simp [run, step, tryAcquire, hnew, hfull, kMaxUpstreams]
    · simp only [add, hinflight, Nat.mod_add_mod]
    · intro t ht
      rcases Finset.mem_insert.mp ht with rfl | hold
      · exact le_refl _
      · exact (hundoing t hold).trans (by omega)

lemma run_crowd_wraps {m} (hm : m = 2 ^ 32) : ∃ g, run 0 1 {} (crowd m) = some g ∧ g.held = 2 := by
  obtain ⟨k, rfl⟩ : ∃ k, m = k + 1 := Nat.exists_eq_succ_of_ne_zero (by omega)
  obtain ⟨g, hrun, hheld, hinflight, hundoing⟩ := run_crowd (k := k) (by omega)
  have hnew : k + 1 ∉ g.undoing := fun hmem => absurd (hundoing _ hmem) (by omega)
  have hempty : g.inflight = 0 := by rw [hinflight, hm, Nat.mod_self]
  refine ⟨{ g.add with held := g.held + 1 }, ?_, by rw [hheld]⟩
  rw [crowd_succ, run_append, hrun]
  simp [run, step, tryAcquire, hnew, hempty, kMaxUpstreams]

/-- An upstream past the table has no counter, and the counter of one in the table wraps once `2 ^ 32` attempts stand in
it: in both cases two slots are held under a cap of one. -/
theorem cap_exceeded :
    (∃ g : Gauge Unit, run 64 1 {} [.tryAcquire (), .tryAcquire ()] = some g ∧ g.held = 2) ∧
      ∃ g : Gauge Nat, run 0 1 {} (crowd (2 ^ 32)) = some g ∧ g.held = 2 :=
  ⟨⟨⟨0, ∅, 2⟩, rfl, rfl⟩, run_crowd_wraps rfl⟩

end Gauge

end Rut.Upstream
