import Rut.Lib.Rotation
import Rut.Upstream.UpstreamConcurrency

/-!
# Selecting a backend

Port of `include/rut/common/load_balance.h` and of the selection in `include/rut/runtime/callbacks_impl.h`: the health
of the backends, `select_backend`, `select_forward_backend` and the retry of a connect in `try_connect_next_backend`.
Whether sockets can be opened is an input. A set of the backends of an upstream is an octet.
-/

set_option linter.all false
namespace Rut.Upstream

open Lib.Rotation

/-- Endpoints of an upstream (`UpstreamTarget::kMaxBackends`). -/
def kMaxBackends : Nat := 8
def kMaxShards : Nat := 64
def kMaxForwardSites : Nat := 512
/-- Connects of a request (`kMaxConnectAttempts`). -/
def kMaxConnectAttempts : Nat := 3

inductive LoadBalancePolicy where
  | none
  | roundRobin
  | leastRequests
  | invalid
deriving DecidableEq

/-- The operation that forwards, numbered from 1, and its policy (`ForwardLoadBalance`). -/
structure ForwardLoadBalance where
  site : Nat := 0
  policy : LoadBalancePolicy := .none
deriving DecidableEq

def loadBalancePolicyValid (policy : LoadBalancePolicy) : Bool :=
  policy == .none || policy == .roundRobin || policy == .leastRequests

def forwardLoadBalanceValid (spec : ForwardLoadBalance) : Bool :=
  if spec.policy = .none then spec.site == 0
  else loadBalancePolicyValid spec.policy && spec.site != 0 && decide (spec.site ≤ kMaxForwardSites)

/-- The counters and cursors of a shard (`BackendSelectionState`). -/
structure BackendSelectionState where
  active : Nat → Nat → Nat := fun _ _ => 0
  cursor : Nat → Nat := fun _ => 0

structure BackendHealth where
  fails : Nat := 0
  ejectUntilUs : Nat := 0
  activeDown : Bool := false
deriving DecidableEq

/-- The part of a configuration that selection reads (`RouteConfig`); `add_addr` keeps the bound of an upstream. -/
structure RouteConfig where
  upstreamCount : Nat
  addrCount : Nat → Nat
  upstreamCount_le : upstreamCount ≤ kMaxUpstreams
  addrCount_le : ∀ uid, addrCount uid ≤ kMaxBackends

/-- What selection reads and writes: the tables of the thread, and those of the configuration for each shard. -/
structure Selector where
  health : Nat → Nat → BackendHealth := fun _ _ => {}
  rrCursor : Nat → Nat := fun _ => 0
  backendSelection : Nat → BackendSelectionState := fun _ => {}

def inSet (set : UInt8) (i : Nat) : Bool := set.toNat.testBit i

/-- The set of one backend (`static_cast<u8>(1u << i)`). -/
def setOf (i : Nat) : UInt8 := UInt8.ofNat (2 ^ i)

namespace Selector

def backendEjected (w : Selector) (uid i now : Nat) : Bool :=
  if uid ≥ kMaxUpstreams ∨ i ≥ kMaxBackends then false
  else (w.health uid i).activeDown || decide (now < (w.health uid i).ejectUntilUs)

def selectBackend (w : Selector) (uid count now : Nat) : Selector × Nat :=
  if count ≤ 1 ∨ uid ≥ kMaxUpstreams then (w, 0)
  else
    match (List.range count).find? fun step => !w.backendEjected uid ((w.rrCursor uid + step) % count) now with
    | some step =>
      let i := (w.rrCursor uid + step) % count
      ({ w with rrCursor := Function.update w.rrCursor uid ((i + 1) % count % 2 ^ 16) }, i)
    | none =>
      ({ w with rrCursor := Function.update w.rrCursor uid ((w.rrCursor uid + 1) % count % 2 ^ 16) },
        w.rrCursor uid % count)

/-- Some backend that is not excluded is healthy (`any_healthy`). -/
def anyHealthy (w : Selector) (uid count now : Nat) (excluded : UInt8) : Bool :=
  (List.range count).any fun i => !inSet excluded i && !w.backendEjected uid i now

def eligible (w : Selector) (uid count now : Nat) (excluded : UInt8) (i : Nat) : Bool :=
  !inSet excluded i && !(w.anyHealthy uid count now excluded && w.backendEjected uid i now)

def bestLoop (policy : LoadBalancePolicy) (eligible : Nat → Bool) (active : Nat → Nat) (count cursor : Nat) :
    List Nat → Nat → Nat
  | [], best => best
  | step :: steps, best =>
    let i := (cursor + step) % count
    if !eligible i then bestLoop policy eligible active count cursor steps best
    else
      let best := if best = count ∨ policy = .leastRequests ∧ active i < active best then i else best
      if policy = .roundRobin then best else bestLoop policy eligible active count cursor steps best

/-- The backend that the loop ends at, `count` if there is none. -/
def best (w : Selector) (shard : Nat) (spec : ForwardLoadBalance) (uid count now : Nat) (excluded : UInt8) : Nat :=
  bestLoop spec.policy (w.eligible uid count now excluded) ((w.backendSelection shard).active uid) count
    ((w.backendSelection shard).cursor (spec.site - 1)) (List.range count) count

def setCursor (w : Selector) (shard site cursor : Nat) : Selector :=
  let state := w.backendSelection shard
  let state := { state with cursor := Function.update state.cursor (site - 1) cursor }
  { w with backendSelection := Function.update w.backendSelection shard state }

def selectForwardBackend (w : Selector) (cfg : Option RouteConfig) (shard : Nat) (spec : ForwardLoadBalance)
    (uid count now : Nat) (excluded : UInt8) : Selector × Nat :=
  if cfg.isNone ∨ shard ≥ kMaxShards ∨ uid ≥ kMaxUpstreams ∨ count = 0 then (w, 0)
  else if spec.policy = .none then w.selectBackend uid count now
  else if forwardLoadBalanceValid spec = false then (w, count)
  else
    let best := w.best shard spec uid count now excluded
    (w.setCursor shard spec.site ((best + 1) % count % 2 ^ 16), best)

/-! ## What a selection is for -/

/-- The backends to choose from: those that are not excluded and are healthy, or all that are not excluded if none of
them is. -/
def Eligible (w : Selector) (uid count now : Nat) (excluded : UInt8) (i : Nat) : Prop :=
  i < count ∧ inSet excluded i = false ∧
    (w.backendEjected uid i now = false ∨ ∀ j < count, inSet excluded j = false → w.backendEjected uid j now = true)

structure Selects (w : Selector) (shard : Nat) (spec : ForwardLoadBalance) (uid count now : Nat) (excluded : UInt8)
    (r : Nat) : Prop where
  none : r = count ↔ ∀ i < count, inSet excluded i = true
  eligible : (∃ i < count, inSet excluded i = false) → r < count ∧ inSet excluded r = false ∧
    ((∃ i < count, inSet excluded i = false ∧ w.backendEjected uid i now = false) → w.backendEjected uid r now = false)
  roundRobin : spec.policy = .roundRobin → (∃ i < count, inSet excluded i = false) →
    IsNext (w.Eligible uid count now excluded) count ((w.backendSelection shard).cursor (spec.site - 1)) r
  leastRequests : spec.policy = .leastRequests → (∃ i < count, inSet excluded i = false) →
    (∀ i, w.Eligible uid count now excluded i →
      (w.backendSelection shard).active uid r ≤ (w.backendSelection shard).active uid i) ∧
    IsNext (fun i => w.Eligible uid count now excluded i ∧
        (w.backendSelection shard).active uid i = (w.backendSelection shard).active uid r)
      count ((w.backendSelection shard).cursor (spec.site - 1)) r

section loop

variable {el : Nat → Bool} {act : Nat → Nat} {n c : Nat}

lemma bestLoop_roundRobin (steps : List Nat) : bestLoop .roundRobin el act n c steps n =
      ((steps.find? fun s => el ((c + s) % n)).map fun s => (c + s) % n).getD n := by
  induction steps with
  | nil => rfl
  | cons s steps ih =>
    rw [bestLoop]
    cases hs : el ((c + s) % n) with
    | false => simp [hs, ih]
    | true => simp [hs]

/-- The best backend of some steps: the least loaded one, and the first of these. -/
def LeastOf (el : Nat → Bool) (act : Nat → Nat) (n c : Nat) (steps : List Nat) (best : Nat) : Prop :=
  (best = n ∧ ∀ s ∈ steps, el ((c + s) % n) = false) ∨
    ∃ pre s post, steps = pre ++ s :: post ∧ best = (c + s) % n ∧ el best = true ∧
      (∀ x ∈ pre, el ((c + x) % n) = true → act best < act ((c + x) % n)) ∧
      ∀ x ∈ post, el ((c + x) % n) = true → act best ≤ act ((c + x) % n)

lemma LeastOf.skip {steps best s} (h : LeastOf el act n c steps best)
    (hs : el ((c + s) % n) = true → best ≠ n ∧ act best ≤ act ((c + s) % n)) :
    LeastOf el act n c (steps ++ [s]) best := by
  rcases h with ⟨hbest, hnone⟩ | ⟨pre, b, post, rfl, hbest, hel, hpre, hpost⟩
  · refine .inl ⟨hbest, ?_⟩
    intro x hx
    rcases List.mem_append.mp hx with hx | hx
    · exact hnone x hx
    · rw [List.mem_singleton.mp hx]
      cases hel : el ((c + s) % n) with
      | false => rfl
      | true => exact absurd hbest (hs hel).1
  · refine .inr ⟨pre, b, post ++ [s], by simp, hbest, hel, hpre, ?_⟩
    intro x hx hx'
    rcases List.mem_append.mp hx with hx | hx
    · exact hpost x hx hx'
    · cases List.mem_singleton.mp hx
      exact (hs hx').2

lemma LeastOf.take {steps best s} (hn : 0 < n) (h : LeastOf el act n c steps best)
    (hs : el ((c + s) % n) = true) (hless : best = n ∨ act ((c + s) % n) < act best) :
    LeastOf el act n c (steps ++ [s]) ((c + s) % n) := by
  refine .inr ⟨steps, s, [], rfl, rfl, hs, ?_, fun _ hx => absurd hx List.not_mem_nil⟩
  intro x hx hx'
  rcases h with ⟨-, hnone⟩ | ⟨pre, b, post, rfl, rfl, hel, hpre, hpost⟩
  · rw [hnone x hx] at hx'
    cases hx'
  · have hlt := hless.resolve_left (Nat.mod_lt _ hn).ne
    rcases List.mem_append.mp hx with hx | hx
    · exact hlt.trans (hpre x hx hx')
    · rcases List.mem_cons.mp hx with rfl | hx
      · exact hlt
      · exact hlt.trans_le (hpost x hx hx')

lemma bestLoop_leastRequests (hn : 0 < n) (steps done : List Nat) (best : Nat) (h : LeastOf el act n c done best) :
    LeastOf el act n c (done ++ steps) (bestLoop .leastRequests el act n c steps best) := by
  induction steps generalizing done best with
  | nil => rwa [List.append_nil]
  | cons s steps ih =>
    rw [bestLoop, List.append_cons]
    cases hs : el ((c + s) % n) with
    | false =>
      apply ih
      exact h.skip fun hel => by rw [hs] at hel; cases hel
    | true =>
      apply ih
      by_cases hbest : best = n ∨ act ((c + s) % n) < act best
      · rw [if_pos (hbest.imp_right fun hlt => ⟨rfl, hlt⟩)]
        exact h.take hn hs hbest
      · rw [if_neg fun hcond => hbest (hcond.imp_right And.right)]
        exact h.skip fun _ => ⟨fun heq => hbest (.inl heq), Nat.not_lt.mp fun hlt => hbest (.inr hlt)⟩

lemma exists_step {i} (hi : i < n) : ∃ s < n, (c + s) % n = i := by
  have hn : 0 < n := Nat.zero_lt_of_lt hi
  refine ⟨(i + (n - c % n)) % n, Nat.mod_lt _ hn, ?_⟩
  have hc : c % n < n := Nat.mod_lt c hn
  rw [Nat.add_mod_mod]
  calc (c + (i + (n - c % n))) % n = (c % n + (i + (n - c % n))) % n := (Nat.mod_add_mod c n _).symm
    _ = (i + n) % n := by congr 1; omega
    _ = i := by rw [Nat.add_mod_right, Nat.mod_eq_of_lt hi]

variable {E : Nat → Prop}

lemma bestLoop_range_roundRobin (hel : ∀ i < n, el i = true ↔ E i) (hE : ∀ i, E i → i < n) :
    (bestLoop .roundRobin el act n c (List.range n) n = n ∧ ∀ i, ¬ E i) ∨
      IsNext E n c (bestLoop .roundRobin el act n c (List.range n) n) := by
  rw [bestLoop_roundRobin]
  cases hfind : (List.range n).find? fun s => el ((c + s) % n) with
  | none =>
    refine .inl ⟨rfl, ?_⟩
    intro i hi
    obtain ⟨s, hs, rfl⟩ := exists_step (c := c) (hE i hi)
    exact List.find?_eq_none.mp hfind s (List.mem_range.mpr hs) ((hel _ (hE _ hi)).mpr hi)
  | some s =>
    obtain ⟨hs, hsn, hbefore⟩ := List.find?_range_eq_some.mp hfind
    have hmem := List.mem_range.mp hsn
    have hmod : ∀ s, (c + s) % n < n := fun s => Nat.mod_lt _ (Nat.zero_lt_of_lt hmem)
    refine .inr ⟨s, hmem, rfl, (hel _ (hmod s)).mp hs, ?_⟩
    intro x hx hEx
    have hskip := hbefore x hx
    rw [(hel _ (hmod x)).mpr hEx] at hskip
    cases hskip

lemma bestLoop_range_leastRequests (hn : 0 < n) (hel : ∀ i < n, el i = true ↔ E i) (hE : ∀ i, E i → i < n) :
    (bestLoop .leastRequests el act n c (List.range n) n = n ∧ ∀ i, ¬ E i) ∨
      (∀ i, E i → act (bestLoop .leastRequests el act n c (List.range n) n) ≤ act i) ∧
      IsNext (fun i => E i ∧ act i = act (bestLoop .leastRequests el act n c (List.range n) n)) n c
        (bestLoop .leastRequests el act n c (List.range n) n) := by
  have hmod : ∀ s, (c + s) % n < n := fun s => Nat.mod_lt _ hn
  have hstart : LeastOf el act n c [] n := .inl ⟨rfl, fun _ hs => absurd hs List.not_mem_nil⟩
  have hloop := bestLoop_leastRequests hn (List.range n) [] n hstart
  rw [List.nil_append] at hloop
  rcases hloop with ⟨hbest, hnone⟩ | ⟨pre, s, post, hrange, hbest, hs, hpre, hpost⟩
  · refine .inl ⟨hbest, ?_⟩
    intro i hi
    obtain ⟨s, hs, rfl⟩ := exists_step (c := c) (hE i hi)
    have hskip := hnone s (List.mem_range.mpr hs)
    rw [(hel _ (hE _ hi)).mpr hi] at hskip
    cases hskip
  · rw [hbest] at hs hpre hpost ⊢
    have hsorted : (pre ++ s :: post).Pairwise (· < ·) := hrange ▸ List.pairwise_lt_range
    obtain ⟨-, hafter, -⟩ := List.pairwise_append.mp hsorted
    have hsn : s < n := List.mem_range.mp (hrange ▸ List.mem_append_right _ List.mem_cons_self)
    refine .inr ⟨?_, s, hsn, rfl, ⟨(hel _ (hmod s)).mp hs, rfl⟩, ?_⟩
    · intro i hi
      obtain ⟨x, hx, rfl⟩ := exists_step (c := c) (hE i hi)
      have hx' := (hel _ (hE _ hi)).mpr hi
      have hmem : x ∈ pre ++ s :: post := hrange ▸ List.mem_range.mpr hx
      rcases List.mem_append.mp hmem with hmem | hmem
      · exact (hpre x hmem hx').le
      · rcases List.mem_cons.mp hmem with rfl | hmem
        · exact le_refl _
        · exact hpost x hmem hx'
    · rintro x hx ⟨hEx, heq⟩
      have hmem : x ∈ pre ++ s :: post := hrange ▸ List.mem_range.mpr (hx.trans hsn)
      rcases List.mem_append.mp hmem with hmem | hmem
      · exact absurd heq (hpre x hmem ((hel _ (hmod x)).mpr hEx)).ne'
      · rcases List.mem_cons.mp hmem with rfl | hmem
        · exact absurd hx (lt_irrefl _)
        · exact absurd ((List.pairwise_cons.mp hafter).1 x hmem) hx.asymm

end loop

/-- The arguments that `select_forward_backend` accepts, for one of the two policies. -/
structure Admitted (shard : Nat) (spec : ForwardLoadBalance) (uid count : Nat) : Prop where
  shard : shard < kMaxShards
  uid : uid < kMaxUpstreams
  pos : 0 < count
  le : count ≤ kMaxBackends
  policy : spec.policy = .roundRobin ∨ spec.policy = .leastRequests
  site_pos : 0 < spec.site
  site_le : spec.site ≤ kMaxForwardSites

section select

variable {w : Selector} {cfg : RouteConfig} {shard uid count now : Nat} {spec : ForwardLoadBalance} {excluded : UInt8}

lemma Admitted.select_eq (h : Admitted shard spec uid count) :
    w.selectForwardBackend (some cfg) shard spec uid count now excluded =
      (w.setCursor shard spec.site ((w.best shard spec uid count now excluded + 1) % count),
        w.best shard spec uid count now excluded) := by
  have hshard := h.shard
  have huid := h.uid
  have hpos := h.pos
  have hle := h.le
  have hargs : ¬ ((some cfg).isNone = true ∨ shard ≥ kMaxShards ∨ uid ≥ kMaxUpstreams ∨ count = 0) := by
    rw [Option.isNone_some]
    simp only [Bool.false_eq_true, false_or]
    omega
  have hpolicy : spec.policy ≠ .none := by
    rcases h.policy with hp | hp <;> rw [hp] <;> decide
  have hvalid : forwardLoadBalanceValid spec ≠ false := by
    have hsite := h.site_pos
    rw [forwardLoadBalanceValid, if_neg hpolicy]
    rcases h.policy with hp | hp <;> simp [loadBalancePolicyValid, hp, h.site_le, hsite.ne']
  have hlt : (w.best shard spec uid count now excluded + 1) % count < 2 ^ 16 := by
    have hmod := Nat.mod_lt (w.best shard spec uid count now excluded + 1) hpos
    rw [kMaxBackends] at hle
    omega
  rw [selectForwardBackend, if_neg hargs, if_neg hpolicy, if_neg hvalid]
  simp only [Nat.mod_eq_of_lt hlt]

lemma anyHealthy_iff (w : Selector) (uid count now : Nat) (excluded : UInt8) : w.anyHealthy uid count now excluded = true ↔
    ∃ i < count, inSet excluded i = false ∧ w.backendEjected uid i now = false := by
  simp only [anyHealthy, List.any_eq_true, List.mem_range, Bool.and_eq_true, Bool.not_eq_true']

lemma eligible_iff {i} (hi : i < count) :
    w.eligible uid count now excluded i = true ↔ w.Eligible uid count now excluded i := by
  have hany := anyHealthy_iff w uid count now excluded
  rw [eligible, Eligible, Bool.and_eq_true, Bool.not_eq_true', Bool.not_eq_true', Bool.and_eq_false_iff]
  cases hcase : w.anyHealthy uid count now excluded with
  | false =>
    have hdown : ∀ j < count, inSet excluded j = false → w.backendEjected uid j now = true := by
      intro j hj hset
      by_contra hup
      have hex := hany.mpr ⟨j, hj, hset, Bool.eq_false_iff.mpr hup⟩
      rw [hcase] at hex
      cases hex
    exact ⟨fun h => ⟨hi, h.1, .inr hdown⟩, fun h => ⟨h.2.1, .inl rfl⟩⟩
  | true =>
    obtain ⟨j, hj, hset, hup⟩ := hany.mp hcase
    constructor
    · rintro ⟨hin, hfalse | hhealthy⟩
      · cases hfalse
      · exact ⟨hi, hin, .inl hhealthy⟩
    · rintro ⟨-, hin, hhealthy | hdown⟩
      · exact ⟨hin, .inr hhealthy⟩
      · rw [hdown j hj hset] at hup
        cases hup

lemma exists_eligible (w : Selector) (uid now : Nat) (h : ∃ i < count, inSet excluded i = false) : ∃ i, w.Eligible uid count now excluded i := by
  by_cases hex : ∃ i < count, inSet excluded i = false ∧ w.backendEjected uid i now = false
  · obtain ⟨i, hi, hset, hup⟩ := hex
    exact ⟨i, hi, hset, .inl hup⟩
  · obtain ⟨i, hi, hset⟩ := h
    refine ⟨i, hi, hset, .inr ?_⟩
    intro j hj hset'
    by_contra hup
    exact hex ⟨j, hj, hset', Bool.eq_false_iff.mpr hup⟩

lemma selects_best (h : Admitted shard spec uid count) (w : Selector) (now : Nat) (excluded : UInt8) :
    w.Selects shard spec uid count now excluded (w.best shard spec uid count now excluded) := by
  have hel : ∀ i < count, w.eligible uid count now excluded i = true ↔ w.Eligible uid count now excluded i :=
    fun i hi => eligible_iff hi
  have hlt : ∀ i, w.Eligible uid count now excluded i → i < count := fun i hi => hi.1
  -- with something to choose from the loop does not end without a backend
  have hchosen : (∃ i < count, inSet excluded i = false) →
      ¬ ∀ i, ¬ w.Eligible uid count now excluded i := by
    intro hex hnone
    obtain ⟨i, hi⟩ := exists_eligible w uid now hex
    exact hnone i hi
  have hround : spec.policy = .roundRobin → (∃ i < count, inSet excluded i = false) →
      IsNext (w.Eligible uid count now excluded) count ((w.backendSelection shard).cursor (spec.site - 1))
        (w.best shard spec uid count now excluded) := by
    intro hp hex
    rw [best, hp]
    exact (bestLoop_range_roundRobin hel hlt).resolve_left fun hnone => hchosen hex hnone.2
  have hleast : spec.policy = .leastRequests → (∃ i < count, inSet excluded i = false) →
      (∀ i, w.Eligible uid count now excluded i →
        (w.backendSelection shard).active uid (w.best shard spec uid count now excluded) ≤
          (w.backendSelection shard).active uid i) ∧
      IsNext (fun i => w.Eligible uid count now excluded i ∧ (w.backendSelection shard).active uid i =
          (w.backendSelection shard).active uid (w.best shard spec uid count now excluded))
        count ((w.backendSelection shard).cursor (spec.site - 1)) (w.best shard spec uid count now excluded) := by
    intro hp hex
    rw [best, hp]
    exact (bestLoop_range_leastRequests h.pos hel hlt).resolve_left fun hnone => hchosen hex hnone.2
  have heligible : (∃ i < count, inSet excluded i = false) →
      w.Eligible uid count now excluded (w.best shard spec uid count now excluded) := by
    intro hex
    rcases h.policy with hp | hp
    · obtain ⟨step, -, -, hE, -⟩ := hround hp hex
      exact hE
    · obtain ⟨step, -, -, hE, -⟩ := (hleast hp hex).2
      exact hE.1
  refine ⟨⟨?_, ?_⟩, ?_, hround, hleast⟩
  · intro heq i hi
    by_contra hset
    have hbest := (heligible ⟨i, hi, Bool.eq_false_iff.mpr hset⟩).1
    exact absurd heq hbest.ne
  · intro hall
    have hnone : ∀ i, ¬ w.Eligible uid count now excluded i := by
      intro i hi
      have hset := hall i hi.1
      rw [hi.2.1] at hset
      cases hset
    rcases h.policy with hp | hp
    · rw [best, hp]
      rcases bestLoop_range_roundRobin hel hlt with hend | ⟨step, -, -, hE, -⟩
      · exact hend.1
      · exact absurd hE (hnone _)
    · rw [best, hp]
      rcases bestLoop_range_leastRequests h.pos hel hlt with hend | ⟨-, step, -, -, hE, -⟩
      · exact hend.1
      · exact absurd hE.1 (hnone _)
  · intro hex
    obtain ⟨hbest, hset, hhealth⟩ := heligible hex
    refine ⟨hbest, hset, ?_⟩
    rintro ⟨i, hi, hset', hup⟩
    refine hhealth.resolve_right fun hdown => ?_
    rw [hdown i hi hset'] at hup
    cases hup

end select

/-! ## Rotation -/

lemma setCursor_cursor (w : Selector) (shard site cursor : Nat) :
    ((w.setCursor shard site cursor).backendSelection shard).cursor (site - 1) = cursor := by
  simp only [setCursor, Function.update_self]

/-- Selections in turn at a site, between which everything but the cursor of the site may change, as long as the eligible
backends stay the same. -/
inductive Rotates (cfg : RouteConfig) (shard site n : Nat) (E : Nat → Prop) (w : Selector) :
    List Nat → Selector → Prop where
  | nil : Rotates cfg shard site n E w [] w
  | other {l : List Nat} {w' w'' : Selector} (h : Rotates cfg shard site n E w l w')
      (hc : (w''.backendSelection shard).cursor (site - 1) = (w'.backendSelection shard).cursor (site - 1)) :
      Rotates cfg shard site n E w l w''
  | select {l : List Nat} {w' : Selector} {uid now : Nat} {excluded : UInt8} (h : Rotates cfg shard site n E w l w')
      (huid : uid < kMaxUpstreams) (hE : ∀ i, w'.Eligible uid n now excluded i ↔ E i) :
      Rotates cfg shard site n E w
        (l ++ [(w'.selectForwardBackend (some cfg) shard ⟨site, .roundRobin⟩ uid n now excluded).2])
        (w'.selectForwardBackend (some cfg) shard ⟨site, .roundRobin⟩ uid n now excluded).1

section rotation

variable {cfg : RouteConfig} {shard site n : Nat} {E : Nat → Prop} {w w' : Selector} {l : List Nat}

lemma Rotates.turns (h : Rotates cfg shard site n E w l w') (hshard : shard < kMaxShards) (hn : 0 < n)
    (hle : n ≤ kMaxBackends) (hsite : 0 < site) (hsites : site ≤ kMaxForwardSites) (hE : ∃ i, E i) :
    Turns E n ((w.backendSelection shard).cursor (site - 1)) l ((w'.backendSelection shard).cursor (site - 1)) := by
  induction h with
  | nil => exact .nil
  | other h hc ih =>
    rw [hc]
    exact ih
  | @select l w' uid now excluded h huid heq ih =>
    have hadmitted : Admitted shard ⟨site, .roundRobin⟩ uid n := ⟨hshard, huid, hn, hle, .inl rfl, hsite, hsites⟩
    have hset : w'.Eligible uid n now excluded = E := funext fun i => propext (heq i)
    obtain ⟨i, hi⟩ := hE
    obtain ⟨hin, hfree, -⟩ := (heq i).mpr hi
    have hnext := (selects_best hadmitted w' now excluded).roundRobin rfl ⟨i, hin, hfree⟩
    rw [hset] at hnext
    rw [hadmitted.select_eq, setCursor_cursor]
    exact ih.snoc hnext (Nat.mod_mod _ _)

lemma Rotates.nodup [DecidablePred E] (h : Rotates cfg shard site n E w l w') (hshard : shard < kMaxShards)
    (hn : 0 < n) (hle : n ≤ kMaxBackends) (hsite : 0 < site) (hsites : site ≤ kMaxForwardSites)
    (hlen : l.length ≤ Nat.count E n) : l.Nodup := by
  by_cases hE : ∃ i, E i
  · exact (h.turns hshard hn hle hsite hsites hE).nodup hlen
  · have hzero : Nat.count E n = 0 := by
      rw [Nat.count_eq_card_filter_range, Finset.card_eq_zero, Finset.filter_eq_empty_iff]
      exact fun i _ hi => hE ⟨i, hi⟩
    rw [hzero, Nat.le_zero, List.length_eq_zero_iff] at hlen
    rw [hlen]
    exact List.nodup_nil

end rotation

end Selector

/-! ## Retries -/

/-- The part of a connection that selection reads and writes (`Connection`); `backendActive` is the counter that the
connection is counted in. -/
structure Connection where
  requestConfig : Option RouteConfig := none
  shardId : Nat := 0
  upstreamIdx : Nat := 0
  forwardLoadBalance : ForwardLoadBalance := {}
  upstreamAttempts : Nat := 0
  upstreamBackendIdx : Nat := 0
  upstreamAttemptedBackends : UInt8 := 0
  backendActive : Option (Nat × Nat × Nat) := none

def Connection.markAttempted (c : Connection) (i : Nat) : Connection :=
  { c with upstreamAttemptedBackends := c.upstreamAttemptedBackends ||| setOf i }

structure ConnectInput where
  socketCreated : Bool
  connectSubmitted : Bool
  nowUs : Nat

namespace Selector

def addActive (w : Selector) (counter : Nat × Nat × Nat) (delta : Nat) : Selector :=
  let state := w.backendSelection counter.1
  let row := state.active counter.2.1
  let row := Function.update row counter.2.2 ((row counter.2.2 + delta) % 2 ^ 32)
  let state := { state with active := Function.update state.active counter.2.1 row }
  { w with backendSelection := Function.update w.backendSelection counter.1 state }

def releaseBackendActive (w : Selector) (c : Connection) : Selector × Connection :=
  match c.backendActive with
  | some counter => (w.addActive counter (2 ^ 32 - 1), { c with backendActive := none })
  | none => (w, c)

def holdBackendActive (w : Selector) (c : Connection) : Selector × Connection :=
  let (w, c) := w.releaseBackendActive c
  if c.requestConfig.isNone ∨ c.shardId ≥ kMaxShards ∨ c.upstreamIdx ≥ kMaxUpstreams ∨
      c.upstreamBackendIdx ≥ kMaxBackends then (w, c)
  else
    let counter := (c.shardId, c.upstreamIdx, c.upstreamBackendIdx)
    (w.addActive counter 1, { c with backendActive := some counter })

/-- The connects that an upstream of so many backends gets (`kBudget`). -/
def connectBudget (addrCount : Nat) : Nat := if addrCount < kMaxConnectAttempts then addrCount else kMaxConnectAttempts

/-- The part of `try_connect_next_backend` from the selection on. -/
def connectSelected (w : Selector) (c : Connection) (addrCount : Nat) (input : ConnectInput) :
    Selector × Connection × Option Nat × Bool :=
  let selected := w.selectForwardBackend c.requestConfig c.shardId c.forwardLoadBalance c.upstreamIdx addrCount
    input.nowUs c.upstreamAttemptedBackends
  if selected.2 ≥ addrCount then (selected.1, c, none, false)
  else
    let held := selected.1.holdBackendActive
      { c.markAttempted selected.2 with upstreamBackendIdx := selected.2 % 2 ^ 8 }
    (held.1, held.2, some selected.2, input.connectSubmitted)

/-- The part of `try_connect_next_backend` behind the new socket. -/
def connectNext (w : Selector) (c : Connection) (addrCount : Nat) (input : ConnectInput) :
    Selector × Connection × Option Nat × Bool :=
  let released := w.releaseBackendActive { c with upstreamAttempts := (c.upstreamAttempts + 1) % 2 ^ 8 }
  released.1.connectSelected released.2 addrCount input

/-- `try_connect_next_backend`: the connection afterwards, the backend that was chosen, and whether the connect was
submitted. -/
def tryConnectNextBackend (w : Selector) (c : Connection) (input : ConnectInput) :
    Selector × Connection × Option Nat × Bool :=
  match c.requestConfig with
  | none => (w, c, none, false)
  | some config =>
    let addrCount := config.addrCount c.upstreamIdx
    if c.upstreamIdx ≥ config.upstreamCount ∨ c.upstreamAttempts ≥ connectBudget addrCount then (w, c, none, false)
    else
      let c := if c.upstreamBackendIdx < addrCount then c.markAttempted c.upstreamBackendIdx else c
      if input.socketCreated = false then (w, c, none, false) else w.connectNext c addrCount input

end Selector

lemma inSet_or (a b : UInt8) (i : Nat) : inSet (a ||| b) i = (inSet a i || inSet b i) := by
  rw [inSet, UInt8.toNat_or, Nat.testBit_or]
  rfl

lemma inSet_setOf {i} (hi : i < kMaxBackends) (j : Nat) : inSet (setOf i) j = decide (i = j) := by
  have hlt : 2 ^ i < 2 ^ 8 := Nat.pow_lt_pow_right (by decide) hi
  rw [inSet, setOf, UInt8.toNat_ofNat', Nat.mod_eq_of_lt hlt, Nat.testBit_two_pow]

namespace Connection

structure Forwards (c : Connection) (cfg : RouteConfig) : Prop where
  config : c.requestConfig = some cfg
  shard : c.shardId < kMaxShards
  policy : c.forwardLoadBalance.policy = .roundRobin ∨ c.forwardLoadBalance.policy = .leastRequests
  site_pos : 0 < c.forwardLoadBalance.site
  site_le : c.forwardLoadBalance.site ≤ kMaxForwardSites
  backend : c.upstreamBackendIdx < cfg.addrCount c.upstreamIdx

/-- The two are the same for selection, and what was attempted stays so. -/
structure Keeps (c c' : Connection) : Prop where
  config : c'.requestConfig = c.requestConfig
  shard : c'.shardId = c.shardId
  upstream : c'.upstreamIdx = c.upstreamIdx
  policy : c'.forwardLoadBalance = c.forwardLoadBalance
  attempted : ∀ i, inSet c.upstreamAttemptedBackends i = true → inSet c'.upstreamAttemptedBackends i = true

lemma Keeps.forwards {c c' : Connection} {cfg} (h : c.Keeps c') (hc : c.Forwards cfg)
    (hb : c'.upstreamBackendIdx < cfg.addrCount c.upstreamIdx) : c'.Forwards cfg := by
  obtain ⟨hconfig, hshard, hupstream, hpolicy, -⟩ := h
  constructor
  case config => exact hconfig.trans hc.config
  case shard => rw [hshard]; exact hc.shard
  case policy => rw [hpolicy]; exact hc.policy
  case site_pos => rw [hpolicy]; exact hc.site_pos
  case site_le => rw [hpolicy]; exact hc.site_le
  case backend => rw [hupstream]; exact hb

lemma Keeps.refl (c : Connection) : c.Keeps c := ⟨rfl, rfl, rfl, rfl, fun _ h => h⟩

lemma Keeps.trans {c c' c'' : Connection} (h : c.Keeps c') (h' : c'.Keeps c'') : c.Keeps c'' :=
  ⟨h'.config.trans h.config, h'.shard.trans h.shard, h'.upstream.trans h.upstream, h'.policy.trans h.policy,
    fun i hi => h'.attempted i (h.attempted i hi)⟩

lemma keeps_markAttempted (c : Connection) (i : Nat) : c.Keeps (c.markAttempted i) := by
  refine ⟨rfl, rfl, rfl, rfl, ?_⟩
  intro j hin
  rw [markAttempted, inSet_or, hin, Bool.true_or]

lemma markAttempted_self (c : Connection) {i} (hi : i < kMaxBackends) :
    inSet (c.markAttempted i).upstreamAttemptedBackends i = true := by
  rw [markAttempted, inSet_or, inSet_setOf hi, decide_eq_true rfl, Bool.or_true]

/-- A retry chose no backend, or one of the upstream that was not attempted. -/
def Retried (c : Connection) (cfg : RouteConfig) (c' : Connection) (chosen : Option Nat) : Prop :=
  c.Keeps c' ∧ ((chosen = none ∧ c'.upstreamBackendIdx = c.upstreamBackendIdx) ∨
    ∃ b, chosen = some b ∧ c'.upstreamBackendIdx = b ∧ b < cfg.addrCount c.upstreamIdx ∧
      inSet c.upstreamAttemptedBackends b = false ∧ inSet c'.upstreamAttemptedBackends b = true)

end Connection

namespace Selector

variable {c : Connection} {cfg : RouteConfig}

lemma releaseBackendActive_conn (w : Selector) (c : Connection) :
    ∃ active, (w.releaseBackendActive c).2 = { c with backendActive := active } := by
  unfold releaseBackendActive
  split
  · exact ⟨none, rfl⟩
  · exact ⟨c.backendActive, rfl⟩

lemma holdBackendActive_conn (w : Selector) (c : Connection) :
    ∃ active, (w.holdBackendActive c).2 = { c with backendActive := active } := by
  obtain ⟨active, heq⟩ := w.releaseBackendActive_conn c
  rw [holdBackendActive]
  generalize w.releaseBackendActive c = p at heq
  obtain ⟨w', c'⟩ := p
  cases heq
  simp only
  split_ifs
  · exact ⟨active, rfl⟩
  · exact ⟨_, rfl⟩

lemma connectSelected_retried (h : c.Forwards cfg) (hupstream : c.upstreamIdx < kMaxUpstreams) (w : Selector)
    (input : ConnectInput) : c.Retried cfg (w.connectSelected c (cfg.addrCount c.upstreamIdx) input).2.1
      (w.connectSelected c (cfg.addrCount c.upstreamIdx) input).2.2.1 := by
  have hadmitted : Admitted c.shardId c.forwardLoadBalance c.upstreamIdx (cfg.addrCount c.upstreamIdx) :=
    ⟨h.shard, hupstream, Nat.zero_lt_of_lt h.backend, cfg.addrCount_le _, h.policy, h.site_pos, h.site_le⟩
  have hselects := selects_best hadmitted w input.nowUs c.upstreamAttemptedBackends
  simp only [connectSelected, h.config, hadmitted.select_eq]
  generalize w.best c.shardId c.forwardLoadBalance c.upstreamIdx (cfg.addrCount c.upstreamIdx) input.nowUs
    c.upstreamAttemptedBackends = b at hselects
  split_ifs with hnone
  · exact ⟨.refl c, .inl ⟨rfl, rfl⟩⟩
  · have hlt : b < cfg.addrCount c.upstreamIdx := Nat.not_le.mp hnone
    have hb : b < kMaxBackends := hlt.trans_le (cfg.addrCount_le _)
    have hfree : ∃ i < cfg.addrCount c.upstreamIdx, inSet c.upstreamAttemptedBackends i = false := by
      by_contra hall
      refine absurd (hselects.none.mpr ?_) hlt.ne
      intro i hi
      by_contra hset
      exact hall ⟨i, hi, Bool.eq_false_iff.mpr hset⟩
    have hsmall : b % 2 ^ 8 = b := by
      rw [kMaxBackends] at hb
      exact Nat.mod_eq_of_lt (by omega)
    rw [hsmall]
    obtain ⟨active, heq⟩ := holdBackendActive_conn
      (w.setCursor c.shardId c.forwardLoadBalance.site ((b + 1) % cfg.addrCount c.upstreamIdx))
      { c.markAttempted b with upstreamBackendIdx := b }
    rw [heq]
    obtain ⟨hconfig, hshard, hidx, hpolicy, hattempted⟩ := c.keeps_markAttempted b
    exact ⟨⟨hconfig, hshard, hidx, hpolicy, hattempted⟩,
      .inr ⟨b, rfl, rfl, hlt, (hselects.eligible hfree).2.1, c.markAttempted_self hb⟩⟩

lemma connectNext_retried (h : c.Forwards cfg) (hupstream : c.upstreamIdx < kMaxUpstreams) (w : Selector)
    (input : ConnectInput) : c.Retried cfg (w.connectNext c (cfg.addrCount c.upstreamIdx) input).2.1
      (w.connectNext c (cfg.addrCount c.upstreamIdx) input).2.2.1 := by
  obtain ⟨active, hreleased⟩ :=
    w.releaseBackendActive_conn { c with upstreamAttempts := (c.upstreamAttempts + 1) % 2 ^ 8 }
  simp only [connectNext, hreleased]
  generalize (w.releaseBackendActive { c with upstreamAttempts := (c.upstreamAttempts + 1) % 2 ^ 8 }).1 = w'
  have hforwards : Connection.Forwards
      { c with upstreamAttempts := (c.upstreamAttempts + 1) % 2 ^ 8, backendActive := active } cfg :=
    ⟨h.config, h.shard, h.policy, h.site_pos, h.site_le, h.backend⟩
  obtain ⟨⟨hconfig, hshard, hidx, hpolicy, hattempted⟩, hcase⟩ :=
    connectSelected_retried hforwards hupstream w' input
  exact ⟨⟨hconfig, hshard, hidx, hpolicy, hattempted⟩, hcase⟩

lemma tryConnectNextBackend_retried (h : c.Forwards cfg) (w : Selector) (input : ConnectInput) :
    c.Retried cfg (w.tryConnectNextBackend c input).2.1 (w.tryConnectNextBackend c input).2.2.1 ∧
      ∀ b, (w.tryConnectNextBackend c input).2.2.1 = some b → b ≠ c.upstreamBackendIdx ∧
        inSet (w.tryConnectNextBackend c input).2.1.upstreamAttemptedBackends c.upstreamBackendIdx = true := by
  have hnone : ∀ {b : Nat}, (none : Option Nat) ≠ some b := fun hb => by cases hb
  have hidx : c.upstreamBackendIdx < kMaxBackends := h.backend.trans_le (cfg.addrCount_le _)
  rw [tryConnectNextBackend, h.config]
  simp only [if_pos h.backend]
  split_ifs with hrefused hsocket
  · exact ⟨⟨.refl c, .inl ⟨rfl, rfl⟩⟩, fun b hb => hb.elim⟩
  · exact ⟨⟨c.keeps_markAttempted _, .inl ⟨rfl, rfl⟩⟩, fun b hb => hb.elim⟩
  · have hupstream : c.upstreamIdx < kMaxUpstreams := by
      have hle := cfg.upstreamCount_le
      omega
    -- the backend the connection is at counts as attempted when the next one is chosen
    have hmarked : (c.markAttempted c.upstreamBackendIdx).Forwards cfg :=
      (c.keeps_markAttempted _).forwards h h.backend
    obtain ⟨hkeeps, hcase⟩ := connectNext_retried hmarked hupstream w input
    refine ⟨⟨(c.keeps_markAttempted _).trans hkeeps, ?_⟩, ?_⟩
    · refine hcase.imp id ?_
      rintro ⟨b, hb, hat, hlt, hfree, hset⟩
      refine ⟨b, hb, hat, hlt, ?_, hset⟩
      by_contra hin
      rw [(c.keeps_markAttempted _).attempted b (Bool.not_eq_false _ ▸ hin)] at hfree
      cases hfree
    · intro b hb
      refine ⟨?_, hkeeps.attempted _ (c.markAttempted_self hidx)⟩
      rintro rfl
      rcases hcase with ⟨hno, -⟩ | ⟨b', hb', -, -, hfree, -⟩
      · exact absurd (hno.symm.trans hb) hnone
      · cases hb'.symm.trans hb
        rw [c.markAttempted_self hidx] at hfree
        cases hfree

end Selector

/-- The retries of one request, each with the tables as it finds them; other events of the connection do not take back
what was attempted. -/
inductive Retries (c : Connection) : List Nat → Connection → Prop where
  | nil : Retries c [] c
  | retry {l : List Nat} {c' : Connection} (h : Retries c l c') (w : Selector) (input : ConnectInput) :
      Retries c (l ++ (w.tryConnectNextBackend c' input).2.2.1.toList) (w.tryConnectNextBackend c' input).2.1
  | other {l : List Nat} {c' c'' : Connection} (h : Retries c l c') (hkeeps : c'.Keeps c'')
      (hb : c''.upstreamBackendIdx = c'.upstreamBackendIdx) : Retries c l c''

lemma Retries.nodup {c c' cfg l} (h : Retries c l c') (hc : c.Forwards cfg) :
    (c.upstreamBackendIdx :: l).Nodup ∧ c'.Forwards cfg ∧ c'.upstreamIdx = c.upstreamIdx ∧
      ∀ b ∈ c.upstreamBackendIdx :: l, inSet c'.upstreamAttemptedBackends b = true ∨ b = c'.upstreamBackendIdx := by
  induction h with
  | nil => exact ⟨List.nodup_singleton _, hc, rfl, fun b hb => .inr (List.mem_singleton.mp hb)⟩
  | @other l c' c'' h hkeeps hb ih =>
    obtain ⟨hnodup, hforwards, hidx, hseen⟩ := ih
    refine ⟨hnodup, hkeeps.forwards hforwards (hb ▸ hforwards.backend), hkeeps.upstream.trans hidx, ?_⟩
    intro b hmem
    rw [hb]
    exact (hseen b hmem).imp_left (hkeeps.attempted b)
  | @retry l c' h w input ih =>
    obtain ⟨hnodup, hforwards, hidx, hseen⟩ := ih
    obtain ⟨⟨hkeeps, hcase⟩, hother⟩ := Selector.tryConnectNextBackend_retried hforwards w input
    generalize w.tryConnectNextBackend c' input = p at hkeeps hcase hother
    rcases hcase with ⟨hnone, hat⟩ | ⟨b, hb, hat, hlt, hfree, hset⟩
    · rw [hnone, Option.toList_none, List.append_nil]
      refine ⟨hnodup, hkeeps.forwards hforwards (hat ▸ hforwards.backend), hkeeps.upstream.trans hidx, ?_⟩
      intro b hmem
      rw [hat]
      exact (hseen b hmem).imp_left (hkeeps.attempted b)
    · obtain ⟨hne, hcurrent⟩ := hother b hb
      rw [hb, Option.toList_some, ← List.cons_append]
      refine ⟨List.nodup_append.mpr ⟨hnodup, List.nodup_singleton b, ?_⟩, hkeeps.forwards hforwards (hat ▸ hlt),
        hkeeps.upstream.trans hidx, ?_⟩
      · intro b' hmem b'' hmem' heq
        cases List.mem_singleton.mp hmem'
        subst heq
        rcases hseen b' hmem with hin | hcur
        · rw [hin] at hfree
          cases hfree
        · exact hne hcur
      · intro b' hmem
        rcases List.mem_append.mp hmem with hmem | hmem
        · rcases hseen b' hmem with hin | rfl
          · exact .inl (hkeeps.attempted b' hin)
          · exact .inl hcurrent
        · cases List.mem_singleton.mp hmem
          exact .inl hset

/-- For both policies: a selection is eligible, next to the cursor or least loaded, and there is none only if all backends
are excluded. As many selections in turn as there are eligible backends are all different, and so are the backends that
one request tries. -/
theorem backend_selection_fair :
    (∀ (w : Selector) (cfg : RouteConfig) (shard : Nat) (spec : ForwardLoadBalance) (uid count now : Nat)
        (excluded : UInt8), Selector.Admitted shard spec uid count →
      w.Selects shard spec uid count now excluded
        (w.selectForwardBackend (some cfg) shard spec uid count now excluded).2) ∧
    (∀ (cfg : RouteConfig) (shard site n : Nat) (E : Nat → Prop) [DecidablePred E] (w w' : Selector) (l : List Nat),
      shard < kMaxShards → 0 < n → n ≤ kMaxBackends → 0 < site → site ≤ kMaxForwardSites →
      Selector.Rotates cfg shard site n E w l w' → l.length ≤ Nat.count E n → l.Nodup) ∧
    ∀ (c c' : Connection) (cfg : RouteConfig) (l : List Nat), c.Forwards cfg → Retries c l c' →
      (c.upstreamBackendIdx :: l).Nodup := by
  refine ⟨?_, ?_, ?_⟩
  · intro w cfg shard spec uid count now excluded hadmitted
    rw [hadmitted.select_eq]
    exact Selector.selects_best hadmitted w now excluded
  · intro cfg shard site n E _ w w' l hshard hn hle hsite hsites h hlen
    exact h.nodup hshard hn hle hsite hsites hlen
  · intro c c' cfg l hc h
    exact (h.nodup hc).1

def threeBackends : RouteConfig := ⟨1, fun _ => 3, by decide, fun _ => by decide⟩

def firstAttempt : Connection :=
  { requestConfig := some threeBackends, forwardLoadBalance := ⟨1, .leastRequests⟩, upstreamAttempts := 1,
    upstreamAttemptedBackends := 1 }

/-- One selection, and one retry, of three healthy backends. -/
theorem three_backends_fair :
    ({} : Selector).Selects 0 ⟨1, .roundRobin⟩ 0 3 0 0 0 ∧
    [(({} : Selector).selectForwardBackend (some threeBackends) 0 ⟨1, .roundRobin⟩ 0 3 0 0).2].Nodup ∧
    (0 :: (({} : Selector).tryConnectNextBackend firstAttempt ⟨true, true, 0⟩).2.2.1.toList).Nodup := by
  obtain ⟨hselects, hrotates, hretries⟩ := backend_selection_fair
  have heligible : ∀ i, ({} : Selector).Eligible 0 3 0 0 i ↔ i < 3 := by
    intro i
    have hhealthy : ({} : Selector).backendEjected 0 i 0 = false := by simp [Selector.backendEjected]
    exact ⟨fun h => h.1, fun h => ⟨h, Nat.zero_testBit i, .inl hhealthy⟩⟩
  refine ⟨?_, ?_, ?_⟩
  · exact hselects {} threeBackends 0 ⟨1, .roundRobin⟩ 0 3 0 0
      ⟨by decide, by decide, by decide, by decide, .inl rfl, by decide, by decide⟩
  · exact hrotates threeBackends 0 1 3 (· < 3) {} _ _ (by decide) (by decide) (by decide) (by decide) (by decide)
      (.select .nil (show 0 < kMaxUpstreams by decide) heligible) (by decide)
  · exact hretries firstAttempt _ threeBackends _
      ⟨rfl, by decide, .inr rfl, by decide, by decide, by decide⟩ (.retry .nil {} ⟨true, true, 0⟩)

end Rut.Upstream
