import Rut.RateLimit.Key
import Rut.RateLimit.Limiter

/-!
# Enforcement of stacked rules

Port of `include/rut/runtime/rate_limit_enforce.h`. A request is metered by every active rule, and the wait in the
decision is the longest one. It is long enough for the same request to be allowed, unless two of its rules fall on one
slot of a limiter or the clock runs out.
-/

namespace Rut.RateLimit

/-- A rule (`RateLimitRule`), with the fields that enforcement reads. -/
structure Rule where
  scope : Scope := .shard
  emitIntervalUs : Nat := 0
  tauUs : Nat := 0
  key : List KeyComponent := []
deriving DecidableEq

structure Limiters where
  shard : RateLimiter
  global : Option GlobalRateLimiter

/-- `rate_limit_reason_precedes`. -/
def RejectReason.rank : RejectReason → Nat
  | .missingSemanticId => 6
  | .missingGlobal => 5
  | .stateOverflow => 4
  | .shardCollision => 3
  | .budget => 2
  | .none => 0

/-- `rate_limit_reason_index`. -/
def RejectReason.index : RejectReason → Nat
  | .budget => 0
  | .shardCollision => 1
  | .stateOverflow => 2
  | .missingGlobal | .missingSemanticId | .none => 0

structure Metered where
  scope : Scope
  key : Nat
  emit : Nat
  tau : Nat
deriving DecidableEq

/-- A rule meters a request. A global rule has a limiter, or the preflight has failed. -/
def Limiters.meter (l : Limiters) (m : Metered) (now : Nat) : Decision × Limiters :=
  match m.scope, l.global with
  | .shard, _ =>
    let (d, shard) := l.shard.allowKeyDetailed m.key m.emit m.tau now
    (d, { l with shard })
  | .global, some g =>
    let (d, g) := g.allowKeyDetailed m.key m.emit m.tau now
    (d, { l with global := some g })
  | .global, none => ({}, l)

def Decision.add (out current : Decision) (scope : Scope) : Decision :=
  { allowed := out.allowed && current.allowed
    retryKnown := out.retryKnown && current.retryKnown
    nextWaitUs := if out.nextWaitUs < current.nextWaitUs then current.nextWaitUs else out.nextWaitUs
    rejectReason :=
      if !current.allowed && (out.rejectReason == .none || decide (out.rejectReason.rank < current.rejectReason.rank)) then
        current.rejectReason
      else out.rejectReason
    rulesEvaluatedByScope := fun s => if s = scope then (out.rulesEvaluatedByScope s + 1) % 2 ^ 8 else out.rulesEvaluatedByScope s
    rulesRejectedByScopeReason := fun s r =>
      if !current.allowed && decide (s = scope ∧ r = current.rejectReason.index) then
        (out.rulesRejectedByScopeReason s r + 1) % 2 ^ 8
      else out.rulesRejectedByScopeReason s r }

def evaluate (now : Nat) : List Metered → Decision → Limiters → Decision × Limiters
  | [], out, l => (out, l)
  | m :: ms, out, l =>
    let (d, l) := l.meter m now
    evaluate now ms (out.add d m.scope) l

/-- The active rules, each with the key of the request under its identifier. -/
def metered (rules : List Rule) (ids : List Nat) (q : KeyInput) : List Metered :=
  ((rules.zipIdx).filter fun r => r.1.emitIntervalUs ≠ 0).map fun (r, i) =>
    ⟨r.scope, rateLimitKey (ids.getD i 0) r.key q, r.emitIntervalUs, r.tauUs⟩

/-- What is missing for the rules to meter at all: identifiers, or the limiter of an active global rule. -/
def preflight (l : Limiters) (rules : List Rule) : Option (List Nat) → Option RejectReason
  | none => some .missingSemanticId
  | some ids =>
    if (rules.zipIdx).any fun (r, i) => r.emitIntervalUs != 0 && ids.getD i 0 == 0 then some .missingSemanticId
    else if l.global.isNone && rules.any fun r => r.scope == .global && r.emitIntervalUs != 0 then some .missingGlobal
    else none

/-- `rate_limit_decision_with_limiters`. -/
def rateLimitDecision (l : Limiters) (rules : List Rule) (ids : Option (List Nat)) (q : KeyInput) (now : Nat) :
    Decision × Limiters :=
  if rules = [] then ({}, l)
  else
    match preflight l rules ids with
    | some reason => ({ allowed := false, retryKnown := false, rejectReason := reason }, l)
    | none => evaluate now (metered rules (ids.getD []) q) {} l

/-! ## Slots -/

variable {l : Limiters} {m m' : Metered} {now later : Nat}

def Metered.Meet (m m' : Metered) : Prop := m.scope = m'.scope ∧ slotOf m.key = slotOf m'.key

instance (m m' : Metered) : Decidable (m.Meet m') := inferInstanceAs (Decidable (_ ∧ _))

def Limiters.Ready (l : Limiters) (m : Metered) (now : Nat) : Prop :=
  match m.scope, l.global with
  | .shard, _ =>
    ((l.shard.slots (slotOf m.key)).key = m.key ∨ (l.shard.slots (slotOf m.key)).tat ≤ now) ∧
      l.shard.arrival m.key ≤ now + m.tau
  | .global, some g => g.slots (slotOf m.key) ≤ now + m.tau
  | .global, none => True

lemma conform_allowed {tat emit tau} (h : tat ≤ now + tau) (hclock : now + tau + emit ≤ kMaxU64) :
    (conform tat emit tau now).1.allowed = true := by
  obtain ⟨hlate, -⟩ | ⟨-, hover, -⟩ | ⟨-, -, hc⟩ := conform_cases tat emit tau now
  · omega
  · omega
  · rw [hc]

lemma conform_wait {tat emit tau} (hknown : (conform tat emit tau now).1.retryKnown = true)
    (hlater : now + (conform tat emit tau now).1.nextWaitUs ≤ later) :
    (conform tat emit tau now).2.getD tat ≤ later + tau := by
  obtain ⟨-, hc⟩ | ⟨-, -, hc⟩ | ⟨-, -, hc⟩ := conform_cases tat emit tau now
  · rw [hc] at hlater ⊢
    dsimp only [Option.getD_none] at hlater ⊢
    omega
  · rw [hc] at hknown
    cases hknown
  · rw [hc] at hlater ⊢
    dsimp only [Option.getD_some] at hlater ⊢
    omega

lemma GlobalRateLimiter.allowKeyDetailed_eq (g : GlobalRateLimiter) {emit} (key tau now : Nat) (hemit : emit ≠ 0) :
    g.allowKeyDetailed key emit tau now = ((conform (g.slots (slotOf key)) emit tau now).1,
        (conform (g.slots (slotOf key)) emit tau now).2.elim g (g.put (slotOf key))) := by
  rw [allowKeyDetailed, if_neg hemit]

lemma GlobalRateLimiter.elim_put_slots (g : GlobalRateLimiter) (i : Fin kSlots) (next : Option Nat) :
    (next.elim g (g.put i)).slots i = next.getD (g.slots i) := by
  cases next with
  | none => rfl
  | some tat => exact g.put_slots_self i tat

lemma RateLimiter.arrival_put (r : RateLimiter) (key tat : Nat) : (r.put (slotOf key) ⟨key, tat⟩).arrival key = tat := by
  rw [arrival, put_slots_self, if_pos rfl]

namespace Limiters

lemma Ready.allowed (h : l.Ready m now) (hemit : m.emit ≠ 0) (hclock : now + m.tau + m.emit ≤ kMaxU64) :
    (l.meter m now).1.allowed = true := by
  unfold Ready at h
  unfold meter
  cases hs : m.scope with
  | shard =>
    rw [hs] at h
    obtain ⟨hfree, harrival⟩ := h
    obtain ⟨hother, hbusy, -⟩ | ⟨-, heq⟩ := l.shard.allowKeyDetailed_cases m.key m.tau now hemit
    · rcases hfree with hkey | hidle
      · exact absurd hkey hother
      · omega
    · dsimp only
      rw [heq]
      exact conform_allowed harrival hclock
  | global =>
    cases hg : l.global with
    | none => rfl
    | some g =>
      rw [hs, hg] at h
      dsimp only
      rw [g.allowKeyDetailed_eq m.key m.tau now hemit]
      exact conform_allowed h hclock

lemma meter_ready (hemit : m.emit ≠ 0) (hknown : (l.meter m now).1.retryKnown = true)
    (hlater : now + (l.meter m now).1.nextWaitUs ≤ later) : (l.meter m now).2.Ready m later := by
  unfold Ready
  unfold meter at hknown hlater ⊢
  cases hs : m.scope with
  | shard =>
    rw [hs] at hknown hlater
    obtain ⟨hother, hbusy, heq⟩ | ⟨-, heq⟩ := l.shard.allowKeyDetailed_cases m.key m.tau now hemit
    · rw [heq] at hlater ⊢
      dsimp only at hlater ⊢
      refine ⟨.inr (by omega), ?_⟩
      rw [RateLimiter.arrival, if_neg hother]
      exact Nat.zero_le _
    · rw [heq] at hknown hlater ⊢
      rw [RateLimiter.put_slots_self, RateLimiter.arrival_put]
      exact ⟨.inl rfl, conform_wait hknown hlater⟩
  | global =>
    cases hg : l.global with
    | none =>
      rw [hg]
      trivial
    | some g =>
      rw [hs, hg] at hknown hlater
      dsimp only at hknown hlater ⊢
      rw [g.allowKeyDetailed_eq m.key m.tau now hemit] at hknown hlater ⊢
      rw [g.elim_put_slots]
      exact conform_wait hknown hlater

lemma Ready.meter (h : l.Ready m' later) (hne : ¬m.Meet m') (hemit : m.emit ≠ 0) : (l.meter m now).2.Ready m' later := by
  unfold Ready at h ⊢
  unfold Limiters.meter
  cases hs : m.scope with
  | shard =>
    cases hs' : m'.scope with
    | global =>
      rw [hs'] at h
      cases hg : l.global with
      | none => trivial
      | some g =>
        rw [hg] at h
        exact h
    | shard =>
      have hslot : slotOf m'.key ≠ slotOf m.key := fun heq => hne ⟨hs.trans hs'.symm, heq.symm⟩
      rw [hs'] at h
      obtain ⟨-, -, heq⟩ | ⟨-, heq⟩ := l.shard.allowKeyDetailed_cases m.key m.tau now hemit
      · rw [heq]
        exact h
      · rw [heq]
        unfold RateLimiter.arrival at h ⊢
        rw [RateLimiter.put_slots_ne _ _ hslot]
        exact h
  | global =>
    cases hg : l.global with
    | none =>
      exact h
    | some g =>
      cases hs' : m'.scope with
      | shard =>
        rw [hs'] at h
        exact h
      | global =>
        have hslot : slotOf m'.key ≠ slotOf m.key := fun heq => hne ⟨hs.trans hs'.symm, heq.symm⟩
        rw [hs', hg] at h
        dsimp only at h ⊢
        rw [g.allowKeyDetailed_eq m.key m.tau now hemit]
        cases hc : (conform (g.slots (slotOf m.key)) m.emit m.tau now).2 with
        | none =>
          exact h
        | some tat =>
          rw [Option.elim_some, GlobalRateLimiter.put_slots_ne _ _ hslot]
          exact h

lemma meter_global (l : Limiters) (m : Metered) (now : Nat) : (l.meter m now).2.global.isNone = l.global.isNone := by
  unfold meter
  cases hs : m.scope with
  | shard => rfl
  | global =>
    cases hg : l.global with
    | none => exact congrArg Option.isNone hg
    | some g => rfl

end Limiters

/-! ## Stacked rules -/

variable {ms : List Metered} {out : Decision}

lemma evaluate_wait (now : Nat) (ms : List Metered) (out : Decision) (l : Limiters) :
    out.nextWaitUs ≤ (evaluate now ms out l).1.nextWaitUs ∧
      ((evaluate now ms out l).1.retryKnown = true → out.retryKnown = true) := by
  induction ms generalizing out l with
  | nil => exact ⟨le_rfl, id⟩
  | cons m ms ih =>
    obtain ⟨hwait, hknown⟩ := ih (out.add (l.meter m now).1 m.scope) (l.meter m now).2
    refine ⟨le_trans ?_ hwait, fun h => (Bool.and_eq_true_iff.mp (hknown h)).1⟩
    unfold Decision.add
    dsimp only
    split <;> omega

lemma evaluate_other (hemit : ∀ m ∈ ms, m.emit ≠ 0) (h : l.Ready m' later) (hne : ∀ m ∈ ms, ¬m.Meet m') :
    (evaluate now ms out l).2.Ready m' later := by
  induction ms generalizing out l with
  | nil => exact h
  | cons m ms ih =>
    rw [List.forall_mem_cons] at hemit hne
    exact ih hemit.2 (h.meter hne.1 hemit.1) hne.2

lemma evaluate_ready (hemit : ∀ m ∈ ms, m.emit ≠ 0) (hslots : ms.Pairwise fun m m' => ¬m.Meet m')
    (hknown : (evaluate now ms out l).1.retryKnown = true) (hlater : now + (evaluate now ms out l).1.nextWaitUs ≤ later) :
    ∀ m ∈ ms, (evaluate now ms out l).2.Ready m later := by
  induction ms generalizing out l with
  | nil => exact fun m hm => absurd hm List.not_mem_nil
  | cons m ms ih =>
    rw [List.forall_mem_cons] at hemit
    rw [List.pairwise_cons] at hslots
    rw [evaluate] at hknown hlater ⊢
    rw [List.forall_mem_cons]
    refine ⟨?_, ih hemit.2 hslots.2 hknown hlater⟩
    obtain ⟨hwait, hk⟩ := evaluate_wait now ms (out.add (l.meter m now).1 m.scope) (l.meter m now).2
    have hown : (l.meter m now).1.nextWaitUs ≤ (out.add (l.meter m now).1 m.scope).nextWaitUs := by
      unfold Decision.add
      dsimp only
      split <;> omega
    have hready : (l.meter m now).2.Ready m later := by
      refine Limiters.meter_ready hemit.1 (Bool.and_eq_true_iff.mp (hk hknown)).2 ?_
      exact (Nat.add_le_add_left (hown.trans hwait) now).trans hlater
    exact evaluate_other hemit.2 hready fun m' hm' hmeet => hslots.1 m' hm' ⟨hmeet.1.symm, hmeet.2.symm⟩

lemma evaluate_allowed (hemit : ∀ m ∈ ms, m.emit ≠ 0) (hslots : ms.Pairwise fun m m' => ¬m.Meet m')
    (hready : ∀ m ∈ ms, l.Ready m now) (hclock : ∀ m ∈ ms, now + m.tau + m.emit ≤ kMaxU64) (hout : out.allowed = true) :
    (evaluate now ms out l).1.allowed = true := by
  induction ms generalizing out l with
  | nil => exact hout
  | cons m ms ih =>
    rw [List.forall_mem_cons] at hemit hready hclock
    rw [List.pairwise_cons] at hslots
    refine ih hemit.2 hslots.2 (fun m' hm' => ?_) hclock.2 ?_
    · exact (hready.2 m' hm').meter (hslots.1 m' hm') hemit.1
    · exact Bool.and_eq_true_iff.mpr ⟨hout, hready.1.allowed hemit.1 hclock.1⟩

lemma evaluate_global (now : Nat) (ms : List Metered) (out : Decision) (l : Limiters) :
    (evaluate now ms out l).2.global.isNone = l.global.isNone := by
  induction ms generalizing out l with
  | nil => rfl
  | cons m ms ih => exact (ih _ _).trans (l.meter_global m now)

lemma metered_emit {rules ids q} : ∀ m ∈ metered rules ids q, m.emit ≠ 0 := by
  intro m hm
  obtain ⟨r, hr, rfl⟩ := List.mem_map.mp hm
  exact of_decide_eq_true (List.mem_filter.mp hr).2

lemma preflight_congr {l l' rules ids}
    (h : l.global.isNone = l'.global.isNone) : preflight l rules ids = preflight l' rules ids := by
  cases ids with
  | none => rfl
  | some ids => rw [preflight, preflight, h]

lemma rateLimitDecision_known {rules ids q} (hrules : rules ≠ [])
    (hknown : (rateLimitDecision l rules ids q now).1.retryKnown = true) : preflight l rules ids = none ∧
      rateLimitDecision l rules ids q now = evaluate now (metered rules (ids.getD []) q) {} l := by
  unfold rateLimitDecision at hknown ⊢
  rw [if_neg hrules] at hknown ⊢
  cases hpre : preflight l rules ids with
  | some reason =>
    rw [hpre] at hknown
    cases hknown
  | none => exact ⟨rfl, rfl⟩

/-- The wait is honoured: a request whose active rules meter in different slots, and whose decision has a known wait, is
allowed when it is made again after the wait, if the clock has room for it. -/
theorem retry_allowed (l : Limiters) (rules : List Rule) (ids : Option (List Nat)) (q : KeyInput) (now later : Nat)
    (hknown : (rateLimitDecision l rules ids q now).1.retryKnown = true)
    (hlater : now + (rateLimitDecision l rules ids q now).1.nextWaitUs ≤ later)
    (hslots : (metered rules (ids.getD []) q).Pairwise fun m m' => ¬m.Meet m')
    (hclock : ∀ m ∈ metered rules (ids.getD []) q, later + m.tau + m.emit ≤ kMaxU64) :
    (rateLimitDecision (rateLimitDecision l rules ids q now).2 rules ids q later).1.allowed = true := by
  by_cases hrules : rules = []
  · rw [rateLimitDecision, if_pos hrules]
  · obtain ⟨hpre, heq⟩ := rateLimitDecision_known hrules hknown
    rw [heq] at hknown hlater ⊢
    have hpre' : preflight (evaluate now (metered rules (ids.getD []) q) {} l).2 rules ids = none := by
      rw [preflight_congr (evaluate_global ..), hpre]
    rw [rateLimitDecision, if_neg hrules, hpre']
    exact evaluate_allowed metered_emit hslots (evaluate_ready metered_emit hslots hknown hlater) hclock rfl

def spentLimiters : Limiters :=
  (rateLimitDecision ⟨{}, none⟩ [⟨.shard, 60000000, 0, []⟩] (some [8]) { peerAddr := 0x0100007f } 1000).2

/-- A second request is rejected, and allowed when it is made again after the wait. -/
theorem spentLimiters_retry :
    let d := rateLimitDecision spentLimiters [⟨.shard, 60000000, 0, []⟩] (some [8]) { peerAddr := 0x0100007f } 1001000
    d.1.allowed = false ∧ d.1.nextWaitUs = 59000000 ∧
      (rateLimitDecision d.2 [⟨.shard, 60000000, 0, []⟩] (some [8]) { peerAddr := 0x0100007f } 60001000).1.allowed =
        true := by
  refine ⟨by decide, by decide, ?_⟩
  refine retry_allowed _ _ _ _ _ _ (by decide) (by decide) (List.pairwise_singleton _ _) ?_
  decide

/-- Two rules of one request a second, with identifiers whose keys fall on one slot for a local client: the first rule
takes the slot, the second one always finds it taken. -/
theorem collidingRules_rejected :
    ¬∀ (l : Limiters) (rules : List Rule) (ids : Option (List Nat)) (q : KeyInput) (now later : Nat),
      rules.length ≤ 4 → later ≤ kMaxU64 → (rateLimitDecision l rules ids q now).1.allowed = false →
      (rateLimitDecision l rules ids q now).1.retryKnown = true →
      now + (rateLimitDecision l rules ids q now).1.nextWaitUs ≤ later →
        (rateLimitDecision (rateLimitDecision l rules ids q now).2 rules ids q later).1.allowed = true := by
  intro h
  have hretry := h ⟨{}, none⟩ [⟨.shard, 1000000, 0, []⟩, ⟨.shard, 1000000, 0, []⟩] (some [8, 47])
    { peerAddr := 0x0100007f } 1000 1001000 (by decide) (by decide) (by decide +kernel) (by decide +kernel)
    (by decide +kernel)
  have hrejected : (rateLimitDecision (rateLimitDecision ⟨{}, none⟩ [⟨.shard, 1000000, 0, []⟩, ⟨.shard, 1000000, 0, []⟩]
      (some [8, 47]) { peerAddr := 0x0100007f } 1000).2 [⟨.shard, 1000000, 0, []⟩, ⟨.shard, 1000000, 0, []⟩]
      (some [8, 47]) { peerAddr := 0x0100007f } 1001000).1.allowed = false := by
    decide +kernel
  rw [hretry] at hrejected
  cases hrejected

end Rut.RateLimit
