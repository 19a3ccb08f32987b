import Rut.RateLimit.Enforce

/-!
# Effects of a decision

What `rate_limit_decision_with_limiters` does to the slots of the limiters. The evaluation goes on behind a rule that
rejects. Such a rule writes nothing, but that a shard limiter gives a slot whose bucket has recovered to the new key
before it finds that the clock has no room for the request.
-/

namespace Rut.RateLimit

structure Turn where
  rule : Metered
  before : Limiters
  decision : Decision
  after : Limiters

def turns (now : Nat) : List Metered → Limiters → List Turn
  | [], _ => []
  | m :: ms, l => ⟨m, l, (l.meter m now).1, (l.meter m now).2⟩ :: turns now ms (l.meter m now).2

def Limiters.stored (l : Limiters) (scope : Scope) (i : Fin kSlots) : Nat :=
  match scope with
  | .shard => (l.shard.slots i).tat
  | .global => l.global.elim 0 fun g => g.slots i

/-- The slot of another key has recovered, and the clock has no room for the next arrival. -/
def Limiters.TakesOver (l : Limiters) (m : Metered) (now : Nat) : Prop :=
  m.scope = .shard ∧ (l.shard.slots (slotOf m.key)).key ≠ m.key ∧ (l.shard.slots (slotOf m.key)).tat ≤ now ∧
    kMaxU64 - m.emit < now

instance (l : Limiters) (m : Metered) (now : Nat) : Decidable (l.TakesOver m now) :=
  inferInstanceAs (Decidable (_ ∧ _ ∧ _ ∧ _))

variable {l : Limiters} {m : Metered} {now : Nat}

lemma conform_rejects {tat emit tau} (h : (conform tat emit tau now).1.allowed = false) :
    (conform tat emit tau now).2 = none ∧ (now + tau < tat ∨ kMaxU64 - emit < max now tat) := by
  obtain ⟨hlate, hc⟩ | ⟨-, hover, hc⟩ | ⟨-, -, hc⟩ := conform_cases tat emit tau now
  · rw [hc]
    exact ⟨rfl, .inl hlate⟩
  · rw [hc]
    exact ⟨rfl, .inr hover⟩
  · rw [hc] at h
    cases h

lemma RateLimiter.put_same (r : RateLimiter) (i : Fin kSlots) : r.put i (r.slots i) = r := by
  rw [put, Function.update_eq_self]

lemma RateLimiter.allowKeyDetailed_rejects {r : RateLimiter} {key emit tau} (hemit : emit ≠ 0)
    (h : (r.allowKeyDetailed key emit tau now).1.allowed = false) : ((r.allowKeyDetailed key emit tau now).2 = r ∧
      ¬((r.slots (slotOf key)).key ≠ key ∧ (r.slots (slotOf key)).tat ≤ now ∧ kMaxU64 - emit < now)) ∨
    ((r.allowKeyDetailed key emit tau now).2 = r.put (slotOf key) ⟨key, 0⟩ ∧
      (r.slots (slotOf key)).key ≠ key ∧ (r.slots (slotOf key)).tat ≤ now ∧ kMaxU64 - emit < now) := by
  obtain ⟨-, hbusy, heq⟩ | ⟨hfree, heq⟩ := r.allowKeyDetailed_cases key tau now hemit
  · rw [heq]
    exact .inl ⟨rfl, fun h => absurd h.2.1 (Nat.not_le.mpr hbusy)⟩
  · rw [heq] at h ⊢
    obtain ⟨hnone, hwhy⟩ := conform_rejects h
    rw [hnone, Option.getD_none]
    by_cases hkey : (r.slots (slotOf key)).key = key
    · refine .inl ⟨?_, fun h => h.1 hkey⟩
      have hslot : (⟨key, r.arrival key⟩ : Slot) = r.slots (slotOf key) := by
        rw [arrival, if_pos hkey]
        nth_rewrite 1 [← hkey]
        rfl
      rw [hslot, r.put_same]
    · -- A bucket that is taken over starts empty, so only the clock can reject.
      have hzero : r.arrival key = 0 := by rw [arrival, if_neg hkey]
      rw [hzero] at hwhy ⊢
      exact .inr ⟨rfl, hkey, hfree.resolve_left hkey, by omega⟩

lemma GlobalRateLimiter.allowKeyDetailed_rejects {g : GlobalRateLimiter} {key emit tau} (hemit : emit ≠ 0)
    (h : (g.allowKeyDetailed key emit tau now).1.allowed = false) : (g.allowKeyDetailed key emit tau now).2 = g := by
  rw [g.allowKeyDetailed_eq key tau now hemit] at h ⊢
  rw [(conform_rejects h).1, Option.elim_none]

lemma Limiters.meter_rejects (hemit : m.emit ≠ 0) (h : (l.meter m now).1.allowed = false) :
    ((l.meter m now).2 = l ∧ ¬l.TakesOver m now) ∨
    ((l.meter m now).2 = { l with shard := l.shard.put (slotOf m.key) ⟨m.key, 0⟩ } ∧ l.TakesOver m now) := by
  unfold meter at h ⊢
  unfold TakesOver
  cases hs : m.scope with
  | shard =>
    rw [hs] at h
    dsimp only at h ⊢
    obtain ⟨heq, hnot⟩ | ⟨heq, hover⟩ := RateLimiter.allowKeyDetailed_rejects hemit h
    · rw [heq]
      exact .inl ⟨rfl, fun h => hnot h.2⟩
    · rw [heq]
      exact .inr ⟨rfl, rfl, hover⟩
  | global =>
    refine .inl ⟨?_, fun h => by cases h.1⟩
    cases hg : l.global with
    | none => rfl
    | some g =>
      rw [hs, hg] at h
      dsimp only at h ⊢
      rw [GlobalRateLimiter.allowKeyDetailed_rejects hemit h, ← hg]

lemma Limiters.meter_stored (hemit : m.emit ≠ 0) (h : (l.meter m now).1.allowed = false) (s : Scope) (i : Fin kSlots) :
    (l.meter m now).2.stored s i = if l.TakesOver m now ∧ s = m.scope ∧ i = slotOf m.key then 0 else l.stored s i := by
  obtain ⟨heq, hnot⟩ | ⟨heq, hover⟩ := meter_rejects hemit h
  · rw [heq, if_neg fun h => hnot h.1]
  · rw [heq, hover.1]
    by_cases hi : s = .shard ∧ i = slotOf m.key
    · obtain ⟨rfl, rfl⟩ := hi
      rw [if_pos ⟨hover, rfl, rfl⟩]
      rw [stored, RateLimiter.put_slots_self]
    · rw [if_neg fun h => hi h.2]
      cases s with
      | shard => rw [stored, stored, RateLimiter.put_slots_ne _ _ fun h => hi ⟨rfl, h⟩]
      | global => rw [stored, stored]

/-! ## The run over the rules -/

variable {ms : List Metered} {out : Decision}

lemma turns_meter {t} (ht : t ∈ turns now ms l) : t.rule ∈ ms ∧ t.before.meter t.rule now = (t.decision, t.after) := by
  induction ms generalizing l with
  | nil => cases ht
  | cons m ms ih =>
    rcases List.mem_cons.mp ht with rfl | ht
    · exact ⟨List.mem_cons_self, rfl⟩
    · obtain ⟨hm, heq⟩ := ih ht
      exact ⟨List.mem_cons_of_mem _ hm, heq⟩

lemma evaluate_turns (now : Nat) (ms : List Metered) (out : Decision) (l : Limiters) :
    (evaluate now ms out l).1.allowed = true ↔
      out.allowed = true ∧ ∀ t ∈ turns now ms l, t.decision.allowed = true := by
  induction ms generalizing out l with
  | nil => simp [evaluate, turns]
  | cons m ms ih =>
    rw [turns, List.forall_mem_cons, ← and_assoc, ← Bool.and_eq_true_iff]
    exact ih _ _

lemma evaluate_after (now : Nat) (ms : List Metered) (out : Decision) (l : Limiters) :
    (evaluate now ms out l).2 = ((turns now ms l).getLast?.map Turn.after).getD l := by
  induction ms generalizing out l with
  | nil => rfl
  | cons m ms ih =>
    have hcons : evaluate now (m :: ms) out l = evaluate now ms (out.add (l.meter m now).1 m.scope) (l.meter m now).2 := rfl
    rw [hcons, ih, turns, List.getLast?_cons]
    cases (turns now ms (l.meter m now).2).getLast? <;> rfl

/-- A decision that fails its preflight changes no limiter. Otherwise it is allowed if every active rule is, the limiters
are those after the last rule, and a rule that rejects leaves all arrival times as they are, but that of a slot that it
takes over. -/
theorem decision_effects (l : Limiters) (rules : List Rule) (ids : Option (List Nat)) (q : KeyInput) (now : Nat) :
    (rules ≠ [] → preflight l rules ids ≠ none →
      (rateLimitDecision l rules ids q now).1.allowed = false ∧ (rateLimitDecision l rules ids q now).2 = l) ∧
    (rules = [] ∨ preflight l rules ids = none →
      ((rateLimitDecision l rules ids q now).1.allowed = true ↔
        ∀ t ∈ turns now (metered rules (ids.getD []) q) l, t.decision.allowed = true) ∧
      (rateLimitDecision l rules ids q now).2 =
        ((turns now (metered rules (ids.getD []) q) l).getLast?.map Turn.after).getD l ∧
      ∀ t ∈ turns now (metered rules (ids.getD []) q) l,
        t.before.meter t.rule now = (t.decision, t.after) ∧
        (t.decision.allowed = false → ∀ s i, t.after.stored s i =
          if t.before.TakesOver t.rule now ∧ s = t.rule.scope ∧ i = slotOf t.rule.key then 0 else t.before.stored s i)) := by
  constructor
  · intro hrules hpre
    obtain ⟨reason, hreason⟩ := Option.ne_none_iff_exists'.mp hpre
    rw [rateLimitDecision, if_neg hrules, hreason]
    exact ⟨rfl, rfl⟩
  · intro hpass
    have hrun : rateLimitDecision l rules ids q now = evaluate now (metered rules (ids.getD []) q) {} l := by
      unfold rateLimitDecision
      by_cases hrules : rules = []
      · rw [if_pos hrules, hrules]
        rfl
      · rw [if_neg hrules, hpass.resolve_left hrules]
    refine ⟨?_, ?_, ?_⟩
    · rw [hrun, evaluate_turns]
      exact and_iff_right rfl
    · rw [hrun, evaluate_after]
    · intro t ht
      obtain ⟨hmem, heq⟩ := turns_meter ht
      refine ⟨heq, fun hrej s i => ?_⟩
      have hmeter : (t.before.meter t.rule now).1.allowed = false := by
        rw [heq]
        exact hrej
      have h := Limiters.meter_stored (metered_emit _ hmem) hmeter s i
      rwa [heq] at h

/-- Without its global limiter a rule changes nothing; a shard rule on fresh limiters is allowed. -/
theorem decision_effects_fresh :
    (preflight ⟨{}, none⟩ [⟨.global, 1000, 0, []⟩] (some [8]) ≠ none ∧
      (rateLimitDecision ⟨{}, none⟩ [⟨.global, 1000, 0, []⟩] (some [8]) {} 1000).2 = ⟨{}, none⟩) ∧
    preflight ⟨{}, none⟩ [⟨.shard, 1000, 0, []⟩] (some [8]) = none ∧
      (rateLimitDecision ⟨{}, none⟩ [⟨.shard, 1000, 0, []⟩] (some [8]) {} 1000).1.allowed = true := by
  refine ⟨⟨by decide, ?_⟩, by decide, ?_⟩
  · exact ((decision_effects _ _ _ _ _).1 (by decide) (by decide)).2
  · apply ((decision_effects _ _ _ _ _).2 (.inr (by decide))).1.mpr
    intro t ht
    obtain rfl := List.mem_singleton.mp ht
    decide +kernel

/-- A request of a local client under a rule at the end of the clock, in a slot that another rule has used: it is
rejected, and the time of that rule is gone. -/
theorem takenOver_changes :
    ¬∀ (l : Limiters) (rules : List Rule) (ids : Option (List Nat)) (q : KeyInput) (now : Nat), now ≤ kMaxU64 →
      preflight l rules ids = none → ∀ t ∈ turns now (metered rules (ids.getD []) q) l, t.decision.allowed = false →
        t.after.stored t.rule.scope (slotOf t.rule.key) = t.before.stored t.rule.scope (slotOf t.rule.key) := by
  intro h
  have hsame := h (rateLimitDecision ⟨{}, none⟩ [⟨.shard, 1000, 0, []⟩] (some [8]) { peerAddr := 0x0100007f } 1000).2
    [⟨.shard, 1000, 0, []⟩] (some [47]) { peerAddr := 0x0100007f } kMaxU64 le_rfl (by decide +kernel) _
    List.mem_cons_self (by decide +kernel)
  revert hsame
  decide +kernel

end Rut.RateLimit
