import Rut.Lib.Gcra
import Rut.Lib.Trace
import Rut.RateLimit.Limiter

/-!
# The limiter that all shards share

The shards read and exchange the arrival time of a slot in atomic steps, which interleave in any order; each call
brings its own clock value. An exchange succeeds only on the value the decision was made for, and may fail without a
reason. So every grant moves the arrival time of its slot on, whoever shares the slot, and nothing moves it back.
-/

namespace Rut.RateLimit

open Lib (Trace Gcra.Conforms Gcra.next Gcra.Paced)

/-- The arguments of a call of `GlobalRateLimiter::allow_key_detailed`. -/
structure GlobalCall where
  key : Nat
  emit : Nat
  tau : Nat
  now : Nat
deriving DecidableEq

/-- Where a shard is: outside a call, in front of the load, or in the loop with the arrival time it has read. -/
inductive Phase where
  | idle
  | loading (call : GlobalCall)
  | trying (call : GlobalCall) (tat : Nat)
deriving DecidableEq

structure World (ι : Type) where
  limiter : GlobalRateLimiter
  shards : ι → Phase

variable {ι : Type} [DecidableEq ι]

def World.goto (w : World ι) (i : ι) (p : Phase) : World ι := { w with shards := Function.update w.shards i p }

/-- What a shard does: it enters a call, loads the slot, fails to exchange it, or leaves the call with a decision. -/
inductive ShardAct where
  | call (call : GlobalCall)
  | load
  | retry
  | «return» (decision : Decision)

inductive ShardStep : World ι → ι × ShardAct → World ι → Prop where
  | call {w : World ι} {i : ι} (c : GlobalCall) (hi : w.shards i = .idle) :
      ShardStep w (i, .call c) (w.goto i (.loading c))
  | disabled {w : World ι} {i : ι} {c : GlobalCall} (hi : w.shards i = .loading c) (hc : c.emit = 0) :
      ShardStep w (i, .return {}) (w.goto i .idle)
  | load {w : World ι} {i : ι} {c : GlobalCall} (hi : w.shards i = .loading c) (hc : c.emit ≠ 0) :
      ShardStep w (i, .load) (w.goto i (.trying c (w.limiter.slots (slotOf c.key))))
  | reject {w : World ι} {i : ι} {c : GlobalCall} {tat : Nat} {d : Decision} (hi : w.shards i = .trying c tat)
      (hd : conform tat c.emit c.tau c.now = (d, none)) : ShardStep w (i, .return d) (w.goto i .idle)
  | retry {w : World ι} {i : ι} {c : GlobalCall} {tat next : Nat} {d : Decision} (hi : w.shards i = .trying c tat)
      (hd : conform tat c.emit c.tau c.now = (d, some next)) :
      ShardStep w (i, .retry) (w.goto i (.trying c (w.limiter.slots (slotOf c.key))))
  | grant {w : World ι} {i : ι} {c : GlobalCall} {tat next : Nat} {d : Decision} (hi : w.shards i = .trying c tat)
      (hd : conform tat c.emit c.tau c.now = (d, some next)) (hexchange : w.limiter.slots (slotOf c.key) = tat) :
      ShardStep w (i, .return d) { w.goto i .idle with limiter := w.limiter.put (slotOf c.key) next }

abbrev ShardEntry (ι : Type) := World ι × (ι × ShardAct)

def granted : ShardEntry ι → Option GlobalCall
  | (w, (i, .return d)) =>
    match w.shards i with
    | .trying c _ => if d.allowed then some c else none
    | _ => none
  | _ => none

def grants (key emit tau a b : Nat) (t : List (ShardEntry ι)) : Nat :=
  (t.filterMap granted).countP fun c => c.key = key ∧ c.emit = emit ∧ c.tau = tau ∧ a ≤ c.now ∧ c.now ≤ b

variable {w w' : World ι} {i : ι} {act : ShardAct} {t : List (ShardEntry ι)}

lemma ShardStep.grant_cases (h : ShardStep w (i, act) w') : (granted (w, (i, act)) = none ∧ w'.limiter = w.limiter) ∨
    ∃ c d, act = .return d ∧ d.allowed = true ∧ granted (w, (i, act)) = some c ∧
      Gcra.Conforms c.tau (w.limiter.slots (slotOf c.key)) c.now ∧
      w'.limiter = w.limiter.put (slotOf c.key) (Gcra.next c.emit (w.limiter.slots (slotOf c.key)) c.now) := by
  cases h with
  | call c hi => exact .inl ⟨rfl, rfl⟩
  | disabled hi hc => exact .inl ⟨by rw [granted, hi], rfl⟩
  | load hi hc => exact .inl ⟨rfl, rfl⟩
  | @reject _ c tat d hi hd =>
    refine .inl ⟨?_, rfl⟩
    obtain ⟨-, hc⟩ | ⟨-, -, hc⟩ | ⟨-, -, hc⟩ := conform_cases tat c.emit c.tau c.now
    · cases hd.symm.trans hc
      rw [granted, hi]
      rfl
    · cases hd.symm.trans hc
      rw [granted, hi]
      rfl
    · cases hd.symm.trans hc
  | retry hi hd => exact .inl ⟨rfl, rfl⟩
  | @grant _ c tat next d hi hd hexchange =>
    obtain ⟨-, hc⟩ | ⟨-, -, hc⟩ | ⟨hconf, -, hc⟩ := conform_cases tat c.emit c.tau c.now
    · cases hd.symm.trans hc
    · cases hd.symm.trans hc
    · cases hd.symm.trans hc
      refine .inr ⟨c, _, rfl, rfl, ?_, ?_, ?_⟩
      · rw [granted, hi]
        rfl
      · rw [hexchange]
        exact hconf
      · rw [hexchange]
        rfl

lemma grants_snoc (key emit tau a b : Nat) (t : List (ShardEntry ι)) (e : ShardEntry ι) :
    grants key emit tau a b (t ++ [e]) = grants key emit tau a b t + (granted e).elim 0 fun c =>
        if c.key = key ∧ c.emit = emit ∧ c.tau = tau ∧ a ≤ c.now ∧ c.now ≤ b then 1 else 0 := by
  unfold grants
  rw [List.filterMap_append, List.countP_append]
  cases hg : granted e with
  | none =>
    rw [List.filterMap_cons_none hg]
    rfl
  | some c =>
    rw [List.filterMap_cons_some hg, List.filterMap_nil, List.countP_singleton]
    simp only [decide_eq_true_eq, Option.elim_some]

lemma slot_paced {w₀} (h : Trace ShardStep w₀ t w) (key emit tau a b : Nat) :
    Gcra.Paced emit tau a b (grants key emit tau a b t) (w.limiter.slots (slotOf key)) := by
  induction h with
  | nil => exact .none
  | @snoc t w w' a' _ hs ih =>
    rw [grants_snoc]
    obtain ⟨hnone, heq⟩ | ⟨c, d, -, -, hsome, hconf, heq⟩ := hs.grant_cases
    · rw [hnone, heq]
      exact ih
    · rw [hsome, heq, Option.elim_some]
      by_cases hc : c.key = key ∧ c.emit = emit ∧ c.tau = tau ∧ a ≤ c.now ∧ c.now ≤ b
      · rw [if_pos hc]
        obtain ⟨rfl, rfl, rfl, ha, hb⟩ := hc
        rw [GlobalRateLimiter.put_slots_self]
        exact ih.cell ha hb hconf
      · rw [if_neg hc, Nat.add_zero]
        -- The grant is not counted, but if it is in the slot it moves the arrival time on all the same.
        refine ih.mono ?_
        by_cases hslot : slotOf key = slotOf c.key
        · rw [hslot, GlobalRateLimiter.put_slots_self]
          unfold Gcra.next
          omega
        · rw [GlobalRateLimiter.put_slots_ne _ _ hslot]

/-- The rate of a key is bounded across the shards: in every interleaving of their steps, at most as many calls of a key
with one pair of parameters are granted at clock values in an interval as the interval and the tolerance pay for, and
one. The steps of a call that is rejected leave the slots as they are. -/
theorem grants_bounded {w₀ : World ι} (h : Trace ShardStep w₀ t w) (key emit tau a b : Nat) (hemit : 0 < emit) :
    grants key emit tau a b t ≤ (b - a + tau) / emit + 1 ∧
    ∀ (t₁ t₂ t₃ : List (ShardEntry ι)) (v v' : World ι) (i : ι) (c : GlobalCall) (d : Decision),
      t = t₁ ++ (v, (i, .call c)) :: (t₂ ++ (v', (i, .return d)) :: t₃) →
      (∀ e ∈ t₂, ∀ d', e.2 ≠ (i, .return d')) → d.allowed = false →
      ∀ e ∈ (v, (i, .call c)) :: (t₂ ++ [(v', (i, .return d))]), e.2.1 = i →
        ∀ u, ShardStep e.1 e.2 u → u.limiter = e.1.limiter := by
  refine ⟨(slot_paced h key emit tau a b).count hemit, ?_⟩
  intro t₁ t₂ t₃ v v' i c d _ hfirst hrejected e he hi u hu
  obtain ⟨v₀, i', act⟩ := e
  obtain rfl : i' = i := hi
  obtain ⟨-, heq⟩ | ⟨c', d', hact, hallowed, -⟩ := hu.grant_cases
  · exact heq
  · -- A step that grants is a return, so it is the last one, which rejects.
    exfalso
    subst hact
    rcases List.mem_cons.mp he with he | he
    · cases he
    · rcases List.mem_append.mp he with he | he
      · exact hfirst _ he d' rfl
      · cases List.mem_singleton.mp he
        rw [hrejected] at hallowed
        cases hallowed

/-- Two shards race for the slot of key 1: both load it, the second one fails to exchange it and tries again. -/
theorem racingShards_bounded :
    ∃ (t : List (ShardEntry Bool)) (w : World Bool), Trace ShardStep ⟨{}, fun _ => .idle⟩ t w ∧
      grants 1 10 10 0 9 t = 2 ∧ 2 ≤ (9 - 0 + 10) / 10 + 1 := by
  have h₀ : Trace ShardStep ⟨{}, fun _ => .idle⟩ [] (⟨{}, fun _ => .idle⟩ : World Bool) := .nil
  have h₁ := h₀.snoc (.call (i := false) ⟨1, 10, 10, 5⟩ rfl)
  have h₂ := h₁.snoc (.call (i := true) ⟨1, 10, 10, 0⟩ rfl)
  have h₃ := h₂.snoc (.load (i := false) rfl (by decide))
  have h₄ := h₃.snoc (.load (i := true) rfl (by decide))
  have h₅ := h₄.snoc (.grant (i := true) rfl rfl rfl)
  have h₆ := h₅.snoc (.retry (i := false) rfl rfl)
  have h₇ := h₆.snoc (.grant (i := false) rfl rfl rfl)
  exact ⟨_, _, h₇, rfl, (grants_bounded h₇ 1 10 10 0 9 (by decide)).1⟩

/-! ## Calls without interference -/

end Rut.RateLimit
