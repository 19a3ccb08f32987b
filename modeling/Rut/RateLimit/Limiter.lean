import Rut.Common.Types

/-!
# Rate limiters

Port of `include/rut/runtime/rate_limit.h`. Times are microseconds of a `u64` clock; no subtraction of the source
wraps, so they are natural numbers. The test for conformance and the update of the arrival time are the same in both
limiters. The calls of the global limiter are given as if no other shard interfered; `Rut.RateLimit.Global` has their
atomic steps.
-/

namespace Rut.RateLimit

def kMaxU64 : Nat := 0xffffffffffffffff
def kSlots : Nat := 8192

/-- `RateLimitRejectReason`. -/
inductive RejectReason where
  | none
  | budget
  | shardCollision
  | stateOverflow
  | missingGlobal
  | missingSemanticId
deriving DecidableEq

/-- `RateLimitScope`. -/
inductive Scope where
  | shard
  | global
deriving DecidableEq

/-- `RateLimitDecision`. -/
structure Decision where
  allowed : Bool := true
  retryKnown : Bool := true
  nextWaitUs : Nat := 0
  rejectReason : RejectReason := .none
  rulesEvaluatedByScope : Scope → Nat := fun _ => 0
  rulesRejectedByScopeReason : Scope → Nat → Nat := fun _ _ => 0

def slotOf (key : Nat) : Fin kSlots :=
  let h := key * 0x9E3779B97F4A7C15 % 2 ^ 64
  ⟨(h ^^^ (h >>> 29)) % kSlots, Nat.mod_lt _ (by decide)⟩

/-- The decision on a request at `now` and the next arrival time, which is absent if it is rejected. -/
def conform (tat emit tau now : Nat) : Decision × Option Nat :=
  if now < tat ∧ tau < tat - now then
    ({ allowed := false, rejectReason := .budget, nextWaitUs := tat - now - tau }, none)
  else
    let base := if tat < now then now else tat
    if kMaxU64 - emit < base then ({ allowed := false, retryKnown := false, rejectReason := .stateOverflow }, none)
    else
      let tat := base + emit
      ({ nextWaitUs := if now < tat ∧ tau < tat - now then tat - now - tau else 0 }, some tat)

structure Slot where
  key : Nat := 0
  tat : Nat := 0
deriving DecidableEq

structure RateLimiter where
  slots : Fin kSlots → Slot := fun _ => {}

def RateLimiter.put (r : RateLimiter) (i : Fin kSlots) (s : Slot) : RateLimiter :=
  { r with slots := Function.update r.slots i s }

def RateLimiter.allowKeyDetailed (r : RateLimiter) (key emit tau now : Nat) : Decision × RateLimiter :=
  if emit = 0 then ({}, r)
  else
    let i := slotOf key
    let s := r.slots i
    if s.key ≠ key ∧ now < s.tat then
      ({ allowed := false, rejectReason := .shardCollision, nextWaitUs := s.tat - now }, r)
    else
      -- The slot of another key is taken over once its bucket has recovered.
      let tat := if s.key ≠ key then 0 else s.tat
      let (d, next) := conform tat emit tau now
      (d, r.put i ⟨key, next.getD tat⟩)

structure GlobalRateLimiter where
  slots : Fin kSlots → Nat := fun _ => 0

def GlobalRateLimiter.put (g : GlobalRateLimiter) (i : Fin kSlots) (tat : Nat) : GlobalRateLimiter :=
  { g with slots := Function.update g.slots i tat }

/-- `GlobalRateLimiter::allow_key_detailed` without interference. -/
def GlobalRateLimiter.allowKeyDetailed (g : GlobalRateLimiter) (key emit tau now : Nat) :
    Decision × GlobalRateLimiter :=
  if emit = 0 then ({}, g)
  else
    let i := slotOf key
    let (d, next) := conform (g.slots i) emit tau now
    (d, next.elim g (g.put i))

/-! ## Conformance -/

variable {tat emit tau now : Nat}

lemma conform_cases (tat emit tau now : Nat) : (now + tau < tat ∧
      conform tat emit tau now = ({ allowed := false, rejectReason := .budget, nextWaitUs := tat - now - tau }, none)) ∨
    (tat ≤ now + tau ∧ kMaxU64 - emit < max now tat ∧
      conform tat emit tau now = ({ allowed := false, retryKnown := false, rejectReason := .stateOverflow }, none)) ∨
    (tat ≤ now + tau ∧ max now tat ≤ kMaxU64 - emit ∧
      conform tat emit tau now =
        ({ nextWaitUs := max now tat + emit - now - tau }, some (max now tat + emit))) := by
  have hbase : (if tat < now then now else tat) = max now tat := by
    split <;> omega
  have hwait : (if now < max now tat + emit ∧ tau < max now tat + emit - now then max now tat + emit - now - tau else 0) =
      max now tat + emit - now - tau := by
    split <;> omega
  unfold conform
  by_cases hlate : now < tat ∧ tau < tat - now
  · rw [if_pos hlate]
    exact .inl ⟨by omega, rfl⟩
  · rw [if_neg hlate]
    dsimp only
    rw [hbase, hwait]
    by_cases hover : kMaxU64 - emit < max now tat
    · rw [if_pos hover]
      exact .inr (.inl ⟨by omega, hover, rfl⟩)
    · rw [if_neg hover]
      exact .inr (.inr ⟨by omega, by omega, rfl⟩)

@[simp] lemma RateLimiter.put_slots_self (r : RateLimiter) (i : Fin kSlots) (s : Slot) : (r.put i s).slots i = s :=
  Function.update_self ..

lemma RateLimiter.put_slots_ne (r : RateLimiter) {i j : Fin kSlots} (s : Slot) (h : j ≠ i) :
    (r.put i s).slots j = r.slots j :=
  Function.update_of_ne h ..

@[simp] lemma GlobalRateLimiter.put_slots_self (g : GlobalRateLimiter) (i : Fin kSlots) (tat : Nat) :
    (g.put i tat).slots i = tat :=
  Function.update_self ..

lemma GlobalRateLimiter.put_slots_ne (g : GlobalRateLimiter) {i j : Fin kSlots} (tat : Nat) (h : j ≠ i) :
    (g.put i tat).slots j = g.slots j :=
  Function.update_of_ne h ..

/-- The arrival time that counts for a key: that of its slot, or none if the slot is another key's. -/
def RateLimiter.arrival (r : RateLimiter) (key : Nat) : Nat :=
  if (r.slots (slotOf key)).key = key then (r.slots (slotOf key)).tat else 0

lemma RateLimiter.allowKeyDetailed_cases (r : RateLimiter) (key tau now : Nat) (hemit : emit ≠ 0) :
    ((r.slots (slotOf key)).key ≠ key ∧ now < (r.slots (slotOf key)).tat ∧ r.allowKeyDetailed key emit tau now =
        ({ allowed := false, rejectReason := .shardCollision, nextWaitUs := (r.slots (slotOf key)).tat - now }, r)) ∨
    (((r.slots (slotOf key)).key = key ∨ (r.slots (slotOf key)).tat ≤ now) ∧
      r.allowKeyDetailed key emit tau now =
        ((conform (r.arrival key) emit tau now).1,
          r.put (slotOf key) ⟨key, (conform (r.arrival key) emit tau now).2.getD (r.arrival key)⟩)) := by
  unfold allowKeyDetailed arrival
  rw [if_neg hemit]
  dsimp only
  by_cases hk : (r.slots (slotOf key)).key = key
  · rw [if_neg fun hbusy => hbusy.1 hk, if_neg (not_not.mpr hk), if_pos hk]
    exact .inr ⟨.inl hk, rfl⟩
  · rw [if_pos hk, if_neg hk]
    by_cases hbusy : now < (r.slots (slotOf key)).tat
    · rw [if_pos ⟨hk, hbusy⟩]
      exact .inl ⟨hk, hbusy, rfl⟩
    · rw [if_neg fun h => hbusy h.2]
      exact .inr ⟨.inr (Nat.not_lt.mp hbusy), rfl⟩

end Rut.RateLimit
