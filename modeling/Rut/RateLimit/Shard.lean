import Rut.Lib.Gcra
import Rut.RateLimit.Limiter

/-!
# The limiter of a shard

Keys that fall on one slot evict each other, but only from a bucket that has recovered. So the arrival time in the slot
of a key is never earlier than that of a meter which has admitted the same requests of the key and nothing else,
unless that meter has recovered as well.
-/

namespace Rut.RateLimit

open Lib (Gcra.Conforms Gcra.next Gcra.ConformAll Gcra.within)

structure Request where
  key : Nat
  now : Nat
deriving DecidableEq

abbrev Policy := Nat → Nat × Nat

variable {policy : Policy} {r : RateLimiter} {key tat last : Nat}

def RateLimiter.decisions (policy : Policy) : RateLimiter → List Request → List (Request × Bool)
  | _, [] => []
  | r, q :: qs =>
    let (d, r) := r.allowKeyDetailed q.key (policy q.key).1 (policy q.key).2 q.now
    (q, d.allowed) :: decisions policy r qs

def RateLimiter.admitted (policy : Policy) (r : RateLimiter) (key : Nat) (qs : List Request) : List Nat :=
  (r.decisions policy qs).filterMap fun (q, allowed) => if q.key = key ∧ allowed then some q.now else none

/-- The slot of the key accounts for the meter of the key, or the meter has recovered. -/
def Covers (r : RateLimiter) (key tat last : Nat) : Prop :=
  tat ≤ last ∨ (r.slots (slotOf key)).key = key ∧ tat ≤ (r.slots (slotOf key)).tat

lemma Covers.other {q : Request} {emit tau} (h : Covers r key tat last) (hne : q.key ≠ key) (hlast : last ≤ q.now) :
    Covers (r.allowKeyDetailed q.key emit tau q.now).2 key tat q.now := by
  have hstay : Covers r key tat q.now := h.imp_left hlast.trans'
  by_cases hemit : emit = 0
  · rw [RateLimiter.allowKeyDetailed, if_pos hemit]
    exact hstay
  obtain ⟨-, -, heq⟩ | ⟨hfree, heq⟩ := r.allowKeyDetailed_cases q.key tau q.now hemit
  · rw [heq]
    exact hstay
  · rw [heq]
    by_cases hslot : slotOf key = slotOf q.key
    · -- The slot is taken over from `key` only if its bucket has recovered.
      refine .inl ?_
      rcases h with h | ⟨hk, htat⟩
      · exact h.trans hlast
      · rw [hslot] at hk htat
        exact htat.trans (hfree.resolve_left (hk ▸ hne.symm))
    · rcases hstay with h | h
      · exact .inl h
      · refine .inr ?_
        rw [RateLimiter.put_slots_ne _ _ hslot]
        exact h

lemma Covers.arrival (h : Covers r key tat last) : tat ≤ last ∨ tat ≤ r.arrival key := by
  rcases h with h | ⟨hk, htat⟩
  · exact .inl h
  · rw [RateLimiter.arrival, if_pos hk]
    exact .inr htat

lemma Covers.admit {emit tau now} (h : Covers r key tat last) (hlast : last ≤ now) (hemit : emit ≠ 0)
    (ha : (r.allowKeyDetailed key emit tau now).1.allowed = true) :
    Gcra.Conforms tau tat now ∧ Covers (r.allowKeyDetailed key emit tau now).2 key (Gcra.next emit tat now) now := by
  obtain ⟨-, -, heq⟩ | ⟨-, heq⟩ := r.allowKeyDetailed_cases key tau now hemit
  · rw [heq] at ha
    cases ha
  · rw [heq] at ha ⊢
    have hcover := h.arrival
    obtain ⟨-, hc⟩ | ⟨-, -, hc⟩ | ⟨hconf, -, hc⟩ := conform_cases (r.arrival key) emit tau now
    · rw [hc] at ha
      cases ha
    · rw [hc] at ha
      cases ha
    · rw [hc]
      refine ⟨by unfold Gcra.Conforms; omega, .inr ?_⟩
      rw [RateLimiter.put_slots_self]
      refine ⟨rfl, ?_⟩
      dsimp only [Option.getD_some]
      unfold Gcra.next
      omega

lemma Covers.reject {emit tau now} (h : Covers r key tat last) (hlast : last ≤ now) (hemit : emit ≠ 0)
    (ha : (r.allowKeyDetailed key emit tau now).1.allowed = false) :
    Covers (r.allowKeyDetailed key emit tau now).2 key tat now := by
  obtain ⟨-, -, heq⟩ | ⟨-, heq⟩ := r.allowKeyDetailed_cases key tau now hemit
  · rw [heq]
    exact h.imp_left hlast.trans'
  · rw [heq] at ha ⊢
    have hnone : (conform (r.arrival key) emit tau now).2 = none := by
      obtain ⟨-, hc⟩ | ⟨-, -, hc⟩ | ⟨-, -, hc⟩ := conform_cases (r.arrival key) emit tau now
      · rw [hc]
      · rw [hc]
      · rw [hc] at ha
        cases ha
    rcases h.arrival with hle | hle
    · exact .inl (hle.trans hlast)
    · refine .inr ?_
      rw [RateLimiter.put_slots_self, hnone]
      exact ⟨rfl, hle⟩

lemma RateLimiter.admitted_cons (q : Request) (qs : List Request) : r.admitted policy key (q :: qs) =
      (if q.key = key ∧ (r.allowKeyDetailed q.key (policy q.key).1 (policy q.key).2 q.now).1.allowed then [q.now]
        else []) ++ (r.allowKeyDetailed q.key (policy q.key).1 (policy q.key).2 q.now).2.admitted policy key qs := by
  unfold admitted
  rw [decisions, List.filterMap_cons]
  dsimp only
  split_ifs <;> rfl

lemma Covers.conformAll (hemit : (policy key).1 ≠ 0) {qs} (h : Covers r key tat last)
    (hsorted : qs.Pairwise fun p q => p.now ≤ q.now) (hlast : ∀ q ∈ qs, last ≤ q.now) :
    Gcra.ConformAll (policy key).1 (policy key).2 tat (r.admitted policy key qs) := by
  induction qs generalizing r tat last with
  | nil => exact trivial
  | cons q qs ih =>
    rw [List.pairwise_cons] at hsorted
    have hq := hlast q List.mem_cons_self
    rw [RateLimiter.admitted_cons]
    by_cases hk : q.key = key
    · subst hk
      cases ha : (r.allowKeyDetailed q.key (policy q.key).1 (policy q.key).2 q.now).1.allowed with
      | true =>
        rw [if_pos ⟨rfl, rfl⟩]
        obtain ⟨hconf, hcover⟩ := h.admit hq hemit ha
        exact ⟨hconf, ih hcover hsorted.2 hsorted.1⟩
      | false =>
        rw [if_neg fun hf => Bool.false_ne_true hf.2]
        exact ih (h.reject hq hemit ha) hsorted.2 hsorted.1
    · rw [if_neg fun hf => hk hf.1]
      exact ih (h.other hk hq) hsorted.2 hsorted.1

end Rut.RateLimit
