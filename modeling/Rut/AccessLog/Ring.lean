import Rut.Common.Types
import Mathlib.Algebra.Order.Ring.Nat

/-!
# The ring of a live access log

Port of `LiveAccessLogRing` in `include/rut/runtime/access_log_live.h` and `src/runtime/access_log_live.cc`: a ring
between one producer, who owns `published_pos` and the entries that are not pending, and one consumer, who owns
`committed_pos`. The positions are `u64` and wrap. A ring stands for the queue of its pending entries.
-/

namespace Rut.AccessLog

/-- Entries of a ring (`LiveAccessLogRing::kCapacity`). -/
def kCapacity : Nat := 512

/-- Result of a publication (`LiveAccessLogPublishStatus`). -/
inductive PublishStatus where
  | published
  | full
  | invalidState
deriving DecidableEq

/-- A ring with entries of type `α` (`LiveAccessLogRing`). -/
structure Ring (α : Type*) where
  publishedPos : UInt64
  committedPos : UInt64
  entries : Nat → α

/-- The entry of a position (`& kMask`). -/
def slot (position : UInt64) : Nat := (position &&& 511).toNat

namespace Ring

variable {α : Type*} {r : Ring α} {q : List α} {a : α}

def pending (r : Ring α) : UInt64 := r.publishedPos - r.committedPos

/-- What the producer makes of the number of pending entries it has loaded. -/
def publishStatus (pending : UInt64) : PublishStatus :=
  if 512 < pending then .invalidState else if pending = 512 then .full else .published

def storeEntry (r : Ring α) (a : α) : Ring α :=
  { r with entries := Function.update r.entries (slot r.publishedPos) a }

def advance (r : Ring α) : Ring α := { r with publishedPos := r.publishedPos + 1 }

/-- The position of the first pending entry (`peek`). -/
def peek (r : Ring α) : Option UInt64 :=
  if r.pending = 0 ∨ 512 < r.pending then none else some r.committedPos

/-- Acknowledge the entry of a position (`commit`). -/
def commit (r : Ring α) (position : UInt64) : Option (Ring α) :=
  if position ≠ r.committedPos ∨ r.pending = 0 ∨ 512 < r.pending then none
  else some { r with committedPos := r.committedPos + 1 }

/-- The ring holds the pending entries `q`. -/
structure Holds (r : Ring α) (q : List α) : Prop where
  bound : q.length ≤ kCapacity
  published : r.publishedPos = r.committedPos + UInt64.ofNat q.length
  entries : ∀ i (h : i < q.length), r.entries (slot (r.committedPos + UInt64.ofNat i)) = q[i]

end Ring

lemma slot_add (p : UInt64) (i : Nat) : slot (p + UInt64.ofNat i) = (p.toNat + i) % kCapacity := by
  have hmask : slot (p + UInt64.ofNat i) = (p + UInt64.ofNat i).toNat % 2 ^ 9 := by
    exact Nat.and_two_pow_sub_one_eq_mod _ 9
  rw [hmask, UInt64.toNat_add, UInt64.toNat_ofNat', kCapacity]
  omega

lemma slot_ne {p} {i j : Nat} (hij : i < j) (hj : j ≤ i + 511) :
    slot (p + UInt64.ofNat i) ≠ slot (p + UInt64.ofNat j) := by
  rw [slot_add, slot_add, kCapacity]
  omega

namespace Ring

variable {α : Type*} {r : Ring α} {q : List α} {a : α}

lemma Holds.pending_eq (h : Holds r q) : r.pending = UInt64.ofNat q.length := by
  rw [pending, h.published, UInt64.add_comm, UInt64.add_sub_cancel]

lemma Holds.pending_toNat (h : Holds r q) : r.pending.toNat = q.length := by
  rw [h.pending_eq, UInt64.toNat_ofNat']
  have := h.bound
  rw [kCapacity] at this
  omega

lemma Holds.pending_le (h : Holds r q) : ¬ 512 < r.pending := by
  have hbound := h.bound
  rw [UInt64.lt_iff_toNat_lt, h.pending_toNat]
  exact Nat.not_lt.mpr hbound

lemma Holds.pending_eq_zero (h : Holds r q) : r.pending = 0 ↔ q = [] := by
  rw [← UInt64.toNat_inj, h.pending_toNat]
  exact List.length_eq_zero_iff

lemma Holds.peek_nil (h : Holds r []) : r.peek = none := if_pos (.inl (h.pending_eq_zero.mpr rfl))

lemma Holds.peek_cons (h : Holds r (a :: q)) : r.peek = some r.committedPos := by
  refine if_neg (not_or.mpr ⟨fun h0 => ?_, h.pending_le⟩)
  exact List.cons_ne_nil _ _ (h.pending_eq_zero.mp h0)

lemma Holds.pending_of_peek (h : Holds r q) (hp : r.peek = none) : r.pending = 0 := by
  cases q with
  | nil => exact h.pending_eq_zero.mpr rfl
  | cons a q =>
    rw [h.peek_cons] at hp
    cases hp

lemma Holds.head (h : Holds r (a :: q)) : r.entries (slot r.committedPos) = a := by
  have hfirst := h.entries 0 (Nat.zero_lt_succ _)
  rwa [show UInt64.ofNat 0 = 0 from rfl, UInt64.add_zero] at hfirst

lemma Holds.commit (h : Holds r (a :: q)) :
    r.commit r.committedPos = some { r with committedPos := r.committedPos + 1 } ∧
      Holds { r with committedPos := r.committedPos + 1 } q := by
  have hmove : ∀ i, r.committedPos + 1 + UInt64.ofNat i = r.committedPos + UInt64.ofNat (i + 1) := by
    intro i
    rw [UInt64.ofNat_add, UInt64.add_assoc, UInt64.add_comm 1]
    rfl
  refine ⟨if_neg ?_, ⟨(Nat.le_succ _).trans h.bound, ?_, fun i hi => ?_⟩⟩
  · rintro (hne | h0 | hlt)
    · exact hne rfl
    · exact List.cons_ne_nil _ _ (h.pending_eq_zero.mp h0)
    · exact h.pending_le hlt
  · rw [h.published, hmove]
    rfl
  · simp only
    rw [hmove]
    exact h.entries (i + 1) (Nat.succ_lt_succ hi)

lemma room_of_publishStatus {pending} (h : publishStatus pending = .published) : pending.toNat < kCapacity := by
  unfold publishStatus at h
  split_ifs at h with hlt heq
  have hle : pending.toNat ≤ 512 := Nat.not_lt.mp fun hn => hlt (UInt64.lt_iff_toNat_lt.mpr hn)
  exact lt_of_le_of_ne hle fun he => heq (UInt64.toNat_inj.mp he)

lemma Holds.storeEntry (h : Holds r q) (hroom : q.length < kCapacity) (a : α) : Holds (r.storeEntry a) q := by
  refine ⟨h.bound, h.published, fun i hi => ?_⟩
  rw [← h.entries i hi]
  refine Function.update_of_ne ?_ _ _
  rw [h.published]
  refine slot_ne hi ?_
  rw [kCapacity] at hroom
  omega

lemma Holds.advance (h : Holds r q) (hroom : q.length < kCapacity) (ha : r.entries (slot r.publishedPos) = a) :
    Holds r.advance (q ++ [a]) := by
  refine ⟨?_, ?_, fun i hi => ?_⟩
  · rw [List.length_append]
    exact hroom
  · rw [Ring.advance, h.published, List.length_append, UInt64.ofNat_add, UInt64.add_assoc]
    rfl
  · rw [List.length_append, List.length_singleton] at hi
    by_cases hlast : i = q.length
    · subst hlast
      rw [List.getElem_concat_length rfl, ← ha, h.published]
      rfl
    · have hlt : i < q.length := by omega
      rw [List.getElem_append_left hlt]
      exact h.entries i hlt

end Ring

end Rut.AccessLog
