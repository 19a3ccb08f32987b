import Rut.AccessLog.Ring
import Rut.Lib.Trace

/-!
# The live ring between its two threads

The calls of `LiveAccessLogRing` as the atomic steps they are made of, for one thread that publishes and one that peeks
and commits, in every order. The store of an entry is not atomic: until it is over its slot may hold anything. A ring
behaves like the queue of its pending entries, whichever position it starts at.
-/

namespace Rut.AccessLog

open Lib

/-- A ticket (`LiveAccessLogTicket`). -/
structure Ticket where
  valid : Bool := false
  endPosition : UInt64 := 0
deriving DecidableEq

/-- Whether the entry of a ticket has been committed (`acknowledged`). -/
def Ring.acknowledged {α : Type*} (r : Ring α) (ticket : Ticket) : Bool :=
  ticket.valid && r.committedPos - ticket.endPosition < 9223372036854775808

namespace Live

/-- Where the producer is in `try_publish`. -/
inductive Publisher (α : Type*) where
  | idle
  | loaded (a : α) (published : UInt64)
  | storing (a : α) (published : UInt64)
  | stored (a : α) (published : UInt64)

/-- Where the consumer is in `peek` or `commit`. -/
inductive Consumer where
  | idle
  | peeking (committed : UInt64)
  | committing (committed : UInt64)
  | checked (committed : UInt64)

/-- A ring with the threads on it; `held` is the position of the last peek that has not been committed. -/
structure Threads (α : Type*) where
  ring : Ring α
  publisher : Publisher α := .idle
  consumer : Consumer := .idle
  held : Option UInt64 := none

inductive Event (α : Type*) where
  | silent
  | decided (status : PublishStatus)
  | published (a : α) (ticket : Ticket)
  | peeked (position : Option UInt64)
  | read (a : α)
  | committed (ok : Bool)

variable {α : Type*}

def write (r : Ring α) (position : UInt64) (a : α) : Ring α :=
  { r with entries := Function.update r.entries (slot position) a }

/-- The number of pending entries lets `peek` and `commit` go on. -/
def Available (pending : UInt64) : Prop := ¬ (pending = 0 ∨ 512 < pending)

instance (pending : UInt64) : Decidable (Available pending) := inferInstanceAs (Decidable (¬ _))

inductive Step : Threads α → Event α → Threads α → Prop where
  -- `try_publish`: the loads of the two positions, the store of the entry, the store of the position
  | load {s : Threads α} (a : α) (h : s.publisher = .idle) :
      Step s .silent { s with publisher := .loaded a s.ring.publishedPos }
  | decide {s : Threads α} {a : α} {p : UInt64} (h : s.publisher = .loaded a p) :
      Step s (.decided (Ring.publishStatus (p - s.ring.committedPos)))
        { s with publisher :=
            if Ring.publishStatus (p - s.ring.committedPos) = .published then .storing a p else .idle }
  | scribble {s : Threads α} {a : α} {p : UInt64} (x : α) (h : s.publisher = .storing a p) :
      Step s .silent { s with ring := write s.ring p x }
  | store {s : Threads α} {a : α} {p : UInt64} (h : s.publisher = .storing a p) :
      Step s .silent { s with ring := write s.ring p a, publisher := .stored a p }
  | publish {s : Threads α} {a : α} {p : UInt64} (h : s.publisher = .stored a p) :
      Step s (.published a ⟨true, p + 1⟩) { s with ring := { s.ring with publishedPos := p + 1 }, publisher := .idle }
  -- `peek`: the loads of the two positions
  | peek {s : Threads α} (h : s.consumer = .idle) :
      Step s .silent { s with consumer := .peeking s.ring.committedPos }
  | peekSome {s : Threads α} {c : UInt64} (h : s.consumer = .peeking c) (hc : Available (s.ring.publishedPos - c)) :
      Step s (.peeked (some c)) { s with consumer := .idle, held := some c }
  | peekNone {s : Threads α} {c : UInt64} (h : s.consumer = .peeking c) (hc : ¬ Available (s.ring.publishedPos - c)) :
      Step s (.peeked none) { s with consumer := .idle }
  | read {s : Threads α} {c : UInt64} (h : s.held = some c) : Step s (.read (s.ring.entries (slot c))) s
  -- `commit`: the loads of the two positions, the store of the position
  | commit {s : Threads α} (h : s.consumer = .idle) :
      Step s .silent { s with consumer := .committing s.ring.committedPos }
  | commitOther {s : Threads α} (position : UInt64) (h : s.consumer = .idle) (hne : position ≠ s.ring.committedPos) :
      Step s (.committed false) s
  | commitCheck {s : Threads α} {c : UInt64} (h : s.consumer = .committing c)
      (hc : Available (s.ring.publishedPos - c)) : Step s .silent { s with consumer := .checked c }
  | commitNone {s : Threads α} {c : UInt64} (h : s.consumer = .committing c)
      (hc : ¬ Available (s.ring.publishedPos - c)) : Step s (.committed false) { s with consumer := .idle }
  | commitStore {s : Threads α} {c : UInt64} (h : s.consumer = .checked c) :
      Step s (.committed true)
        { s with ring := { s.ring with committedPos := c + 1 }, consumer := .idle, held := none }

/-- An empty ring at a position (`init_quiescent_empty`), with anything in its slots. -/
def initQuiescentEmpty (position : UInt64) (entries : Nat → α) : Threads α := { ring := ⟨position, position, entries⟩ }

abbrev Run (α : Type*) := List (Threads α × Event α)

def Event.entry : Event α → Option α
  | .published a _ => some a
  | _ => none

def Event.commits : Event α → Bool
  | .committed ok => ok
  | _ => false

def published (t : Run α) : List α := t.filterMap fun e => e.2.entry

def commits (t : Run α) : Nat := t.countP fun e => e.2.commits

def uncommitted (t : Run α) : List α := (published t).drop (commits t)

/-! ## The queue -/

def Event.next (q : List α) : Event α → List α
  | .published a _ => q ++ [a]
  | .committed true => q.tail
  | _ => q

def Event.Shows (r : Ring α) (q : List α) : Event α → Prop
  | .silent => True
  | .decided status => (status = .full ↔ q.length = kCapacity) ∧ status ≠ .invalidState
  | .published _ ticket => ticket = ⟨true, r.committedPos + UInt64.ofNat q.length + 1⟩
  | .peeked position => position = none ↔ q = []
  | .read a => q.head? = some a
  | .committed ok => ok = true → q ≠ []

def Publisher.Ok (r : Ring α) (q : List α) : Publisher α → Prop
  | .idle => True
  | .loaded _ p => p = r.publishedPos
  | .storing _ p => p = r.publishedPos ∧ q.length < kCapacity
  | .stored a p => p = r.publishedPos ∧ q.length < kCapacity ∧ r.entries (slot p) = a

def Consumer.Ok (r : Ring α) (q : List α) : Consumer → Prop
  | .idle => True
  | .peeking c => c = r.committedPos
  | .committing c => c = r.committedPos
  | .checked c => c = r.committedPos ∧ q ≠ []

/-- The ring holds the queue, also for the threads in the middle of a call. -/
structure Inv (s : Threads α) (q : List α) : Prop where
  holds : s.ring.Holds q
  publisher : s.publisher.Ok s.ring q
  consumer : s.consumer.Ok s.ring q
  held : ∀ c, s.held = some c → c = s.ring.committedPos ∧ q ≠ []

section step

variable {s s' : Threads α} {q : List α} {e : Event α} {r : Ring α}

lemma available_iff (h : r.Holds q) : Available (r.publishedPos - r.committedPos) ↔ q ≠ [] := by
  have hzero := h.pending_eq_zero
  have hle := h.pending_le
  rw [Ring.pending] at hzero hle
  rw [Available, hzero]
  simp [hle]

lemma publishStatus_holds (h : r.Holds q) :
    Ring.publishStatus (r.publishedPos - r.committedPos) = if q.length < kCapacity then .published else .full := by
  have hle := h.pending_le
  have hpending := h.pending_toNat
  have hbound := h.bound
  rw [Ring.pending] at hle hpending
  rw [Ring.publishStatus, if_neg hle]
  have hfull : r.publishedPos - r.committedPos = 512 ↔ ¬ q.length < kCapacity := by
    rw [← UInt64.toNat_inj, hpending]
    exact ⟨fun heq => (Nat.not_lt.mpr heq.ge), fun hlt => Nat.le_antisymm hbound (Nat.not_lt.mp hlt)⟩
  by_cases hlt : q.length < kCapacity
  · rw [if_pos hlt, if_neg fun heq => hfull.mp heq hlt]
  · rw [if_neg hlt, if_pos (hfull.mpr hlt)]

lemma Consumer.Ok.mono {r' : Ring α} {q'} {c : Consumer} (h : c.Ok r q)
    (hpos : r'.committedPos = r.committedPos) (hne : q ≠ [] → q' ≠ []) : c.Ok r' q' := by
  cases c
  case idle => trivial
  case peeking c => exact Eq.trans h hpos.symm
  case committing c => exact Eq.trans h hpos.symm
  case checked c => exact ⟨h.1.trans hpos.symm, hne h.2⟩

lemma Publisher.Ok.mono {r' q'} {p : Publisher α} (h : p.Ok r q)
    (hpos : r'.publishedPos = r.publishedPos) (hentries : r'.entries = r.entries) (hle : q'.length ≤ q.length) :
    p.Ok r' q' := by
  cases p
  case idle => trivial
  case loaded a p => exact Eq.trans h hpos.symm
  case storing a p => exact ⟨h.1.trans hpos.symm, lt_of_le_of_lt hle h.2⟩
  case stored a p => exact ⟨h.1.trans hpos.symm, lt_of_le_of_lt hle h.2.1, by rw [hentries]; exact h.2.2⟩

lemma Inv.write {a p} (h : Inv s q) (hs : s.publisher = .storing a p) (x : α) (w : Publisher α)
    (hw : w.Ok (write s.ring p x) q) : Inv { s with ring := write s.ring p x, publisher := w } q := by
  have hp := h.publisher
  rw [hs] at hp
  obtain ⟨rfl, hroom⟩ := hp
  exact ⟨h.holds.storeEntry hroom x, hw, h.consumer.mono rfl id, h.held⟩

lemma Inv.step (h : Inv s q) (hs : Step s e s') : e.Shows s.ring q ∧ Inv s' (e.next q) := by
  cases hs with
  | load a hp => exact ⟨trivial, h.holds, rfl, h.consumer, h.held⟩
  | @decide a p hp =>
    have hpos := h.publisher
    rw [hp] at hpos
    cases hpos
    rw [publishStatus_holds h.holds]
    by_cases hlt : q.length < kCapacity
    · rw [if_pos hlt, if_pos rfl]
      refine ⟨⟨⟨?_, fun hfull => absurd hfull hlt.ne⟩, ?_⟩, h.holds, ⟨rfl, hlt⟩, h.consumer, h.held⟩
      all_goals
        intro hstatus
        cases hstatus
    · rw [if_neg hlt, if_neg fun hne => by cases hne]
      refine ⟨⟨⟨?_, fun _ => rfl⟩, ?_⟩, h.holds, trivial, h.consumer, h.held⟩
      · exact fun _ => Nat.le_antisymm h.holds.bound (Nat.not_lt.mp hlt)
      · intro hstatus
        cases hstatus
  | @scribble a p x hp =>
    refine ⟨trivial, h.write hp x s.publisher ?_⟩
    have hok := h.publisher
    rw [hp] at hok ⊢
    exact hok
  | @store a p hp =>
    refine ⟨trivial, h.write hp a _ ?_⟩
    have hok := h.publisher
    rw [hp] at hok
    exact ⟨hok.1, hok.2, Function.update_self ..⟩
  | @publish a p hp =>
    have hok := h.publisher
    rw [hp] at hok
    obtain ⟨rfl, hroom, hentry⟩ := hok
    refine ⟨?_, h.holds.advance hroom hentry, trivial, h.consumer.mono rfl ?_, ?_⟩
    · rw [Event.Shows, h.holds.published]
    · exact fun _ => List.append_ne_nil_of_right_ne_nil _ (List.cons_ne_nil _ _)
    · intro c hc
      exact ⟨(h.held c hc).1, List.append_ne_nil_of_right_ne_nil _ (List.cons_ne_nil _ _)⟩
  | peek hc => exact ⟨trivial, h.holds, h.publisher, rfl, h.held⟩
  | @peekSome c hc havailable =>
    have hok := h.consumer
    rw [hc] at hok
    cases hok
    have hne := (available_iff h.holds).mp havailable
    refine ⟨⟨?_, fun hnil => absurd hnil hne⟩, h.holds, h.publisher, trivial, ?_⟩
    · intro hnone
      cases hnone
    · intro c hc
      cases hc
      exact ⟨rfl, hne⟩
  | @peekNone c hc hnot =>
    have hok := h.consumer
    rw [hc] at hok
    cases hok
    have hnil : q = [] := by
      by_contra hne
      exact hnot ((available_iff h.holds).mpr hne)
    exact ⟨⟨fun _ => hnil, fun _ => rfl⟩, h.holds, h.publisher, trivial, h.held⟩
  | @read c hc =>
    refine ⟨?_, h⟩
    obtain ⟨rfl, hne⟩ := h.held c hc
    obtain ⟨a, q, rfl⟩ := List.exists_cons_of_ne_nil hne
    rw [Event.Shows, h.holds.head]
    rfl
  | commit hc => exact ⟨trivial, h.holds, h.publisher, rfl, h.held⟩
  | commitOther position hc hne => exact ⟨Bool.false_ne_true.elim, h⟩
  | @commitCheck c hc havailable =>
    have hok := h.consumer
    rw [hc] at hok
    cases hok
    exact ⟨trivial, h.holds, h.publisher, ⟨rfl, (available_iff h.holds).mp havailable⟩, h.held⟩
  | @commitNone c hc hnot => exact ⟨Bool.false_ne_true.elim, h.holds, h.publisher, trivial, h.held⟩
  | @commitStore c hc =>
    have hok := h.consumer
    rw [hc] at hok
    obtain ⟨rfl, hne⟩ := hok
    obtain ⟨a, q, rfl⟩ := List.exists_cons_of_ne_nil hne
    refine ⟨fun _ => hne, h.holds.commit.2, h.publisher.mono rfl rfl (Nat.le_succ _), trivial, ?_⟩
    intro c hc
    cases hc

lemma Inv.step_committed (h : Inv s q) (hs : Step s e s') :
    s'.ring.committedPos = s.ring.committedPos + UInt64.ofNat (if e.commits then 1 else 0) := by
  cases hs with
  | @commitStore c hc =>
    have hok := h.consumer
    rw [hc] at hok
    obtain ⟨rfl, -⟩ := hok
    rfl
  | _ => exact (UInt64.add_zero _).symm

end step

/-! ## Runs -/

section run

variable {position : UInt64} {entries : Nat → α} {t t₁ t₂ : Run α} {s s₁ : Threads α}
  {e : Event α}

lemma published_append (t₁ t₂ : Run α) : published (t₁ ++ t₂) = published t₁ ++ published t₂ := List.filterMap_append

lemma commits_append (t₁ t₂ : Run α) : commits (t₁ ++ t₂) = commits t₁ + commits t₂ := List.countP_append

lemma commits_single (s : Threads α) (e : Event α) : commits [(s, e)] = if e.commits then 1 else 0 := by
  rw [commits, List.countP_singleton]

lemma uncommitted_snoc (hle : commits t ≤ (published t).length) (hs : e.commits = true → uncommitted t ≠ []) :
    commits (t ++ [(s, e)]) ≤ (published (t ++ [(s, e)])).length ∧
      uncommitted (t ++ [(s, e)]) = e.next (uncommitted t) := by
  rw [uncommitted, published_append, commits_append]
  cases e with
  | published a ticket =>
    have hp : published [(s, Event.published a ticket)] = [a] := rfl
    have hc : commits [(s, Event.published a ticket)] = 0 := rfl
    rw [hp, hc, Nat.add_zero, List.drop_append_of_le_length hle, List.length_append]
    exact ⟨hle.trans (Nat.le_add_right _ _), rfl⟩
  | committed ok =>
    have hp : published [(s, Event.committed ok)] = [] := rfl
    rw [hp, List.append_nil]
    cases ok with
    | false => exact ⟨hle, rfl⟩
    | true =>
      have hc : commits [(s, (Event.committed true : Event α))] = 1 := rfl
      have hlt : commits t < (published t).length := by
        by_contra hnot
        exact hs rfl (List.drop_eq_nil_of_le (Nat.not_lt.mp hnot))
      rw [hc, ← List.tail_drop]
      exact ⟨hlt, rfl⟩
  | _ =>
    rw [show published [(s, _)] = [] from rfl, show commits [(s, _)] = 0 from rfl, List.append_nil]
    exact ⟨hle, rfl⟩

lemma holds_initial (position : UInt64) (entries : Nat → α) : (Ring.mk position position entries).Holds [] :=
  ⟨Nat.zero_le _, (UInt64.add_zero _).symm, fun _ hi => absurd hi (Nat.not_lt_zero _)⟩

lemma inv_run (ht : Trace Step (initQuiescentEmpty position entries) t s) :
    commits t ≤ (published t).length ∧ s.ring.committedPos = position + UInt64.ofNat (commits t) ∧
      Inv s (uncommitted t) := by
  induction ht with
  | nil =>
    refine ⟨le_refl _, (UInt64.add_zero _).symm, holds_initial position entries, trivial, trivial, ?_⟩
    intro c hc
    cases hc
  | @snoc t s s' e ht hs ih =>
    obtain ⟨hle, hpos, hinv⟩ := ih
    obtain ⟨hshows, hinv'⟩ := hinv.step hs
    have hne : e.commits = true → uncommitted t ≠ [] := by
      cases e with
      | committed ok => exact hshows
      | _ => exact Bool.false_ne_true.elim
    obtain ⟨hle', heq⟩ := uncommitted_snoc (s := s) hle hne
    refine ⟨hle', ?_, heq ▸ hinv'⟩
    rw [hinv.step_committed hs, hpos, commits_append, commits_single, UInt64.ofNat_add, UInt64.add_assoc]

lemma shows_run (ht : Trace Step (initQuiescentEmpty position entries) (t₁ ++ (s₁, e) :: t₂) s) :
    e.Shows s₁.ring (uncommitted t₁) ∧ s₁.ring.committedPos = position + UInt64.ofNat (commits t₁) := by
  obtain ⟨s₂, hbefore, hafter⟩ := ht.split
  obtain ⟨rfl, s₃, hs, -⟩ := hafter.uncons
  obtain ⟨-, hpos, hinv⟩ := inv_run hbefore
  exact ⟨(hinv.step hs).1, hpos⟩

lemma acknowledged_iff {position} {i n : Nat} {r : Ring α} (hr : r.committedPos = position + UInt64.ofNat n)
    (hlow : i < n + kCapacity) (hhigh : n ≤ i + 2 ^ 63) :
    r.acknowledged ⟨true, position + UInt64.ofNat i + 1⟩ = true ↔ i < n := by
  rw [Ring.acknowledged, hr, Bool.true_and, decide_eq_true_iff, UInt64.lt_iff_toNat_lt, UInt64.toNat_sub,
    UInt64.toNat_add, UInt64.toNat_add, UInt64.toNat_add, UInt64.toNat_ofNat', UInt64.toNat_ofNat']
  rw [kCapacity] at hlow
  simp only [UInt64.reduceToNat, UInt64.toNat_one]
  omega

structure FifoRun (position : UInt64) (t : Run α) (s : Threads α) : Prop where
  /-- Only entries that were published are committed. -/
  commits_le : commits t ≤ (published t).length
  /-- An entry stays in its slot until it is committed. -/
  kept : ∀ i (hi : i < (published t).length), commits t ≤ i →
    s.ring.entries (slot (position + UInt64.ofNat i)) = (published t)[i]
  /-- What is read is the first entry that is not committed. -/
  read : ∀ t₁ s₁ a t₂, t = t₁ ++ (s₁, .read a) :: t₂ → (published t₁)[commits t₁]? = some a
  /-- A peek misses no entry. -/
  peeked : ∀ t₁ s₁ r t₂, t = t₁ ++ (s₁, .peeked r) :: t₂ → (r = none ↔ commits t₁ = (published t₁).length)
  /-- A publication is refused if the ring is full. -/
  full : ∀ t₁ s₁ status t₂, t = t₁ ++ (s₁, .decided status) :: t₂ →
    (status = .full ↔ (published t₁).length = commits t₁ + kCapacity) ∧ status ≠ .invalidState
  /-- A ticket is acknowledged if its entry is committed. -/
  acknowledged : ∀ t₁ s₁ a ticket t₂, t = t₁ ++ (s₁, .published a ticket) :: t₂ → commits t₂ < 2 ^ 63 →
    (s.ring.acknowledged ticket = true ↔ (published t₁).length < commits t)

/-- Every run of a producer and a consumer, from every position: the ring is a queue with tickets. -/
theorem live_ring_fifo (ht : Trace Step (initQuiescentEmpty position entries) t s) : FifoRun position t s := by
  obtain ⟨hle, hpos, hinv⟩ := inv_run ht
  constructor
  case commits_le => exact hle
  case kept =>
    intro i hi hge
    have hlt : i - commits t < (uncommitted t).length := by
      rw [uncommitted, List.length_drop]
      omega
    have hentry := hinv.holds.entries (i - commits t) hlt
    rw [hpos, UInt64.add_assoc, ← UInt64.ofNat_add, Nat.add_sub_cancel' hge] at hentry
    rw [hentry]
    simp only [uncommitted, List.getElem_drop, Nat.add_sub_cancel' hge]
  case read =>
    rintro t₁ s₁ a t₂ rfl
    have hread := (shows_run ht).1
    rw [Event.Shows, uncommitted, List.head?_drop] at hread
    exact hread
  case peeked =>
    rintro t₁ s₁ r t₂ rfl
    obtain ⟨s₂, hbefore, -⟩ := ht.split
    have hpeeked := (shows_run ht).1
    rw [Event.Shows, uncommitted, List.drop_eq_nil_iff] at hpeeked
    exact hpeeked.trans (Nat.le_antisymm_iff.trans (and_iff_right (inv_run hbefore).1)).symm
  case full =>
    rintro t₁ s₁ status t₂ rfl
    obtain ⟨s₂, hbefore, -⟩ := ht.split
    have hle₁ := (inv_run hbefore).1
    obtain ⟨hfull, hvalid⟩ := (shows_run ht).1
    rw [uncommitted, List.length_drop] at hfull
    refine ⟨hfull.trans ?_, hvalid⟩
    omega
  case acknowledged =>
    rintro t₁ s₁ a ticket t₂ rfl hkept
    obtain ⟨s₂, hbefore, -⟩ := ht.split
    have hle₁ := (inv_run hbefore).1
    obtain ⟨hticket, hpos₁⟩ := shows_run ht
    have hend : ticket = ⟨true, position + UInt64.ofNat (published t₁).length + 1⟩ := by
      rw [hticket, hpos₁, UInt64.add_assoc position, ← UInt64.ofNat_add, uncommitted, List.length_drop,
        Nat.add_sub_cancel' hle₁]
    have hcommits : commits (t₁ ++ (s₁, .published a ticket) :: t₂) = commits t₁ + commits t₂ := by
      rw [commits_append]
      rfl
    have hbound := hinv.holds.bound
    rw [uncommitted, List.length_drop, published_append, List.length_append, hcommits] at hbound
    have hcons : (published ((s₁, .published a ticket) :: t₂)).length = (published t₂).length + 1 := rfl
    rw [hcommits] at hpos ⊢
    rw [hend]
    apply acknowledged_iff hpos
    all_goals omega

lemma Step.accept {s : Threads α} {a p} (h : s.publisher = .loaded a p)
    (hstatus : Ring.publishStatus (p - s.ring.committedPos) = .published) :
    Step s (.decided .published) { s with publisher := .storing a p } := by
  have hs := Step.decide h
  rwa [hstatus, if_pos rfl] at hs

def lastPosition : UInt64 := 18446744073709551615

def wrapEmpty : Threads Nat := initQuiescentEmpty lastPosition fun _ => 0
def wrapStored : Threads Nat :=
  { wrapEmpty with ring := write wrapEmpty.ring lastPosition 7, publisher := .stored 7 lastPosition }
def wrapPublished : Threads Nat :=
  { wrapStored with ring := { wrapStored.ring with publishedPos := lastPosition + 1 }, publisher := .idle }
def wrapCommitted : Threads Nat :=
  { wrapPublished with ring := { wrapPublished.ring with committedPos := lastPosition + 1 } }

def wrapTicket : Ticket := ⟨true, lastPosition + 1⟩

/-- The ticket is acknowledged behind the wrap. -/
theorem wrapped_acknowledged :
    ∃ t, Trace Step wrapEmpty t wrapCommitted ∧ published t = [7] ∧
      wrapCommitted.ring.acknowledged wrapTicket = true := by
  have hload : Step wrapEmpty .silent { wrapEmpty with publisher := .loaded 7 lastPosition } := .load 7 rfl
  have haccept : Step { wrapEmpty with publisher := .loaded 7 lastPosition } (.decided .published)
      { wrapEmpty with publisher := .storing 7 lastPosition } := .accept rfl (by decide)
  obtain ⟨t₁, hstored, hnone, hzero⟩ : ∃ t, Trace Step wrapEmpty t wrapStored ∧ published t = [] ∧ commits t = 0 :=
    ⟨_, ((Trace.nil.snoc hload).snoc haccept).snoc (.store rfl), rfl, rfl⟩
  have hpublished : Step wrapStored (.published 7 wrapTicket) wrapPublished := .publish rfl
  have hcommit : Step wrapPublished .silent { wrapPublished with consumer := .committing lastPosition } := .commit rfl
  have hcheck : Step { wrapPublished with consumer := .committing lastPosition } .silent
      { wrapPublished with consumer := .checked lastPosition } := .commitCheck rfl (by decide)
  obtain ⟨t₂, hcommitted, hmore, hone⟩ :
      ∃ t, Trace Step wrapPublished t wrapCommitted ∧ published t = [] ∧ commits t = 1 :=
    ⟨_, ((Trace.nil.snoc hcommit).snoc hcheck).snoc (.commitStore rfl), rfl, rfl⟩
  have ht : Trace Step wrapEmpty (t₁ ++ (wrapStored, .published 7 wrapTicket) :: t₂) wrapCommitted := by
    have hall := (hstored.snoc hpublished).trans hcommitted
    rwa [List.append_assoc] at hall
  have hcons : commits ((wrapStored, Event.published 7 wrapTicket) :: t₂) = commits t₂ := rfl
  refine ⟨_, ht, ?_, ?_⟩
  · rw [published_append, hnone]
    exact congrArg (7 :: ·) hmore
  · refine ((live_ring_fifo ht).acknowledged t₁ wrapStored 7 wrapTicket t₂ rfl ?_).mpr ?_
    · rw [hone]
      decide
    · rw [hnone, commits_append, hcons, hone, hzero]
      decide

end run

end Live

end Rut.AccessLog
