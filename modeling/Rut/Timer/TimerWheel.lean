import Rut.Lib.Ring
import Rut.Lib.Trace

/-!
# The timer wheel

Port of `include/rut/runtime/timer_wheel.h` and `src/runtime/timer_wheel.cc`. `tick` takes the nodes of a slot out one
by one and calls back for each; it keeps the node that comes next while the callback runs, and a callback may add,
refresh and remove any connection. The mark of the idle sweep is left out. Beside the wheel the model keeps a ledger of
the last arming of each connection.
-/

set_option linter.all false
namespace Rut.Timer

open Lib (Links Trace)

def kSlots : Nat := 64

variable {κ : Type}

abbrev Node (κ : Type) := Fin kSlots ⊕ κ

structure TimerWheel (κ : Type) where
  links : Links (Node κ) := Links.alone
  cursor : Nat := 0

/-- The slot of a tick; the sums of the source wrap at a multiple of the number of slots. -/
def slotAt (n : Nat) : Fin kSlots :=
  ⟨n % 2 ^ 32 &&& (kSlots - 1), Nat.lt_of_le_of_lt Nat.and_le_right (by decide)⟩

def TimerWheel.head (w : TimerWheel κ) : Node κ := .inl (slotAt w.cursor)

section

variable [DecidableEq κ]

namespace TimerWheel

def add (w : TimerWheel κ) (c : κ) (seconds : Nat) : TimerWheel κ :=
  { w with links := w.links.insertAfter (.inl (slotAt (w.cursor + seconds))) (.inr c) }

def remove (w : TimerWheel κ) (c : κ) : TimerWheel κ := { w with links := w.links.detach (.inr c) }

def refresh (w : TimerWheel κ) (c : κ) (seconds : Nat) : TimerWheel κ := (w.remove c).add c seconds

end TimerWheel

end

/-- The last arming of a connection: its timeout, and the ticks completed since. -/
structure Arming where
  timeout : Nat
  ticks : Nat := 0
deriving DecidableEq

structure Timers (κ : Type) where
  wheel : TimerWheel κ := {}
  ledger : κ → Option Arming := fun _ => none

inductive Op (κ : Type) where
  | add (c : κ) (seconds : Nat)
  | refresh (c : κ) (seconds : Nat)
  | remove (c : κ)

def Op.conn : Op κ → κ
  | .add c _ | .refresh c _ | .remove c => c

def Op.timeout : Op κ → Option Nat
  | .add _ s | .refresh _ s => some s
  | .remove _ => none

def Timers.complete (t : Timers κ) : Timers κ where
  wheel := { t.wheel with cursor := (t.wheel.cursor + 1) % 2 ^ 32 }
  ledger := fun c => (t.ledger c).map fun a => { a with ticks := a.ticks + 1 }

/-- The last arming of a connection was followed by as many complete ticks as its timeout says. -/
def Timers.Due (t : Timers κ) (c : κ) : Prop := ∃ a, t.ledger c = some a ∧ a.ticks = a.timeout

/-- A connection is added only if it is not in the wheel, and timeouts fit the wheel. -/
def Timers.Permits (t : Timers κ) (o : Op κ) : Prop :=
  (∀ c s, o = .add c s → t.ledger c = none) ∧ ∀ s, o.timeout = some s → s < kSlots

section

variable [DecidableEq κ]

namespace Timers

def apply (t : Timers κ) : Op κ → Timers κ
  | .add c s => { wheel := t.wheel.add c s, ledger := Function.update t.ledger c (some ⟨s, 0⟩) }
  | .refresh c s => { wheel := t.wheel.refresh c s, ledger := Function.update t.ledger c (some ⟨s, 0⟩) }
  | .remove c => { wheel := t.wheel.remove c, ledger := Function.update t.ledger c none }

def applyAll (t : Timers κ) (ops : List (Op κ)) : Timers κ := ops.foldl apply t

def PermitsAll : Timers κ → List (Op κ) → Prop
  | _, [] => True
  | t, o :: ops => t.Permits o ∧ (t.apply o).PermitsAll ops

end Timers

/-- The wheel between two ticks, in the loop of one with the node that comes next, or gone astray: the loop has taken the
head of another slot for the timer node of a connection. -/
inductive Machine (κ : Type) where
  | idle (timers : Timers κ)
  | ticking (timers : Timers κ) (node : Node κ)
  | astray

/-- What happens: an operation between two ticks, or a tick that starts, calls back with what the callback does, goes
astray, and ends. -/
inductive Act (κ : Type) where
  | op (o : Op κ)
  | tick
  | expire (c : κ) (ops : List (Op κ))
  | stray
  | done

/-- The operations and the turns of the loop of `tick`. -/
inductive Step : Machine κ → Act κ → Machine κ → Prop where
  | op {t : Timers κ} (o : Op κ) : Step (.idle t) (.op o) (.idle (t.apply o))
  | tick {t : Timers κ} : Step (.idle t) .tick (.ticking t (t.wheel.links.next t.wheel.head))
  | expire {t : Timers κ} {c : κ} (ops : List (Op κ)) :
      Step (.ticking t (.inr c)) (.expire c ops)
        (.ticking ((t.apply (.remove c)).applyAll ops) (t.wheel.links.next (.inr c)))
  | stray {t : Timers κ} {i : Fin kSlots} (hi : .inl i ≠ t.wheel.head) : Step (.ticking t (.inl i)) .stray .astray
  | done {t : Timers κ} : Step (.ticking t t.wheel.head) .done (.idle t.complete)

abbrev Entry (κ : Type) := Machine κ × Act κ

def WellFormed : Entry κ → Prop
  | (.idle t, .op o) => t.Permits o
  | (.ticking t _, .expire c ops) => (t.apply (.remove c)).PermitsAll ops
  | _ => True

/-- A callback leaves the connection alone that comes next in its slot, and arms none for the tick it is called in. -/
def Spares : Entry κ → Prop
  | (.ticking t node, .expire _ ops) =>
    ∀ o ∈ ops, .inr o.conn ≠ t.wheel.links.next node ∧ o.timeout ≠ some 0
  | _ => True

end

/-! ## The wheel represents the ledger -/

lemma slotAt_val (n : Nat) : (slotAt n).val = n % kSlots := by
  have hmask : n % 2 ^ 32 &&& (kSlots - 1) = n % 2 ^ 32 % 2 ^ 6 := Nat.and_two_pow_sub_one_eq_mod _ 6
  have hmod : n % 2 ^ 32 % 2 ^ 6 = n % 2 ^ 6 := Nat.mod_mod_of_dvd n (by decide)
  exact hmask.trans hmod

lemma slotAt_add_eq {n s} (hs : s < kSlots) (h : slotAt n = slotAt (n + s)) : s = 0 := by
  have hval := congrArg Fin.val h
  rw [slotAt_val, slotAt_val] at hval
  unfold kSlots at hs hval
  omega

namespace Timers

variable {t : Timers κ} {L : Fin kSlots → List κ} {c : κ}

/-- The slots hold the connections that the ledger says are armed, each where its time will come. -/
structure Inv (t : Timers κ) (L : Fin kSlots → List κ) : Prop where
  rings : t.wheel.links.Represents L
  fits : ∀ c a, t.ledger c = some a → a.ticks ≤ a.timeout ∧ a.timeout < kSlots
  armed : ∀ c i, c ∈ L i ↔ ∃ a, t.ledger c = some a ∧ i = slotAt (t.wheel.cursor + (a.timeout - a.ticks))

lemma inv_init : ({} : Timers κ).Inv fun _ => [] where
  rings := Links.represents_alone
  fits := fun _ _ h => by cases h
  armed := fun c i => ⟨fun h => absurd h List.not_mem_nil, fun ⟨_, h, _⟩ => by cases h⟩

lemma Inv.due_iff (h : t.Inv L) : t.Due c ↔ c ∈ L (slotAt t.wheel.cursor) := by
  rw [h.armed]
  constructor
  · rintro ⟨a, ha, hticks⟩
    exact ⟨a, ha, by rw [hticks, Nat.sub_self, Nat.add_zero]⟩
  · rintro ⟨a, ha, hslot⟩
    obtain ⟨hle, hlt⟩ := h.fits c a ha
    have hzero := slotAt_add_eq (by omega) hslot
    exact ⟨a, ha, by omega⟩

lemma complete_ledger (t : Timers κ) (c : κ) :
    t.complete.ledger c = (t.ledger c).map fun a => { a with ticks := a.ticks + 1 } := rfl

lemma Inv.complete (h : t.Inv L) (hnone : ∀ c, ¬t.Due c) : t.complete.Inv L := by
  have hlt : ∀ c a, t.ledger c = some a → a.ticks < a.timeout := by
    intro c a ha
    have hle := (h.fits c a ha).1
    exact Nat.lt_of_le_of_ne hle fun heq => hnone c ⟨a, ha, heq⟩
  refine ⟨h.rings, ?_, ?_⟩
  · intro c a ha
    obtain ⟨a', ha', rfl⟩ := Option.map_eq_some_iff.mp ha
    exact ⟨hlt c a' ha', (h.fits c a' ha').2⟩
  · intro c i
    rw [h.armed]
    constructor
    · rintro ⟨a, ha, rfl⟩
      refine ⟨{ a with ticks := a.ticks + 1 }, by rw [complete_ledger, ha]; rfl, ?_⟩
      have hticks := hlt c a ha
      apply Fin.ext
      rw [slotAt_val, slotAt_val]
      dsimp only [Timers.complete, kSlots]
      omega
    · rintro ⟨a, ha, rfl⟩
      obtain ⟨a', ha', rfl⟩ := Option.map_eq_some_iff.mp ha
      refine ⟨a', ha', ?_⟩
      have hticks := hlt c a' ha'
      apply Fin.ext
      rw [slotAt_val, slotAt_val]
      dsimp only [Timers.complete, kSlots]
      omega

lemma permits_arm {o : Op κ} {s : Nat} (hfree : ∀ c s, o = .add c s → t.ledger c = none)
    (ho : o.timeout = some s) (hs : s < kSlots) : t.Permits o :=
  ⟨hfree, fun _ h => by rw [ho] at h; cases h; exact hs⟩

variable [DecidableEq κ]

lemma apply_ledger_self {o} (hc : c = o.conn) : (t.apply o).ledger c = o.timeout.map fun s => ⟨s, 0⟩ := by
  subst hc
  cases o <;> exact Function.update_self ..

lemma apply_ledger_ne {o} (hc : c ≠ o.conn) : (t.apply o).ledger c = t.ledger c := by
  cases o <;> exact Function.update_of_ne hc ..

@[simp] lemma apply_cursor (t : Timers κ) (o : Op κ) : (t.apply o).wheel.cursor = t.wheel.cursor := by
  cases o <;> rfl

lemma Inv.remove (h : t.Inv L) (c : κ) : (t.apply (.remove c)).Inv fun i => (L i).erase c where
  rings := h.rings.detach c
  fits := by
    intro x a hx
    by_cases hc : x = c
    · rw [apply_ledger_self (o := .remove c) hc] at hx
      cases hx
    · rw [apply_ledger_ne (o := .remove c) hc] at hx
      exact h.fits x a hx
  armed := by
    intro x i
    by_cases hc : x = c
    · rw [apply_ledger_self (o := .remove c) hc, hc]
      constructor
      · intro hmem
        exact absurd hmem (List.Nodup.not_mem_erase (h.rings.nodup i))
      · rintro ⟨a, ha, -⟩
        cases ha
    · rw [List.mem_erase_of_ne hc, h.armed, apply_ledger_ne (o := .remove c) hc, apply_cursor]

lemma Inv.add {s} (h : t.Inv L) (hfree : t.ledger c = none) (hs : s < kSlots) : (t.apply (.add c s)).Inv
      (Function.update L (slotAt (t.wheel.cursor + s)) (c :: L (slotAt (t.wheel.cursor + s)))) where
  rings := by
    refine h.rings.insertAfter _ fun i hmem => ?_
    obtain ⟨a, ha, -⟩ := (h.armed c i).mp hmem
    rw [hfree] at ha
    cases ha
  fits := by
    intro x a hx
    by_cases hc : x = c
    · rw [apply_ledger_self (o := .add c s) hc] at hx
      cases hx
      exact ⟨Nat.zero_le _, hs⟩
    · rw [apply_ledger_ne (o := .add c s) hc] at hx
      exact h.fits x a hx
  armed := by
    intro x i
    have hmem : x ∈ Function.update L (slotAt (t.wheel.cursor + s)) (c :: L (slotAt (t.wheel.cursor + s))) i ↔
        x = c ∧ i = slotAt (t.wheel.cursor + s) ∨ x ∈ L i := by
      by_cases hi : i = slotAt (t.wheel.cursor + s)
      · rw [hi, Function.update_self, List.mem_cons, and_iff_left rfl]
      · rw [Function.update_of_ne hi]
        exact ⟨.inr, fun hx => hx.resolve_left fun hx => hi hx.2⟩
    rw [hmem, h.armed, apply_cursor]
    by_cases hc : x = c
    · rw [apply_ledger_self (o := .add c s) hc, hc, hfree]
      constructor
      · rintro (⟨-, hi⟩ | ⟨a, ha, -⟩)
        · exact ⟨⟨s, 0⟩, rfl, hi⟩
        · cases ha
      · rintro ⟨a, ha, hi⟩
        cases ha
        exact .inl ⟨rfl, hi⟩
    · rw [apply_ledger_ne (o := .add c s) hc]
      exact ⟨fun hx => hx.resolve_left fun hx => hc hx.1, .inr⟩

lemma apply_refresh (t : Timers κ) (c : κ) (s : Nat) :
    t.apply (.refresh c s) = (t.apply (.remove c)).apply (.add c s) := by
  have hledger : Function.update (Function.update t.ledger c none) c (some ⟨s, 0⟩) =
      Function.update t.ledger c (some ⟨s, 0⟩) := Function.update_idem ..
  exact congrArg (Timers.mk (t.wheel.refresh c s)) hledger.symm

@[simp] lemma applyAll_cursor (t : Timers κ) (ops : List (Op κ)) : (t.applyAll ops).wheel.cursor = t.wheel.cursor := by
  induction ops generalizing t with
  | nil => rfl
  | cons o ops ih => exact (ih _).trans (t.apply_cursor o)

lemma Inv.apply {o} (h : t.Inv L) (hp : t.Permits o) : ∃ L', (t.apply o).Inv L' ∧
      (o.timeout ≠ some 0 → L' (slotAt t.wheel.cursor) = (L (slotAt t.wheel.cursor)).erase o.conn) := by
  have hother : ∀ {s : Nat}, s < kSlots → some s ≠ some 0 → slotAt t.wheel.cursor ≠ slotAt (t.wheel.cursor + s) :=
    fun hs hne heq => hne (congrArg some (slotAt_add_eq hs heq))
  cases o with
  | remove c => exact ⟨_, h.remove c, fun _ => rfl⟩
  | add c s =>
    have hfree := hp.1 c s rfl
    refine ⟨_, h.add hfree (hp.2 s rfl), fun hne => ?_⟩
    rw [Function.update_of_ne (hother (hp.2 s rfl) hne)]
    refine (List.erase_of_not_mem fun hmem => ?_).symm
    obtain ⟨a, ha, -⟩ := (h.armed _ _).mp hmem
    rw [Op.conn, hfree] at ha
    cases ha
  | refresh c s =>
    rw [apply_refresh]
    refine ⟨_, (h.remove c).add (Function.update_self ..) (hp.2 s rfl), fun hne => ?_⟩
    exact Function.update_of_ne (hother (hp.2 s rfl) hne) ..

lemma Inv.applyAll {ops} (h : t.Inv L) (hp : t.PermitsAll ops) : ∃ L', (t.applyAll ops).Inv L' ∧
      ((∀ o ∈ ops, o.timeout ≠ some 0) →
        L' (slotAt t.wheel.cursor) = (L (slotAt t.wheel.cursor)).diff (ops.map Op.conn)) := by
  induction ops generalizing t L with
  | nil => exact ⟨L, h, fun _ => rfl⟩
  | cons o ops ih =>
    obtain ⟨L₁, h₁, hslot₁⟩ := h.apply hp.1
    obtain ⟨L₂, h₂, hslot₂⟩ := ih h₁ hp.2
    refine ⟨L₂, h₂, fun hne => ?_⟩
    rw [List.forall_mem_cons] at hne
    rw [apply_cursor] at hslot₂
    rw [hslot₂ hne.2, hslot₁ hne.1, List.map_cons, List.diff_cons]

end Timers

/-! ## Ticks -/

section Ticks

variable {t : Timers κ} {L : Fin kSlots → List κ} {c : κ} {node : Node κ}

def firstNode (h : Fin kSlots) (xs : List κ) : Node κ := xs.head?.elim (.inl h) .inr

lemma next_head {l : Links (Node κ)} (hr : l.Represents L) (h : Fin kSlots) : l.next (.inl h) = firstNode h (L h) := by
  have hpath := hr.path h
  cases hL : L h with
  | nil =>
    rw [hL] at hpath
    exact hpath.1
  | cons x xs =>
    rw [hL] at hpath
    exact hpath.1.1

lemma next_first {l : Links (Node κ)} (hr : l.Represents L) {h xs} (hL : L h = c :: xs) :
    l.next (.inr c) = firstNode h xs := by
  have hpath := hr.path h
  rw [hL] at hpath
  cases xs with
  | nil => exact hpath.2.1
  | cons x xs => exact hpath.2.1.1

/-- In the loop of a tick, the node that comes next is the first one that is left in the slot. -/
structure TickInv (t : Timers κ) (node : Node κ) (L : Fin kSlots → List κ) : Prop extends t.Inv L where
  node : node = firstNode (slotAt t.wheel.cursor) (L (slotAt t.wheel.cursor))

lemma Timers.Inv.tick (h : t.Inv L) : TickInv t (t.wheel.links.next t.wheel.head) L := ⟨h, next_head h.rings _⟩

lemma TickInv.slot (h : TickInv t (.inr c) L) :
    ∃ xs, L (slotAt t.wheel.cursor) = c :: xs ∧ t.wheel.links.next (.inr c) = firstNode (slotAt t.wheel.cursor) xs := by
  have hnode := h.node
  cases hL : L (slotAt t.wheel.cursor) with
  | nil =>
    rw [hL] at hnode
    cases hnode
  | cons x xs =>
    rw [hL] at hnode
    cases hnode
    exact ⟨xs, rfl, next_first h.rings hL⟩

lemma TickInv.last {i} (h : TickInv t (.inl i) L) : .inl i = t.wheel.head ∧ L (slotAt t.wheel.cursor) = [] := by
  have hnode := h.node
  cases hL : L (slotAt t.wheel.cursor) with
  | nil =>
    rw [hL] at hnode
    exact ⟨hnode, rfl⟩
  | cons x xs =>
    rw [hL] at hnode
    cases hnode

lemma TickInv.goes_on (hL : TickInv t node L) : node = t.wheel.head ∨ ∃ c, node = .inr c := by
  cases node with
  | inl i => exact .inl hL.last.1
  | inr c => exact .inr ⟨c, rfl⟩

variable [DecidableEq κ]

lemma TickInv.expire {ops} (h : TickInv t (.inr c) L) (hp : (t.apply (.remove c)).PermitsAll ops)
    (hspares : ∀ o ∈ ops, .inr o.conn ≠ t.wheel.links.next (.inr c) ∧ o.timeout ≠ some 0) :
    ∃ L', TickInv ((t.apply (.remove c)).applyAll ops) (t.wheel.links.next (.inr c)) L' ∧
      ∃ xs, L (slotAt t.wheel.cursor) = c :: xs ∧ L' (slotAt t.wheel.cursor) = xs.diff (ops.map Op.conn) := by
  obtain ⟨xs, hL, hnext⟩ := h.slot
  obtain ⟨L', hinv, hslot⟩ := (h.toInv.remove c).applyAll hp
  have hleft : L' (slotAt t.wheel.cursor) = xs.diff (ops.map Op.conn) := by
    have hs := hslot fun o ho => (hspares o ho).2
    rw [Timers.apply_cursor, hL, List.erase_cons_head] at hs
    exact hs
  refine ⟨L', ⟨hinv, ?_⟩, xs, hL, hleft⟩
  rw [Timers.applyAll_cursor, Timers.apply_cursor, hleft, hnext]
  cases xs with
  | nil => rw [List.nil_diff]
  | cons x xs =>
    have hx : x ∉ ops.map Op.conn := by
      intro hmem
      obtain ⟨o, ho, rfl⟩ := List.mem_map.mp hmem
      exact (hspares o ho).1 hnext.symm
    rw [List.cons_diff_of_not_mem hx]
    rfl

end Ticks

/-! ## Runs -/

def Machine.Due : Machine κ → κ → Prop
  | .idle t, c | .ticking t _, c => t.Due c
  | .astray, _ => False

def called : Entry κ → Option κ
  | (_, .expire c _) => some c
  | _ => none

def touched : Entry κ → List κ
  | (_, .expire _ ops) => ops.map Op.conn
  | _ => []

def Expires (e : Entry κ) : Prop := ∃ c ops, e.2 = .expire c ops

/-- A tick that starts in `m₀`, takes the turns `u` and ends in `m₁` calls back once for each connection that is due, unless
a callback before has armed it anew or removed it, and for no other; none is left that is due. -/
structure Exact (m₀ : Machine κ) (u : List (Entry κ)) (m₁ : Machine κ) : Prop where
  once : (u.filterMap called).Nodup
  due : ∀ c ∈ u.filterMap called, m₀.Due c
  served : ∀ c, m₀.Due c → c ∈ u.filterMap called ∨ ∃ e ∈ u, c ∈ touched e
  left : ∀ c, ¬m₁.Due c

/-- What ticks do in a run: their loops do not leave the slot, each call is for a connection that is due, a tick that has
started can go on and ends after a bounded number of turns, and each tick that has ended was exact. -/
structure TicksExact [DecidableEq κ] (u : List (Entry κ)) (m : Machine κ) : Prop where
  stays : m ≠ .astray
  due : ∀ e ∈ u, ∀ c, called e = some c → e.1.Due c
  goes_on : ∀ t node, m = .ticking t node → node = t.wheel.head ∨ ∃ c, node = .inr c
  ends : ∃ K, ∀ u' m', Trace Step m u' m' → (∀ e ∈ u', Expires e ∧ WellFormed e ∧ Spares e) → u'.length ≤ K
  exact : ∀ u₁ u₂ u₃ m₀ m₁, u = u₁ ++ (m₀, .tick) :: (u₂ ++ (m₁, .done) :: u₃) → (∀ e ∈ u₂, Expires e) → Exact m₀ u₂ m₁

def Machine.Inv : Machine κ → Prop
  | .idle t => ∃ L, t.Inv L
  | .ticking t node => ∃ L, TickInv t node L
  | .astray => False

lemma machine_inv_init : (.idle {} : Machine κ).Inv := ⟨_, Timers.inv_init⟩

variable [DecidableEq κ]

lemma Step.inv {m m' : Machine κ} {a} (h : Step m a m') (hinv : m.Inv) (hwf : WellFormed (m, a))
    (hspares : Spares (m, a)) : m'.Inv := by
  cases h with
  | op o =>
    obtain ⟨L, hL⟩ := hinv
    obtain ⟨L', hL', -⟩ := hL.apply hwf
    exact ⟨L', hL'⟩
  | tick =>
    obtain ⟨L, hL⟩ := hinv
    exact ⟨L, hL.tick⟩
  | expire ops =>
    obtain ⟨L, hL⟩ := hinv
    obtain ⟨L', hL', -⟩ := hL.expire hwf hspares
    exact ⟨L', hL'⟩
  | stray hi =>
    obtain ⟨L, hL⟩ := hinv
    exact hi hL.last.1
  | done =>
    obtain ⟨L, hL⟩ := hinv
    refine ⟨L, hL.toInv.complete fun c hdue => ?_⟩
    have hmem := hL.toInv.due_iff.mp hdue
    rw [hL.last.2] at hmem
    exact List.not_mem_nil hmem

lemma run_inv {u : List (Entry κ)} {m₀ m : Machine κ} (h : Trace Step m₀ u m) (hinv : m₀.Inv)
    (hok : ∀ e ∈ u, WellFormed e ∧ Spares e) : m.Inv :=
  h.inv hok hinv fun _ _ _ hok hinv hs => hs.inv hinv hok.1 hok.2

lemma turns {t₀ node₀ L₀} (h₀ : TickInv t₀ node₀ L₀) {u : List (Entry κ)}
    {m} (h : Trace Step (.ticking t₀ node₀) u m) (hexp : ∀ e ∈ u, Expires e) (hok : ∀ e ∈ u, WellFormed e ∧ Spares e) :
    ∃ t node L, m = .ticking t node ∧ TickInv t node L ∧ t.wheel.cursor = t₀.wheel.cursor ∧
      (u.filterMap called ++ L (slotAt t₀.wheel.cursor)).Sublist (L₀ (slotAt t₀.wheel.cursor)) ∧
      (∀ c ∈ L₀ (slotAt t₀.wheel.cursor),
        c ∈ u.filterMap called ∨ c ∈ L (slotAt t₀.wheel.cursor) ∨ ∃ e ∈ u, c ∈ touched e) ∧
      u.length = (u.filterMap called).length := by
  induction h with
  | nil => exact ⟨t₀, node₀, L₀, rfl, h₀, rfl, List.Sublist.refl _, fun c hc => .inr (.inl hc), rfl⟩
  | @snoc u m m' a _ hs ih =>
    obtain ⟨t, node, L, rfl, hL, hcursor, hsub, hcover, hlen⟩ :=
      ih (fun e he => hexp e (List.mem_append_left _ he)) fun e he => hok e (List.mem_append_left _ he)
    obtain ⟨c, ops, rfl⟩ := hexp (_, a) (List.mem_append_right _ (List.mem_singleton_self _))
    obtain ⟨hwf, hspares⟩ := hok _ (List.mem_append_right _ (List.mem_singleton_self _))
    cases hs with
    | expire =>
      obtain ⟨L', hL', xs, hslot, hleft⟩ := hL.expire hwf hspares
      rw [hcursor] at hslot hleft
      rw [hslot] at hsub hcover
      refine ⟨_, _, L', rfl, hL', ?_, ?_, ?_, ?_⟩
      · rw [Timers.applyAll_cursor, Timers.apply_cursor, hcursor]
      · rw [hleft, List.filterMap_append, List.append_assoc]
        refine List.Sublist.trans (List.Sublist.append_left ?_ _) hsub
        exact (List.diff_sublist xs _).cons_cons c
      · intro x hx
        rw [hleft, List.filterMap_append, List.mem_append]
        rcases hcover x hx with hx | hx | ⟨e, he, hx⟩
        · exact .inl (.inl hx)
        · rcases List.mem_cons.mp hx with rfl | hx
          · exact .inl (.inr List.mem_cons_self)
          · by_cases htouched : x ∈ ops.map Op.conn
            · exact .inr (.inr ⟨_, List.mem_append_right _ (List.mem_singleton_self _), htouched⟩)
            · exact .inr (.inl (List.mem_diff_of_mem hx htouched))
        · exact .inr (.inr ⟨e, List.mem_append_left _ he, hx⟩)
      · rw [List.filterMap_append, List.length_append, List.length_append, hlen]
        rfl

lemma expire_due {m m' : Machine κ} {a c} (h : Step m a m') (hinv : m.Inv)
    (hcalled : called (m, a) = some c) : m.Due c := by
  cases h with
  | expire =>
    cases hcalled
    obtain ⟨L, hL⟩ := hinv
    obtain ⟨xs, hslot, -⟩ := hL.slot
    exact hL.toInv.due_iff.mpr (hslot ▸ List.mem_cons_self)
  | _ => cases hcalled

lemma turns_bounded {m : Machine κ} (hinv : m.Inv) :
    ∃ K, ∀ u' m', Trace Step m u' m' → (∀ e ∈ u', Expires e ∧ WellFormed e ∧ Spares e) → u'.length ≤ K := by
  cases m with
  | idle t =>
    refine ⟨0, fun u' m' h hu' => ?_⟩
    cases u' with
    | nil => exact Nat.le_refl _
    | cons e u' =>
      obtain ⟨he, m, hs, -⟩ := h.uncons
      obtain ⟨c, ops, ha⟩ := (hu' _ List.mem_cons_self).1
      rw [← he, ha] at hs
      cases hs
  | ticking t node =>
    obtain ⟨L, hL⟩ := hinv
    refine ⟨(L (slotAt t.wheel.cursor)).length, fun u' m' h hu' => ?_⟩
    obtain ⟨t', node', L', -, -, -, hsub, -, hlen⟩ :=
      turns hL h (fun e he => (hu' e he).1) fun e he => (hu' e he).2
    calc u'.length = (u'.filterMap called).length := hlen
      _ ≤ (u'.filterMap called ++ L' (slotAt t.wheel.cursor)).length := by
        rw [List.length_append]
        exact Nat.le_add_right _ _
      _ ≤ (L (slotAt t.wheel.cursor)).length := hsub.length_le
  | astray => exact hinv.elim

lemma tick_run_exact {u : List (Entry κ)} {m₀ m m₁ m'} (hinv : m₀.Inv) (htick : Step m₀ .tick m)
    (h : Trace Step m u m₁) (hdone : Step m₁ .done m') (hexp : ∀ e ∈ u, Expires e)
    (hok : ∀ e ∈ u, WellFormed e ∧ Spares e) : Exact m₀ u m₁ := by
  cases htick with
  | @tick t₀ =>
    obtain ⟨L₀, h₀⟩ := hinv
    obtain ⟨t, node, L, rfl, hL, hcursor, hsub, hcover, -⟩ := turns h₀.tick h hexp hok
    cases hdone
    have hlast := hL.last.2
    rw [hcursor] at hlast
    rw [hlast, List.append_nil] at hsub
    refine ⟨(h₀.rings.nodup _).sublist hsub, fun c hc => h₀.due_iff.mpr (hsub.subset hc), ?_, ?_⟩
    · intro c hdue
      rcases hcover c (h₀.due_iff.mp hdue) with hc | hc | hc
      · exact .inl hc
      · rw [hlast] at hc
        exact absurd hc List.not_mem_nil
      · exact .inr hc
    · intro c hdue
      have hmem := hL.toInv.due_iff.mp hdue
      rw [hL.last.2] at hmem
      exact List.not_mem_nil hmem

/-- Ticks are exact in every run whose callbacks leave the connection that comes next alone and arm none for the tick they
are called in. -/
theorem tick_exact {u : List (Entry κ)} {m : Machine κ} (h : Trace Step (.idle {}) u m)
    (hwf : ∀ e ∈ u, WellFormed e) (hspares : ∀ e ∈ u, Spares e) : TicksExact u m := by
  have hok : ∀ e ∈ u, WellFormed e ∧ Spares e := fun e he => ⟨hwf e he, hspares e he⟩
  have hinv := run_inv h machine_inv_init hok
  refine ⟨?_, ?_, ?_, ?_, ?_⟩
  · rintro rfl
    exact hinv
  · intro e he c hcalled
    obtain ⟨u₁, u₂, rfl⟩ := List.append_of_mem he
    obtain ⟨s, hbefore, hafter⟩ := h.split
    obtain ⟨rfl, s', hs, -⟩ := hafter.uncons
    have hs_inv := run_inv hbefore machine_inv_init fun e he => hok e (List.mem_append_left _ he)
    exact expire_due hs hs_inv hcalled
  · rintro t node rfl
    obtain ⟨L, hL⟩ := hinv
    exact hL.goes_on
  · exact turns_bounded hinv
  · rintro u₁ u₂ u₃ m₀ m₁ rfl hexp
    obtain ⟨s₀, h₁, hrest⟩ := h.split
    obtain ⟨rfl, s₁, htick, hrest⟩ := hrest.uncons
    obtain ⟨s₂, h₂, hrest⟩ := hrest.split
    obtain ⟨rfl, s₃, hdone, -⟩ := hrest.uncons
    have hm₀ := run_inv h₁ machine_inv_init fun e he => hok e (List.mem_append_left _ he)
    refine tick_run_exact hm₀ htick h₂ hdone hexp fun e he => hok e ?_
    exact List.mem_append_right _ (List.mem_cons_of_mem _ (List.mem_append_left _ he))

def twoDue : Timers Nat := (({} : Timers Nat).applyAll [.add 2 1, .add 1 1]).complete

/-- The turns of a tick for both, where the first callback does `ops`. -/
def twoTurns (ops : List (Op Nat)) : List (Entry Nat) :=
  [(.ticking twoDue (.inr 1), .expire 1 ops),
    (.ticking ((twoDue.apply (.remove 1)).applyAll ops) (.inr 2), .expire 2 [])]

def twoArmed : List (Entry Nat) :=
  [(.idle {}, .op (.add 2 1)), (.idle (({} : Timers Nat).apply (.add 2 1)), .op (.add 1 1)),
    (.idle (({} : Timers Nat).applyAll [.add 2 1, .add 1 1]), .tick),
    (.ticking (({} : Timers Nat).applyAll [.add 2 1, .add 1 1]) (.inl (slotAt 0)), .done), (.idle twoDue, .tick)]

lemma twoArmed_run : Trace Step (.idle {}) twoArmed (.ticking twoDue (.inr 1)) :=
  ((((Trace.single (.op (.add 2 1))).snoc (.op (.add 1 1))).snoc .tick).snoc .done).snoc .tick

lemma twoTurns_run (ops : List (Op Nat)) : Trace Step (.ticking twoDue (.inr 1)) (twoTurns ops)
      (.ticking (((twoDue.apply (.remove 1)).applyAll ops).apply (.remove 2))
        (((twoDue.apply (.remove 1)).applyAll ops).wheel.links.next (.inr 2))) :=
  (Trace.single (.expire ops)).snoc (.expire [])

lemma twoArmed_wellFormed : ∀ e ∈ twoArmed, WellFormed e := by
  unfold twoArmed
  simp only [List.forall_mem_cons, List.not_mem_nil, false_imp_iff, implies_true, and_true]
  refine ⟨Timers.permits_arm (s := 1) ?_ rfl (by decide), Timers.permits_arm (s := 1) ?_ rfl (by decide), trivial, trivial, trivial⟩
  · intro c s h
    cases h
    rfl
  · intro c s h
    cases h
    rfl

lemma twoArmed_spares : ∀ e ∈ twoArmed, Spares e := by
  unfold twoArmed
  simp only [List.forall_mem_cons, List.not_mem_nil, false_imp_iff, implies_true, and_true]
  exact ⟨trivial, trivial, trivial, trivial, trivial⟩

/-- Two connections whose callbacks do nothing are both called back for. -/
theorem twoTurns_exact :
    twoDue.Due 1 ∧ twoDue.Due 2 ∧
      TicksExact (twoArmed ++ twoTurns []) (.ticking ((twoDue.apply (.remove 1)).apply (.remove 2)) twoDue.wheel.head) := by
  refine ⟨⟨⟨1, 1⟩, rfl, rfl⟩, ⟨⟨1, 1⟩, rfl, rfl⟩, tick_exact (twoArmed_run.trans (twoTurns_run [])) ?_ ?_⟩
  · refine List.forall_mem_append.mpr ⟨twoArmed_wellFormed, ?_⟩
    simp only [twoTurns, List.forall_mem_cons, List.not_mem_nil, false_imp_iff, implies_true, and_true]
    exact ⟨trivial, trivial⟩
  · refine List.forall_mem_append.mpr ⟨twoArmed_spares, ?_⟩
    simp only [twoTurns, List.forall_mem_cons, List.not_mem_nil, false_imp_iff, implies_true, and_true]
    exact ⟨fun o ho => absurd ho List.not_mem_nil, fun o ho => absurd ho List.not_mem_nil⟩

/-- A callback that arms the connection anew that comes next: it is called back for all the same, though it is not due, and
the loop goes on in the slot that it is now in. -/
theorem refreshedNext_not_exact :
    ¬∀ (u : List (Entry Nat)) (m : Machine Nat), Trace Step (.idle {}) u m → (∀ e ∈ u, WellFormed e) → TicksExact u m := by
  intro hall
  have hturns := twoTurns_run [.refresh 2 60]
  have hrun := (twoArmed_run.trans hturns).snoc (Step.stray (i := slotAt 61) (by decide))
  have hexact := hall _ _ hrun <| by
    refine List.forall_mem_append.mpr ⟨List.forall_mem_append.mpr ⟨twoArmed_wellFormed, ?_⟩, ?_⟩
    · simp only [twoTurns, List.forall_mem_cons, List.not_mem_nil, false_imp_iff, implies_true, and_true]
      refine ⟨⟨Timers.permits_arm (s := 60) ?_ rfl (by decide), trivial⟩, trivial⟩
      intro c s h
      cases h
    · intro e he
      cases List.mem_singleton.mp he
      trivial
  have hcalled : ((twoDue.apply (.remove 1)).applyAll [.refresh 2 60]).Due 2 :=
    hexact.due (.ticking ((twoDue.apply (.remove 1)).applyAll [.refresh 2 60]) (.inr 2), .expire 2 [])
      (List.mem_append_left _ (List.mem_append_right _ (List.mem_cons_of_mem _ List.mem_cons_self))) 2 rfl
  obtain ⟨a, ha, hticks⟩ := hcalled
  cases ha
  exact absurd hticks (by decide)

end Rut.Timer
