import Rut.Common.Types

/-!
# The in-memory store of the HTTP cache

Port of `MemoryHttpCacheStore` (`src/runtime/memory_http_cache_store.cc`): 64 entries in sets of four ways, chosen by
the hash of the key. An entry can hold a response that is served (`ready`) and at the same time a fill for its key
(`pending`). A fill is named by a token, the generation of its reservation and the slot. Generations are never reused,
since `reserve` refuses once they are used up.
-/

namespace Rut.HttpCache

/-- Longest key (`kMaxKey`). -/
def kMaxKey : Nat := 2048
/-- Longest response (`kMaxResponse`). -/
def kMaxResponse : Nat := 16 * 1024
/-- Number of entries (`kCapacity`). -/
def kCapacity : Nat := 64
/-- Entries of a set (`kWays`). -/
def kWays : Nat := 4
/-- The last generation (`~u64{0}`). -/
def kLastGeneration : Nat := 2 ^ 64 - 1

/-- Names a fill (`Token`), generation 0 being no fill. -/
structure Token where
  generation : Nat := 0
  slot : Nat := 0
deriving DecidableEq

/-- A key with its hash, its configuration and its host (`KeyView`). -/
structure KeyView where
  bytes : Str
  hash : UInt64
  config : UInt64
  host : UInt64
deriving DecidableEq

/-- Start and lifetime bound of a fill (`Fill`). -/
structure Fill where
  startedUs : Nat
  ttl : Nat
deriving DecidableEq

/-- A stored response with its freshness (`Record`). -/
structure Record where
  response : Str
  storedUs : Nat
  expiresUs : Nat
  initialAgeUs : Nat
deriving DecidableEq

/-- An entry (`Entry`), its response and the response's freshness as one record. -/
structure Entry where
  generation : Nat := 0
  hash : UInt64 := 0
  config : UInt64 := 0
  host : UInt64 := 0
  fill : Fill := ⟨0, 0⟩
  record : Record := ⟨[], 0, 0, 0⟩
  pending : Bool := false
  ready : Bool := false
  key : Str := []
deriving DecidableEq

structure Store where
  entries : Fin kCapacity → Entry := fun _ => {}
  generation : Nat := 0

/-- The entry is for the key (`matches`). The host is not compared. -/
def Entry.matchesKey (e : Entry) (k : KeyView) : Bool :=
  e.config == k.config && e.hash == k.hash && e.key == k.bytes

def slotOf (hash : UInt64) (way : Fin kWays) : Fin kCapacity :=
  ⟨hash.toNat % (kCapacity / kWays) * kWays + way, by
    have hmod : hash.toNat % 16 < 16 := Nat.mod_lt _ (by decide)
    have hway : (way : Nat) < 4 := way.isLt
    simp only [kCapacity, kWays]
    omega⟩

def firstWay : Fin kWays := ⟨0, by decide⟩

def setSlots (hash : UInt64) : List (Fin kCapacity) := (List.finRange kWays).map (slotOf hash)

namespace Store

def served (s : Store) (k : KeyView) (i : Fin kCapacity) : Bool :=
  (s.entries i).ready && (s.entries i).matchesKey k

/-- The response stored for a key (`find`). -/
def find (s : Store) (k : KeyView) : Option Record :=
  if k.bytes.length > kMaxKey then none
  else ((setSlots k.hash).find? (s.served k)).map fun i => (s.entries i).record

/-- The loop of `reserve` that looks for the entry to use: the one served for the key, else the last one that was free
or older than the choice so far. -/
def victimLoop (s : Store) (k : KeyView) : List (Fin kCapacity) → Fin kCapacity → Fin kCapacity
  | [], victim => victim
  | i :: is, victim =>
    if s.served k i then i
    else
      victimLoop s k is
        (if (!(s.entries i).ready && !(s.entries i).pending) ||
            (s.entries i).generation < (s.entries victim).generation then i
         else victim)

/-- The slot `reserve` uses for a key. -/
def victim (s : Store) (k : KeyView) : Fin kCapacity := s.victimLoop k (setSlots k.hash) (slotOf k.hash firstWay)

def set (s : Store) (i : Fin kCapacity) (e : Entry) : Store := { s with entries := Function.update s.entries i e }

/-- The entry of a slot after a reservation. What is served for the same key stays. -/
def reserved (e : Entry) (k : KeyView) (fill : Fill) (generation : Nat) : Entry :=
  { e with
    ready := e.ready && e.matchesKey k
    pending := true
    generation := generation
    hash := k.hash
    config := k.config
    host := k.host
    fill := fill
    key := k.bytes }

/-- Start a fill for a key (`reserve`). -/
def reserve (s : Store) (k : KeyView) (ttl nowUs : Nat) : Store × Token :=
  if k.bytes.length > kMaxKey ∨ s.generation = kLastGeneration then (s, {})
  else
    let i := s.victim k
    ({ s.set i (reserved (s.entries i) k ⟨nowUs, ttl⟩ (s.generation + 1)) with generation := s.generation + 1 },
      ⟨s.generation + 1, i⟩)

def live (s : Store) (t : Token) : Option (Fin kCapacity) :=
  if t.generation = 0 then none
  else if h : t.slot < kCapacity then
    let e := s.entries ⟨t.slot, h⟩
    if e.generation ≠ t.generation ∨ !e.pending then none else some ⟨t.slot, h⟩
  else none

/-- The fill of a token (`inspect`). -/
def inspect (s : Store) (t : Token) : Option Fill := (s.live t).map fun i => (s.entries i).fill

/-- Store a response under the key of a fill (`publish`). -/
def publish (s : Store) (t : Token) (r : Record) : Store × Bool :=
  match s.live t with
  | none => (s, false)
  | some i =>
    if r.response.length > kMaxResponse then (s, false)
    else (s.set i { s.entries i with record := r, pending := false, ready := true }, true)

/-- End a fill and keep what is served (`cancel`). -/
def cancel (s : Store) (t : Token) : Store :=
  match s.live t with
  | none => s
  | some i => s.set i { s.entries i with pending := false }

/-- End a fill and drop what is served (`discard`). -/
def discard (s : Store) (t : Token) : Store :=
  match s.live t with
  | none => s
  | some i => s.set i { s.entries i with pending := false, ready := false }

/-- Drop what is stored and what is being filled for a host (`invalidate_host`). -/
def invalidateHost (s : Store) (config host : UInt64) : Store :=
  { s with
    entries := fun i =>
      if (s.entries i).config = config ∧ (s.entries i).host = host then
        { s.entries i with ready := false, pending := false }
      else s.entries i }

/-! ## Slots -/

lemma mem_setSlots {hash i} : i ∈ setSlots hash ↔ ∃ way, slotOf hash way = i := by
  simp [setSlots]

@[simp] lemma set_same (s : Store) (i : Fin kCapacity) (e : Entry) : (s.set i e).entries i = e := by
  simp [set]

lemma set_other {s : Store} {i j} (h : j ≠ i) (e : Entry) : (s.set i e).entries j = s.entries j := by
  simp [set, h]

lemma live_eq_some {s : Store} {t i} : s.live t = some i ↔
      t.generation ≠ 0 ∧ t.slot = i ∧ (s.entries i).generation = t.generation ∧ (s.entries i).pending = true := by
  unfold live
  by_cases h0 : t.generation = 0
  · simp [h0]
  by_cases hlt : t.slot < kCapacity
  · simp only [if_neg h0, dif_pos hlt]
    constructor
    · intro h
      split_ifs at h with hno
      cases h
      rw [not_or] at hno
      exact ⟨h0, rfl, not_not.mp hno.1, by simpa using hno.2⟩
    · rintro ⟨-, hslot, hgen, hpend⟩
      obtain rfl : (⟨t.slot, hlt⟩ : Fin kCapacity) = i := Fin.ext hslot
      simp [hgen, hpend]
  · simp only [if_neg h0, dif_neg hlt, reduceCtorEq, false_iff, not_and]
    intro _ hslot
    exact absurd (hslot ▸ i.isLt) hlt

lemma victimLoop_mem (s : Store) (k : KeyView) (is : List (Fin kCapacity)) (v : Fin kCapacity) :
    s.victimLoop k is v = v ∨ s.victimLoop k is v ∈ is := by
  induction is generalizing v with
  | nil => exact .inl rfl
  | cons i is ih =>
    rw [victimLoop]
    split_ifs with hserved hbetter
    · exact .inr (by simp)
    · rcases ih i with h | h
      · exact .inr (by simp [h])
      · exact .inr (by simp [h])
    · rcases ih v with h | h
      · exact .inl h
      · exact .inr (by simp [h])

/-- What `reserve` does: nothing, or a fresh generation for a slot of the set of the key. -/
lemma reserve_cases (s : Store) (k : KeyView) (ttl nowUs : Nat) : s.reserve k ttl nowUs = (s, {}) ∨
    k.bytes.length ≤ kMaxKey ∧ s.reserve k ttl nowUs =
        ({ s.set (s.victim k) (reserved (s.entries (s.victim k)) k ⟨nowUs, ttl⟩ (s.generation + 1)) with
            generation := s.generation + 1 },
          ⟨s.generation + 1, s.victim k⟩) := by
  unfold reserve
  split_ifs with h
  · exact .inl rfl
  · exact .inr ⟨by omega, rfl⟩

/-- What `publish` does: nothing, or a response for the slot of a live fill. -/
lemma publish_cases (s : Store) (t : Token) (r : Record) : s.publish t r = (s, false) ∨ ∃ i, s.live t = some i ∧
      s.publish t r = (s.set i { s.entries i with record := r, pending := false, ready := true }, true) := by
  unfold publish
  cases hl : s.live t with
  | none => exact .inl rfl
  | some i =>
    split_ifs with h
    · exact .inl rfl
    · exact .inr ⟨i, rfl, rfl⟩

structure Lowered (s s' : Store) : Prop where
  generation : s'.generation = s.generation
  entry : ∀ i, ∃ p r, s'.entries i = { s.entries i with pending := p, ready := r } ∧
    (p = true → (s.entries i).pending = true) ∧ (r = true → (s.entries i).ready = true)

lemma Lowered.refl (s : Store) : Lowered s s := ⟨rfl, fun _ => ⟨_, _, rfl, id, id⟩⟩

lemma lowered_set (s : Store) (i : Fin kCapacity) {p r} (hp : p = true → (s.entries i).pending = true)
    (hr : r = true → (s.entries i).ready = true) :
    Lowered s (s.set i { s.entries i with pending := p, ready := r }) := by
  refine ⟨rfl, fun j => ?_⟩
  by_cases hj : j = i
  · subst hj
    exact ⟨p, r, by simp, hp, hr⟩
  · exact ⟨_, _, set_other hj _, id, id⟩

lemma lowered_cancel (s : Store) (t : Token) : Lowered s (s.cancel t) := by
  unfold cancel
  cases s.live t with
  | none => exact .refl s
  | some i => exact s.lowered_set i (by simp) id

lemma lowered_discard (s : Store) (t : Token) : Lowered s (s.discard t) := by
  unfold discard
  cases s.live t with
  | none => exact .refl s
  | some i => exact s.lowered_set i (by simp) (by simp)

lemma lowered_invalidateHost (s : Store) (config host : UInt64) : Lowered s (s.invalidateHost config host) := by
  refine ⟨rfl, fun i => ?_⟩
  by_cases h : (s.entries i).config = config ∧ (s.entries i).host = host
  · exact ⟨false, false, by simp [invalidateHost, h], by simp, by simp⟩
  · exact ⟨_, _, by simp only [invalidateHost, if_neg h], id, id⟩

lemma victim_mem (s : Store) (k : KeyView) : s.victim k ∈ setSlots k.hash := by
  rcases s.victimLoop_mem k (setSlots k.hash) (slotOf k.hash firstWay) with h | h
  · rw [victim, h]
    exact mem_setSlots.mpr ⟨firstWay, rfl⟩
  · exact h

lemma victimLoop_served {s : Store} {k is} (h : ∃ i ∈ is, s.served k i = true)
    (v : Fin kCapacity) : s.served k (s.victimLoop k is v) = true := by
  induction is generalizing v with
  | nil => simp at h
  | cons i is ih =>
    rw [victimLoop]
    split_ifs with hserved
    · exact hserved
    all_goals
      obtain ⟨j, hj, hjs⟩ := h
      rcases List.mem_cons.mp hj with rfl | hj
      · exact absurd hjs hserved
      · exact ih ⟨j, hj, hjs⟩ _

end Store

def SameKey (k k' : KeyView) : Prop := k.config = k'.config ∧ k.hash = k'.hash ∧ k.bytes = k'.bytes

lemma matches_iff {e : Entry} {k} :
    e.matchesKey k = true ↔ e.config = k.config ∧ e.hash = k.hash ∧ e.key = k.bytes := by
  simp [Entry.matchesKey, and_assoc]

lemma SameKey.matches_iff {e : Entry} {k k'} (h : SameKey k k') : e.matchesKey k = e.matchesKey k' := by
  simp [Entry.matchesKey, h.1, h.2.1, h.2.2]

lemma find_eq_some {s : Store} {k r} (h : s.find k = some r) : ∃ i, s.served k i = true ∧ (s.entries i).record = r := by
  unfold Store.find at h
  split_ifs at h
  obtain ⟨i, hi, hr⟩ := Option.map_eq_some_iff.mp h
  exact ⟨i, by simpa using List.find?_some hi, hr⟩

lemma served_iff {s : Store} {k i} :
    s.served k i = true ↔ (s.entries i).ready = true ∧ (s.entries i).matchesKey k = true := by
  rw [Store.served, Bool.and_eq_true]

end Rut.HttpCache
