import Rut.HttpCache.LastWriter

/-!
# Which entry a reservation displaces

The scan of `reserve` takes a free way when it meets one, but goes on and gives it up again for a way behind it that is
older. The generation of a way stays when it is discarded or invalidated, so that a free way can be younger than a way
that is served. A reservation then drops what is served although there was a free way.
-/

namespace Rut.HttpCache

open Lib

def Entry.Free (e : Entry) : Prop := e.ready = false ∧ e.pending = false

def Store.way (s : Store) (hash : UInt64) (w : Fin kWays) : Entry := s.entries (slotOf hash w)

/-- A served way behind the last free way is older than all others from the free way on. -/
def Store.Overtaken (s : Store) (hash : UInt64) : Prop :=
  ∃ f v, f < v ∧ (s.way hash f).Free ∧ (∀ w, f < w → ¬ (s.way hash w).Free) ∧ (s.way hash v).ready = true ∧
    ∀ w, f ≤ w → w ≠ v → (s.way hash v).generation < (s.way hash w).generation

/-- What is served stays if there is a free way; else the oldest way goes. -/
structure Store.SparesLive (s : Store) (k : KeyView) (ttl nowUs : Nat) : Prop where
  spares : (∃ w, (s.way k.hash w).Free) → ∀ k' i, ¬ SameKey k k' → s.served k' i = true →
    (s.reserve k ttl nowUs).1.served k' i = true
  displaces : (∀ w, ¬ (s.way k.hash w).Free) → (s.reserve k ttl nowUs).2.generation ≠ 0 →
    ∃ w, (∀ w', (s.way k.hash w).generation ≤ (s.way k.hash w').generation) ∧
      (s.reserve k ttl nowUs).2.slot = slotOf k.hash w ∧
      ∀ k', ¬ SameKey k k' → (s.reserve k ttl nowUs).1.served k' (slotOf k.hash w) = false

/-! ## Generations -/

structure Stamped (s : Store) : Prop where
  le : ∀ i, (s.entries i).generation ≤ s.generation
  unique : ∀ i j, (s.entries i).InUse → (s.entries i).generation = (s.entries j).generation → i = j

lemma stamped_init : Stamped {} := ⟨fun _ => le_refl _, fun _ _ h => by rcases h with h | h <;> cases h⟩

section step

variable {s s' : Store}

lemma Stamped.lower (h : Stamped s) (hl : s.Lowered s') : Stamped s' := by
  constructor
  case le =>
    intro i
    obtain ⟨p, r, heq, -⟩ := hl.entry i
    rw [heq, hl.generation]
    exact h.le i
  case unique =>
    intro i j huse hgen
    obtain ⟨p, r, heq, hp, hr⟩ := hl.entry i
    obtain ⟨p', r', heq', -⟩ := hl.entry j
    rw [heq] at huse hgen
    rw [heq'] at hgen
    exact h.unique i j (huse.imp hr hp) hgen

lemma Stamped.publish (h : Stamped s) (tok : Token) (r : Record) : Stamped (s.publish tok r).1 := by
  rcases s.publish_cases tok r with heq | ⟨i, hlive, heq⟩
  · rw [heq]
    exact h
  obtain ⟨-, -, -, hpending⟩ := Store.live_eq_some.mp hlive
  rw [heq]
  have hgen : ∀ j, ((s.set i { s.entries i with record := r, pending := false, ready := true }).entries j).generation =
      (s.entries j).generation := by
    intro j
    by_cases hj : j = i
    · subst hj
      rw [Store.set_same]
    · rw [Store.set_other hj]
  constructor
  case le =>
    intro j
    rw [hgen]
    exact h.le j
  case unique =>
    intro j l huse hsame
    rw [hgen, hgen] at hsame
    by_cases hj : j = i
    · subst hj
      exact h.unique j l (.inr hpending) hsame
    · rw [Store.set_other hj] at huse
      exact h.unique j l huse hsame

lemma Stamped.reserve (h : Stamped s) (k : KeyView) (ttl nowUs : Nat) : Stamped (s.reserve k ttl nowUs).1 := by
  rcases s.reserve_cases k ttl nowUs with heq | ⟨-, heq⟩
  · rw [heq]
    exact h
  rw [heq]
  constructor
  case le =>
    intro j
    by_cases hj : j = s.victim k
    · subst hj
      simp [Store.reserved]
    · simp only [Store.set_other hj]
      exact (h.le j).trans (Nat.le_succ _)
  case unique =>
    intro i j huse hgen
    by_cases hi : i = s.victim k <;> by_cases hj : j = s.victim k
    · exact hi.trans hj.symm
    · subst hi
      simp only [Store.set_same, Store.set_other hj, Store.reserved] at hgen
      exact absurd (h.le j) (by omega)
    · subst hj
      simp only [Store.set_same, Store.set_other hi, Store.reserved] at hgen
      exact absurd (h.le i) (by omega)
    · simp only [Store.set_other hi, Store.set_other hj] at huse hgen
      exact h.unique i j huse hgen

lemma Stamped.step (h : Stamped s) (op : StoreOp) : Stamped (s.apply op) := by
  cases op with
  | reserve k ttl nowUs => exact h.reserve k ttl nowUs
  | publish tok r => exact h.publish tok r
  | cancel tok => exact h.lower (s.lowered_cancel tok)
  | discard tok => exact h.lower (s.lowered_discard tok)
  | invalidateHost config host => exact h.lower (s.lowered_invalidateHost config host)

end step

lemma stamped_of_trace {t : StoreTrace} {s} (ht : Trace StoreStep {} t s) : Stamped s := by
  induction ht with
  | nil => exact stamped_init
  | snoc ht hs ih =>
    cases hs
    exact ih.step _

/-! ## The scan -/

section scan

variable {s : Store} {k : KeyView} {is is' : List (Fin kCapacity)} {i v : Fin kCapacity}

lemma victimLoop_oldest (hserved : ∀ i ∈ is, s.served k i = false) (huse : ∀ i ∈ is, ¬ (s.entries i).Free)
    (v : Fin kCapacity) : (s.victimLoop k is v = v ∨
      s.victimLoop k is v ∈ is ∧ (s.entries (s.victimLoop k is v)).generation < (s.entries v).generation) ∧
    ∀ i ∈ v :: is, (s.entries (s.victimLoop k is v)).generation ≤ (s.entries i).generation := by
  induction is generalizing v with
  | nil => exact ⟨.inl rfl, by simp [Store.victimLoop]⟩
  | cons i is ih =>
    rw [List.forall_mem_cons] at hserved huse
    have hbusy : (!(s.entries i).ready && !(s.entries i).pending) = false := by
      have hnot := huse.1
      rw [Entry.Free] at hnot
      cases hr : (s.entries i).ready <;> cases hp : (s.entries i).pending <;> simp_all
    rw [Store.victimLoop, if_neg (by simp [hserved.1]), hbusy, Bool.false_or]
    by_cases hlt : (s.entries i).generation < (s.entries v).generation
    · rw [decide_eq_true hlt, if_pos rfl]
      obtain ⟨hcase, hall⟩ := ih hserved.2 huse.2 i
      have hi := hall i List.mem_cons_self
      refine ⟨.inr ⟨?_, lt_of_le_of_lt hi hlt⟩, ?_⟩
      · rcases hcase with heq | ⟨hmem, -⟩
        · rw [heq]
          exact List.mem_cons_self
        · exact List.mem_cons_of_mem _ hmem
      · intro j hj
        rcases List.mem_cons.mp hj with rfl | hj
        · exact hi.trans hlt.le
        · exact hall j hj
    · rw [decide_eq_false hlt, if_neg Bool.false_ne_true]
      obtain ⟨hcase, hall⟩ := ih hserved.2 huse.2 v
      have hv := hall v List.mem_cons_self
      refine ⟨hcase.imp id fun hin => ⟨List.mem_cons_of_mem _ hin.1, hin.2⟩, ?_⟩
      intro j hj
      rcases List.mem_cons.mp hj with rfl | hj
      · exact hv
      · rcases List.mem_cons.mp hj with rfl | hj
        · exact hv.trans (Nat.le_of_not_lt hlt)
        · exact hall j (List.mem_cons_of_mem _ hj)

lemma victimLoop_free (hserved : ∀ i ∈ is, s.served k i = false) (hi : s.served k i = false)
    (hfree : (s.entries i).Free) : s.victimLoop k (is ++ i :: is') v = s.victimLoop k is' i := by
  induction is generalizing v with
  | nil =>
    rw [List.nil_append, Store.victimLoop, if_neg (by simp [hi])]
    simp [hfree.1, hfree.2]
  | cons j is ih =>
    rw [List.forall_mem_cons] at hserved
    rw [List.cons_append, Store.victimLoop, if_neg (by simp [hserved.1])]
    exact ih hserved.2

end scan

/-! ## The ways of a set -/

lemma slotOf_injective (hash : UInt64) : Function.Injective (slotOf hash) := by
  intro w w' h
  have hval := congrArg Fin.val h
  simp only [slotOf] at hval
  exact Fin.ext (by omega)

lemma finRange_split (f : Fin kWays) :
    ∃ before behind, List.finRange kWays = before ++ f :: behind ∧ ∀ w, w ∈ behind ↔ f < w := by
  obtain ⟨before, behind, heq⟩ := List.append_of_mem (List.mem_finRange f)
  refine ⟨before, behind, heq, ?_⟩
  have hsorted : (before ++ f :: behind).Pairwise (· < ·) := heq ▸ List.pairwise_lt_finRange kWays
  obtain ⟨-, hbehind, hcross⟩ := List.pairwise_append.mp hsorted
  intro w
  constructor
  · exact fun hw => (List.pairwise_cons.mp hbehind).1 w hw
  · intro hlt
    have hmem : w ∈ before ++ f :: behind := heq ▸ List.mem_finRange w
    rcases List.mem_append.mp hmem with hw | hw
    · exact absurd (hcross w hw f List.mem_cons_self) hlt.asymm
    · exact (List.mem_cons.mp hw).resolve_left hlt.ne'

lemma exists_last {P : Fin kWays → Prop} (h : ∃ w, P w) : ∃ f, P f ∧ ∀ w, f < w → ¬ P w := by
  classical
  obtain ⟨w, hw⟩ := h
  obtain ⟨f, hf, hmax⟩ := Finset.exists_max_image (Finset.univ.filter P) id ⟨w, by simpa using hw⟩
  refine ⟨f, by simpa using hf, ?_⟩
  intro w hlt hw
  exact absurd (hmax w (by simpa using hw)) (not_le.mpr hlt)

section victim

variable {s : Store} {k : KeyView}

lemma victim_from_free (hnone : ∀ i, s.served k i = false) {f} (hfree : (s.way k.hash f).Free)
    (hlast : ∀ w, f < w → ¬ (s.way k.hash w).Free) : ∃ u, s.victim k = slotOf k.hash u ∧ f ≤ u ∧
      ∀ w, f ≤ w → (s.way k.hash u).generation ≤ (s.way k.hash w).generation := by
  obtain ⟨before, behind, hsplit, hbehind⟩ := finRange_split f
  have hvictim : s.victim k = s.victimLoop k (behind.map (slotOf k.hash)) (slotOf k.hash f) := by
    rw [Store.victim, setSlots, hsplit, List.map_append, List.map_cons]
    exact victimLoop_free (fun i _ => hnone i) (hnone _) hfree
  have hbusy : ∀ i ∈ behind.map (slotOf k.hash), ¬ (s.entries i).Free := by
    intro i hi
    obtain ⟨w, hw, rfl⟩ := List.mem_map.mp hi
    exact hlast w ((hbehind w).mp hw)
  obtain ⟨hcase, hall⟩ := victimLoop_oldest (fun i _ => hnone i) hbusy (slotOf k.hash f)
  rw [← hvictim] at hcase hall
  have hold : ∀ u, s.victim k = slotOf k.hash u → ∀ w, f ≤ w →
      (s.way k.hash u).generation ≤ (s.way k.hash w).generation := by
    intro u hu w hw
    rw [hu] at hall
    rcases eq_or_lt_of_le hw with rfl | hlt
    · exact hall _ List.mem_cons_self
    · exact hall _ (List.mem_cons_of_mem _ (List.mem_map_of_mem ((hbehind w).mpr hlt)))
  rcases hcase with heq | ⟨hmem, -⟩
  · exact ⟨f, heq, le_refl f, hold f heq⟩
  · obtain ⟨u, hu, heq⟩ := List.mem_map.mp hmem
    exact ⟨u, heq.symm, ((hbehind u).mp hu).le, hold u heq.symm⟩

lemma victim_of_full (hnone : ∀ i, s.served k i = false) (hfull : ∀ w, ¬ (s.way k.hash w).Free) :
    ∃ u, s.victim k = slotOf k.hash u ∧ ∀ w, (s.way k.hash u).generation ≤ (s.way k.hash w).generation := by
  have hbusy : ∀ i ∈ setSlots k.hash, ¬ (s.entries i).Free := by
    intro i hi
    obtain ⟨w, rfl⟩ := Store.mem_setSlots.mp hi
    exact hfull w
  obtain ⟨-, hall⟩ := victimLoop_oldest (fun i _ => hnone i) hbusy (slotOf k.hash firstWay)
  obtain ⟨u, hu⟩ := Store.mem_setSlots.mp (s.victim_mem k)
  refine ⟨u, hu.symm, ?_⟩
  intro w
  have hw := hall (slotOf k.hash w) (List.mem_cons_of_mem _ (Store.mem_setSlots.mpr ⟨w, rfl⟩))
  rw [Store.way, hu]
  exact hw

lemma reserve_accepts (hlen : k.bytes.length ≤ kMaxKey) (hgen : s.generation ≠ kLastGeneration) (ttl nowUs : Nat) :
    s.reserve k ttl nowUs =
      ({ s.set (s.victim k) (Store.reserved (s.entries (s.victim k)) k ⟨nowUs, ttl⟩ (s.generation + 1)) with
          generation := s.generation + 1 },
        ⟨s.generation + 1, s.victim k⟩) := by
  rw [Store.reserve, if_neg (by omega)]

lemma reserve_victim (hnone : ∀ i, s.served k i = false) (hlen : k.bytes.length ≤ kMaxKey)
    (hgen : s.generation ≠ kLastGeneration) (ttl nowUs : Nat) (k' : KeyView) :
    (s.reserve k ttl nowUs).1.served k' (s.victim k) = false := by
  rw [reserve_accepts hlen hgen, Store.served]
  simp only [Store.set_same, Store.reserved]
  have hready := hnone (s.victim k)
  rw [Store.served] at hready
  rw [hready, Bool.false_and]

lemma reserve_other (hlen : k.bytes.length ≤ kMaxKey) (hgen : s.generation ≠ kLastGeneration) (ttl nowUs : Nat)
    {k' i} (hi : i ≠ s.victim k) : (s.reserve k ttl nowUs).1.served k' i = s.served k' i := by
  rw [reserve_accepts hlen hgen, Store.served, Store.served]
  simp only [Store.set_other hi]

end victim

/-- In every state reached, for every key that is not served: a reservation spares what is served while there is a free
way, and else displaces the oldest way, exactly if it is refused or no served way behind the last free one is older than
all others from there on. -/
theorem reserve_spares_live {t : StoreTrace} {s : Store} (ht : Trace StoreStep {} t s) (k : KeyView) (ttl nowUs : Nat)
    (hnone : ∀ i, s.served k i = false) :
    s.SparesLive k ttl nowUs ↔
      ¬ (k.bytes.length ≤ kMaxKey ∧ s.generation ≠ kLastGeneration ∧ s.Overtaken k.hash) := by
  have hstamped := stamped_of_trace ht
  constructor
  · rintro hspares ⟨hlen, hgen, f, v, hfv, hfree, hlast, hready, holdest⟩
    obtain ⟨u, hvictim, hfu, hmin⟩ := victim_from_free hnone hfree hlast
    obtain rfl : u = v := by
      by_contra hne
      exact absurd (holdest u hfu hne) (not_lt.mpr (hmin v hfv.le))
    -- The key of the way that is displaced is served by it, and is not the key of the reservation.
    let k' : KeyView := ⟨(s.way k.hash u).key, (s.way k.hash u).hash, (s.way k.hash u).config, (s.way k.hash u).host⟩
    have hserved : s.served k' (slotOf k.hash u) = true := served_iff.mpr ⟨hready, matches_iff.mpr ⟨rfl, rfl, rfl⟩⟩
    have hother : ¬ SameKey k k' := by
      intro hsame
      have hk := hnone (slotOf k.hash u)
      rw [Store.served, hsame.matches_iff] at hk
      rw [Store.served, hk] at hserved
      cases hserved
    have hafter := hspares.spares ⟨f, hfree⟩ k' _ hother hserved
    rw [← hvictim, reserve_victim hnone hlen hgen] at hafter
    cases hafter
  · intro hcond
    by_cases haccepts : k.bytes.length ≤ kMaxKey ∧ s.generation ≠ kLastGeneration
    case neg =>
      have hrefused : s.reserve k ttl nowUs = (s, {}) := by
        rw [Store.reserve, if_pos (by omega)]
      constructor
      case spares =>
        intro _ k' i _ hserved
        rw [hrefused]
        exact hserved
      case displaces =>
        intro _ htoken
        rw [hrefused] at htoken
        exact absurd rfl htoken
    case pos =>
      obtain ⟨hlen, hgen⟩ := haccepts
      constructor
      case spares =>
        intro hex k' i _ hserved
        obtain ⟨f, hfree, hlast⟩ := exists_last hex
        obtain ⟨u, hvictim, hfu, hmin⟩ := victim_from_free hnone hfree hlast
        by_cases hi : i = s.victim k
        · exfalso
          rw [hi, hvictim] at hserved
          have hready : (s.way k.hash u).ready = true := (served_iff.mp hserved).1
          have hne : f ≠ u := by
            rintro rfl
            rw [hfree.1] at hready
            cases hready
          refine hcond ⟨hlen, hgen, f, u, lt_of_le_of_ne hfu hne, hfree, hlast, hready, ?_⟩
          intro w hw hwu
          refine lt_of_le_of_ne (hmin w hw) fun heq => hwu ?_
          exact (slotOf_injective k.hash (hstamped.unique _ _ (.inl hready) heq)).symm
        · rw [reserve_other hlen hgen ttl nowUs hi]
          exact hserved
      case displaces =>
        intro hfull _
        obtain ⟨u, hvictim, hmin⟩ := victim_of_full hnone hfull
        refine ⟨u, hmin, ?_, ?_⟩
        · rw [reserve_accepts hlen hgen, hvictim]
        · intro k' _
          rw [← hvictim]
          exact reserve_victim hnone hlen hgen ttl nowUs k'

/-- In the empty store nothing can be overtaken. -/
theorem empty_spares : ({} : Store).SparesLive sampleKey 60 0 := by
  refine (reserve_spares_live Trace.nil sampleKey 60 0 fun _ => rfl).mpr ?_
  rintro ⟨-, -, f, v, -, -, -, hready, -⟩
  cases hready

/-! ## A free way in front of older ones -/

def setKey (n : UInt8) : KeyView := ⟨[n], 16 * n.toUInt64, 7, 7⟩

def discarding : List StoreOp :=
  [.reserve (setKey 1) 60 0, .publish ⟨1, 3⟩ olderFill, .reserve (setKey 2) 60 0, .publish ⟨2, 2⟩ olderFill,
    .reserve (setKey 3) 60 0, .publish ⟨3, 1⟩ olderFill, .reserve (setKey 4) 60 0, .discard ⟨4, 0⟩]

def discarded : Store := discarding.foldl Store.apply {}

/-- The way of the fourth fill is free, but the fifth fill drops the record of the first. -/
theorem first_displaced :
    ∃ t, Trace StoreStep {} t discarded ∧ (∀ i, discarded.served (setKey 5) i = false) ∧
      ¬ discarded.SparesLive (setKey 5) 60 0 := by
  have hrun : ∀ (ops : List StoreOp) (s : Store), ∃ t, Trace StoreStep s t (ops.foldl Store.apply s) := by
    intro ops
    induction ops with
    | nil => exact fun s => ⟨[], Trace.nil⟩
    | cons op ops ih =>
      intro s
      obtain ⟨t, ht⟩ := ih (s.apply op)
      exact ⟨[(s, op)] ++ t, (Trace.single rfl).trans ht⟩
  obtain ⟨t, ht⟩ := hrun discarding {}
  refine ⟨t, ht, by decide, ?_⟩
  intro hspares
  have hserved : discarded.served (setKey 1) ⟨3, by decide⟩ = true := by decide
  have hfree : ∃ w, (discarded.way 80 w).Free := ⟨firstWay, by decide, by decide⟩
  have hother : ¬ SameKey (setKey 5) (setKey 1) := fun hsame => absurd hsame.2.2 (by decide)
  have hafter := hspares.spares hfree (setKey 1) _ hother hserved
  revert hafter
  decide

end Rut.HttpCache
