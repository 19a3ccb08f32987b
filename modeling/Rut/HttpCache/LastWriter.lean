import Rut.HttpCache.Store
import Rut.Lib.Trace

/-!
# Which response the store finds

Two fills for one key can be open in different entries of its set and both be published; the one that is found need not
be the one published last. This happens only if a fill is reserved while another entry than the one it takes holds an
open fill for the same key. Runs without such reservations find what was published last.
-/

namespace Rut.HttpCache

open Lib

inductive StoreOp where
  | reserve (k : KeyView) (ttl nowUs : Nat)
  | publish (t : Token) (r : Record)
  | cancel (t : Token)
  | discard (t : Token)
  | invalidateHost (config host : UInt64)

def Store.apply (s : Store) : StoreOp → Store
  | .reserve k ttl nowUs => (s.reserve k ttl nowUs).1
  | .publish t r => (s.publish t r).1
  | .cancel t => s.cancel t
  | .discard t => s.discard t
  | .invalidateHost config host => s.invalidateHost config host

def StoreStep (s : Store) (op : StoreOp) (s' : Store) : Prop := s' = s.apply op

abbrev StoreTrace := List (Store × StoreOp)

def IssuedFor (t : StoreTrace) (tok : Token) (k : KeyView) : Prop :=
  ∃ s k' ttl nowUs, (s, StoreOp.reserve k' ttl nowUs) ∈ t ∧ SameKey k' k ∧
    (s.reserve k' ttl nowUs).2 = tok ∧ tok.generation ≠ 0

/-- After the run `t`, the operation publishes the record for the key. -/
def PublishFor (t : StoreTrace) (e : Store × StoreOp) (k : KeyView) (r : Record) : Prop :=
  ∃ s tok, e = (s, .publish tok r) ∧ (s.publish tok r).2 = true ∧ IssuedFor t tok k

inductive LastPublish : StoreTrace → KeyView → Record → Prop where
  | here {t e k r} (h : PublishFor t e k r) : LastPublish (t ++ [e]) k r
  | later {t e k r} (h : LastPublish t k r) (hno : ∀ r', ¬ PublishFor t e k r') : LastPublish (t ++ [e]) k r

def Entry.InUse (e : Entry) : Prop := e.ready = true ∨ e.pending = true

def Entry.SameKey (e e' : Entry) : Prop := e.config = e'.config ∧ e.hash = e'.hash ∧ e.key = e'.key

/-- A reservation finds no open fill for its key in another entry than the one it takes. -/
def NoOtherFill (e : Store × StoreOp) : Prop :=
  match e with
  | (s, .reserve k _ _) =>
    ∀ i ∈ setSlots k.hash, i ≠ s.victim k → ¬ ((s.entries i).pending = true ∧ (s.entries i).matchesKey k = true)
  | _ => True

structure Placed (t : StoreTrace) (s : Store) : Prop where
  issued : ∀ tok k, IssuedFor t tok k → tok.generation ≤ s.generation ∧
    ∀ i : Fin kCapacity, tok.slot = i → (s.entries i).generation = tok.generation →
      (s.entries i).matchesKey k = true
  opened : ∀ i k, (s.entries i).pending = true → (s.entries i).matchesKey k = true →
    IssuedFor t ⟨(s.entries i).generation, i⟩ k
  place : ∀ i, (s.entries i).InUse → i ∈ setSlots (s.entries i).hash ∧ (s.entries i).key.length ≤ kMaxKey
  unique : ∀ i j, (s.entries i).InUse → (s.entries j).InUse → (s.entries i).SameKey (s.entries j) → i = j
  last : ∀ i k, (s.entries i).ready = true → (s.entries i).matchesKey k = true → LastPublish t k (s.entries i).record

section step

variable {t : StoreTrace} {s s' : Store}

lemma placed_init : Placed [] {} where
  issued := by
    rintro tok k ⟨s, k', ttl, nowUs, hmem, -⟩
    cases hmem
  opened i k h := by cases h
  place i h := by rcases h with h | h <;> cases h
  unique i j h := by rcases h with h | h <;> cases h
  last i k h := by cases h

lemma issuedFor_snoc {e} (he : ∀ k ttl nowUs, e.2 ≠ .reserve k ttl nowUs) {tok k} : IssuedFor (t ++ [e]) tok k ↔ IssuedFor t tok k := by
  constructor
  · rintro ⟨s, k', ttl, nowUs, hmem, h⟩
    rcases List.mem_append.mp hmem with hmem | hmem
    · exact ⟨s, k', ttl, nowUs, hmem, h⟩
    · rw [List.mem_singleton] at hmem
      exact absurd (congrArg Prod.snd hmem).symm (he k' ttl nowUs)
  · rintro ⟨s, k', ttl, nowUs, hmem, h⟩
    exact ⟨s, k', ttl, nowUs, List.mem_append_left _ hmem, h⟩

lemma not_publishFor {e} (he : ∀ tok r, e.2 ≠ .publish tok r) (k : KeyView) (r : Record) : ¬ PublishFor t e k r := by
  rintro ⟨s, tok, rfl, -⟩
  exact he tok r rfl

lemma Placed.lower (h : Placed t s) (hl : s.Lowered s') {e}
    (hr : ∀ k ttl nowUs, e.2 ≠ .reserve k ttl nowUs) (hp : ∀ k r, ¬ PublishFor t e k r) : Placed (t ++ [e]) s' := by
  have huse : ∀ i, (s'.entries i).InUse → (s.entries i).InUse := by
    intro i hi
    obtain ⟨p, r, heq, hpend, hready⟩ := hl.entry i
    rw [heq] at hi
    exact hi.imp hready hpend
  refine ⟨?_, ?_, ?_, ?_, ?_⟩
  · intro tok k hissued
    obtain ⟨hle, hmatch⟩ := h.issued tok k ((issuedFor_snoc hr).mp hissued)
    refine ⟨by rwa [hl.generation], fun i hslot hgen => ?_⟩
    obtain ⟨p, r, heq, -⟩ := hl.entry i
    rw [heq] at hgen ⊢
    exact hmatch i hslot hgen
  · intro i k hpending hmatch
    obtain ⟨p, r, heq, hpend, -⟩ := hl.entry i
    rw [heq] at hpending hmatch ⊢
    exact (issuedFor_snoc hr).mpr (h.opened i k (hpend hpending) hmatch)
  · intro i hi
    obtain ⟨p, r, heq, -⟩ := hl.entry i
    rw [heq]
    exact h.place i (huse i hi)
  · intro i j hi hj hsame
    apply h.unique i j (huse i hi) (huse j hj)
    obtain ⟨p, r, heq, -⟩ := hl.entry i
    obtain ⟨p', r', heq', -⟩ := hl.entry j
    rw [heq, heq'] at hsame
    exact hsame
  · intro i k hready hmatch
    obtain ⟨p, r, heq, -, hr'⟩ := hl.entry i
    rw [heq] at hready hmatch ⊢
    exact .later (h.last i k (hr' hready) hmatch) (hp k)

lemma issuedFor_reserve {k k' ttl nowUs tok} : IssuedFor (t ++ [(s, .reserve k ttl nowUs)]) tok k' ↔
      IssuedFor t tok k' ∨ SameKey k k' ∧ (s.reserve k ttl nowUs).2 = tok ∧ tok.generation ≠ 0 := by
  constructor
  · rintro ⟨s₀, k₀, ttl₀, nowUs₀, hmem, hsame, htok, h0⟩
    rcases List.mem_append.mp hmem with hmem | hmem
    · exact .inl ⟨s₀, k₀, ttl₀, nowUs₀, hmem, hsame, htok, h0⟩
    · cases List.mem_singleton.mp hmem
      exact .inr ⟨hsame, htok, h0⟩
  · rintro (⟨s₀, k₀, ttl₀, nowUs₀, hmem, h⟩ | h)
    · exact ⟨s₀, k₀, ttl₀, nowUs₀, List.mem_append_left _ hmem, h⟩
    · exact ⟨s, k, ttl, nowUs, by simp, h⟩

lemma reserved_matchesKey {e : Entry} {k k' : KeyView} {fill : Fill} {g : Nat} :
    (Store.reserved e k fill g).matchesKey k' = true ↔ SameKey k k' := matches_iff

/-- In a run without other fills the entry that `reserve` takes is the only one in use for its key. -/
lemma Placed.only_victim (h : Placed t s) {k ttl nowUs}
    (halone : NoOtherFill (s, .reserve k ttl nowUs)) {j} (huse : (s.entries j).InUse)
    (hmatch : (s.entries j).matchesKey k = true) : j = s.victim k := by
  have hj : j ∈ setSlots k.hash := by
    have := (h.place j huse).1
    rwa [(matches_iff.mp hmatch).2.1] at this
  rcases huse with hready | hpending
  · -- a served entry for the key is what the search of `reserve` ends with
    have hserved : s.served k (s.victim k) = true :=
      Store.victimLoop_served ⟨j, hj, by rw [Store.served, hready, hmatch]; rfl⟩ _
    rw [Store.served, Bool.and_eq_true] at hserved
    apply h.unique j _ (.inl hready) (.inl hserved.1)
    obtain ⟨h₁, h₂, h₃⟩ := matches_iff.mp hmatch
    obtain ⟨h₁', h₂', h₃'⟩ := matches_iff.mp hserved.2
    exact ⟨h₁.trans h₁'.symm, h₂.trans h₂'.symm, h₃.trans h₃'.symm⟩
  · by_contra hne
    exact halone j hj hne ⟨hpending, hmatch⟩

lemma Placed.reserve (h : Placed t s) {k ttl nowUs} (halone : NoOtherFill (s, .reserve k ttl nowUs)) :
    Placed (t ++ [(s, .reserve k ttl nowUs)]) (s.reserve k ttl nowUs).1 := by
  have hnone : ∀ k' r, ¬ PublishFor t (s, .reserve k ttl nowUs) k' r :=
    not_publishFor fun tok r he => by cases he
  rcases s.reserve_cases k ttl nowUs with heq | ⟨hlen, heq⟩
  · have hissued : ∀ tok k', IssuedFor (t ++ [(s, .reserve k ttl nowUs)]) tok k' ↔ IssuedFor t tok k' := by
      intro tok k'
      rw [issuedFor_reserve, heq]
      refine ⟨fun ho => ho.elim id ?_, .inl⟩
      rintro ⟨-, rfl, h0⟩
      exact absurd rfl h0
    rw [heq]
    exact ⟨fun tok k' hi => h.issued tok k' ((hissued tok k').mp hi),
      fun i k' hp hm => (hissued _ k').mpr (h.opened i k' hp hm), h.place, h.unique,
      fun i k' hr hm => .later (h.last i k' hr hm) (hnone k')⟩
  have hissued : ∀ tok k', IssuedFor (t ++ [(s, .reserve k ttl nowUs)]) tok k' ↔
      IssuedFor t tok k' ∨ SameKey k k' ∧ ⟨s.generation + 1, s.victim k⟩ = tok := by
    intro tok k'
    rw [issuedFor_reserve, heq]
    refine or_congr_right (and_congr_right fun _ => ⟨And.left, fun htok => ⟨htok, ?_⟩⟩)
    rw [← htok]
    exact Nat.succ_ne_zero _
  have hother : ∀ {j : Fin kCapacity} (e : Entry), j ≠ s.victim k → (s.set (s.victim k) e).entries j = s.entries j :=
    fun e hj => Store.set_other hj e
  rw [heq]
  refine ⟨?_, ?_, ?_, ?_, ?_⟩
  · intro tok k' hi
    rcases (hissued tok k').mp hi with hold | ⟨hsame, rfl⟩
    · obtain ⟨hle, hmatch⟩ := h.issued tok k' hold
      refine ⟨Nat.le_succ_of_le hle, fun i hslot hgen => ?_⟩
      by_cases hv : i = s.victim k
      · -- the fresh generation is above those of the tokens given out before
        subst hv
        simp only [Store.set_same, Store.reserved] at hgen
        omega
      · rw [hother _ hv] at hgen ⊢
        exact hmatch i hslot hgen
    · refine ⟨le_rfl, fun i hslot _ => ?_⟩
      obtain rfl : s.victim k = i := Fin.ext hslot
      rw [Store.set_same]
      exact reserved_matchesKey.mpr hsame
  · intro i k' hpending hmatch
    apply (hissued _ k').mpr
    by_cases hv : i = s.victim k
    · subst hv
      simp only [Store.set_same] at hmatch ⊢
      exact .inr ⟨reserved_matchesKey.mp hmatch, rfl⟩
    · rw [hother _ hv] at hpending hmatch ⊢
      exact .inl (h.opened i k' hpending hmatch)
  · intro i huse
    by_cases hv : i = s.victim k
    · subst hv
      simp only [Store.set_same, Store.reserved]
      exact ⟨s.victim_mem k, hlen⟩
    · rw [hother _ hv] at huse ⊢
      exact h.place i huse
  · -- two entries in use for one key: one of them is the reserved one, and no other is in use for its key
    intro i j hi hj hsame
    by_cases hvi : i = s.victim k
    · by_cases hvj : j = s.victim k
      · exact hvi.trans hvj.symm
      · subst hvi
        rw [hother _ hvj] at hj hsame
        rw [Store.set_same] at hsame
        have hmatch : (s.entries j).matchesKey k = true := matches_iff.mpr ⟨hsame.1.symm, hsame.2.1.symm, hsame.2.2.symm⟩
        exact absurd (h.only_victim halone hj hmatch) hvj
    · rw [hother _ hvi] at hi hsame
      by_cases hvj : j = s.victim k
      · subst hvj
        rw [Store.set_same] at hsame
        have hmatch : (s.entries i).matchesKey k = true := matches_iff.mpr hsame
        exact absurd (h.only_victim halone hi hmatch) hvi
      · rw [hother _ hvj] at hj hsame
        exact h.unique i j hi hj hsame
  · intro i k' hready hmatch
    apply LastPublish.later _ (hnone k')
    by_cases hv : i = s.victim k
    · subst hv
      simp only [Store.set_same, Store.reserved, Bool.and_eq_true] at hready hmatch ⊢
      have hsame : SameKey k k' := reserved_matchesKey.mp hmatch
      exact h.last _ k' hready.1 (by rw [← hsame.matches_iff]; exact hready.2)
    · rw [hother _ hv] at hready hmatch ⊢
      exact h.last i k' hready hmatch

lemma Placed.publish (h : Placed t s) (tok : Token) (r : Record) :
    Placed (t ++ [(s, .publish tok r)]) (s.publish tok r).1 := by
  have hres : ∀ k ttl nowUs, (StoreOp.publish tok r) ≠ .reserve k ttl nowUs := fun _ _ _ he => by cases he
  rcases s.publish_cases tok r with heq | ⟨i, hlive, heq⟩
  · rw [heq]
    refine h.lower (.refl s) hres ?_
    rintro k r' ⟨s₀, tok₀, he, hok, -⟩
    cases he
    rw [heq] at hok
    cases hok
  obtain ⟨-, hslot, hgen, hpending⟩ := Store.live_eq_some.mp hlive
  have htok : tok = ⟨(s.entries i).generation, i⟩ := by rw [hgen, ← hslot]
  have hfor : ∀ k r', PublishFor t (s, .publish tok r) k r' ↔ r' = r ∧ (s.entries i).matchesKey k = true := by
    intro k r'
    constructor
    · rintro ⟨s₀, tok₀, he, -, hissued⟩
      cases he
      exact ⟨rfl, (h.issued tok k hissued).2 i hslot hgen⟩
    · rintro ⟨rfl, hmatch⟩
      refine ⟨s, tok, rfl, by rw [heq], ?_⟩
      rw [htok]
      exact h.opened i k hpending hmatch
  have hentry : ∀ j, ∃ r' p b, (s.set i { s.entries i with record := r, pending := false, ready := true }).entries j =
      { s.entries j with record := r', pending := p, ready := b } ∧ (p = true → (s.entries j).pending = true) ∧
      ((b = true ∨ p = true) → (s.entries j).InUse) := by
    intro j
    by_cases hj : j = i
    · subst hj
      exact ⟨r, false, true, by simp, by simp, fun _ => .inr hpending⟩
    · exact ⟨_, _, _, Store.set_other hj _, id, id⟩
  rw [heq]
  refine ⟨?_, ?_, ?_, ?_, ?_⟩
  · intro tok' k hissued
    obtain ⟨hle, hmatch⟩ := h.issued tok' k ((issuedFor_snoc hres).mp hissued)
    refine ⟨hle, fun j hs hg => ?_⟩
    obtain ⟨r', p, b, he, -⟩ := hentry j
    simp only [he] at hg ⊢
    exact hmatch j hs hg
  · intro j k hp hmatch
    obtain ⟨r', p, b, he, hpend, -⟩ := hentry j
    simp only [he] at hp hmatch ⊢
    exact (issuedFor_snoc hres).mpr (h.opened j k (hpend hp) hmatch)
  · intro j huse
    obtain ⟨r', p, b, he, -, hin⟩ := hentry j
    simp only [he] at huse ⊢
    exact h.place j (hin huse)
  · intro j j' hj hj' hsame
    obtain ⟨r₁, p₁, b₁, he₁, -, hin₁⟩ := hentry j
    obtain ⟨r₂, p₂, b₂, he₂, -, hin₂⟩ := hentry j'
    simp only [he₁, he₂] at hj hj' hsame
    exact h.unique j j' (hin₁ hj) (hin₂ hj') hsame
  · intro j k hready hmatch
    by_cases hj : j = i
    · subst hj
      rw [Store.set_same] at hmatch ⊢
      exact .here ((hfor k r).mpr ⟨rfl, hmatch⟩)
    · rw [Store.set_other hj] at hready hmatch ⊢
      refine .later (h.last j k hready hmatch) fun r' hp => hj ?_
      obtain ⟨h₁, h₂, h₃⟩ := matches_iff.mp ((hfor k r').mp hp).2
      obtain ⟨h₁', h₂', h₃'⟩ := matches_iff.mp hmatch
      exact h.unique j i (.inl hready) (.inr hpending) ⟨h₁'.trans h₁.symm, h₂'.trans h₂.symm, h₃'.trans h₃.symm⟩

lemma Placed.step (h : Placed t s) {op} (halone : NoOtherFill (s, op)) : Placed (t ++ [(s, op)]) (s.apply op) := by
  cases op with
  | reserve k ttl nowUs => exact h.reserve halone
  | publish tok r => exact h.publish tok r
  | cancel tok =>
    exact h.lower (s.lowered_cancel tok) (fun _ _ _ he => by cases he) (not_publishFor fun _ _ he => by cases he)
  | discard tok =>
    exact h.lower (s.lowered_discard tok) (fun _ _ _ he => by cases he) (not_publishFor fun _ _ he => by cases he)
  | invalidateHost config host =>
    exact h.lower (s.lowered_invalidateHost config host) (fun _ _ _ he => by cases he)
      (not_publishFor fun _ _ he => by cases he)

end step

lemma placed_of_trace {t : StoreTrace} {s} (ht : Trace StoreStep {} t s) (halone : ∀ e ∈ t, NoOtherFill e) :
    Placed t s := by
  induction ht with
  | nil => exact placed_init
  | snoc ht hs ih =>
    cases hs
    exact (ih fun e he => halone e (List.mem_append_left _ he)).step (halone _ (by simp))

section run

variable {t : StoreTrace} {s : Store}

lemma Placed.served_unique (h : Placed t s) {k i j} (hi : s.served k i = true) (hj : s.served k j = true) : i = j := by
  obtain ⟨hri, hmi⟩ := served_iff.mp hi
  obtain ⟨hrj, hmj⟩ := served_iff.mp hj
  obtain ⟨h₁, h₂, h₃⟩ := matches_iff.mp hmi
  obtain ⟨h₁', h₂', h₃'⟩ := matches_iff.mp hmj
  exact h.unique i j (.inl hri) (.inl hrj) ⟨h₁.trans h₁'.symm, h₂.trans h₂'.symm, h₃.trans h₃'.symm⟩

lemma Placed.find_served (h : Placed t s) {k i} (hi : s.served k i = true) : s.find k = some (s.entries i).record := by
  obtain ⟨hready, hmatch⟩ := served_iff.mp hi
  obtain ⟨-, hhash, hkey⟩ := matches_iff.mp hmatch
  obtain ⟨hplace, hlen⟩ := h.place i (.inl hready)
  rw [hhash] at hplace
  rw [hkey] at hlen
  have hfound : ((setSlots k.hash).find? (s.served k)).isSome = true :=
    List.find?_isSome.mpr ⟨i, hplace, hi⟩
  obtain ⟨j, hj⟩ := Option.isSome_iff_exists.mp hfound
  have hsame : j = i := h.served_unique (List.find?_some hj) hi
  rw [Store.find, if_neg (by omega), hj, hsame]
  rfl

end run

/-- The last writer wins in every run in which no fill is reserved next to another open fill for its key: at most one
entry is served for a key, what is found was published last, and it is found right after it was published. -/
theorem last_writer_wins {t : StoreTrace} {s : Store} (ht : Trace StoreStep {} t s)
    (halone : ∀ e ∈ t, NoOtherFill e) :
    (∀ k i j, s.served k i = true → s.served k j = true → i = j) ∧
    (∀ k r, s.find k = some r → LastPublish t k r) ∧
    ∀ tok k r, IssuedFor t tok k → (s.publish tok r).2 = true → (s.publish tok r).1.find k = some r := by
  have h := placed_of_trace ht halone
  refine ⟨fun k i j => h.served_unique, ?_, ?_⟩
  · intro k r hfind
    obtain ⟨i, hi, rfl⟩ := find_eq_some hfind
    obtain ⟨hready, hmatch⟩ := served_iff.mp hi
    exact h.last i k hready hmatch
  · intro tok k r hissued hok
    have h' := h.publish tok r
    rcases s.publish_cases tok r with heq | ⟨i, hlive, heq⟩
    · rw [heq] at hok
      cases hok
    obtain ⟨-, hslot, hgen, -⟩ := Store.live_eq_some.mp hlive
    have hmatch := (h.issued tok k hissued).2 i hslot hgen
    rw [heq] at h' ⊢
    have hserved : (s.set i { s.entries i with record := r, pending := false, ready := true }).served k i = true := by
      rw [served_iff, Store.set_same]
      exact ⟨rfl, hmatch⟩
    rw [h'.find_served hserved, Store.set_same]

/-! ## Two fills for one key -/

lemma LastPublish.eq_of_publishFor {t e k r r'}
    (h : LastPublish (t ++ [e]) k r') (hp : PublishFor t e k r) : r' = r := by
  generalize hu : t ++ [e] = u at h
  cases h with
  | here h =>
    obtain ⟨rfl, he⟩ := List.append_inj' hu rfl
    cases List.singleton_inj.mp he
    obtain ⟨s, tok, rfl, -⟩ := hp
    obtain ⟨s', tok', he', -⟩ := h
    cases he'
    rfl
  | later h hno =>
    obtain ⟨rfl, he⟩ := List.append_inj' hu rfl
    cases List.singleton_inj.mp he
    exact absurd hp (hno r)

def sampleKey : KeyView := ⟨lit ['k'], 0, 1, 1⟩

def olderFill : Record := ⟨lit ['a'], 0, 60, 0⟩

def newerFill : Record := ⟨lit ['b'], 0, 60, 0⟩

def filling : Store := ({} : Store).apply (.reserve sampleKey 60 0)

theorem single_fill_found :
    (filling.publish ⟨1, 3⟩ olderFill).1.find sampleKey = some olderFill := by
  have ht : Trace StoreStep {} [({}, .reserve sampleKey 60 0)] filling := Trace.single rfl
  have halone : ∀ e ∈ [(({} : Store), StoreOp.reserve sampleKey 60 0)], NoOtherFill e := by
    intro e he
    cases List.mem_singleton.mp he
    rintro i - - ⟨hpending, -⟩
    cases hpending
  refine (last_writer_wins ht halone).2.2 ⟨1, 3⟩ sampleKey olderFill ?_ (by decide)
  exact ⟨{}, sampleKey, 60, 0, by simp, ⟨rfl, rfl, rfl⟩, by decide, by decide⟩

/-- The stores of a run in which two fills for one key are open at once and the second one is published first. -/
def refilling : Store := filling.apply (.reserve sampleKey 60 0)
def newerPublished : Store := refilling.apply (.publish ⟨2, 2⟩ newerFill)
def olderPublished : Store := newerPublished.apply (.publish ⟨1, 3⟩ olderFill)

theorem overtaken_fill_hidden :
    ∃ t e s, Trace StoreStep {} (t ++ [e]) s ∧ PublishFor t e sampleKey olderFill ∧
      (∃ i j, i ≠ j ∧ s.served sampleKey i = true ∧ s.served sampleKey j = true) ∧
      s.find sampleKey = some newerFill ∧ ¬ LastPublish (t ++ [e]) sampleKey newerFill := by
  let t : StoreTrace := [({}, .reserve sampleKey 60 0), (filling, .reserve sampleKey 60 0),
    (refilling, .publish ⟨2, 2⟩ newerFill)]
  have ht : Trace StoreStep {} (t ++ [(newerPublished, .publish ⟨1, 3⟩ olderFill)]) olderPublished :=
    ((@Trace.single _ _ _ _ filling _ rfl).snoc (show StoreStep filling _ refilling from rfl)).snoc
      (show StoreStep refilling _ newerPublished from rfl) |>.snoc rfl
  have hp : PublishFor t (newerPublished, .publish ⟨1, 3⟩ olderFill) sampleKey olderFill :=
    ⟨newerPublished, ⟨1, 3⟩, rfl, by decide, {}, sampleKey, 60, 0, by simp [t], ⟨rfl, rfl, rfl⟩,
      by decide, by decide⟩
  refine ⟨t, _, olderPublished, ht, hp, ?_, by decide, fun h => ?_⟩
  · exact ⟨⟨2, by decide⟩, ⟨3, by decide⟩, by decide, by decide, by decide⟩
  · have := h.eq_of_publishFor hp
    revert this
    decide

end Rut.HttpCache
