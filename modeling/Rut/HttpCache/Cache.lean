import Rut.HttpCache.Key
import Rut.Lib.Trace

/-!
# The HTTP cache

Port of `HttpResponseCache` over the in-memory store (`include/rut/runtime/http_cache.h`). A run is a sequence of
`begin`, `commit`, `cancel` and `invalidate_host` calls. `History` says where each entry comes from: an open fill from
the `begin` that missed, a served response from such a `begin` and the `commit` of its token, with no invalidation of
its host since.
-/

set_option linter.all false
namespace Rut.HttpCache

open Http Lib

def Key.view (k : Key) : KeyView := ⟨k.bytes, k.hash, k.config, k.host⟩

/-- Outcomes of `begin` (`Result`), with the bytes of a hit and the token of a miss. -/
inductive BeginResult where
  | bypass
  | miss (token : Token)
  | hit (out : Str)
  | onlyCachedMiss
deriving DecidableEq

/-- Serve a request or start a fill for it (`begin`). -/
def Store.begin (s : Store) (key : Key) (ttl nowUs : Nat) (keepAlive : Bool) (capacity : Nat) : Store × BeginResult :=
  if !key.eligible ∨ ttl = 0 ∨ ttl > kMaxTtl then
    (s, if key.onlyCached ∧ ttl ≠ 0 then .onlyCachedMiss else .bypass)
  else
    match (s.find key.view).bind fun r => readResponse key r nowUs keepAlive capacity with
    | some out => (s, .hit out)
    | none =>
      if key.onlyCached then (s, .onlyCachedMiss)
      else
        let reserved := s.reserve key.view ttl nowUs
        (reserved.1, if reserved.2.generation ≠ 0 then .miss reserved.2 else .bypass)

/-- Store the response of a fill (`commit`). -/
def Store.commit (s : Store) (token : Token) (response : Str) (nowUs wallUs : Nat) : Store × Bool :=
  match s.inspect token with
  | none => (s, false)
  | some fill =>
    match prepareRecord fill response nowUs wallUs with
    | none => (s.discard token, false)
    | some record =>
      if (s.publish token record).2 then ((s.publish token record).1, true) else (s.discard token, false)

inductive CacheOp where
  | begin (q : CacheRequest) (ttl nowUs : Nat) (keepAlive : Bool) (capacity : Nat)
  | commit (token : Token) (response : Str) (nowUs wallUs : Nat)
  | cancel (token : Token)
  | invalidateHost (config host : UInt64)

def Store.run (s : Store) : CacheOp → Store
  | .begin q ttl nowUs keepAlive capacity => (s.begin q.key ttl nowUs keepAlive capacity).1
  | .commit token response nowUs wallUs => (s.commit token response nowUs wallUs).1
  | .cancel token => s.cancel token
  | .invalidateHost config host => s.invalidateHost config host

def CacheStep (s : Store) (op : CacheOp) (s' : Store) : Prop := s' = s.run op

abbrev CacheTrace := List (Store × CacheOp)

/-! ## What the operations do -/

/-- What `begin` does to the store: nothing, or the reservation of the token it gives out. -/
lemma begin_cases (s : Store) (key : Key) (ttl nowUs : Nat) (keepAlive : Bool) (capacity : Nat) :
    ((s.begin key ttl nowUs keepAlive capacity).1 = s ∧
      ∀ tok, (s.begin key ttl nowUs keepAlive capacity).2 ≠ .miss tok) ∨ key.eligible = true ∧
      s.begin key ttl nowUs keepAlive capacity = ({ s.set (s.victim key.view)
            (Store.reserved (s.entries (s.victim key.view)) key.view ⟨nowUs, ttl⟩ (s.generation + 1)) with
            generation := s.generation + 1 },
          .miss ⟨s.generation + 1, s.victim key.view⟩) := by
  unfold Store.begin
  by_cases hno : !key.eligible ∨ ttl = 0 ∨ ttl > kMaxTtl
  · rw [if_pos hno]
    refine .inl ⟨rfl, fun tok => ?_⟩
    split_ifs <;> exact fun h => by cases h
  · rw [if_neg hno]
    cases (s.find key.view).bind fun r => readResponse key r nowUs keepAlive capacity with
    | some out => exact .inl ⟨rfl, fun tok h => by cases h⟩
    | none =>
      by_cases hoc : key.onlyCached = true
      · rw [if_pos hoc]
        exact .inl ⟨rfl, fun tok h => by cases h⟩
      · rw [if_neg hoc]
        rcases s.reserve_cases key.view ttl nowUs with heq | ⟨-, heq⟩
        · rw [heq]
          exact .inl ⟨rfl, fun tok h => by cases h⟩
        · rw [heq]
          refine .inr ⟨?_, by simp⟩
          rw [not_or] at hno
          simpa using hno.1

/-- What `commit` does to the store: it lowers flags and fails, or publishes the record of its fill. -/
lemma commit_cases (s : Store) (token : Token) (response : Str) (nowUs wallUs : Nat) :
    ((s.commit token response nowUs wallUs).2 = false ∧ s.Lowered (s.commit token response nowUs wallUs).1) ∨
    ∃ i r, s.live token = some i ∧ prepareRecord (s.entries i).fill response nowUs wallUs = some r ∧
      s.commit token response nowUs wallUs =
        (s.set i { s.entries i with record := r, pending := false, ready := true }, true) := by
  unfold Store.commit Store.inspect
  cases hl : s.live token with
  | none => exact .inl ⟨rfl, .refl s⟩
  | some i =>
    dsimp only [Option.map_some]
    cases hr : prepareRecord (s.entries i).fill response nowUs wallUs with
    | none => exact .inl ⟨rfl, s.lowered_discard token⟩
    | some r =>
      dsimp only
      rcases s.publish_cases token r with heq | ⟨j, hj, heq⟩
      · rw [heq]
        exact .inl ⟨rfl, s.lowered_discard token⟩
      · cases hl.symm.trans hj
        rw [heq]
        exact .inr ⟨i, r, rfl, hr, rfl⟩

lemma commit_of_not_live {s : Store} {token} (h : s.live token = none) (response : Str) (nowUs wallUs : Nat) :
    (s.commit token response nowUs wallUs).2 = false := by
  rw [Store.commit, Store.inspect, h]
  rfl

/-! ## Where entries come from -/

/-- `begin` missed for the request and gave out the token, and what was run since. -/
def Filled (t : CacheTrace) (q : CacheRequest) (fill : Fill) (token : Token) (since : CacheTrace) : Prop :=
  ∃ before s keepAlive capacity, t = before ++ (s, .begin q fill.ttl fill.startedUs keepAlive capacity) :: since ∧
    (s.begin q.key fill.ttl fill.startedUs keepAlive capacity).2 = .miss token

/-- The record was committed for the request, with the response and at the time given, and what was run since its
`begin`. -/
def Committed (t : CacheTrace) (q : CacheRequest) (r : Record) (since : CacheTrace) : Prop :=
  ∃ before s fill token response nowUs wallUs mid after, t = before ++ (s, .commit token response nowUs wallUs) :: after ∧
    (s.commit token response nowUs wallUs).2 = true ∧ prepareRecord fill response nowUs wallUs = some r ∧
    Filled before q fill token mid ∧ since = mid ++ (s, .commit token response nowUs wallUs) :: after

def NotInvalidated (key : Key) (t : CacheTrace) : Prop := ∀ e ∈ t, e.2 ≠ .invalidateHost key.config key.host

def Entry.For (e : Entry) (q : CacheRequest) : Prop :=
  q.key.eligible = true ∧ e.config = q.key.config ∧ e.hash = q.key.hash ∧ e.key = q.key.bytes ∧ e.host = q.key.host

structure History (t : CacheTrace) (s : Store) : Prop where
  pending : ∀ i, (s.entries i).pending = true → ∃ q since, (s.entries i).For q ∧
    Filled t q (s.entries i).fill ⟨(s.entries i).generation, i⟩ since ∧ NotInvalidated q.key since
  ready : ∀ i, (s.entries i).ready = true → ∃ q since, (s.entries i).For q ∧
    Committed t q (s.entries i).record since ∧ NotInvalidated q.key since
  issued : ∀ q fill token since, Filled t q fill token since → token.generation ≤ s.generation ∧
    ∀ i : Fin kCapacity, token.slot = i → (s.entries i).generation = token.generation →
      (s.entries i).config = q.key.config ∧ (s.entries i).host = q.key.host

section history

variable {t : CacheTrace} {s s' : Store} {e : Store × CacheOp} {q : CacheRequest}

lemma Filled.snoc {fill token since} (h : Filled t q fill token since)
    (e : Store × CacheOp) : Filled (t ++ [e]) q fill token (since ++ [e]) := by
  obtain ⟨before, s, keepAlive, capacity, rfl, hmiss⟩ := h
  exact ⟨before, s, keepAlive, capacity, by simp, hmiss⟩

lemma Committed.snoc {r since} (h : Committed t q r since) (e : Store × CacheOp) :
    Committed (t ++ [e]) q r (since ++ [e]) := by
  obtain ⟨before, s, fill, token, response, nowUs, wallUs, mid, after, rfl, hok, hr, hfill, rfl⟩ := h
  exact ⟨before, s, fill, token, response, nowUs, wallUs, mid, after ++ [e], by simp, hok, hr, hfill, by simp⟩

lemma filled_snoc_iff {fill token since} (h : Filled (t ++ [e]) q fill token since) :
    (∃ since', Filled t q fill token since') ∨
      ∃ keepAlive capacity, e.2 = .begin q fill.ttl fill.startedUs keepAlive capacity ∧
        (e.1.begin q.key fill.ttl fill.startedUs keepAlive capacity).2 = .miss token := by
  obtain ⟨before, s, keepAlive, capacity, ht, hmiss⟩ := h
  rcases List.eq_nil_or_concat since with rfl | ⟨since', e', rfl⟩
  · obtain ⟨-, he⟩ := List.append_inj' ht rfl
    cases List.singleton_inj.mp he
    exact .inr ⟨keepAlive, capacity, rfl, hmiss⟩
  · rw [List.concat_eq_append, ← List.cons_append, ← List.append_assoc] at ht
    obtain ⟨rfl, -⟩ := List.append_inj' ht rfl
    exact .inl ⟨since', before, s, keepAlive, capacity, rfl, hmiss⟩

lemma NotInvalidated.snoc {key since} (h : NotInvalidated key since)
    (he : e.2 ≠ .invalidateHost key.config key.host) : NotInvalidated key (since ++ [e]) := by
  intro e' hm
  rcases List.mem_append.mp hm with hm | hm
  · exact h e' hm
  · rw [List.mem_singleton.mp hm]
    exact he

lemma history_init : History [] {} where
  pending i h := by cases h
  ready i h := by cases h
  issued q fill token since h := by
    obtain ⟨before, s, keepAlive, capacity, ht, -⟩ := h
    exact absurd ht.symm (List.append_ne_nil_of_right_ne_nil _ (List.cons_ne_nil _ _))

lemma History.lower (h : History t s) (hl : s.Lowered s') (hb : ∀ q ttl nowUs keepAlive capacity tok,
      e.2 = .begin q ttl nowUs keepAlive capacity → (e.1.begin q.key ttl nowUs keepAlive capacity).2 ≠ .miss tok)
    (hinv : ∀ i config host, e.2 = .invalidateHost config host → (s.entries i).config = config →
      (s.entries i).host = host → (s'.entries i).pending = false ∧ (s'.entries i).ready = false) :
    History (t ++ [e]) s' := by
  refine ⟨?_, ?_, ?_⟩
  · intro i hp
    obtain ⟨p, r, heq, hpend, -⟩ := hl.entry i
    have hp' : p = true := by rwa [heq] at hp
    obtain ⟨q, since, hfor, hfill, hnot⟩ := h.pending i (hpend hp')
    refine ⟨q, since ++ [e], by rw [heq]; exact hfor, by rw [heq]; exact hfill.snoc e, hnot.snoc fun he => ?_⟩
    have hlow := (hinv i _ _ he hfor.2.1 hfor.2.2.2.2).1
    rw [hp] at hlow
    cases hlow
  · intro i hr
    obtain ⟨p, r, heq, -, hready⟩ := hl.entry i
    have hr' : r = true := by rwa [heq] at hr
    obtain ⟨q, since, hfor, hcommit, hnot⟩ := h.ready i (hready hr')
    refine ⟨q, since ++ [e], by rw [heq]; exact hfor, by rw [heq]; exact hcommit.snoc e, hnot.snoc fun he => ?_⟩
    have hlow := (hinv i _ _ he hfor.2.1 hfor.2.2.2.2).2
    rw [hr] at hlow
    cases hlow
  · intro q fill token since hf
    rcases filled_snoc_iff hf with ⟨since', hold⟩ | ⟨keepAlive, capacity, he, hmiss⟩
    · obtain ⟨hle, hsame⟩ := h.issued q fill token since' hold
      refine ⟨by rwa [hl.generation], fun i hslot hgen => ?_⟩
      obtain ⟨p, r, heq, -⟩ := hl.entry i
      rw [heq] at hgen ⊢
      exact hsame i hslot hgen
    · exact absurd hmiss (hb q _ _ keepAlive capacity token he)

lemma reserved_for (he : q.key.eligible = true) (e : Entry) (fill : Fill) (g : Nat) :
    (Store.reserved e q.key.view fill g).For q := ⟨he, rfl, rfl, rfl, rfl⟩

lemma Entry.For.reserved {e q₀} (h : e.For q₀) (he : q.key.eligible = true)
    (hm : e.matchesKey q.key.view = true) (fill : Fill) (g : Nat) : (Store.reserved e q.key.view fill g).For q₀ := by
  obtain ⟨he₀, hc, hh, hk, -⟩ := h
  obtain ⟨hc', hh', hk'⟩ := matches_iff.mp hm
  obtain ⟨-, -, -, -, -, -, -, hhost⟩ := sameRequest_of_key he he₀ (hk'.symm.trans hk) (hc'.symm.trans hc)
  exact ⟨he₀, hc'.symm.trans hc, hh'.symm.trans hh, hk'.symm.trans hk, hhost⟩

/-- `begin` keeps the history. -/
lemma History.begin (h : History t s) (q : CacheRequest) (ttl nowUs : Nat) (keepAlive : Bool) (capacity : Nat) :
    History (t ++ [(s, .begin q ttl nowUs keepAlive capacity)]) (s.begin q.key ttl nowUs keepAlive capacity).1 := by
  rcases begin_cases s q.key ttl nowUs keepAlive capacity with ⟨hsame, hmiss⟩ | ⟨he, heq⟩
  · rw [hsame]
    refine h.lower (.refl s) ?_ fun i config host hinv => by cases hinv
    rintro q' ttl' nowUs' keepAlive' capacity' tok hop
    cases hop
    exact hmiss tok
  have hother : ∀ {j : Fin kCapacity} (e : Entry), j ≠ s.victim q.key.view →
      (s.set (s.victim q.key.view) e).entries j = s.entries j := fun e hj => Store.set_other hj e
  have hno : ∀ key : Key, (CacheOp.begin q ttl nowUs keepAlive capacity) ≠ .invalidateHost key.config key.host :=
    fun key hinv => by cases hinv
  have hmiss : (s.begin q.key ttl nowUs keepAlive capacity).2 = .miss ⟨s.generation + 1, s.victim q.key.view⟩ := by
    rw [heq]
  have hfilled : Filled (t ++ [(s, .begin q ttl nowUs keepAlive capacity)]) q ⟨nowUs, ttl⟩
      ⟨s.generation + 1, s.victim q.key.view⟩ [] := ⟨t, s, keepAlive, capacity, rfl, hmiss⟩
  rw [heq]
  refine ⟨?_, ?_, ?_⟩
  · intro i hp
    by_cases hv : i = s.victim q.key.view
    · subst hv
      simp only [Store.set_same]
      exact ⟨q, [], reserved_for he _ _ _, hfilled, fun e hm => by cases hm⟩
    · rw [hother _ hv] at hp ⊢
      obtain ⟨q₀, since, hfor, hfill, hnot⟩ := h.pending i hp
      exact ⟨q₀, _, hfor, hfill.snoc _, hnot.snoc (hno _)⟩
  · intro i hr
    by_cases hv : i = s.victim q.key.view
    · -- the response that is served stays, if it was for the key
      subst hv
      simp only [Store.set_same] at hr ⊢
      obtain ⟨hready, hmatch⟩ := Bool.and_eq_true_iff.mp hr
      obtain ⟨q₀, since, hfor, hcommit, hnot⟩ := h.ready _ hready
      exact ⟨q₀, _, hfor.reserved he hmatch _ _, hcommit.snoc _, hnot.snoc (hno _)⟩
    · rw [hother _ hv] at hr ⊢
      obtain ⟨q₀, since, hfor, hcommit, hnot⟩ := h.ready i hr
      exact ⟨q₀, _, hfor, hcommit.snoc _, hnot.snoc (hno _)⟩
  · intro q₀ fill token since hf
    rcases filled_snoc_iff hf with ⟨since', hold⟩ | ⟨keepAlive', capacity', hop, hmiss'⟩
    · obtain ⟨hle, hsame⟩ := h.issued q₀ fill token since' hold
      refine ⟨Nat.le_succ_of_le hle, fun i hslot hgen => ?_⟩
      by_cases hv : i = s.victim q.key.view
      · subst hv
        simp only [Store.set_same, Store.reserved] at hgen
        omega
      · rw [hother _ hv] at hgen ⊢
        exact hsame i hslot hgen
    · cases hop
      cases hmiss.symm.trans hmiss'
      refine ⟨le_rfl, fun i hslot _ => ?_⟩
      obtain rfl : s.victim q.key.view = i := Fin.ext hslot
      simp only [Store.set_same]
      exact ⟨rfl, rfl⟩

/-- `commit` keeps the history. -/
lemma History.commit (h : History t s) (token : Token) (response : Str) (nowUs wallUs : Nat) :
    History (t ++ [(s, .commit token response nowUs wallUs)]) (s.commit token response nowUs wallUs).1 := by
  have hno : ∀ key : Key, (CacheOp.commit token response nowUs wallUs) ≠ .invalidateHost key.config key.host :=
    fun key hinv => by cases hinv
  rcases commit_cases s token response nowUs wallUs with ⟨-, hl⟩ | ⟨i, r, hlive, hr, heq⟩
  · exact h.lower hl (fun _ _ _ _ _ _ hop => by cases hop) fun _ _ _ hinv => by cases hinv
  obtain ⟨-, hslot, hgen, hpending⟩ := Store.live_eq_some.mp hlive
  have htoken : token = ⟨(s.entries i).generation, i⟩ := by rw [hgen, ← hslot]
  have hok : (s.commit token response nowUs wallUs).2 = true := by rw [heq]
  rw [heq]
  refine ⟨?_, ?_, ?_⟩
  · intro j hp
    by_cases hj : j = i
    · subst hj
      rw [Store.set_same] at hp
      cases hp
    · rw [Store.set_other hj] at hp ⊢
      obtain ⟨q₀, since, hfor, hfill, hnot⟩ := h.pending j hp
      exact ⟨q₀, _, hfor, hfill.snoc _, hnot.snoc (hno _)⟩
  · intro j hready
    by_cases hj : j = i
    · subst hj
      obtain ⟨q₀, mid, hfor, hfill, hnot⟩ := h.pending j hpending
      rw [← htoken] at hfill
      rw [Store.set_same]
      exact ⟨q₀, _, hfor, ⟨t, s, _, token, response, nowUs, wallUs, mid, [], rfl, hok, hr, hfill, rfl⟩,
        hnot.snoc (hno _)⟩
    · rw [Store.set_other hj] at hready ⊢
      obtain ⟨q₀, since, hfor, hcommit, hnot⟩ := h.ready j hready
      exact ⟨q₀, _, hfor, hcommit.snoc _, hnot.snoc (hno _)⟩
  · intro q₀ fill tok since hf
    rcases filled_snoc_iff hf with ⟨since', hold⟩ | ⟨_, _, hop, -⟩
    · obtain ⟨hle, hsame⟩ := h.issued q₀ fill tok since' hold
      refine ⟨hle, fun j hs hg => ?_⟩
      by_cases hj : j = i
      · subst hj
        simp only [Store.set_same] at hg ⊢
        exact hsame j hs hg
      · rw [Store.set_other hj] at hg ⊢
        exact hsame j hs hg
    · cases hop

lemma History.step (h : History t s) (op : CacheOp) : History (t ++ [(s, op)]) (s.run op) := by
  cases op with
  | begin q ttl nowUs keepAlive capacity => exact h.begin q ttl nowUs keepAlive capacity
  | commit token response nowUs wallUs => exact h.commit token response nowUs wallUs
  | cancel token =>
    exact h.lower (s.lowered_cancel token) (fun _ _ _ _ _ _ hop => by cases hop) fun _ _ _ hinv => by cases hinv
  | invalidateHost config host =>
    refine h.lower (s.lowered_invalidateHost config host) (fun _ _ _ _ _ _ hop => by cases hop) ?_
    rintro i config' host' hinv hc hh
    cases hinv
    simp [Store.run, Store.invalidateHost, hc, hh]

end history

lemma history_of_trace {t : CacheTrace} {s} (ht : Trace CacheStep {} t s) : History t s := by
  induction ht with
  | nil => exact history_init
  | snoc ht hs ih =>
    cases hs
    exact ih.step _

/-! ## Isolation -/

lemma begin_hit {s : Store} {key ttl nowUs keepAlive capacity out}
    (h : (s.begin key ttl nowUs keepAlive capacity).2 = .hit out) :
    key.eligible = true ∧ ∃ r, s.find key.view = some r ∧ readResponse key r nowUs keepAlive capacity = some out := by
  unfold Store.begin at h
  by_cases hno : !key.eligible ∨ ttl = 0 ∨ ttl > kMaxTtl
  · rw [if_pos hno] at h
    split_ifs at h
  · rw [if_neg hno] at h
    rw [not_or] at hno
    refine ⟨by simpa using hno.1, ?_⟩
    cases hb : (s.find key.view).bind fun r => readResponse key r nowUs keepAlive capacity with
    | none =>
      rw [hb] at h
      dsimp only at h
      split_ifs at h
    | some out' =>
      rw [hb] at h
      cases h
      exact Option.bind_eq_some_iff.mp hb

lemma hit_origin {t : CacheTrace} {s} (ht : Trace CacheStep {} t s) {q : CacheRequest} {ttl nowUs keepAlive capacity out}
    (hhit : (s.begin q.key ttl nowUs keepAlive capacity).2 = .hit out) :
    ∃ q' r since, Committed t q' r since ∧ NotInvalidated q'.key since ∧
      readResponse q.key r nowUs keepAlive capacity = some out ∧ q.key.eligible = true ∧ q'.key.eligible = true ∧
      q.key.bytes = q'.key.bytes ∧ q.key.config = q'.key.config := by
  obtain ⟨he, r, hfind, hread⟩ := begin_hit hhit
  obtain ⟨i, hserved, rfl⟩ := find_eq_some hfind
  obtain ⟨hready, hmatch⟩ := served_iff.mp hserved
  obtain ⟨hc, -, hk⟩ := matches_iff.mp hmatch
  obtain ⟨q', since, ⟨he', hc', -, hk', -⟩, hcommit, hnot⟩ := (history_of_trace ht).ready i hready
  exact ⟨q', _, since, hcommit, hnot, hread, he, he', hk.symm.trans hk', hc.symm.trans hc'⟩

def varyNames (response : Str) : List Str :=
  match parseResponse response with
  | .complete resp _ =>
    (resp.headers.filter fun h => lower h.name = varyName).flatMap fun h =>
      (h.value.splitOn (ch ',')).map fun item => lower (trimOws item)
  | _ => []

lemma varyNames_keyed {fill response nowUs wallUs r} (h : prepareRecord fill response nowUs wallUs = some r) :
    ∀ name ∈ varyNames r.response, ∀ n, lower n = name → ignoredKeyHeader n = false := by
  obtain ⟨parsed, headerEnd, st, date, hp⟩ := prepareRecord_some h
  obtain ⟨hparse, -⟩ := responseHead_some hp.head
  rw [hp.record]
  intro name hname n hn
  simp only [varyNames, hparse, List.mem_flatMap, List.mem_map, List.mem_filter, decide_eq_true_eq] at hname
  obtain ⟨hd, ⟨hmem, hvary⟩, item, hitem, rfl⟩ := hname
  obtain ⟨st₁, st₂, hsc⟩ := scanHeaders_mem hp.scan hd hmem
  have hlist : tokenList hd.value true = true := by
    have hcc : eq hd.name cacheControlName = false := by
      simp only [eq, httpHeaderNameEqCi, hvary]
      decide
    have hv : eq hd.name varyName = true := by
      simp only [eq, httpHeaderNameEqCi, hvary]
      decide
    unfold scanHeader at hsc
    simp only [hcc, hv, Bool.false_eq_true, if_false, if_true] at hsc
    split_ifs at hsc with h₁ h₂ h₃
    exact h₃
  rw [tokenList, Bool.and_eq_true] at hlist
  have hall := List.all_eq_true.mp hlist.2 (trimOws item) (List.mem_map_of_mem hitem)
  simp only [tokenAllowed, if_true, Bool.and_eq_true, Bool.not_eq_true', Bool.or_eq_false_iff] at hall
  have hcongr : ignoredKeyHeader n = ignoredKeyHeader (trimOws item) := by
    simp only [ignoredKeyHeader, eq, httpHeaderNameEqCi, hn]
  rw [hcongr]
  exact hall.2.1.2

/-- What is served was committed for a request that agrees with the one it is served to in configuration, route,
version, transport, peer, target and in its fields other than the ignored ones, so also in every field the response
varies on. -/
theorem hit_isolated {t : CacheTrace} {s : Store} (ht : Trace CacheStep {} t s) {q : CacheRequest} {ttl nowUs : Nat}
    {keepAlive : Bool} {capacity : Nat} {out : Str}
    (hhit : (s.begin q.key ttl nowUs keepAlive capacity).2 = .hit out) :
    ∃ q' r since req req' n n', Committed t q' r since ∧ readResponse q.key r nowUs keepAlive capacity = some out ∧
      parse q.request = .complete req n ∧ parse q'.request = .complete req' n' ∧ SameRequest q q' req req' ∧
      ∀ name ∈ varyNames r.response, valuesOf name req.headers = valuesOf name req'.headers := by
  obtain ⟨q', r, since, hcommit, -, hread, he, he', hbytes, hconfig⟩ := hit_origin ht hhit
  obtain ⟨req, req', n, n', hp, hp', hsame, -⟩ := sameRequest_of_key he he' hbytes hconfig
  refine ⟨q', r, since, req, req', n, n', hcommit, hread, hp, hp', hsame, fun name hname => ?_⟩
  obtain ⟨-, -, fill, -, response, nowUs', wallUs, -, -, -, -, hr, -⟩ := hcommit
  have hkeyed := varyNames_keyed hr name hname
  rw [valuesOf_eq hkeyed, valuesOf_eq hkeyed, hsame.fields]

/-- A request for `/a` on the host `h`. -/
def sampleRequest : CacheRequest where
  request := lit ['G','E','T',' ','/','a',' ','H','T','T','P','/','1','.','1','\r','\n','H','o','s','t',
    ':',' ','h','\r','\n','\r','\n']
  config := 1
  route := 7
  tls := false
  peer := 0

def sampleResponse : Str :=
  lit ['H','T','T','P','/','1','.','1',' ','2','0','0',' ','O','K','\r','\n'] ++
  lit ['D','a','t','e',':',' ','T','h','u',',',' ','0','1',' ','J','a','n',' ','1','9','7','0',' ',
    '0','0',':','0','0',':','1','0',' ','G','M','T','\r','\n'] ++
  lit ['V','a','r','y',':',' ','H','o','s','t','\r','\n'] ++
  lit ['C','o','n','t','e','n','t','-','L','e','n','g','t','h',':',' ','2','\r','\n','\r','\n','h','i']

def sampleToken : Token := ⟨1, 23⟩

def missedStore : Store := ({} : Store).run (.begin sampleRequest 60 0 true 4096)
def committedStore : Store := missedStore.run (.commit sampleToken sampleResponse 1000 10000000)

def sampleTrace : CacheTrace :=
  [({}, .begin sampleRequest 60 0 true 4096), (missedStore, .commit sampleToken sampleResponse 1000 10000000)]

theorem sample_served :
    ∃ out q' r since, (committedStore.begin sampleRequest.key 60 2000 true 4096).2 = .hit out ∧
      Committed sampleTrace q' r since ∧ q'.route = 7 := by
  have ht : Trace CacheStep {} sampleTrace committedStore := (@Trace.single _ _ _ _ missedStore _ rfl).snoc rfl
  have hhit : (match (committedStore.begin sampleRequest.key 60 2000 true 4096).2 with
      | .hit _ => true
      | _ => false) = true := by decide +kernel
  cases hb : (committedStore.begin sampleRequest.key 60 2000 true 4096).2 with
  | hit out =>
    obtain ⟨q', r, since, req, req', n, n', hcommit, -, -, -, hsame, -⟩ := hit_isolated ht hb
    exact ⟨out, q', r, since, rfl, hcommit, hsame.route.symm⟩
  | bypass => rw [hb] at hhit; cases hhit
  | miss token => rw [hb] at hhit; cases hhit
  | onlyCachedMiss => rw [hb] at hhit; cases hhit

/-! ## The fence of an invalidation -/

def Dead (token : Token) (s : Store) : Prop :=
  token.generation ≤ s.generation ∧
    ∀ i : Fin kCapacity, token.slot = i → (s.entries i).generation = token.generation → (s.entries i).pending = false

lemma Dead.live {token s} (h : Dead token s) : s.live token = none := by
  cases hl : s.live token with
  | none => rfl
  | some i =>
    obtain ⟨-, hslot, hgen, hpending⟩ := Store.live_eq_some.mp hl
    rw [h.2 i hslot hgen] at hpending
    cases hpending

lemma Dead.lower {token s s'} (h : Dead token s) (hl : s.Lowered s') : Dead token s' := by
  refine ⟨by rw [hl.generation]; exact h.1, fun i hslot hgen => ?_⟩
  obtain ⟨p, r, heq, hpend, -⟩ := hl.entry i
  rw [heq] at hgen ⊢
  have hfalse := h.2 i hslot hgen
  cases p with
  | false => rfl
  | true => exact absurd (hpend rfl) (by rw [hfalse]; exact Bool.false_ne_true)

lemma Dead.step {token s} (h : Dead token s) (op : CacheOp) : Dead token (s.run op) := by
  cases op with
  | begin q ttl nowUs keepAlive capacity =>
    rw [Store.run]
    rcases begin_cases s q.key ttl nowUs keepAlive capacity with ⟨hsame, -⟩ | ⟨-, heq⟩
    · rw [hsame]
      exact h
    · rw [heq]
      refine ⟨Nat.le_succ_of_le h.1, fun i hslot hgen => ?_⟩
      by_cases hv : i = s.victim q.key.view
      · subst hv
        simp only [Store.set_same, Store.reserved] at hgen
        have := h.1
        omega
      · simp only [Store.set_other hv] at hgen ⊢
        exact h.2 i hslot hgen
  | commit tok response nowUs wallUs =>
    rw [Store.run]
    rcases commit_cases s tok response nowUs wallUs with ⟨-, hl⟩ | ⟨i, r, -, -, heq⟩
    · exact h.lower hl
    · rw [heq]
      refine ⟨h.1, fun j hslot hgen => ?_⟩
      by_cases hj : j = i
      · subst hj
        rw [Store.set_same]
      · rw [Store.set_other hj] at hgen ⊢
        exact h.2 j hslot hgen
  | cancel tok => exact h.lower (s.lowered_cancel tok)
  | invalidateHost config host => exact h.lower (s.lowered_invalidateHost config host)

lemma dead_of_invalidate {t s} (h : History t s) {q fill token since} (hf : Filled t q fill token since) :
    Dead token (s.invalidateHost q.key.config q.key.host) := by
  obtain ⟨hle, hsame⟩ := h.issued q fill token since hf
  refine ⟨hle, fun i hslot hgen => ?_⟩
  have hgen' : (s.entries i).generation = token.generation := by
    obtain ⟨p, r, heq, -⟩ := (s.lowered_invalidateHost q.key.config q.key.host).entry i
    rwa [heq] at hgen
  obtain ⟨hc, hh⟩ := hsame i hslot hgen'
  simp [Store.invalidateHost, hc, hh]

lemma Committed.suffix {t q r since} (h : Committed t q r since) : since <:+ t := by
  obtain ⟨before, s, fill, token, response, nowUs, wallUs, mid, after, rfl, -, -, hf, rfl⟩ := h
  obtain ⟨before', s', keepAlive, capacity, rfl, -⟩ := hf
  exact ⟨before' ++ [(s', .begin q fill.ttl fill.startedUs keepAlive capacity)], by simp⟩

lemma suffix_of_not_mem {α} {x y z : List α} {e} (h : z <:+ x ++ e :: y) (he : e ∉ z) : z <:+ y := by
  obtain ⟨w, hw⟩ := h
  rcases List.append_eq_append_iff.mp hw with ⟨u, rfl, rfl⟩ | ⟨u, -, hz⟩
  · exact absurd (List.mem_append_right u List.mem_cons_self) he
  · cases u with
    | nil => exact absurd (by rw [List.nil_append] at hz; rw [← hz]; exact List.mem_cons_self) he
    | cons b u => exact ⟨u, (List.cons.inj hz).2.symm⟩

/-- The fence of `invalidate_host`. What is served after it to a request of its host, or was committed for one, was
committed after it, for a request that began after it; and no token given out before it for its host commits anything,
whatever was run in between. -/
theorem invalidation_fence {t₁ t₂ : CacheTrace} {s s' : Store} {config host : UInt64}
    (ht : Trace CacheStep {} (t₁ ++ (s, .invalidateHost config host) :: t₂) s') :
    (∀ (q : CacheRequest) ttl nowUs keepAlive capacity out,
      (s'.begin q.key ttl nowUs keepAlive capacity).2 = .hit out →
      ∃ q' r since, Committed (t₁ ++ (s, .invalidateHost config host) :: t₂) q' r since ∧
        readResponse q.key r nowUs keepAlive capacity = some out ∧ q'.key.config = q.key.config ∧
        q'.key.host = q.key.host ∧ (q'.key.config = config → q'.key.host = host → since <:+ t₂)) ∧
    ∀ (q : CacheRequest) fill token since, Filled t₁ q fill token since → q.key.config = config → q.key.host = host →
      ∀ response nowUs wallUs, (s'.commit token response nowUs wallUs).2 = false := by
  refine ⟨?_, ?_⟩
  · intro q ttl nowUs keepAlive capacity out hhit
    obtain ⟨q', r, since, hcommit, hnot, hread, he, he', hbytes, hconfig⟩ := hit_origin ht hhit
    obtain ⟨-, -, -, -, -, -, -, hhost⟩ := sameRequest_of_key he he' hbytes hconfig
    refine ⟨q', r, since, hcommit, hread, hconfig.symm, hhost.symm, fun hc hh => ?_⟩
    refine suffix_of_not_mem hcommit.suffix fun hmem => ?_
    apply hnot _ hmem
    rw [hc, hh]
  · intro q fill token since hf hc hh response nowUs wallUs
    obtain ⟨s₁, h₁, h₂⟩ := ht.split
    obtain ⟨hs, s₂, hstep, h₃⟩ := h₂.uncons
    cases hs
    cases hstep
    subst hc hh
    have hdead := dead_of_invalidate (history_of_trace h₁) hf
    have hafter : Dead token s' := by
      refine @Trace.inv _ _ _ _ _ _ (fun _ => True) _ h₃ (fun _ _ => trivial) hdead ?_
      rintro a op _ - ha hop
      cases hop
      exact ha.step op
    exact commit_of_not_live hafter.live response nowUs wallUs

def invalidatedStore : Store := missedStore.run (.invalidateHost sampleRequest.key.config sampleRequest.key.host)

theorem invalidated_fill_refused :
    (invalidatedStore.commit sampleToken sampleResponse 1000 10000000).2 = false := by
  have ht : Trace CacheStep {} ([(({} : Store), CacheOp.begin sampleRequest 60 0 true 4096)] ++
      (missedStore, .invalidateHost sampleRequest.key.config sampleRequest.key.host) :: []) invalidatedStore :=
    (@Trace.single _ _ _ _ missedStore _ rfl).snoc rfl
  have hfilled : Filled [(({} : Store), .begin sampleRequest 60 0 true 4096)] sampleRequest ⟨0, 60⟩ sampleToken [] :=
    ⟨[], {}, true, 4096, rfl, by decide⟩
  exact (invalidation_fence ht).2 sampleRequest ⟨0, 60⟩ sampleToken [] hfilled rfl rfl sampleResponse 1000 10000000

end Rut.HttpCache
