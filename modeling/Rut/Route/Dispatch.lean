import Rut.Route.ArtMatch
import Rut.Route.TrieSearch

/-!
# Dispatch by either trie

`RouteConfig::match_canonical` dispatches a canonical path to the adaptive radix trie or to the segment
trie. A canonical path without empty inner segments is its segments joined by slashes, and a prefix of
it that ends at a boundary is a prefix of its segments. So for routes without parameters both tries look
for the same route.
-/

namespace Rut.Route

def joinSegments : List Str → Str
  | [] => []
  | [seg] => seg
  | seg :: segs => seg ++ ch '/' :: joinSegments segs

def NoEmptyInner (path : Str) : Prop := ¬ [ch '/', ch '/'] <:+: finalizePathCanonical path

instance (path : Str) : Decidable (NoEmptyInner path) := inferInstanceAs (Decidable (¬ _))

section segments

variable {seg p q : Str} {segs ps rs : List Str}

lemma joinSegments_cons (h : segs ≠ []) : joinSegments (seg :: segs) = seg ++ ch '/' :: joinSegments segs := by
  cases segs with
  | nil => exact absurd rfl h
  | cons s segs => rfl

lemma joinSegments_append (hp : ps ≠ []) (hr : rs ≠ []) :
    joinSegments (ps ++ rs) = joinSegments ps ++ ch '/' :: joinSegments rs := by
  induction ps with
  | nil => exact absurd rfl hp
  | cons s ps ih =>
    rw [List.cons_append, joinSegments_cons (by simp [hr])]
    by_cases hnil : ps = []
    · simp [hnil, joinSegments]
    · rw [ih hnil, joinSegments_cons hnil, List.append_assoc, List.cons_append]

lemma split_first_slash (p : Str) : ch '/' ∉ p ∨ ∃ u v, ch '/' ∉ u ∧ p = u ++ ch '/' :: v := by
  by_cases h : ch '/' ∈ p
  · obtain ⟨u, v, hp, hu⟩ := List.eq_append_cons_of_mem h
    exact .inr ⟨u, v, hu, hp⟩
  · exact .inl h

lemma segments_append_slash (p q : Str) : segments (p ++ ch '/' :: q) = segments p ++ segments q := by
  induction hn : p.length using Nat.strongRecOn generalizing p with
  | _ n ih =>
    rcases split_first_slash p with h | ⟨u, v, hu, rfl⟩
    · rw [segments_cons_slash h, segments_of_not_mem h]
    · have hv : v.length < n := by
        rw [← hn]
        simp
        omega
      rw [List.append_assoc, List.cons_append, segments_cons_slash hu, ih _ hv v rfl, segments_cons_slash hu,
        List.append_assoc]

lemma segments_rdropSlashes (p : Str) : segments (p.rdropWhile isSlash) = segments p := by
  induction p using List.reverseRecOn with
  | nil => rfl
  | append_singleton p b ih =>
    by_cases hb : b = ch '/'
    · subst hb
      rw [List.rdropWhile_concat_pos _ _ _ (by simp [isSlash]), ih, segments_append_slash]
      exact (List.append_nil _).symm
    · rw [List.rdropWhile_concat_neg _ _ _ (by simpa [isSlash] using hb)]

lemma segments_finalizePathCanonical (p : Str) : segments (finalizePathCanonical p) = segments p := by
  rw [finalizePathCanonical, segments_rdropSlashes]
  exact segments_dropSlashes p

lemma slash_not_mem_segments (p : Str) : ∀ seg ∈ segments p, ch '/' ∉ seg := by
  induction hn : p.length using Nat.strongRecOn generalizing p with
  | _ n ih =>
    rcases split_first_slash p with h | ⟨u, v, hu, rfl⟩
    · rw [segments_of_not_mem h]
      intro seg hseg
      rwa [List.mem_singleton.mp (List.mem_filter.mp hseg).1]
    · intro seg hseg
      rw [segments_cons_slash hu, List.mem_append] at hseg
      rcases hseg with hseg | hseg
      · rwa [List.mem_singleton.mp (List.mem_filter.mp hseg).1]
      · exact ih v.length (by rw [← hn]; simp; omega) v rfl seg hseg

lemma segments_joinSegments (h : ∀ seg ∈ segs, ch '/' ∉ seg ∧ seg ≠ []) : segments (joinSegments segs) = segs := by
  induction segs with
  | nil => rfl
  | cons s segs ih =>
    obtain ⟨hs, hne⟩ := h s (by simp)
    by_cases hnil : segs = []
    · simp [hnil, joinSegments, segments_of_not_mem hs, hne]
    · rw [joinSegments_cons hnil, segments_cons_slash hs, ih fun seg hseg => h seg (by simp [hseg])]
      simp [hne]

lemma joinSegments_segments (hhead : q.head? ≠ some (ch '/')) (hlast : q.getLast? ≠ some (ch '/'))
    (hinner : ¬ [ch '/', ch '/'] <:+: q) : joinSegments (segments q) = q := by
  induction hn : q.length using Nat.strongRecOn generalizing q with
  | _ n ih =>
    rcases split_first_slash q with h | ⟨u, v, hu, rfl⟩
    · rw [segments_of_not_mem h]
      by_cases hq : q = [] <;> simp [hq, joinSegments]
    · have hune : u ≠ [] := by
        rintro rfl
        exact hhead rfl
      have hvne : v ≠ [] := by
        rintro rfl
        exact hlast (by simp)
      have hv : joinSegments (segments v) = v := by
        refine ih v.length (by rw [← hn]; simp; omega) ?_ ?_ ?_ rfl
        · cases v with
          | nil => simp
          | cons b v =>
            rw [List.head?_cons, ne_eq, Option.some.injEq]
            rintro rfl
            exact hinner ⟨u, v, by simp⟩
        · rwa [List.getLast?_append_of_ne_nil _ (by simp), List.getLast?_cons_of_ne_nil hvne] at hlast
        · exact fun h => hinner (h.trans ⟨u ++ [ch '/'], [], by simp⟩)
      have hsegs : segments v ≠ [] := by
        intro hnil
        rw [hnil] at hv
        exact hvne hv.symm
      rw [segments_cons_slash hu, List.filter_cons_of_pos (by simp [hune]), List.filter_nil,
        List.singleton_append, joinSegments_cons hsegs, hv]

lemma head_finalizePathCanonical (p : Str) : (finalizePathCanonical p).head? ≠ some (ch '/') := by
  intro h
  have hpre := List.rdropWhile_prefix isSlash (l := p.dropWhile isSlash)
  rw [finalizePathCanonical] at h
  obtain ⟨s, hs⟩ := hpre
  have hhead := List.head?_dropWhile_not isSlash p
  rw [← hs, List.head?_append, h] at hhead
  simp [isSlash] at hhead

lemma getLast_finalizePathCanonical (p : Str) : (finalizePathCanonical p).getLast? ≠ some (ch '/') := by
  intro h
  rw [finalizePathCanonical] at h
  have hne := List.ne_nil_of_mem (List.mem_of_getLast? h)
  have hlast := List.rdropWhile_last_not isSlash (p.dropWhile isSlash) hne
  rw [List.getLast?_eq_some_getLast hne, Option.some.injEq] at h
  rw [h] at hlast
  exact hlast rfl

lemma finalizePathCanonical_eq_join (h : NoEmptyInner p) : finalizePathCanonical p = joinSegments (segments p) := by
  rw [← segments_finalizePathCanonical p]
  exact (joinSegments_segments (head_finalizePathCanonical p) (getLast_finalizePathCanonical p) h).symm

lemma prefixAt_join (hp : ∀ seg ∈ ps, ch '/' ∉ seg ∧ seg ≠ []) (hr : ∀ seg ∈ rs, ch '/' ∉ seg ∧ seg ≠ []) :
    PrefixAt .segmentPrefix (joinSegments ps) (joinSegments rs) ↔ ps <+: rs := by
  constructor
  · rintro ⟨-, h | h | h | ⟨w, h⟩⟩
    · cases h
    · have hnil := segments_joinSegments hp
      rw [h] at hnil
      rw [← hnil]
      exact List.nil_prefix
    · have heq : ps = rs := by rw [← segments_joinSegments hp, h, segments_joinSegments hr]
      exact heq ▸ List.prefix_refl rs
    · rw [← segments_joinSegments hr, ← h, List.append_assoc, List.singleton_append, segments_append_slash,
        segments_joinSegments hp]
      exact List.prefix_append ..
  · rintro ⟨more, rfl⟩
    by_cases hps : ps = []
    · subst hps
      exact ⟨List.nil_prefix, .inr (.inl rfl)⟩
    by_cases hmore : more = []
    · subst hmore
      rw [List.append_nil]
      exact ⟨List.prefix_refl _, .inr (.inr (.inl rfl))⟩
    rw [joinSegments_append hps hmore]
    exact ⟨List.prefix_append .., .inr (.inr (.inr ⟨_, List.append_assoc ..⟩))⟩

end segments

/-! ## Both tries -/

section dispatch

variable {es : List Insertion} {q : Str} {ps rs : List Str} {want slot : Slot} {r r' : RouteIdx}

def segmentRoute (es : List Insertion) (ps : List Str) (want : Slot) : Option RouteIdx :=
  (firstRoute segments es ps want).or (firstRoute segments es ps anySlot)

/-- `r` is the route of the longest registered prefix of the segments, `kInvalidRoute` without one. -/
def LongestRoute (es : List Insertion) (rs : List Str) (want : Slot) (r : RouteIdx) : Prop :=
  (r = kInvalidRoute ∧ ∀ ps, ps <+: rs → segmentRoute es ps want = none) ∨
  ∃ ps, ps <+: rs ∧ segmentRoute es ps want = some r ∧
    ∀ ps', ps' <+: rs → segmentRoute es ps' want ≠ none → ps'.length ≤ ps.length

lemma LongestRoute.unique (h : LongestRoute es rs want r) (h' : LongestRoute es rs want r') : r = r' := by
  rcases h with ⟨hr, hno⟩ | ⟨ps, hps, hr, hmax⟩ <;> rcases h' with ⟨hr', hno'⟩ | ⟨ps', hps', hr', hmax'⟩
  · exact hr.trans hr'.symm
  · rw [hno ps' hps'] at hr'
    cases hr'
  · rw [hno' ps hps] at hr
    cases hr
  · have hlen := Nat.le_antisymm (hmax' ps hps (by simp [hr])) (hmax ps' hps' (by simp [hr']))
    rw [List.prefix_iff_eq_take] at hps hps'
    rw [hps, hlen, ← hps', hr', Option.some.injEq] at hr
    exact hr.symm

lemma segmentsMatch_literal_iff (hlit : ∀ seg ∈ ps, isParamSegment seg = false) :
    segmentsMatch ps rs = true ↔ ps <+: rs := by
  induction ps generalizing rs with
  | nil => simp [segmentsMatch]
  | cons s ps ih =>
    cases rs with
    | nil => simp [segmentsMatch]
    | cons t rs =>
      rw [segmentsMatch, hlit s (by simp), List.cons_prefix_cons, Bool.and_eq_true,
        ih fun seg hseg => hlit seg (by simp [hseg])]
      simp

lemma segmentRoute_registered (h : segmentRoute es ps want = some r) :
    ∃ slot, firstRoute segments es ps slot = some r ∧ (slot = want ∨ slot = anySlot) ∧
      (slot ≠ want → firstRoute segments es ps want = none) := by
  rw [segmentRoute, Option.or_eq_some_iff] at h
  rcases h with h | ⟨hnone, h⟩
  · exact ⟨want, h, .inl rfl, fun hne => absurd rfl hne⟩
  · exact ⟨anySlot, h, .inr rfl, fun _ => hnone⟩

lemma rank_le_slot {c : RouteCandidate} (c' : RouteCandidate) (hpat : c.pattern = c'.pattern) (hle : c'.rank ≤ c.rank)
    (hc' : c'.slot ≠ anySlot) : c.slot ≠ anySlot := by
  intro hany
  simp only [RouteCandidate.rank, hpat, Prod.Lex.le_iff, ofLex_toLex, lt_irrefl, false_or, true_and, hany,
    ne_eq, hc', not_false_iff, decide_true, not_true, decide_false] at hle
  exact absurd hle (by decide)

lemma Decides.longestRoute (hlit : ∀ e ∈ es, ∀ seg ∈ segments e.path, isParamSegment seg = false)
    (h : Decides es rs want r) : LongestRoute es rs want r := by
  have heligible : ∀ ps, ps <+: rs → ∀ r, segmentRoute es ps want = some r →
      ∃ slot, Eligible es rs want ⟨ps, slot, r⟩ := by
    intro ps hps r hr
    obtain ⟨slot, hreg, hslot, -⟩ := segmentRoute_registered hr
    obtain ⟨e, he, rfl, -⟩ := firstRoute_some hreg
    exact ⟨slot, hreg, (segmentsMatch_literal_iff (hlit e he)).mpr hps, hslot⟩
  rcases h with ⟨hr, hno⟩ | ⟨c, hc, hmax, hr⟩
  · refine .inl ⟨hr, fun ps hps => ?_⟩
    cases hterm : segmentRoute es ps want with
    | none => rfl
    | some r' =>
      obtain ⟨slot, hel⟩ := heligible ps hps r' hterm
      exact absurd hel (hno _)
  · obtain ⟨e, he, hpat, -⟩ := firstRoute_some hc.registered
    have hpre := (segmentsMatch_literal_iff (hpat ▸ hlit e he)).mp hc.isMatch
    refine .inr ⟨c.pattern, hpre, ?_, fun ps' hps' hterm => ?_⟩
    · rw [segmentRoute, hr]
      rcases hc.slot with hslot | hslot
      · rw [← hslot, hc.registered, Option.some_or]
      · cases hwant : firstRoute segments es c.pattern want with
        | none => rw [Option.none_or, ← hslot, hc.registered]
        | some r' =>
          -- the route for the method outranks the one for any method
          by_cases hany : want = anySlot
          · rw [hany, ← hslot, hc.registered] at hwant
            rw [Option.some_or, hwant]
          · exact absurd hslot (rank_le_slot ⟨c.pattern, want, r'⟩ rfl
              (hmax _ ⟨hwant, hc.isMatch, .inl rfl⟩) hany)
    · obtain ⟨r', hr'⟩ := Option.ne_none_iff_exists'.mp hterm
      obtain ⟨slot, hel⟩ := heligible ps' hps' r' hr'
      have hle := hmax _ hel
      simp only [RouteCandidate.rank, Prod.Lex.le_iff, ofLex_toLex] at hle
      omega

lemma terminalRoute_join (hinner : ∀ e ∈ es, NoEmptyInner e.path) (hps : ∀ seg ∈ ps, ch '/' ∉ seg ∧ seg ≠ []) :
    terminalRoute es (joinSegments ps) want = segmentRoute es ps want := by
  have hkey : ∀ slot, firstRoute finalizePathCanonical es (joinSegments ps) slot =
      firstRoute segments es ps slot := by
    intro slot
    have hfind : (es.find? fun e =>
        finalizePathCanonical e.path = joinSegments ps ∧ methodSlot e.method = some slot) =
        es.find? fun e => segments e.path = ps ∧ methodSlot e.method = some slot := by
      refine List.find?_congr fun e he => ?_
      have hiff : finalizePathCanonical e.path = joinSegments ps ↔ segments e.path = ps := by
        rw [finalizePathCanonical_eq_join (hinner e he)]
        constructor
        · intro h
          rw [← segments_joinSegments hps, ← h,
            segments_joinSegments fun s hs => ⟨slash_not_mem_segments _ s hs, segments_ne_nil hs⟩]
        · exact fun h => h ▸ rfl
      simp only [hiff]
    rw [firstRoute, firstRoute, hfind]
  rw [terminalRoute, segmentRoute, hkey, hkey]

lemma BestWithin.longestRoute (hinner : ∀ e ∈ es, NoEmptyInner e.path) (hrs : ∀ seg ∈ rs, ch '/' ∉ seg ∧ seg ≠ [])
    (h : BestWithin .segmentPrefix es (joinSegments rs) want (joinSegments rs) r) : LongestRoute es rs want r := by
  have hsub : ∀ {ps}, ps <+: rs → ∀ seg ∈ ps, ch '/' ∉ seg ∧ seg ≠ [] :=
    fun hps seg hseg => hrs seg (hps.subset hseg)
  have hcand : ∀ {ps}, ps <+: rs → ∀ {r}, segmentRoute es ps want = some r →
      ArtCandidate .segmentPrefix es (joinSegments rs) want (joinSegments ps) r := by
    intro ps hps r hr
    exact ⟨(prefixAt_join (hsub hps) hrs).mpr hps, by rwa [terminalRoute_join hinner (hsub hps)]⟩
  rcases h with ⟨hr, hno⟩ | ⟨q, r', -, hc, hr, hmax⟩
  · refine .inl ⟨hr, fun ps hps => ?_⟩
    cases hterm : segmentRoute es ps want with
    | none => rfl
    | some r' => exact absurd (hcand hps hterm) (hno _ _ (hcand hps hterm).1.1)
  · obtain ⟨e, he, rfl⟩ := terminalRoute_inserted hc.2
    have hsegs : ∀ s ∈ segments e.path, ch '/' ∉ s ∧ s ≠ [] :=
      fun s hs => ⟨slash_not_mem_segments _ s hs, segments_ne_nil hs⟩
    rw [finalizePathCanonical_eq_join (hinner e he)] at hc hmax
    have hpre := (prefixAt_join hsegs hrs).mp hc.1
    refine .inr ⟨segments e.path, hpre, ?_, fun ps' hps' hterm => ?_⟩
    · rw [← terminalRoute_join hinner hsegs, hc.2, hr]
    · obtain ⟨r'', hr''⟩ := Option.ne_none_iff_exists'.mp hterm
      have hc' := hcand hps' hr''
      have hlen := hmax _ _ hc'.1.1 hc'
      by_contra hlt
      -- the longer one of two prefixes joins to the longer path
      have hpp : segments e.path <+: ps' := List.prefix_of_prefix_length_le hpre hps' (by omega)
      have hle := ((prefixAt_join hsegs (hsub hps')).mpr hpp).1
      have heq := hle.eq_of_length_le hlen
      rw [← segments_joinSegments (hsub hps'), ← heq, segments_joinSegments hsegs] at hlt
      omega

end dispatch

/-- For routes without parameters and paths without empty inner segments, both tries select the same
route: the adaptive radix trie on the canonical path, the segment trie on it or on the path itself. -/
theorem dispatch_independent {es : List Insertion} {trie : RouteTrie} {art : ArtTrie}
    (hes : ValidRoutes es) (hlit : ∀ e ∈ es, ∀ seg ∈ segments e.path, isParamSegment seg = false)
    (hinner : ∀ e ∈ es, NoEmptyInner e.path) (htrie : RouteTrie.clear.insertAll es = some trie)
    (hart : (ArtTrie.clear .segmentPrefix).insertAll es = some art) (target : Str)
    (htarget : NoEmptyInner (target.takeWhile isPathByte)) (methodKey : UInt8) :
    trie.matchKey (target.takeWhile isPathByte) methodKey =
      art.matchCanonicalKey (canonicalizeRequest target) methodKey ∧
    trie.matchKey (canonicalizeRequest target) methodKey =
      art.matchCanonicalKey (canonicalizeRequest target) methodKey := by
  obtain ⟨path, T⟩ := trieInv_clear.insertAll (by simpa using hes) htrie
  obtain ⟨hmode, live, paths, S, C, -⟩ := (artInv_clear pathBound_true).insertAll pathBound_true
    (fun _ _ => trivial) (by simpa using hes) hart
  cases hkey : methodKeySlot methodKey with
  | none => simp [RouteTrie.matchKey, RouteTrie.matchKeyParams, ArtTrie.matchCanonicalKey, hkey]
  | some want =>
    have hgen : art.matchCanonicalKey (canonicalizeRequest target) methodKey =
        art.matchGeneral (canonicalizeRequest target) want := by
      simp only [ArtTrie.matchCanonicalKey, hkey]
      split_ifs with hu
      · exact matchUniform_eq S hu _ want
      · rfl
    have hbest := hmode ▸ (matchGeneral_best S C hes (canonicalizeRequest target) want).1
    rw [canonicalizeRequest, finalizePathCanonical_eq_join htarget] at hbest
    have hsegs : segments (canonicalizeRequest target) = segments (target.takeWhile isPathByte) :=
      segments_finalizePathCanonical _
    have hlong := hbest.longestRoute hinner
      fun s hs => ⟨slash_not_mem_segments _ s hs, segments_ne_nil hs⟩
    rw [← finalizePathCanonical_eq_join htarget, ← canonicalizeRequest, ← hgen] at hlong
    have h₁ := (matchKeyParams_decides T hes (target.takeWhile isPathByte) hkey 0).longestRoute hlit
    have h₂ := (matchKeyParams_decides T hes (canonicalizeRequest target) hkey 0).longestRoute hlit
    rw [hsegs] at h₂
    exact ⟨h₁.unique hlong, h₂.unique hlong⟩

def nestedRoutes : List Insertion :=
  [⟨lit ['/','a','/','b'], ch 'G', 1⟩, ⟨lit ['/','a','/'], kRouteMethodAny, 2⟩]

theorem nestedRoutes_dispatch :
    ∃ trie art, RouteTrie.clear.insertAll nestedRoutes = some trie ∧
      (ArtTrie.clear .segmentPrefix).insertAll nestedRoutes = some art ∧
      trie.matchKey (lit ['/','a','/','b','c','/']) kRouteMethodGet = 2 ∧
      art.matchCanonicalKey (canonicalizeRequest (lit ['/','a','/','b','c','/','?','x']))
        kRouteMethodGet = 2 := by
  obtain ⟨trie, htrie⟩ : ∃ trie, RouteTrie.clear.insertAll nestedRoutes = some trie :=
    Option.isSome_iff_exists.mp (by decide)
  obtain ⟨art, hart⟩ : ∃ art, (ArtTrie.clear .segmentPrefix).insertAll nestedRoutes = some art :=
    Option.isSome_iff_exists.mp (by decide)
  have h2 : (RouteTrie.clear.insertAll nestedRoutes).map (fun t =>
      t.matchKey (lit ['/','a','/','b','c','/']) kRouteMethodGet) = some 2 := by
    decide
  rw [htrie, Option.map_some, Option.some.injEq] at h2
  have heq := (dispatch_independent (by unfold ValidRoutes; decide) (by decide)
    (by decide) htrie hart (lit ['/','a','/','b','c','/','?','x']) (by decide)
    kRouteMethodGet).1
  exact ⟨trie, art, htrie, hart, h2, heq.symm.trans h2⟩

end Rut.Route
