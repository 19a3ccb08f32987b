import Rut.Route.ArtInsert

/-!
# Matching in the adaptive radix trie

`match_canonical_key` returns the route of the longest registered path that is a prefix of the request
path and has a terminal for the method. On the way down, the best route is that of the longest one among
the prefixes read so far; the tree has no node between a node and its children, so a step considers
every registered path it passes.
-/

namespace Rut.Route

open Lib

def terminalRoute (es : List Insertion) (q : Str) (want : Slot) : Option RouteIdx :=
  (firstRoute finalizePathCanonical es q want).or (firstRoute finalizePathCanonical es q anySlot)

/-- `q` is a prefix of the path at which a match may end. -/
def PrefixAt (mode : ArtMatchMode) (q path : Str) : Prop :=
  q <+: path ∧ (mode = .bytePrefix ∨ q = [] ∨ q = path ∨ q ++ [ch '/'] <+: path)

/-- `r` is stored for the method at the inserted prefix `q` of the path. -/
def ArtCandidate (mode : ArtMatchMode) (es : List Insertion) (path : Str) (want : Slot) (q : Str)
    (r : RouteIdx) : Prop :=
  PrefixAt mode q path ∧ terminalRoute es q want = some r

/-- `best` is the route of the longest candidate within the prefix `u` of the path. -/
def BestWithin (mode : ArtMatchMode) (es : List Insertion) (path : Str) (want : Slot) (u : Str)
    (best : RouteIdx) : Prop :=
  (best = kInvalidRoute ∧ ∀ q r, q <+: u → ¬ ArtCandidate mode es path want q r) ∨
  ∃ q r, q <+: u ∧ ArtCandidate mode es path want q r ∧ best = r ∧
    ∀ q' r', q' <+: u → ArtCandidate mode es path want q' r' → q'.length ≤ q.length

section candidates

variable {mode : ArtMatchMode} {es : List Insertion} {path u q : Str} {want : Slot} {best r : RouteIdx}

lemma terminalRoute_ne_invalid (hes : ValidRoutes es) (h : terminalRoute es q want = some r) : r ≠ kInvalidRoute := by
  rw [terminalRoute, Option.or_eq_some_iff] at h
  rcases h with h | ⟨-, h⟩
  · exact firstRoute_ne_invalid hes h
  · exact firstRoute_ne_invalid hes h

lemma terminalRoute_inserted (h : terminalRoute es q want = some r) : ∃ e ∈ es, finalizePathCanonical e.path = q := by
  rw [terminalRoute, Option.or_eq_some_iff] at h
  rcases h with h | ⟨-, h⟩
  · obtain ⟨e, he, hk, -⟩ := firstRoute_some h
    exact ⟨e, he, hk⟩
  · obtain ⟨e, he, hk, -⟩ := firstRoute_some h
    exact ⟨e, he, hk⟩

lemma prefixAt_iff {rest} (hq : q ≠ []) (hpath : path = q ++ rest) :
    PrefixAt mode q path ↔ atBoundary mode rest = true := by
  subst hpath
  have hend : q = q ++ rest ↔ rest = [] := by simp
  have hslash : q ++ [ch '/'] <+: q ++ rest ↔ rest.head? = some (ch '/') := by
    rw [List.prefix_append_right_inj]
    cases rest with
    | nil => simp
    | cons b rest => simp [eq_comm]
  simp [PrefixAt, atBoundary, hend, hslash, hq, or_assoc]

lemma bestWithin_longer (h : ArtCandidate mode es path want u r) : BestWithin mode es path want u r :=
  .inr ⟨u, r, List.prefix_refl u, h, rfl, fun _ _ hq _ => hq.length_le⟩

lemma BestWithin.extend {v : Str} (B : BestWithin mode es path want u best) (huv : u <+: v)
    (h : ∀ q r, q <+: v → ArtCandidate mode es path want q r → q <+: u) : BestWithin mode es path want v best := by
  rcases B with ⟨hb, hno⟩ | ⟨q, r, hq, hc, hb, hmax⟩
  · exact .inl ⟨hb, fun q r hq hc => hno q r (h q r hq hc) hc⟩
  · exact .inr ⟨q, r, hq.trans huv, hc, hb, fun q' r' hq' hc' => hmax q' r' (h q' r' hq' hc') hc'⟩

end candidates

section descent

variable {mode : ArtMatchMode} {t : ArtTrie} {live : ArtChildRef → Prop} {paths : ArtChildRef → Str}
  {es : List Insertion} {path q rest : Str} {want : Slot} {cur child : ArtChildRef} {r : RouteIdx} {b : UInt8}

lemma ArtContent.pick (C : ArtContent t live paths es) (hes : ValidRoutes es) (hcur : live cur) (want : Slot) :
    artPickTerminal (t.header cur) want = (terminalRoute es (paths cur) want).getD kInvalidRoute := by
  rw [artPickTerminal, terminalRoute, C.route hcur, C.route hcur]
  by_cases hw : want = anySlot
  · rw [if_neg fun h => h.1 hw, hw, Option.or_self]
  · simp only [ne_eq, hw, not_false_iff, true_and, firstRoute_getD_eq_invalid hes]
    cases firstRoute finalizePathCanonical es (paths cur) want <;> simp

lemma ArtCandidate.below (S : ArtShape t live paths) (C : ArtContent t live paths es) (hcur : live cur)
    (hpath : path = paths cur ++ b :: rest) (hc : ArtCandidate mode es path want q r)
    (hq : ¬ q <+: paths cur) : ∃ c, t.findChild cur b = some c ∧ paths c <+: q := by
  obtain ⟨e, he, hk⟩ := terminalRoute_inserted hc.2
  obtain ⟨j, hj, hpj⟩ := C.complete e he
  rw [hk] at hpj
  have hqp : q <+: path := hc.1.1
  have hcq : paths cur <+: q := by
    rcases List.prefix_or_prefix_of_prefix hqp (hpath ▸ List.prefix_append ..) with h | h
    · exact absurd h hq
    · exact h
  rcases S.tree.way_down hcur hj (hpj ▸ hcq) with rfl | ⟨c, ⟨x, hx⟩, hcj⟩
  · exact absurd (hpj ▸ List.prefix_refl _) hq
  · rw [hpj] at hcj
    obtain ⟨l, -, hl⟩ := S.label hcur hx
    have hpre := hcj.trans hqp
    rw [hl, hpath, List.prefix_append_right_inj, List.cons_prefix_cons] at hpre
    exact ⟨c, hpre.1 ▸ hx, hcj⟩

/-- The descent at the node `cur` with the best route within its path. -/
def Matching (t : ArtTrie) (live : ArtChildRef → Prop) (paths : ArtChildRef → Str) (es : List Insertion)
    (path : Str) (want : Slot) (st : ArtMatchState ArtChildRef) : Prop :=
  live st.cur ∧ path = paths st.cur ++ st.rest ∧
    BestWithin t.matchMode es path want (paths st.cur) st.best

variable {st st' : ArtMatchState ArtChildRef}

lemma artMatchStep_child (hrest : st.rest = b :: rest) (hfind : t.findChild st.cur b = some child) :
    artMatchStep t want st =
      if (t.header child).edge <+: b :: rest then
        .inl
          { cur := child
            best :=
              if artPickTerminal (t.header child) want ≠ kInvalidRoute ∧
                  atBoundary t.matchMode ((b :: rest).drop (t.header child).edge.length) then
                artPickTerminal (t.header child) want
              else st.best
            rest := (b :: rest).drop (t.header child).edge.length }
      else .inr st.best := by
  simp only [artMatchStep, hrest, hfind]
  by_cases hpre : (t.header child).edge <+: b :: rest
  · rw [if_pos hpre, if_neg (by have := hpre.length_le; omega),
      if_neg (not_not.mpr (List.prefix_iff_eq_take.mp hpre))]
  · rw [if_neg hpre]
    split_ifs with hlen htake
    · rfl
    · rfl
    · exact absurd (List.prefix_iff_eq_take.mpr (not_not.mp htake)) hpre

lemma Matching.step (S : ArtShape t live paths) (C : ArtContent t live paths es) (hes : ValidRoutes es)
    (M : Matching t live paths es path want st) (h : artMatchStep t want st = .inl st') :
    Matching t live paths es path want st' ∧ st'.rest.length < st.rest.length := by
  obtain ⟨hcur, hpath, B⟩ := M
  cases hrest : st.rest with
  | nil =>
    rw [artMatchStep, hrest] at h
    cases h
  | cons b rest =>
    cases hfind : t.findChild st.cur b with
    | none =>
      simp only [artMatchStep, hrest, hfind] at h
      cases h
    | some child =>
      rw [artMatchStep_child hrest hfind] at h
      by_cases hpre : (t.header child).edge <+: b :: rest
      swap
      · rw [if_neg hpre] at h
        cases h
      rw [if_pos hpre, Sum.inl.injEq] at h
      subst h
      have hchild := S.child_live hcur hfind
      obtain ⟨l, hedge, hl⟩ := S.label hcur hfind
      obtain ⟨rest', hrest'⟩ := hpre
      rw [hedge] at hrest' ⊢
      have hdrop : (b :: rest).drop (b :: l).length = rest' := by
        rw [← hrest']
        exact List.drop_left
      rw [hdrop]
      rw [hrest, ← hrest', ← List.append_assoc, ← hl] at hpath
      have hne : paths child ≠ [] := by simp [hl]
      refine ⟨⟨hchild, hpath, ?_⟩, ?_⟩
      · have hpick := C.pick hes hchild want
        split_ifs with hnew <;> rw [← prefixAt_iff hne hpath, hpick] at hnew
        · obtain ⟨hr, hat⟩ := hnew
          rw [hpick]
          cases hterm : terminalRoute es (paths child) want with
          | none => simp [hterm] at hr
          | some r => exact bestWithin_longer ⟨hat, hterm⟩
        · -- the child is no candidate, and nothing lies between it and the current node
          refine B.extend (hl ▸ List.prefix_append ..) fun q r hq hc => ?_
          by_contra hout
          have hpath' : path = paths st.cur ++ b :: (l ++ rest') := by
            rw [hpath, hl, List.append_assoc, List.cons_append]
          obtain ⟨c, hc', hcq⟩ := hc.below S C hcur hpath' hout
          rw [hfind, Option.some.injEq] at hc'
          subst hc'
          obtain rfl := hq.eq_of_length_le hcq.length_le
          refine hnew ⟨?_, hc.1⟩
          rw [hc.2]
          exact terminalRoute_ne_invalid hes hc.2
      · rw [← hrest']
        simp only [List.length_append, List.length_cons]
        omega

lemma Matching.leave (S : ArtShape t live paths) (C : ArtContent t live paths es)
    (M : Matching t live paths es path want st) (h : artMatchStep t want st = .inr r) :
    BestWithin t.matchMode es path want path r := by
  obtain ⟨hcur, hpath, B⟩ := M
  cases hrest : st.rest with
  | nil =>
    rw [artMatchStep, hrest] at h
    cases h
    rw [hrest, List.append_nil] at hpath
    rwa [hpath] at B ⊢
  | cons b rest =>
    rw [hrest] at hpath
    have hnone : ∀ c, t.findChild st.cur b = some c → ¬ paths c <+: path := by
      intro c hfind hpre
      obtain ⟨l, hedge, hl⟩ := S.label hcur hfind
      rw [artMatchStep_child hrest hfind, hedge, if_pos] at h
      · cases h
      · rwa [hpath, hl, List.prefix_append_right_inj] at hpre
    have hr : st.best = r := by
      cases hfind : t.findChild st.cur b with
      | none =>
        simp only [artMatchStep, hrest, hfind, Sum.inr.injEq] at h
        exact h
      | some c =>
        rw [artMatchStep_child hrest hfind] at h
        split_ifs at h
        exact Sum.inr.inj h
    rw [← hr]
    refine B.extend (hpath ▸ List.prefix_append ..) fun q r hq hc => ?_
    by_contra hout
    obtain ⟨c, hfind, hcq⟩ := hc.below S C hcur hpath hout
    exact hnone c hfind (hcq.trans hq)

lemma matchGeneral_best (S : ArtShape t live paths) (C : ArtContent t live paths es) (hes : ValidRoutes es)
    (path : Str) (want : Slot) : BestWithin t.matchMode es path want path (t.matchGeneral path want) ∧
    LoopsTo (artMatchStep t want) { cur := t.rootRef, best := artPickTerminal (t.header t.rootRef) want, rest := path }
      (t.matchGeneral path want) := by
  have hstart : Matching t live paths es path want
      { cur := t.rootRef, best := artPickTerminal (t.header t.rootRef) want, rest := path } := by
    refine ⟨S.tree.root_live, by simp [S.tree.root_path], ?_⟩
    rw [C.pick hes S.tree.root_live, S.tree.root_path]
    cases hterm : terminalRoute es [] want with
    | none =>
      refine .inl ⟨rfl, fun q r hq hc => ?_⟩
      rw [List.prefix_nil.mp hq, ArtCandidate, hterm] at hc
      cases hc.2
    | some r => exact bestWithin_longer ⟨⟨List.nil_prefix, .inr (.inl rfl)⟩, hterm⟩
  obtain ⟨r, hr, hpost⟩ := loop_total (Matching t live paths es path want)
    (BestWithin t.matchMode es path want path) (fun st => st.rest.length)
    (fun M h => M.step S C hes h) (fun M h => M.leave S C h) hstart (Nat.lt_succ_self _)
  have heq : t.matchGeneral path want = r := by rw [ArtTrie.matchGeneral, hr, Option.getD_some]
  rw [heq]
  exact ⟨hpost, _, hr⟩

end descent

/-! ## The loop for Node4 only -/

section uniform

variable {t : ArtTrie} {live : ArtChildRef → Prop} {paths : ArtChildRef → Str} {want : Slot}

lemma findChild_n4 (i : Nat) (b : UInt8) : t.findChild ⟨.n4, i⟩ b = findInEntries (t.n4Pool.getD i {}).entries b := by
  simp only [ArtTrie.findChild, ArtTrie.node, List.getD_eq_getElem?_getD]
  cases t.n4Pool[i]? <;> rfl

lemma header_n4 (i : Nat) : t.header ⟨.n4, i⟩ = (t.n4Pool.getD i {}).hdr := by
  simp only [ArtTrie.header, ArtTrie.node, List.getD_eq_getElem?_getD]
  cases t.n4Pool[i]? <;> rfl

def SameNode (live : ArtChildRef → Prop) (st : ArtMatchState ArtChildRef) (st' : ArtMatchState Nat) : Prop :=
  live st.cur ∧ st.cur = ⟨.n4, st'.cur⟩ ∧ st.best = st'.best ∧ st.rest = st'.rest

lemma ArtShape.live_type (S : ArtShape t live paths) (hu : t.isUniformN4 = true) {i}
    (hi : live i) : i = ⟨.n4, i.idx⟩ := by
  obtain ⟨n, hn, -⟩ := S.node hi
  rw [← S.uniform hu hn]

lemma SameNode.step (S : ArtShape t live paths) (hu : t.isUniformN4 = true) {st st'} (R : SameNode live st st') :
    Sum.LiftRel (SameNode live) Eq (artMatchStep t want st) (artMatchUniformStep t want st') := by
  obtain ⟨cur, best, rest⟩ := st
  obtain ⟨i, best', rest'⟩ := st'
  simp only [SameNode] at R
  obtain ⟨hcur, rfl, rfl, rfl⟩ := R
  rw [artMatchStep, artMatchUniformStep]
  cases rest with
  | nil => exact .inr rfl
  | cons b rest =>
    simp only [← findChild_n4, ← header_n4]
    cases hfind : t.findChild ⟨.n4, i⟩ b with
    | none => exact .inr rfl
    | some child =>
      have hchild := S.child_live hcur hfind
      have htype := S.live_type hu hchild
      simp only [← htype]
      split_ifs
      · exact .inr rfl
      · exact .inr rfl
      · exact .inl ⟨hchild, htype, rfl, rfl⟩
      · exact .inl ⟨hchild, htype, rfl, rfl⟩

lemma matchUniform_eq (S : ArtShape t live paths) (hu : t.isUniformN4 = true) (path : Str) (want : Slot) :
    t.matchUniform path want = t.matchGeneral path want := by
  have hroot := S.live_type hu S.tree.root_live
  have hstart : SameNode live
      { cur := t.rootRef, best := artPickTerminal (t.header t.rootRef) want, rest := path }
      { cur := t.rootRef.idx
        best := artPickTerminal (t.n4Pool.getD t.rootRef.idx {}).hdr want
        rest := path } :=
    ⟨S.tree.root_live, hroot, by rw [← header_n4, ← hroot], rfl⟩
  rw [ArtTrie.matchUniform, ArtTrie.matchGeneral, loop_congr _ (fun R => R.step S hu) hstart]

lemma matchCanonicalKey_general (S : ArtShape t live paths) {methodKey}
    (hkey : methodKeySlot methodKey = some want) (path : Str) :
    t.matchCanonicalKey path methodKey = t.matchGeneral path want := by
  simp only [ArtTrie.matchCanonicalKey, hkey]
  split_ifs with hu
  · exact matchUniform_eq S hu path want
  · rfl

end uniform

/-- `r` is stored for the method key at the inserted prefix `q` of the path. -/
def IsArtMatch (mode : ArtMatchMode) (es : List Insertion) (path : Str) (methodKey : UInt8) (q : Str)
    (r : RouteIdx) : Prop :=
  ∃ want, methodKeySlot methodKey = some want ∧ ArtCandidate mode es path want q r

/-- After any successful insertions `match_canonical_key` returns the route stored for the longest
inserted prefix of the path, and `kInvalidRoute` exactly if there is none; where the loop for Node4 is
taken, the general one would return the same route. -/
theorem matchCanonicalKey_longest {mode : ArtMatchMode} {es : List Insertion} {t : ArtTrie}
    (hes : ValidRoutes es) (h : (ArtTrie.clear mode).insertAll es = some t) :
    (∀ path methodKey,
      (t.matchCanonicalKey path methodKey = kInvalidRoute ↔ ¬ ∃ q r, IsArtMatch mode es path methodKey q r) ∧
      ((∃ q r, IsArtMatch mode es path methodKey q r) →
        ∃ q r, IsArtMatch mode es path methodKey q r ∧
          (∀ q' r', IsArtMatch mode es path methodKey q' r' → q'.length ≤ q.length) ∧
          t.matchCanonicalKey path methodKey = r)) ∧
    (t.isUniformN4 = true → ∀ path want, t.matchUniform path want = t.matchGeneral path want) := by
  obtain ⟨hmode, live, paths, S, C, -⟩ := (artInv_clear pathBound_true).insertAll pathBound_true
    (fun _ _ => trivial) (by simpa using hes) h
  refine ⟨fun path methodKey => ?_, fun hu path want => matchUniform_eq S hu path want⟩
  cases hkey : methodKeySlot methodKey with
  | none => simp [IsArtMatch, hkey, ArtTrie.matchCanonicalKey]
  | some want =>
    have hiff : ∀ q r, IsArtMatch mode es path methodKey q r ↔ ArtCandidate mode es path want q r := by
      simp [IsArtMatch, hkey]
    have hgen := matchCanonicalKey_general S hkey path
    simp only [hiff, hgen]
    rcases hmode ▸ (matchGeneral_best S C hes path want).1 with ⟨hb, hno⟩ | ⟨q, r, -, hc, hb, hmax⟩
    · have hnone : ¬ ∃ q r, ArtCandidate mode es path want q r :=
        fun ⟨q, r, hc⟩ => hno q r hc.1.1 hc
      exact ⟨⟨fun _ => hnone, fun _ => hb⟩, fun hex => absurd hex hnone⟩
    · refine ⟨?_, fun _ => ⟨q, r, hc, fun q' r' hc' => hmax q' r' hc'.1.1 hc', hb⟩⟩
      rw [hb]
      exact ⟨fun hinv => absurd hinv (terminalRoute_ne_invalid hes hc.2), fun hno => absurd ⟨q, r, hc⟩ hno⟩

/-- Five routes below `api/` upgrade its node and `api` splits the edge to it. -/
def fanOutRoutes : List Insertion :=
  [⟨lit ['/','a','p','i','/','a'], ch 'G', 1⟩, ⟨lit ['/','a','p','i','/','b'], ch 'G', 2⟩,
    ⟨lit ['/','a','p','i','/','c'], ch 'G', 3⟩, ⟨lit ['/','a','p','i','/','d'], ch 'G', 4⟩,
    ⟨lit ['/','a','p','i','/','e'], ch 'G', 5⟩, ⟨lit ['/','a','p','i'], kRouteMethodAny, 6⟩]

theorem fanOutRoutes_match :
    ∃ t, (ArtTrie.clear .segmentPrefix).insertAll fanOutRoutes = some t ∧ t.isUniformN4 = false ∧
      ∃ q r, IsArtMatch .segmentPrefix fanOutRoutes (lit ['a','p','i','/','e','x']) kRouteMethodGet q r ∧
        (∀ q' r', IsArtMatch .segmentPrefix fanOutRoutes (lit ['a','p','i','/','e','x'])
          kRouteMethodGet q' r' → q'.length ≤ q.length) ∧
        t.matchCanonicalKey (lit ['a','p','i','/','e','x']) kRouteMethodGet = r ∧ r = 6 := by
  obtain ⟨t, ht⟩ : ∃ t, (ArtTrie.clear .segmentPrefix).insertAll fanOutRoutes = some t :=
    Option.isSome_iff_exists.mp (by decide)
  have hrun : ((ArtTrie.clear .segmentPrefix).insertAll fanOutRoutes).map (fun t =>
      (t.isUniformN4, t.matchCanonicalKey (lit ['a','p','i','/','e','x']) kRouteMethodGet)) =
      some (false, 6) := by
    decide
  rw [ht, Option.map_some, Option.some.injEq, Prod.mk.injEq] at hrun
  have hcand : ∃ q r, IsArtMatch .segmentPrefix fanOutRoutes (lit ['a','p','i','/','e','x'])
      kRouteMethodGet q r :=
    ⟨lit ['a','p','i'], 6, ⟨1, by decide⟩, by decide,
      ⟨by decide, .inr (.inr (.inr (by decide)))⟩, by decide⟩
  obtain ⟨q, r, hq, hmax, hr⟩ :=
    ((matchCanonicalKey_longest (by unfold ValidRoutes; decide) ht).1 _ _).2 hcand
  exact ⟨t, ht, hrun.1, q, r, hq, hmax, hr, hr.symm.trans hrun.2⟩

end Rut.Route
