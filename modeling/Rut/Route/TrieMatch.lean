import Rut.Route.Candidate

/-!
# Matching in the segment trie

Both ways in which `match_key` searches the trie return the route of a maximal candidate. The streaming path follows the
only chain of nodes that can match. The depth-first search keeps, for every candidate, a frame on its stack from which
it will still be reached or a best terminal of at least its rank.
-/

namespace Rut.Route

open Lib

/-! ## Candidates at a node -/

section node

variable {t : RouteTrie} {path : Nat → List Str} {es : List Insertion} {rs : List Str} {want : Slot}
  {c : RouteCandidate} {i : Nat}

lemma Eligible.node (T : TrieInv t path es) (hc : Eligible es rs want c) :
    ∃ i < t.nodes.length, path i = c.pattern := by
  obtain ⟨e, he, hseg, -, -⟩ := firstRoute_some hc.registered
  obtain ⟨i, hi, hp⟩ := T.content.complete e he
  exact ⟨i, hi, hp.trans hseg⟩

lemma Eligible.below (hc : Eligible es rs want c) {p} (hp : p <+: c.pattern) : Below es c.slot p := by
  obtain ⟨e, he, hseg, hm, -⟩ := firstRoute_some hc.registered
  exact ⟨e, he, hm, hseg ▸ hp⟩

lemma mask_not_eligible {mask slot} (h : mask &&& (1 ||| 1 <<< want.val) = 0)
    (hs : slot = want ∨ slot = anySlot) : mask.testBit slot.val = false := by
  have hbit : (1 ||| 1 <<< want.val).testBit slot.val = true := by
    rcases hs with rfl | rfl <;> simp [anySlot]
  have h0 := congrArg (·.testBit slot.val) h
  simpa [Nat.testBit_and, hbit] using h0

lemma rank_le_rank_of_pattern {c d : RouteCandidate} (hp : c.pattern = d.pattern)
    (hs : c.slot ≠ anySlot → d.slot ≠ anySlot) : c.rank ≤ d.rank := by
  simp only [RouteCandidate.rank, hp, Prod.Lex.toLex_le_toLex', le_refl, true_and, forall_const]
  by_cases h : c.slot = anySlot <;> simp_all

lemma rank_le_of_length_lt {c d : RouteCandidate} (h : c.pattern.length < d.pattern.length) : c.rank ≤ d.rank := by
  rw [RouteCandidate.rank, RouteCandidate.rank, Prod.Lex.toLex_le_toLex]
  exact .inl h

/-- `pick_terminal` gives the best candidate at a node. -/
lemma pickTerminal_spec (T : TrieInv t path es) (hes : ValidRoutes es) (hi : i < t.nodes.length)
    (hmatch : segmentsMatch (path i) rs = true) (want : Slot) :
    ((pickTerminal (nodeAt t.nodes i) want).routeIdx = kInvalidRoute ∧
      ∀ c, Eligible es rs want c → c.pattern ≠ path i) ∨
    ∃ c, Eligible es rs want c ∧ c.pattern = path i ∧ c.routeIdx ≠ kInvalidRoute ∧
      pickTerminal (nodeAt t.nodes i) want = ⟨c.routeIdx, decide (c.slot ≠ anySlot)⟩ ∧
      ∀ c', Eligible es rs want c' → c'.pattern = path i → c'.rank ≤ c.rank := by
  simp only [pickTerminal, T.content.route hi, ne_eq, firstRoute_getD_eq_invalid hes]
  by_cases hspec : want ≠ anySlot ∧ ¬ firstRoute segments es (path i) want = none
  · -- a route for the method itself
    obtain ⟨r, hr⟩ := Option.ne_none_iff_exists'.mp hspec.2
    rw [if_pos hspec, hr]
    refine .inr ⟨⟨path i, want, r⟩, ⟨hr, hmatch, .inl rfl⟩, rfl, firstRoute_ne_invalid hes hr, ?_, ?_⟩
    · simp [hspec.1]
    · exact fun c' _ hp => rank_le_rank_of_pattern hp fun _ => hspec.1
  · rw [if_neg hspec]
    have hany : ∀ c, Eligible es rs want c → c.pattern = path i → c.slot = anySlot := by
      intro c hc hp
      by_contra hne
      have hw := hc.slot.resolve_right hne
      have hreg := hc.registered
      rw [hp, hw] at hreg
      exact hspec ⟨hw ▸ hne, by simp [hreg]⟩
    cases hr : firstRoute segments es (path i) anySlot with
    | none =>
      refine .inl ⟨rfl, fun c hc hp => ?_⟩
      have hreg := hc.registered
      rw [hp, hany c hc hp, hr] at hreg
      cases hreg
    | some r =>
      refine .inr ⟨⟨path i, anySlot, r⟩, ⟨hr, hmatch, .inr rfl⟩, rfl, firstRoute_ne_invalid hes hr, ?_, ?_⟩
      · simp
      · intro c' hc' hp
        exact rank_le_rank_of_pattern hp fun h => absurd (hany c' hc' hp) h

end node

/-! ## The streaming path -/

lemma segments_dropSlashes (s : Str) : segments (s.dropWhile (· == ch '/')) = segments s := by
  induction s with
  | nil => rfl
  | cons b s ih =>
    by_cases hb : b = ch '/'
    · subst hb
      rw [List.dropWhile_cons_of_pos (by simp), ih]
      exact (segments_cons_slash (List.not_mem_nil : ch '/' ∉ [])).symm
    · rw [List.dropWhile_cons_of_neg (by simpa using hb)]

lemma segments_value {s} (hne : s.dropWhile (· == ch '/') ≠ []) :
    segments s = (s.dropWhile (· == ch '/')).takeWhile (· != ch '/') ::
      segments ((s.dropWhile (· == ch '/')).dropWhile (· != ch '/')) := by
  rw [← segments_dropSlashes s]
  have hhead := List.head?_dropWhile_not (· == ch '/') s
  generalize s.dropWhile (· == ch '/') = s at hne hhead
  obtain ⟨b, s, rfl⟩ := List.exists_cons_of_ne_nil hne
  have hb : (b != ch '/') = true := by simpa using hhead
  have hfree : ch '/' ∉ (b :: s).takeWhile (· != ch '/') := by
    intro hm
    simpa using List.mem_takeWhile_imp hm
  have hv : ([(b :: s).takeWhile (· != ch '/')].filter (· != [])) =
      [(b :: s).takeWhile (· != ch '/')] := by
    simp [hb]
  have hsplit := List.takeWhile_append_dropWhile (p := (· != ch '/')) (l := b :: s)
  have hd := List.head?_dropWhile_not (· != ch '/') (b :: s)
  cases hr : (b :: s).dropWhile (· != ch '/') with
  | nil =>
    rw [hr, List.append_nil] at hsplit
    have hseg := segments_of_not_mem hfree
    rw [hv, hsplit] at hseg
    rw [hsplit, hseg]
    rfl
  | cons d r =>
    rw [hr] at hd hsplit
    obtain rfl : d = ch '/' := by simpa using hd
    conv_lhs => rw [← hsplit]
    rw [segments_cons_slash hfree, hv, ← segments_dropSlashes (ch '/' :: r),
      List.dropWhile_cons_of_pos (by simp), segments_dropSlashes]
    rfl

lemma length_skipSegment_lt {s : Str} (hne : s.dropWhile (· == ch '/') ≠ []) :
    ((s.dropWhile (· == ch '/')).dropWhile (· != ch '/')).length < s.length := by
  have hhead := List.head?_dropWhile_not (· == ch '/') s
  have hle := (List.dropWhile_suffix (l := s) (· == ch '/')).length_le
  generalize s.dropWhile (· == ch '/') = v at hne hhead hle ⊢
  obtain ⟨b, v, rfl⟩ := List.exists_cons_of_ne_nil hne
  have hb : b ≠ ch '/' := by simpa using hhead
  rw [List.dropWhile_cons_of_pos (by simpa using hb)]
  have := (List.dropWhile_suffix (l := v) (· != ch '/')).length_le
  simp only [List.length_cons] at hle
  omega

/-- The route is the best one among the eligible candidates whose patterns satisfy `C`. -/
def BestAmong (es : List Insertion) (rs : List Str) (want : Slot) (C : List Str → Prop) (r : RouteIdx) :
    Prop :=
  (r = kInvalidRoute ∧ ∀ c, Eligible es rs want c → ¬ C c.pattern) ∨
  ∃ c, Eligible es rs want c ∧ C c.pattern ∧ r = c.routeIdx ∧
    ∀ c', Eligible es rs want c' → C c'.pattern → c'.rank ≤ c.rank

lemma BestAmong.decides {es rs want C r} (h : BestAmong es rs want C r)
    (hall : ∀ c, Eligible es rs want c → C c.pattern) : Decides es rs want r := by
  rcases h with ⟨hr, hno⟩ | ⟨c, hc, -, hr, hmax⟩
  · exact .inl ⟨hr, fun c hc => hno c hc (hall c hc)⟩
  · exact .inr ⟨c, hc, fun c' hc' => hmax c' hc' (hall c' hc'), hr⟩

/-- The invariant of the streaming loop: the winner is the best candidate above the current node, and
every deeper one lies below it. -/
structure StreamInv (t : RouteTrie) (path : Nat → List Str) (es : List Insertion) (req : Str)
    (want : Slot) (st : StreamState) : Prop where
  lt : st.current < t.nodes.length
  consumed : ∃ pre, segments req = pre ++ segments st.rest ∧ pre.length = (path st.current).length
  isMatch : segmentsMatch (path st.current) (segments req) = true
  winner : BestAmong es (segments req) want (·.length < (path st.current).length) st.winner
  chain : ∀ c, Eligible es (segments req) want c → (path st.current).length ≤ c.pattern.length →
    path st.current <+: c.pattern

section stream

variable {t : RouteTrie} {path : Nat → List Str} {es : List Insertion} {req : Str} {want : Slot}
  {st : StreamState}

@[simp] lemma noteTerminal_current (terminal : Terminal) (st : StreamState) :
    (noteTerminal terminal st).current = st.current := by
  rw [noteTerminal]
  split_ifs <;> rfl

@[simp] lemma noteTerminal_rest (terminal : Terminal) (st : StreamState) :
    (noteTerminal terminal st).rest = st.rest := by
  rw [noteTerminal]
  split_ifs <;> rfl

lemma StreamInv.note (T : TrieInv t path es) (hes : ValidRoutes es) (I : StreamInv t path es req want st) :
    BestAmong es (segments req) want (·.length < (path st.current).length + 1)
      (noteTerminal (pickTerminal (nodeAt t.nodes st.current) want) st).winner := by
  have hsame : ∀ c, Eligible es (segments req) want c →
      c.pattern.length < (path st.current).length + 1 →
      c.pattern.length < (path st.current).length ∨ c.pattern = path st.current := by
    intro c hc hlt
    by_cases h : c.pattern.length < (path st.current).length
    · exact .inl h
    · exact .inr ((I.chain c hc (by omega)).eq_of_length (by omega)).symm
  rcases pickTerminal_spec T hes I.lt I.isMatch want with ⟨hnone, hno⟩ | ⟨c, hc, hp, hr, ht, hmax⟩
  · rw [noteTerminal, if_neg (not_not_intro hnone)]
    rcases I.winner with ⟨hw, hw'⟩ | ⟨w, hw, hlt, hwr, hwmax⟩
    · refine .inl ⟨hw, fun c hc hlt => ?_⟩
      exact (hsame c hc hlt).elim (hw' c hc) (hno c hc)
    · refine .inr ⟨w, hw, by omega, hwr, fun c hc hlt => ?_⟩
      exact (hsame c hc hlt).elim (hwmax c hc) fun h => absurd h (hno c hc)
  · rw [ht, noteTerminal, if_pos hr]
    refine .inr ⟨c, hc, by rw [hp]; omega, rfl, fun c' hc' hlt => ?_⟩
    rcases hsame c' hc' hlt with h | h
    · exact rank_le_of_length_lt (by rw [hp]; exact h)
    · exact hmax c' hc' h

lemma StreamInv.child (T : TrieInv t path es) (I : StreamInv t path es req want st) {c}
    (hc : Eligible es (segments req) want c) (hlen : (path st.current).length < c.pattern.length) :
    ∃ ch ∈ (nodeAt t.nodes st.current).children.data, path ch <+: c.pattern := by
  obtain ⟨j, hj, hpj⟩ := hc.node T
  rcases T.shape.tree.way_down I.lt hj (hpj ▸ I.chain c hc (by omega)) with rfl | ⟨ch, hch, hpre⟩
  · rw [hpj] at hlen
    omega
  · exact ⟨ch, hch, hpj ▸ hpre⟩

lemma child_segment (T : TrieInv t path es) {i ch rs} (hi : i < t.nodes.length)
    (hch : ch ∈ (nodeAt t.nodes i).children.data) {p} (hp : path ch <+: p) (hm : segmentsMatch p rs = true) :
    ∃ r, rs[(path i).length]? = some r ∧
      (isParamSegment (nodeAt t.nodes ch).segment = true ∨ (nodeAt t.nodes ch).segment = r) := by
  obtain ⟨rest, rfl⟩ := hp
  rw [T.shape.label hi hch, List.append_assoc] at hm
  exact segmentsMatch_next hm

lemma selectChild_unique (T : TrieInv t path es) (hnb : t.needsBacktracking = false) {i ch value}
    (hi : i < t.nodes.length) (hch : ch ∈ (nodeAt t.nodes i).children.data) (hv : value ≠ [])
    (hseg : isParamSegment (nodeAt t.nodes ch).segment = true ∨ (nodeAt t.nodes ch).segment = value) :
    selectChild t.nodes i value = some ch := by
  rw [selectChild]
  split
  · rename_i only heq
    rw [heq, List.mem_singleton] at hch
    rw [hch]
  · rename_i hne
    have hlen : 1 < (nodeAt t.nodes i).children.data.length := by
      rcases h : (nodeAt t.nodes i).children.data with - | ⟨a, - | ⟨b, l⟩⟩
      · simp [h] at hch
      · exact absurd h (hne a)
      · simp
    have hzero : (nodeAt t.nodes i).children.paramCount = 0 := by
      by_contra h0
      rw [T.backtracking hi h0 hlen] at hnb
      cases hnb
    have hlit := (T.partition hi).literals ch (by rwa [hzero, List.drop_zero])
    have hseg := hseg.resolve_left (by simpa [isParamNode] using hlit)
    cases hf : findChild t.nodes i value 0 with
    | none => exact absurd hseg (findChild_none hv hf ch (by simpa using hch))
    | some c' =>
      obtain ⟨hc', hp'⟩ := findChild_path T.shape hi hf
      rw [T.shape.tree.path_inj (T.shape.tree.child_live hi hc') (T.shape.tree.child_live hi hch)
        (by rw [hp', T.shape.label hi hch, hseg])]

lemma selectChild_mem (T : TrieInv t path es) {i ch value} (hi : i < t.nodes.length)
    (h : selectChild t.nodes i value = some ch) : ch ∈ (nodeAt t.nodes i).children.data := by
  rw [selectChild] at h
  split at h
  · rename_i only heq
    cases h
    simp [heq]
  · exact (findChild_path T.shape hi h).1

lemma streamStep_spec (T : TrieInv t path es) (hes : ValidRoutes es) (hnb : t.needsBacktracking = false)
    {cap} (I : StreamInv t path es req want st) : (∀ st', streamStep t.nodes want cap st = .inl st' →
      StreamInv t path es req want st' ∧ st'.rest.length < st.rest.length) ∧
    ∀ st', streamStep t.nodes want cap st = .inr st' → Decides es (segments req) want st'.winner := by
  have hbest := I.note T hes
  -- leaving is right when no candidate lies below the current node
  have hleave : (∀ ch ∈ (nodeAt t.nodes st.current).children.data, ∀ c,
      Eligible es (segments req) want c → ¬ path ch <+: c.pattern) →
      Decides es (segments req) want
        (noteTerminal (pickTerminal (nodeAt t.nodes st.current) want) st).winner := by
    intro hno
    refine hbest.decides fun c hc => ?_
    by_contra hlt
    obtain ⟨ch, hch, hpre⟩ := I.child T hc (by omega)
    exact hno ch hch c hc hpre
  rw [streamStep]
  simp only [noteTerminal_current, noteTerminal_rest]
  obtain ⟨pre, hpre, hlen⟩ := I.consumed
  by_cases hleaf : (nodeAt t.nodes st.current).children.data = []
  · simp only [if_pos hleaf, reduceCtorEq, false_implies, implies_true, true_and, Sum.inr.injEq]
    rintro _ rfl
    exact hleave (by simp [hleaf])
  simp only [if_neg hleaf]
  by_cases hend : st.rest.dropWhile (· == ch '/') = []
  · simp only [if_pos hend, reduceCtorEq, false_implies, implies_true, true_and, Sum.inr.injEq]
    rintro _ rfl
    refine hleave fun ch hch c hc hp => ?_
    obtain ⟨r, hr, -⟩ := child_segment T I.lt hch hp hc.isMatch
    have hnil : segments st.rest = [] := by
      rw [← segments_dropSlashes, hend]
      rfl
    rw [hpre, hnil, List.append_nil, ← hlen] at hr
    simp at hr
  simp only [if_neg hend]
  have hval := segments_value hend
  have hshort := length_skipSegment_lt hend
  generalize hvalue : (st.rest.dropWhile (· == ch '/')).takeWhile (· != ch '/') = value at hval ⊢
  generalize (st.rest.dropWhile (· == ch '/')).dropWhile (· != ch '/') = rest at hval hshort ⊢
  have hv : value ≠ [] := segments_ne_nil (by simp [hval] : value ∈ segments st.rest)
  have hget : (segments req)[(path st.current).length]? = some value := by
    rw [hpre, hval, ← hlen]
    simp
  have hdown : ∀ ch ∈ (nodeAt t.nodes st.current).children.data, ∀ c,
      Eligible es (segments req) want c → path ch <+: c.pattern →
      selectChild t.nodes st.current value = some ch ∧
        (isParamSegment (nodeAt t.nodes ch).segment = true ∨ (nodeAt t.nodes ch).segment = value) := by
    intro ch hch c hc hp
    obtain ⟨r, hr, hseg⟩ := child_segment T I.lt hch hp hc.isMatch
    rw [hget, Option.some.injEq] at hr
    subst hr
    exact ⟨selectChild_unique T hnb I.lt hch hv hseg, hseg⟩
  cases hsel : selectChild t.nodes st.current value with
  | none =>
    simp only [reduceCtorEq, false_implies, implies_true, true_and, Sum.inr.injEq]
    rintro _ rfl
    refine hleave fun ch hch c hc hp => ?_
    rw [hsel] at hdown
    cases (hdown ch hch c hc hp).1
  | some child =>
    have hmem := selectChild_mem T I.lt hsel
    rw [hsel] at hdown
    have hinv : ∀ st' : StreamState, st'.current = child → st'.rest = rest →
        st'.winner = (noteTerminal (pickTerminal (nodeAt t.nodes st.current) want) st).winner →
        (isParamSegment (nodeAt t.nodes child).segment = true ∨
          (nodeAt t.nodes child).segment = value) →
        StreamInv t path es req want st' ∧ st'.rest.length < st.rest.length := by
      intro st' hcur hrest hwin hseg
      have hlab := T.shape.label I.lt hmem
      refine ⟨⟨?_, ?_, ?_, ?_, ?_⟩, by rw [hrest]; exact hshort⟩
      · rw [hcur]
        exact T.shape.tree.child_live I.lt hmem
      · exact ⟨pre ++ [value], by simp [hrest, hpre, hval], by simp [hcur, hlab, hlen]⟩
      · rw [hcur, hlab]
        exact segmentsMatch_concat I.isMatch hget hseg
      · rw [hwin, hcur, hlab]
        simpa using hbest
      · intro c hc hle
        rw [hcur, hlab, List.length_append, List.length_singleton] at hle
        obtain ⟨ch, hch, hp⟩ := I.child T hc (by omega)
        obtain ⟨hch', -⟩ := hdown ch hch c hc hp
        cases hch'
        rw [hcur]
        exact hp
    by_cases hparam : isParamSegment (nodeAt t.nodes child).segment = true
    · simp only [if_pos hparam, Sum.inl.injEq, reduceCtorEq, false_implies, implies_true, and_true]
      rintro _ rfl
      exact hinv _ rfl rfl rfl (.inl hparam)
    · by_cases hname : (nodeAt t.nodes child).segment = value
      · simp only [if_neg hparam, if_pos hname, Sum.inl.injEq, reduceCtorEq, false_implies,
          implies_true, and_true]
        rintro _ rfl
        exact hinv _ rfl rfl rfl (.inr hname)
      · simp only [if_neg hparam, if_neg hname, reduceCtorEq, false_implies, implies_true, true_and,
          Sum.inr.injEq]
        rintro _ rfl
        refine hleave fun ch hch c hc hp => ?_
        obtain ⟨hch', hseg⟩ := hdown ch hch c hc hp
        cases hch'
        exact hseg.elim hparam hname

lemma matchStreaming_decides (T : TrieInv t path es) (hes : ValidRoutes es)
    (hnb : t.needsBacktracking = false) (cap : Nat) :
    Decides es (segments req) want (t.matchStreaming req want cap).1 := by
  have hstart : StreamInv t path es req want
      { current := 0, winner := kInvalidRoute, rest := req, captured := [], winnerCaptures := 0 } :=
    { lt := T.shape.tree.root_live
      consumed := ⟨[], rfl, by simp [T.shape.tree.root_path]⟩
      isMatch := by simp [T.shape.tree.root_path]
      winner := .inl ⟨rfl, by simp [T.shape.tree.root_path]⟩
      chain := by simp [T.shape.tree.root_path] }
  obtain ⟨r, hr, hd⟩ : ∃ r, loop (streamStep t.nodes want (min cap kMaxRouteParams)) (req.length + 1) _ =
      some r ∧ Decides es (segments req) want r.winner := loop_total
    (fun st => StreamInv t path es req want st) (fun st => Decides es (segments req) want st.winner)
    (fun st => st.rest.length) (fun I h => (streamStep_spec T hes hnb I).1 _ h)
    (fun I h => (streamStep_spec T hes hnb I).2 _ h) hstart (Nat.lt_succ_self _)
  simp only [RouteTrie.matchStreaming, hr]
  exact hd

end stream

end Rut.Route
