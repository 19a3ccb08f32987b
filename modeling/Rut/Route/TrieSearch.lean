import Rut.Route.TrieMatch

/-!
# The depth-first search of the segment trie

Every candidate is pending on the stack or has at most the rank of the best terminal. A turn of the
search keeps this, and the weights of the frames on the stack bound the number of turns.
-/

set_option linter.all false
namespace Rut.Route

open Lib

/-! ## The best terminal -/

def RouteCandidate.record (c : RouteCandidate) : Candidate where
  routeIdx := c.routeIdx
  depth := c.pattern.length
  staticSegments := (literalMask c.pattern).count true
  staticMask := staticMaskOf (literalMask c.pattern)
  methodSpecific := decide (c.slot ≠ anySlot)

/-- A frame describes its node: depth, literals and mask are those of its path. -/
structure Frame.Describes (f : Frame) (p : List Str) : Prop where
  depth : f.depth = p.length
  static : f.staticSegments = (literalMask p).count true
  mask : f.staticMask = staticMaskOf (literalMask p)

/-- The comparison of `consider` is comparison of ranks. -/
lemma improves_record_iff {w c : RouteCandidate} {f} (hf : f.Describes c.pattern)
    (hw : w.routeIdx ≠ kInvalidRoute) (h64 : w.pattern.length ≤ 64) :
    improves w.record ⟨c.routeIdx, decide (c.slot ≠ anySlot)⟩ f = true ↔ w.rank < c.rank := by
  have hlt : ∀ {a b : Bool}, a < b ↔ b = true ∧ a = false := by decide
  simp only [improves, RouteCandidate.record, hf.depth, hf.static, hf.mask, hw, RouteCandidate.rank,
    Prod.Lex.toLex_lt_toLex, hlt, Bool.or_eq_true, Bool.and_eq_true, decide_eq_true_eq,
    Bool.not_eq_true', false_or, or_assoc, and_assoc, eq_comm (a := c.pattern.length)]
  by_cases h1 : w.pattern.length = c.pattern.length
  · by_cases h2 : (literalMask w.pattern).count true = (literalMask c.pattern).count true
    · have hl : (literalMask w.pattern).length = (literalMask c.pattern).length := by simpa using h1
      have h64' : (literalMask w.pattern).length ≤ 64 := by simpa using h64
      have hlt := staticMaskOf_lt_iff hl h64' h2
      have heq := staticMaskOf_eq_iff hl h64' h2
      simp [h1, h2, hlt, heq, eq_comm (a := staticMaskOf (literalMask c.pattern))]
    · simp [h1, h2, eq_comm (a := (literalMask c.pattern).count true)]
  · simp [h1]

/-- The best terminal belongs to an eligible candidate that is maximal among those with its pattern. -/
def BestOk (es : List Insertion) (segs : List Str) (want : Slot) (best : Candidate) :
    Option RouteCandidate → Prop
  | none => best.routeIdx = kInvalidRoute
  | some w => best = w.record ∧ w.routeIdx ≠ kInvalidRoute ∧ Eligible es segs want w ∧
      ∀ c, Eligible es segs want c → c.pattern = w.pattern → c.rank ≤ w.rank

def Dominates (b : Option RouteCandidate) (c : RouteCandidate) : Prop := ∃ w ∈ b, c.rank ≤ w.rank

section search

variable {t : RouteTrie} {path : Nat → List Str} {es : List Insertion} {segs : List Str} {want : Slot}

/-- `consider` takes the terminal of the node into account and forgets nothing better. -/
lemma consider_spec (T : TrieInv t path es) (hes : ValidRoutes es) {f} (cap : Nat)
    {st b} (hlt : f.node < t.nodes.length) (hf : f.Describes (path f.node))
    (hm : segmentsMatch (path f.node) segs = true) (h64 : segs.length ≤ 64) (hb : BestOk es segs want st.best b) :
    ∃ b', BestOk es segs want (consider (pickTerminal (nodeAt t.nodes f.node) want) f cap st).best b' ∧
      (∀ c, Dominates b c → Dominates b' c) ∧
      ∀ c, Eligible es segs want c → c.pattern = path f.node → Dominates b' c := by
  rcases pickTerminal_spec T hes hlt hm want with ⟨hnone, hno⟩ | ⟨c, hc, hp, hr, ht, hmax⟩
  · rw [consider, if_pos hnone]
    exact ⟨b, hb, fun _ h => h, fun c hc hp => absurd hp (hno c hc)⟩
  have hnew : BestOk es segs want c.record (some c) :=
    ⟨rfl, hr, hc, fun c' hc' hp' => hmax c' hc' (hp'.trans hp)⟩
  have hrec : c.record =
      { routeIdx := c.routeIdx, depth := f.depth, staticSegments := f.staticSegments,
        staticMask := f.staticMask, methodSpecific := decide (c.slot ≠ anySlot) } := by
    rw [RouteCandidate.record, hp, hf.depth, hf.static, hf.mask]
  have hpat : ∀ c', Eligible es segs want c' → c'.pattern = path f.node → c'.rank ≤ c.rank := hmax
  rw [ht, consider, if_neg hr]
  cases b with
  | none =>
    have himp : improves st.best ⟨c.routeIdx, decide (c.slot ≠ anySlot)⟩ f = true := by
      simp [improves, show st.best.routeIdx = kInvalidRoute from hb]
    rw [if_pos himp]
    refine ⟨some c, hrec ▸ hnew, ?_, fun c' hc' hp' => ⟨c, rfl, hpat c' hc' hp'⟩⟩
    rintro c' ⟨w, hw, -⟩
    cases hw
  | some w =>
    obtain ⟨hbest, hwr, hw, hwmax⟩ := hb
    have hw64 : w.pattern.length ≤ 64 := (segmentsMatch_length hw.isMatch).trans h64
    have himp := improves_record_iff (hp ▸ hf) hwr hw64
    by_cases hlt : w.rank < c.rank
    · rw [hbest, if_pos (himp.mpr hlt)]
      refine ⟨some c, hrec ▸ hnew, ?_, fun c' hc' hp' => ⟨c, rfl, hpat c' hc' hp'⟩⟩
      rintro c' ⟨w', hw', hle⟩
      cases hw'
      exact ⟨c, rfl, hle.trans hlt.le⟩
    · rw [hbest, if_neg (mt himp.mp hlt)]
      refine ⟨some w, ⟨hbest, hwr, hw, hwmax⟩, fun _ h => h, fun c' hc' hp' => ?_⟩
      exact ⟨w, rfl, (hpat c' hc' hp').trans (not_lt.mp hlt)⟩

/-! ## Frames -/

/-- A frame on the stack: its node matches, and the children it visited are counted. -/
structure FrameOk (t : RouteTrie) (path : Nat → List Str) (segs : List Str) (f : Frame) : Prop where
  lt : f.node < t.nodes.length
  isMatch : segmentsMatch (path f.node) segs = true
  describes : f.Describes (path f.node)
  next_le : f.nextChild ≤ (nodeAt t.nodes f.node).children.paramCount + 1
  next_depth : f.nextChild ≠ 0 → f.depth < segs.length

def Frame.remaining (t : RouteTrie) (f : Frame) : List Nat :=
  ((nodeAt t.nodes f.node).children.data.take (nodeAt t.nodes f.node).children.paramCount).drop
    (f.nextChild - 1)

def Frame.Covers (t : RouteTrie) (path : Nat → List Str) (f : Frame) (p : List Str) : Prop :=
  if f.nextChild = 0 then path f.node <+: p else ∃ ch ∈ f.remaining t, path ch <+: p

structure DfsInv (t : RouteTrie) (path : Nat → List Str) (es : List Insertion) (segs : List Str)
    (want : Slot) (st : DfsState) (b : Option RouteCandidate) : Prop where
  frames : ∀ f ∈ st.stack, FrameOk t path segs f
  best : BestOk es segs want st.best b
  pending : ∀ c, Eligible es segs want c →
    (∃ f ∈ st.stack, f.Covers t path c.pattern) ∨ Dominates b c

/-- Turns that a frame may still take, with those of the frames it may push. -/
def Frame.weight (f : Frame) : Nat :=
  (kMaxChildren + 2 - f.nextChild) * (kMaxChildren + 4) ^ (kMaxPathSegments - f.depth)

def DfsState.weight (st : DfsState) : Nat := (st.stack.map Frame.weight).sum

lemma weight_push {f g : Frame} (f' : Frame) (hd : f.depth < kMaxPathSegments) (hn : f.nextChild < kMaxChildren + 2)
    (hf' : f'.depth = f.depth) (hn' : f.nextChild < f'.nextChild) (hg : g.depth = f.depth + 1)
    (hg0 : g.nextChild = 0) : g.weight + f'.weight < f.weight := by
  obtain ⟨k, hk⟩ : ∃ k, kMaxPathSegments - f.depth = k + 1 := ⟨kMaxPathSegments - f.depth - 1, by omega⟩
  have hk' : kMaxPathSegments - g.depth = k := by omega
  have hpos : 0 < (kMaxChildren + 4) ^ k := Nat.pow_pos (by omega)
  rw [Frame.weight, Frame.weight, Frame.weight, hf', hk, hk', hg0, Nat.pow_succ]
  obtain ⟨m, hm⟩ : ∃ m, kMaxChildren + 2 - f.nextChild = m + 1 := ⟨kMaxChildren + 1 - f.nextChild, by omega⟩
  have hle : kMaxChildren + 2 - f'.nextChild ≤ m := by omega
  rw [hm, Nat.succ_mul]
  have h1 := Nat.mul_le_mul_right ((kMaxChildren + 4) ^ k * (kMaxChildren + 4)) hle
  have h2 : (kMaxChildren + 2 - 0) * (kMaxChildren + 4) ^ k <
      (kMaxChildren + 4) ^ k * (kMaxChildren + 4) := by
    rw [Nat.mul_comm]
    exact Nat.mul_lt_mul_of_pos_left (by omega) hpos
  omega

lemma weight_pos {f : Frame} (hn : f.nextChild < kMaxChildren + 2) : 0 < f.weight :=
  Nat.mul_pos (by omega) (Nat.pow_pos (by omega))

lemma nextParam_none {nodes eligible l n} (h : nextParam nodes eligible l n = none) :
    ∀ ch ∈ l, (nodeAt nodes ch).children.methodMask &&& eligible = 0 := by
  induction l generalizing n with
  | nil => simp
  | cons ch l ih =>
    rw [nextParam] at h
    split_ifs at h with hm
    simpa [hm] using ih h

lemma nextParam_some {nodes eligible l n child next} (h : nextParam nodes eligible l n = some (child, next)) :
    ∃ skipped rest, l = skipped ++ child :: rest ∧ next = n + skipped.length + 1 ∧
      ∀ ch ∈ skipped, (nodeAt nodes ch).children.methodMask &&& eligible = 0 := by
  induction l generalizing n with
  | nil => cases h
  | cons ch l ih =>
    rw [nextParam] at h
    split_ifs at h with hm
    · obtain ⟨skipped, rest, rfl, hn, hs⟩ := ih h
      exact ⟨ch :: skipped, rest, rfl, by simp; omega, by simpa [hm] using hs⟩
    · cases h
      exact ⟨[], l, rfl, by simp, by simp⟩

lemma not_below_of_mask (T : TrieInv t path es) {ch} (hlt : ch < t.nodes.length)
    (hmask : (nodeAt t.nodes ch).children.methodMask &&& (1 ||| 1 <<< want.val) = 0) {c}
    (hc : Eligible es segs want c) : ¬ path ch <+: c.pattern := by
  intro hp
  have hbit := (T.content.mask hlt c.slot).mpr (hc.below hp)
  rw [mask_not_eligible hmask hc.slot] at hbit
  cases hbit

lemma remaining_mem {f : Frame} {ch : Nat} (h : ch ∈ f.remaining t) :
    ch ∈ (nodeAt t.nodes f.node).children.data.take (nodeAt t.nodes f.node).children.paramCount ∧
      ch ∈ (nodeAt t.nodes f.node).children.data :=
  ⟨List.mem_of_mem_drop h, List.mem_of_mem_take (List.mem_of_mem_drop h)⟩

lemma FrameOk.paramChild (T : TrieInv t path es) {f} (hf : FrameOk t path segs f) {ch}
    (hch : ch ∈ f.remaining t) (hd : f.depth < segs.length) : FrameOk t path segs
      { node := ch, depth := f.depth + 1, nextChild := 0, staticSegments := f.staticSegments,
        staticMask := f.staticMask } := by
  obtain ⟨htake, hmem⟩ := remaining_mem hch
  have hlab := T.shape.label hf.lt hmem
  have hparam : isParamSegment (nodeAt t.nodes ch).segment = true := (T.partition hf.lt).params ch htake
  have hlt : (path f.node).length < segs.length := hf.describes.depth ▸ hd
  have hget : segs[(path f.node).length]? = some segs[(path f.node).length] :=
    List.getElem?_eq_getElem hlt
  exact
    { lt := T.shape.tree.child_live hf.lt hmem
      isMatch := by
        rw [hlab]
        exact segmentsMatch_concat hf.isMatch hget (.inl hparam)
      describes :=
        { depth := by simp [hlab, hf.describes.depth]
          static := by simp [hlab, literalMask_concat, hparam, hf.describes.static]
          mask := by simp [hlab, literalMask_concat, hparam, staticMaskOf_concat_false, hf.describes.mask] }
      next_le := Nat.zero_le _
      next_depth := fun h => absurd rfl h }

lemma FrameOk.next_lt (T : TrieInv t path es) {f} (hf : FrameOk t path segs f) : f.nextChild < kMaxChildren + 2 := by
  have h1 := hf.next_le
  have h2 := (T.partition hf.lt).le
  have h3 := T.shape.fanout hf.lt
  omega

lemma visitParams_spec (T : TrieInv t path es) (h64 : segs.length ≤ kMaxPathSegments) {f below st b} (hf : FrameOk t path segs f) (hn : f.nextChild ≠ 0)
    (hbelow : ∀ g ∈ below, FrameOk t path segs g) (hb : BestOk es segs want st.best b)
    (hpend : ∀ c, Eligible es segs want c → f.Covers t path c.pattern ∨
      (∃ g ∈ below, g.Covers t path c.pattern) ∨ Dominates b c) :
    ∃ st', visitParams t.nodes (1 ||| 1 <<< want.val) f below st = .inl st' ∧
      DfsInv t path es segs want st' b ∧ st'.weight < f.weight + (below.map Frame.weight).sum := by
  have hcov : ∀ {p}, f.Covers t path p ↔ ∃ ch ∈ f.remaining t, path ch <+: p := by
    intro p
    rw [Frame.Covers, if_neg hn]
  have hlive : ∀ {ch}, ch ∈ f.remaining t → ch < t.nodes.length :=
    fun hch => T.shape.tree.child_live hf.lt (remaining_mem hch).2
  rw [visitParams]
  cases hnext : nextParam t.nodes (1 ||| 1 <<< want.val) (f.remaining t) f.nextChild with
  | none =>
    simp only [Frame.remaining] at hnext
    simp only [hnext]
    refine ⟨_, rfl, ⟨hbelow, hb, fun c hc => ?_⟩, ?_⟩
    · rcases hpend c hc with h | h
      · obtain ⟨ch, hch, hp⟩ := hcov.mp h
        exact absurd hp (not_below_of_mask T (hlive hch) (nextParam_none hnext ch hch) hc)
      · exact h
    · have := weight_pos (hf.next_lt T)
      simp only [DfsState.weight]
      omega
  | some next =>
    obtain ⟨child, next⟩ := next
    obtain ⟨skipped, rest, hrem, hnx, hskip⟩ := nextParam_some hnext
    simp only [Frame.remaining] at hnext
    simp only [hnext]
    have hd := hf.next_depth hn
    have hlen : (f.remaining t).length + (f.nextChild - 1) =
        (nodeAt t.nodes f.node).children.paramCount := by
      have h1 := (T.partition hf.lt).le
      have h2 := hf.next_le
      simp [Frame.remaining]
      omega
    have hrem' : Frame.remaining t { f with nextChild := next } = rest := by
      have hidx : next - 1 = (f.nextChild - 1) + (skipped.length + 1) := by omega
      have : Frame.remaining t { f with nextChild := next } =
          (f.remaining t).drop (skipped.length + 1) := by
        rw [Frame.remaining, Frame.remaining, List.drop_drop, hidx]
      rw [this, hrem]
      simp
    refine ⟨_, rfl, ⟨?_, hb, ?_⟩, ?_⟩
    · intro g hg
      simp only [List.mem_cons] at hg
      rcases hg with rfl | rfl | hg
      · exact hf.paramChild T (by simp [hrem]) hd
      · refine ⟨hf.lt, hf.isMatch, ⟨hf.describes.depth, hf.describes.static, hf.describes.mask⟩, ?_,
          fun _ => hd⟩
        rw [hrem] at hlen
        simp at hlen ⊢
        omega
      · exact hbelow g hg
    · intro c hc
      rcases hpend c hc with h | ⟨g, hg, h⟩ | h
      · obtain ⟨ch, hch, hp⟩ := hcov.mp h
        have hch' := hch
        rw [hrem] at hch'
        rcases List.mem_append.mp hch' with hs | hs
        · exact absurd hp (not_below_of_mask T (hlive hch) (hskip ch hs) hc)
        · left
          rcases List.mem_cons.mp hs with rfl | hs
          · exact ⟨_, List.mem_cons_self .., by rw [Frame.Covers, if_pos rfl]; exact hp⟩
          · refine ⟨{ f with nextChild := next }, by simp, ?_⟩
            rw [Frame.Covers, if_neg (by simp; omega), hrem']
            exact ⟨ch, hs, hp⟩
      · exact .inl ⟨g, by simp [hg], h⟩
      · exact .inr h
    · have := weight_push (f := f) { f with nextChild := next }
        (g :=
          { node := child, depth := f.depth + 1, nextChild := 0, staticSegments := f.staticSegments,
            staticMask := f.staticMask })
        (by omega) (hf.next_lt T) rfl (by simp; omega) rfl rfl
      simp only [DfsState.weight, List.map_cons, List.sum_cons]
      omega

/-! ## One turn -/

lemma decides_of_dominated {best b} (hb : BestOk es segs want best b)
    (hall : ∀ c, Eligible es segs want c → Dominates b c) : Decides es segs want best.routeIdx := by
  cases b with
  | none =>
    refine .inl ⟨hb, fun c hc => ?_⟩
    obtain ⟨w, hw, -⟩ := hall c hc
    cases hw
  | some w =>
    obtain ⟨hbest, -, hw, -⟩ := hb
    refine .inr ⟨w, hw, fun c hc => ?_, by rw [hbest, RouteCandidate.record]⟩
    obtain ⟨w', hw', hle⟩ := hall c hc
    cases hw'
    exact hle

lemma count_literalMask_le (p : List Str) : (literalMask p).count true ≤ p.length := by
  simpa using List.count_le_length (a := true) (l := literalMask p)

lemma literals_of_count {p} (h : (literalMask p).count true = p.length) : ∀ seg ∈ p, isParamSegment seg = false := by
  have hall := List.count_eq_length.mp (h.trans (length_literalMask p).symm)
  intro seg hseg
  simpa using hall _ (List.mem_map_of_mem hseg)

lemma full_literal_maximal {w c} (hw : Eligible es segs want w)
    (hc : Eligible es segs want c) (hlen : w.pattern.length = segs.length)
    (hlit : (literalMask w.pattern).count true = w.pattern.length)
    (hmax : c.pattern = w.pattern → c.rank ≤ w.rank) : c.rank ≤ w.rank := by
  have hle := segmentsMatch_length hc.isMatch
  have hcount := count_literalMask_le c.pattern
  by_cases h1 : c.pattern.length < w.pattern.length
  · exact rank_le_of_length_lt h1
  by_cases h2 : (literalMask c.pattern).count true < c.pattern.length
  · rw [RouteCandidate.rank, RouteCandidate.rank, Prod.Lex.toLex_le_toLex]
    refine .inr ⟨by simp only; omega, ?_⟩
    rw [Prod.Lex.toLex_le_toLex]
    exact .inl (by simp only; omega)
  · have hceq := segmentsMatch_literals hc.isMatch (by omega) (literals_of_count (by omega))
    have hweq := segmentsMatch_literals hw.isMatch hlen (literals_of_count hlit)
    exact hmax (hceq.trans hweq.symm)

lemma FrameOk.literalChild (T : TrieInv t path es) {f} (hf : FrameOk t path segs f) {ch seg} (hget : segs[(path f.node).length]? = some seg)
    (h : findChild t.nodes f.node seg (nodeAt t.nodes f.node).children.paramCount = some ch) : FrameOk t path segs
      { node := ch, depth := f.depth + 1, nextChild := 0, staticSegments := f.staticSegments + 1,
        staticMask := f.staticMask ||| staticBit (f.depth + 1) } := by
  obtain ⟨hdrop, -⟩ := findChild_some h
  obtain ⟨hmem, hpath⟩ := findChild_path T.shape hf.lt h
  obtain ⟨-, hseg⟩ := findChild_some h
  have hlit : isParamSegment seg = false := hseg ▸ (T.partition hf.lt).literals ch hdrop
  exact
    { lt := T.shape.tree.child_live hf.lt hmem
      isMatch := by
        rw [hpath]
        exact segmentsMatch_concat hf.isMatch hget (.inr rfl)
      describes :=
        { depth := by simp [hpath, hf.describes.depth]
          static := by simp [hpath, literalMask_concat, hlit, hf.describes.static]
          mask := by
            simp [hpath, literalMask_concat, hlit, staticMaskOf_concat_true, hf.describes.mask,
              hf.describes.depth] }
      next_le := Nat.zero_le _
      next_depth := fun h => absurd rfl h }

lemma FrameOk.below (T : TrieInv t path es) {f} (hf : FrameOk t path segs f) {c seg}
    (hc : Eligible es segs want c) (hpre : path f.node <+: c.pattern) (hne : c.pattern ≠ path f.node)
    (hget : segs[(path f.node).length]? = some seg) (hseg : seg ≠ []) :
    (∃ ch ∈ Frame.remaining t { f with nextChild := 1 }, path ch <+: c.pattern) ∨
    ∃ ch, findChild t.nodes f.node seg (nodeAt t.nodes f.node).children.paramCount = some ch ∧
      path ch <+: c.pattern := by
  obtain ⟨j, hj, hpj⟩ := hc.node T
  rcases T.shape.tree.way_down hf.lt hj (hpj ▸ hpre) with rfl | ⟨ch, hch, hp⟩
  · exact absurd hpj.symm hne
  rw [hpj] at hp
  obtain ⟨r, hr, hor⟩ := child_segment T hf.lt hch hp hc.isMatch
  rw [hget, Option.some.injEq] at hr
  subst hr
  rw [← List.take_append_drop (nodeAt t.nodes f.node).children.paramCount
    (nodeAt t.nodes f.node).children.data] at hch
  rcases List.mem_append.mp hch with hch | hch
  · exact .inl ⟨ch, by simpa [Frame.remaining] using hch, hp⟩
  · right
    have hlit := (T.partition hf.lt).literals ch hch
    have hor := hor.resolve_left (by simpa [isParamNode] using hlit)
    cases hf' : findChild t.nodes f.node seg (nodeAt t.nodes f.node).children.paramCount with
    | none => exact absurd hor (findChild_none hseg hf' ch hch)
    | some ch' =>
      obtain ⟨-, hpath⟩ := findChild_path T.shape hf.lt hf'
      refine ⟨ch', rfl, ?_⟩
      rwa [hpath, ← hor, ← T.shape.label hf.lt (List.mem_of_mem_drop hch)]

lemma dfsStep_spec (T : TrieInv t path es) (hes : ValidRoutes es)
    (h64 : segs.length ≤ kMaxPathSegments) (hne : ∀ seg ∈ segs, seg ≠ []) (cap : Nat) {st b} (I : DfsInv t path es segs want st b) :
    (∀ st', dfsStep t.nodes segs want (1 ||| 1 <<< want.val) cap st = .inl st' →
      (∃ b', DfsInv t path es segs want st' b') ∧ st'.weight < st.weight) ∧
    ∀ st', dfsStep t.nodes segs want (1 ||| 1 <<< want.val) cap st = .inr st' →
      Decides es segs want st'.best.routeIdx := by
  have hvisit : ∀ {f : Frame} {below : List Frame} {st1 : DfsState} {b1}, FrameOk t path segs f →
      f.nextChild ≠ 0 → (∀ g ∈ below, FrameOk t path segs g) → BestOk es segs want st1.best b1 →
      (∀ c, Eligible es segs want c → f.Covers t path c.pattern ∨
        (∃ g ∈ below, g.Covers t path c.pattern) ∨ Dominates b1 c) →
      f.weight + (below.map Frame.weight).sum ≤ st.weight →
      (∀ st', visitParams t.nodes (1 ||| 1 <<< want.val) f below st1 = .inl st' →
        (∃ b', DfsInv t path es segs want st' b') ∧ st'.weight < st.weight) ∧
      ∀ st', visitParams t.nodes (1 ||| 1 <<< want.val) f below st1 = .inr st' →
        Decides es segs want st'.best.routeIdx := by
    intro f below st1 b1 hf hn hbelow hb hpend hw
    obtain ⟨st2, heq, I2, hlt⟩ := visitParams_spec T h64 hf hn hbelow hb hpend
    rw [heq]
    refine ⟨?_, fun st' h => by cases h⟩
    intro st' h
    cases h
    exact ⟨⟨b1, I2⟩, by omega⟩
  rw [dfsStep]
  cases hstack : st.stack with
  | nil =>
    simp only [reduceCtorEq, false_implies, implies_true, true_and, Sum.inr.injEq]
    rintro _ rfl
    refine decides_of_dominated I.best fun c hc => ?_
    rcases I.pending c hc with ⟨f, hf, -⟩ | h
    · simp [hstack] at hf
    · exact h
  | cons f below =>
    have hf := I.frames f (by simp [hstack])
    have hbelow : ∀ g ∈ below, FrameOk t path segs g := fun g hg => I.frames g (by simp [hstack, hg])
    have hweight : st.weight = f.weight + (below.map Frame.weight).sum := by
      simp [DfsState.weight, hstack]
    have hpend : ∀ c, Eligible es segs want c → f.Covers t path c.pattern ∨
        (∃ g ∈ below, g.Covers t path c.pattern) ∨ Dominates b c := by
      intro c hc
      rcases I.pending c hc with ⟨g, hg, hcov⟩ | h
      · rw [hstack, List.mem_cons] at hg
        rcases hg with rfl | hg
        · exact .inl hcov
        · exact .inr (.inl ⟨g, hg, hcov⟩)
      · exact .inr (.inr h)
    by_cases hn : f.nextChild = 0
    swap
    · simp only [if_neg hn]
      exact hvisit hf hn hbelow I.best hpend hweight.ge
    simp only [if_pos hn]
    obtain ⟨b1, hb1, hkeep, hhere⟩ :=
      consider_spec T hes cap hf.lt hf.describes hf.isMatch h64 I.best
    generalize consider (pickTerminal (nodeAt t.nodes f.node) want) f cap st = st1 at hb1 ⊢
    have hpend1 : ∀ c, Eligible es segs want c →
        (path f.node <+: c.pattern ∧ c.pattern ≠ path f.node) ∨
        (∃ g ∈ below, g.Covers t path c.pattern) ∨ Dominates b1 c := by
      intro c hc
      rcases hpend c hc with h | h | h
      · rw [Frame.Covers, if_pos hn] at h
        by_cases heq : c.pattern = path f.node
        · exact .inr (.inr (hhere c hc heq))
        · exact .inl ⟨h, heq⟩
      · exact .inr (.inl h)
      · exact .inr (.inr (hkeep c h))
    by_cases hexit : st1.best.routeIdx ≠ kInvalidRoute ∧ st1.best.depth = segs.length ∧
        st1.best.staticSegments = st1.best.depth
    · simp only [if_pos hexit, reduceCtorEq, false_implies, implies_true, true_and, Sum.inr.injEq]
      rintro _ rfl
      refine decides_of_dominated hb1 fun c hc => ?_
      cases b1 with
      | none => exact absurd hb1 hexit.1
      | some w =>
        obtain ⟨hbest, -, hw, hwmax⟩ := hb1
        rw [hbest] at hexit
        exact ⟨w, rfl, full_literal_maximal hw hc hexit.2.1 (hexit.2.2.trans rfl) (hwmax c hc)⟩
    simp only [if_neg hexit]
    by_cases hdeep : segs.length ≤ f.depth
    · simp only [if_pos hdeep, Sum.inl.injEq, reduceCtorEq, false_implies, implies_true, and_true]
      rintro _ rfl
      refine ⟨⟨b1, hbelow, hb1, fun c hc => ?_⟩, ?_⟩
      · rcases hpend1 c hc with ⟨hpre, hneq⟩ | h
        · have h1 := segmentsMatch_length hc.isMatch
          have h2 := hf.describes.depth
          exact absurd (hpre.eq_of_length_le (by omega)).symm hneq
        · exact h
      · have := weight_pos (hf.next_lt T)
        rw [hweight]
        simp only [DfsState.weight]
        omega
    simp only [if_neg hdeep]
    have hlt : (path f.node).length < segs.length := by
      rw [← hf.describes.depth]
      omega
    have hget : segs[(path f.node).length]? = some (segs.getD f.depth []) := by
      rw [hf.describes.depth, List.getD_eq_getElem?_getD, List.getElem?_eq_getElem hlt]
      rfl
    have hseg : segs.getD f.depth [] ≠ [] := hne _ (List.mem_of_getElem? hget)
    have hf1 : FrameOk t path segs { f with nextChild := 1 } :=
      ⟨hf.lt, hf.isMatch, ⟨hf.describes.depth, hf.describes.static, hf.describes.mask⟩,
        by simp, fun _ => by simpa using hdeep⟩
    generalize segs.getD f.depth [] = seg at hget hseg ⊢
    cases hlit : findChild t.nodes f.node seg (nodeAt t.nodes f.node).children.paramCount with
    | some literal =>
      simp only [Sum.inl.injEq, reduceCtorEq, false_implies, implies_true, and_true]
      rintro _ rfl
      refine ⟨⟨b1, ?_, hb1, fun c hc => ?_⟩, ?_⟩
      · intro g hg
        simp only [List.mem_cons] at hg
        rcases hg with rfl | rfl | hg
        · exact hf.literalChild T hget hlit
        · exact hf1
        · exact hbelow g hg
      · rcases hpend1 c hc with ⟨hpre, hneq⟩ | ⟨g, hg, h⟩ | h
        · left
          rcases hf.below T hc hpre hneq hget hseg with h | ⟨ch, hch, h⟩
          · exact ⟨{ f with nextChild := 1 }, by simp, by rw [Frame.Covers, if_neg (by simp)]; exact h⟩
          · rw [hlit] at hch
            cases hch
            exact ⟨_, List.mem_cons_self .., by rw [Frame.Covers, if_pos rfl]; exact h⟩
        · exact .inl ⟨g, by simp [hg], h⟩
        · exact .inr h
      · have := weight_push (f := f) { f with nextChild := 1 }
          (g :=
            { node := literal, depth := f.depth + 1, nextChild := 0,
              staticSegments := f.staticSegments + 1,
              staticMask := f.staticMask ||| staticBit (f.depth + 1) })
          (by omega) (hf.next_lt T) rfl (by simp [hn]) rfl rfl
        rw [hweight]
        simp only [DfsState.weight, List.map_cons, List.sum_cons]
        omega
    | none =>
      refine hvisit hf1 (by simp) hbelow hb1 (fun c hc => ?_) ?_
      · rcases hpend1 c hc with ⟨hpre, hneq⟩ | h
        · rcases hf.below T hc hpre hneq hget hseg with h | ⟨ch, hch, -⟩
          · left
            exact h
          · rw [hlit] at hch
            cases hch
        · exact .inr h
      · rw [hweight]
        refine Nat.add_le_add_right ?_ _
        exact Nat.mul_le_mul_right _ (by simp [hn])

lemma matchDfs_decides_take (T : TrieInv t path es) (hes : ValidRoutes es) (req : Str) (want : Slot) (cap : Nat) :
    Decides es ((segments req).take kMaxPathSegments) want (t.matchDfs req want cap).1 := by
  have h64 : ((segments req).take kMaxPathSegments).length ≤ kMaxPathSegments := by simp
  have hne : ∀ seg ∈ (segments req).take kMaxPathSegments, seg ≠ [] :=
    fun seg hs => segments_ne_nil (List.mem_of_mem_take hs)
  have hstart : DfsInv t path es ((segments req).take kMaxPathSegments) want
      { stack := [{}], best := {}, bestPath := [] } none :=
    { frames := by
        intro f hf
        rw [List.mem_singleton.mp hf]
        exact ⟨T.shape.tree.root_live, by simp [T.shape.tree.root_path],
          ⟨by simp [T.shape.tree.root_path], by simp [T.shape.tree.root_path, literalMask],
            by simp [T.shape.tree.root_path, literalMask, staticMaskOf, binary]⟩,
          Nat.zero_le _, fun h => absurd rfl h⟩
      best := rfl
      pending := by
        intro c _
        refine .inl ⟨{}, by simp, ?_⟩
        rw [Frame.Covers, if_pos rfl, T.shape.tree.root_path]
        exact List.nil_prefix }
  have hfuel : DfsState.weight { stack := [{}], best := {}, bestPath := [] } < dfsFuel := by
    simp [DfsState.weight, Frame.weight, dfsFuel]
  obtain ⟨r, hr, hd⟩ := loop_total
    (fun st => ∃ b, DfsInv t path es ((segments req).take kMaxPathSegments) want st b)
    (fun st : DfsState => Decides es ((segments req).take kMaxPathSegments) want st.best.routeIdx)
    DfsState.weight
    (by rintro _ _ ⟨_, I⟩ h; exact (dfsStep_spec T hes h64 hne cap I).1 _ h)
    (by rintro _ _ ⟨_, I⟩ h; exact (dfsStep_spec T hes h64 hne cap I).2 _ h) ⟨none, hstart⟩ hfuel
  unfold RouteTrie.matchDfs
  simp only [tokenizeSegments_eq, hr]
  exact hd

lemma eligible_take (T : TrieInv t path es) {rs c} :
    Eligible es (rs.take kMaxPathSegments) want c ↔ Eligible es rs want c := by
  have hlen : ∀ {r}, firstRoute segments es c.pattern c.slot = some r →
      segmentsMatch c.pattern (rs.take kMaxPathSegments) = segmentsMatch c.pattern rs := by
    intro r hr
    obtain ⟨e, he, hseg, -, -⟩ := firstRoute_some hr
    exact segmentsMatch_take (hseg ▸ T.short e he)
  constructor
  · rintro ⟨h1, h2, h3⟩
    exact ⟨h1, hlen h1 ▸ h2, h3⟩
  · rintro ⟨h1, h2, h3⟩
    exact ⟨h1, (hlen h1).symm ▸ h2, h3⟩

lemma matchDfs_decides (T : TrieInv t path es) (hes : ValidRoutes es) (req : Str) (cap : Nat) :
    Decides es (segments req) want (t.matchDfs req want cap).1 := by
  simpa only [Decides, eligible_take T] using matchDfs_decides_take T hes req want cap

/-! ## The decision -/

lemma matching_unique (T : TrieInv t path es) (hnb : t.needsBacktracking = false) {rs : List Str}
    (hne : ∀ seg ∈ rs, seg ≠ []) {i j} (hi : i < t.nodes.length) (hj : j < t.nodes.length)
    (hmi : segmentsMatch (path i) rs = true) (hmj : segmentsMatch (path j) rs = true)
    (hlen : (path i).length = (path j).length) : path i = path j := by
  -- the common ancestors of the two nodes, by depth
  have hcommon : ∀ d ≤ (path i).length, ∃ k < t.nodes.length, (path k).length = d ∧
      path k <+: path i ∧ path k <+: path j := by
    intro d
    induction d with
    | zero =>
      intro _
      exact ⟨0, T.shape.tree.root_live, by simp [T.shape.tree.root_path],
        by simp [T.shape.tree.root_path], by simp [T.shape.tree.root_path]⟩
    | succ d ih =>
      intro hd
      obtain ⟨k, hk, hkd, hki, hkj⟩ := ih (by omega)
      rcases T.shape.tree.way_down hk hi hki with rfl | ⟨a, ha, hai⟩
      · omega
      rcases T.shape.tree.way_down hk hj hkj with rfl | ⟨b, hb, hbj⟩
      · omega
      obtain ⟨r, hr, hsa⟩ := child_segment T hk ha hai hmi
      obtain ⟨r', hr', hsb⟩ := child_segment T hk hb hbj hmj
      rw [hr, Option.some.injEq] at hr'
      subst hr'
      have hv := hne r (List.mem_of_getElem? hr)
      have hsel := selectChild_unique T hnb hk ha hv hsa
      rw [selectChild_unique T hnb hk hb hv hsb, Option.some.injEq] at hsel
      subst hsel
      exact ⟨b, T.shape.tree.child_live hk hb, by simp [T.shape.label hk hb, hkd], hai, hbj⟩
  obtain ⟨k, -, hkd, hki, hkj⟩ := hcommon _ (Nat.le_refl _)
  exact (hki.eq_of_length hkd).symm.trans (hkj.eq_of_length (hkd.trans hlen))

lemma decides_unique (T : TrieInv t path es) (hnb : t.needsBacktracking = false) {rs : List Str}
    (hne : ∀ seg ∈ rs, seg ≠ []) {r r'} (h : Decides es rs want r) (h' : Decides es rs want r') : r = r' := by
  rcases h with ⟨rfl, hno⟩ | ⟨c, hc, hmax, rfl⟩ <;> rcases h' with ⟨rfl, hno'⟩ | ⟨c', hc', hmax', rfl⟩
  · rfl
  · exact absurd hc' (hno c')
  · exact absurd hc (hno' c)
  · have hrank := le_antisymm (hmax' c hc) (hmax c' hc')
    simp only [RouteCandidate.rank, EmbeddingLike.apply_eq_iff_eq, Prod.mk.injEq, decide_eq_decide]
      at hrank
    obtain ⟨hlen, -, -, hspec⟩ := hrank
    obtain ⟨i, hi, hpi⟩ := hc.node T
    obtain ⟨j, hj, hpj⟩ := hc'.node T
    have hpat := matching_unique T hnb hne hi hj (hpi ▸ hc.isMatch) (hpj ▸ hc'.isMatch)
      (by rw [hpi, hpj, hlen])
    rw [hpi, hpj] at hpat
    have hslot : c.slot = c'.slot := by
      by_cases hany : c.slot = anySlot
      · rw [hany, not_not.mp (hspec.not.mp (not_not_intro hany))]
      · rw [hc.slot.resolve_right hany, hc'.slot.resolve_right (hspec.mp hany)]
    have hreg := hc.registered
    rw [hpat, hslot, hc'.registered, Option.some.injEq] at hreg
    exact hreg.symm

end search

def IsCandidate (es : List Insertion) (req : Str) (methodKey : UInt8) (c : RouteCandidate) : Prop :=
  ∃ want, methodKeySlot methodKey = some want ∧ Eligible es (segments req) want c

/-- `match_key` decides for every method key. -/
lemma matchKeyParams_decides {t path es} (T : TrieInv t path es) (hes : ValidRoutes es)
    (req : Str) {methodKey want} (hkey : methodKeySlot methodKey = some want)
    (cap : Nat) : Decides es (segments req) want (t.matchKeyParams req methodKey cap).1 := by
  simp only [RouteTrie.matchKeyParams, hkey]
  by_cases hmask : t.methodMask &&& (1 ||| 1 <<< want.val) = 0
  · rw [if_pos hmask]
    refine .inl ⟨rfl, fun c hc => ?_⟩
    have hbit := (T.methodMask c.slot).mpr (hc.below List.nil_prefix)
    rw [mask_not_eligible hmask hc.slot] at hbit
    cases hbit
  · rw [if_neg hmask]
    split_ifs with hnb
    · exact matchStreaming_decides T hes hnb cap
    · exact matchDfs_decides T hes req cap

/-- After any successful insertions `match_key` returns the route of a maximal candidate, and
`kInvalidRoute` exactly if there is no candidate; where the streaming path is taken, the depth-first
search would return the same route. -/
theorem matchKey_maximal {es : List Insertion} {t : RouteTrie} (hes : ValidRoutes es)
    (h : RouteTrie.clear.insertAll es = some t) :
    (∀ req methodKey cap,
      ((t.matchKeyParams req methodKey cap).1 = kInvalidRoute ↔ ¬ ∃ c, IsCandidate es req methodKey c) ∧
      ((∃ c, IsCandidate es req methodKey c) →
        ∃ c, IsCandidate es req methodKey c ∧
          (∀ c', IsCandidate es req methodKey c' → c'.rank ≤ c.rank) ∧
          (t.matchKeyParams req methodKey cap).1 = c.routeIdx)) ∧
    (t.needsBacktracking = false → ∀ req want cap,
      (t.matchStreaming req want cap).1 = (t.matchDfs req want cap).1) := by
  obtain ⟨path, T⟩ := trieInv_clear.insertAll (by simpa using hes) h
  rw [List.nil_append] at T
  refine ⟨fun req methodKey cap => ?_, fun hnb req want cap => ?_⟩
  · cases hkey : methodKeySlot methodKey with
    | none => simp [IsCandidate, hkey, RouteTrie.matchKeyParams]
    | some want =>
      have hiff : ∀ c, IsCandidate es req methodKey c ↔ Eligible es (segments req) want c := by
        simp [IsCandidate, hkey]
      simp only [hiff]
      rcases matchKeyParams_decides T hes req hkey cap with ⟨hr, hno⟩ | ⟨c, hc, hmax, hr⟩
      · simp [hr, hno]
      · refine ⟨?_, fun _ => ⟨c, hc, hmax, hr⟩⟩
        rw [hr]
        exact ⟨fun hinv => absurd hinv (firstRoute_ne_invalid hes hc.registered),
          fun hno => absurd ⟨c, hc⟩ hno⟩
  · exact decides_unique T hnb (fun seg hs => segments_ne_nil hs)
      (matchStreaming_decides T hes hnb cap) (matchDfs_decides T hes req cap)

def competingRoutes : List Insertion :=
  [⟨lit ['/','a','/',':','x'], ch 'G', 7⟩, ⟨lit ['/','a','/','b'], kRouteMethodAny, 8⟩]

theorem competingRoutes_match :
    ∃ t, RouteTrie.clear.insertAll competingRoutes = some t ∧
      ∃ c, IsCandidate competingRoutes (lit ['/','a','/','b','/','c']) kRouteMethodGet c ∧
        (t.matchKeyParams (lit ['/','a','/','b','/','c']) kRouteMethodGet 16).1 = c.routeIdx ∧
        c.routeIdx = 8 := by
  obtain ⟨t, ht⟩ : ∃ t, RouteTrie.clear.insertAll competingRoutes = some t :=
    Option.isSome_iff_exists.mp (by decide)
  have h8 : ((RouteTrie.clear.insertAll competingRoutes).map fun t =>
      (t.matchKeyParams (lit ['/','a','/','b','/','c']) kRouteMethodGet 16).1) = some 8 := by
    decide
  have hcand : ∃ c, IsCandidate competingRoutes (lit ['/','a','/','b','/','c']) kRouteMethodGet c :=
    ⟨⟨[lit ['a'], lit ['b']], anySlot, 8⟩, ⟨1, by decide⟩, by decide, by decide,
      by decide, .inr rfl⟩
  obtain ⟨c, hc, -, hr⟩ := ((matchKey_maximal (by unfold ValidRoutes; decide) ht).1 _ _ 16).2 hcand
  rw [ht, Option.map_some, Option.some.injEq] at h8
  exact ⟨t, ht, c, hc, hr, hr.symm.trans h8⟩

end Rut.Route
