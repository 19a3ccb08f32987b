import Rut.Route.ArtInv

/-!
# Insertion into the adaptive radix trie

Each turn of the descent of `insert` keeps the invariant of the trie and the path read so far. The slot
through which an upgrade is patched belongs to the current node, except after a split: the middle node
then has room for the leaf of the next turn, so the stale slot is not written.
-/

set_option linter.all false
namespace Rut.Route

open Lib

/-! ## Fresh nodes -/

/-- `t` is `t₀` with a node `m` at the reference `r` that `t₀` does not use. -/
structure Grown (t₀ t : ArtTrie) (r : ArtChildRef) (m : ArtNode) : Prop where
  new : t.node r = some m
  fresh : t₀.node r = none
  old : ∀ {i}, t₀.node i ≠ none → t.node i = t₀.node i
  root : t.rootRef = t₀.rootRef
  mode : t.matchMode = t₀.matchMode
  uniform : t.isUniformN4 = true → ∀ {i n}, t.node i = some n → i.type = .n4

section grown

variable {t₀ t t' : ArtTrie} {r r' p : ArtChildRef} {m n n' : ArtNode}

lemma Grown.ne (G : Grown t₀ t r m) {i} (hi : t₀.node i ≠ none) : i ≠ r := by
  rintro rfl
  exact hi G.fresh

lemma Added.uniform_nodes (A : Added t t' p r n n') (hp : t.node p = some n)
    (hu : t.isUniformN4 = true → ∀ {i n}, t.node i = some n → i.type = .n4)
    (hu' : t'.isUniformN4 = true) {i k} (hi : t'.node i = some k) : i.type = .n4 := by
  obtain ⟨h, rfl⟩ := A.uniform hu'
  by_cases hir : i = r
  · rw [hir]
    exact hu h hp
  · rw [A.old hir] at hi
    exact hu h hi

lemma grown_alloc (h : t₀.allocN4 = some (t, r))
    (hu : t₀.isUniformN4 = true → ∀ {i n}, t₀.node i = some n → i.type = .n4) (hdr : ArtNodeHeader) :
    Grown t₀ (t.setHeader r hdr) r ((ArtNode.empty .n4).setHdr hdr) := by
  have A := alloc_spec h
  have htype : ((ArtNode.empty .n4).setHdr hdr).type = r.type := A.type.symm
  rw [setHeader_of_node A.new]
  have hne : ∀ {i}, t₀.node i ≠ none → i ≠ r := by
    rintro i hi rfl
    exact hi A.fresh
  refine ⟨node_store_self A.new htype, A.fresh, ?_, by simp [A.root], by simp [A.mode], ?_⟩
  · intro i hi
    rw [node_store_ne htype (hne hi), A.old (hne hi)]
  · intro hu' i n hi
    by_cases hir : i = r
    · rw [hir]
      exact A.type
    · rw [node_store_ne htype hir, A.old hir] at hi
      exact hu (A.uniform hu').1 hi

lemma Grown.addChild {b c} (G : Grown t₀ t r m)
    (h : t.addChild r b c = some (t', r')) : Grown t₀ t' r' (m.add b c) := by
  have A := addChild_spec G.new h
  have hfresh : t₀.node r' = none := by
    rcases A.place with ⟨rfl, -⟩ | ⟨hnone, -⟩
    · exact G.fresh
    · by_contra hne
      rw [G.old hne] at hnone
      exact hne hnone
  refine ⟨A.new, hfresh, ?_, A.root.trans G.root, A.mode.trans G.mode, A.uniform_nodes G.new G.uniform⟩
  intro i hi
  rw [A.old, G.old hi]
  rintro rfl
  exact hi hfresh

lemma Grown.addChildren {entries} (G : Grown t₀ t r m) (hok : m.Ok)
    (hnodup : (entries.map Prod.fst).Nodup) (hnew : ∀ b ∈ entries.map Prod.fst, m.find b = none)
    (h : t.addChildren r entries = some (t', r')) : ∃ m', Grown t₀ t' r' m' ∧ m'.Ok ∧ m'.hdr = m.hdr ∧
      ∀ x, m'.find x = (findInEntries entries x).or (m.find x) := by
  induction entries generalizing t r m with
  | nil =>
    cases h
    exact ⟨m, G, hok, rfl, fun x => rfl⟩
  | cons e entries ih =>
    obtain ⟨b, c⟩ := e
    rw [ArtTrie.addChildren] at h
    rw [List.map_cons, List.nodup_cons] at hnodup
    have hb : m.find b = none := hnew b (by simp)
    cases hadd : t.addChild r b c with
    | none =>
      rw [hadd] at h
      cases h
    | some res =>
      rw [hadd] at h
      have hnew₁ : ∀ x ∈ entries.map Prod.fst, (m.add b c).find x = none := by
        intro x hx
        rw [ArtNode.find_add hok hb, if_neg, hnew x (List.mem_cons_of_mem _ hx)]
        rintro rfl
        exact hnodup.1 hx
      obtain ⟨m', G', hok', hhdr, hfind⟩ :=
        ih (G.addChild hadd) (ArtNode.ok_add hok hb) hnodup.2 hnew₁ h
      refine ⟨m', G', hok', hhdr.trans ArtNode.hdr_add, fun x => ?_⟩
      rw [hfind, ArtNode.find_add hok hb]
      by_cases hx : x = b
      · subst hx
        rw [findInEntries_none.mpr hnodup.1]
        simp [findInEntries]
      · simp [findInEntries, hx, Ne.symm hx]

end grown

/-! ## The slot of the current node -/

/-- The slot `site` holds the reference to `cur`. -/
def SiteOf (t : ArtTrie) (live : ArtChildRef → Prop) (cur : ArtChildRef) (site : Option PatchSite) : Prop :=
  cur = t.rootRef ∧ site = some .root ∨
    ∃ i b, live i ∧ t.findChild i b = some cur ∧ site = t.childSite i b

/-- The children of the live nodes other than `cur` follow it to `cur'`. -/
structure Relinked (t t' : ArtTrie) (live : ArtChildRef → Prop) (cur cur' : ArtChildRef) : Prop where
  node : ∀ {i}, live i → i ≠ cur → ∃ n n', t.node i = some n ∧ t'.node i = some n' ∧ n'.Ok ∧
    n'.hdr = n.hdr ∧ ∀ x, n'.find x = (n.find x).map (rename cur cur')
  root : t'.rootRef = rename cur cur' t.rootRef

section relink

variable {t t' : ArtTrie} {live : ArtChildRef → Prop} {path : ArtChildRef → Str}
  {cur cur' : ArtChildRef} {n : ArtNode} {site : Option PatchSite}

/-- Lookup in a node without `cur` among its children. -/
lemma find_rename {x} (h : n.find x ≠ some cur) : n.find x = (n.find x).map (rename cur cur') := by
  cases hx : n.find x with
  | none => rfl
  | some c =>
    rw [Option.map_some, rename_of_ne]
    rintro rfl
    exact h hx

lemma ArtShape.find_ne_self (S : ArtShape t live path) (hcur : live cur) (hn : t.node cur = some n)
    (x : UInt8) : n.find x ≠ some cur := by
  intro hx
  have := S.tree.child_path_length hcur ⟨x, (findChild_of_node hn x).trans hx⟩
  omega

/-- A trie with the old nodes is relinked by writing the new place of `cur` through its slot. -/
lemma relinked_patch (cur' : ArtChildRef) (S : ArtShape t live path) (hcur : live cur) (hsite : SiteOf t live cur site)
    (hold : ∀ {i}, live i → i ≠ cur → t'.node i = t.node i) (hroot : t'.rootRef = t.rootRef) :
    Relinked t (t'.patch cur' site) live cur cur' ∧ (∀ {i}, ¬ live i → (t'.patch cur' site).node i = t'.node i) ∧
    (t'.patch cur' site).matchMode = t'.matchMode ∧ (t'.patch cur' site).isUniformN4 = t'.isUniformN4 := by
  rcases hsite with ⟨rfl, rfl⟩ | ⟨p, b, hp, hb, rfl⟩
  · refine ⟨⟨?_, by rw [rename_self]; rfl⟩, fun _ => rfl, rfl, rfl⟩
    intro i hi hne
    obtain ⟨n, hn, hok⟩ := S.node hi
    refine ⟨n, n, hn, (hold hi hne).trans hn, hok, rfl, fun x => find_rename ?_⟩
    exact fun hx => S.tree.root_not_child hi ⟨x, (findChild_of_node hn x).trans hx⟩
  · obtain ⟨k, hk, hkok⟩ := S.node hp
    have hkb : k.find b = some cur := (findChild_of_node hk b).symm.trans hb
    have hpcur : p ≠ cur := by
      rintro rfl
      exact S.find_ne_self hp hk b hkb
    have P := patch_spec (r := cur') hk ((hold hp hpcur).trans hk) hkok hkb
    refine ⟨⟨?_, ?_⟩, ?_, P.mode, P.uniform⟩
    · intro i hi hne
      by_cases hip : i = p
      · subst hip
        obtain ⟨k', hk', hhdr, hok', hfind⟩ := P.new
        refine ⟨k, k', hk, hk', hok', hhdr, fun x => ?_⟩
        rw [hfind]
        by_cases hx : x = b
        · rw [if_pos hx, hx, hkb, Option.map_some, rename_self]
        · rw [if_neg hx]
          refine find_rename fun h => hx ?_
          exact S.key_unique hi ((findChild_of_node hk x).trans h) hb
      · obtain ⟨n, hn, hok⟩ := S.node hi
        refine ⟨n, n, hn, (P.old hip).trans ((hold hi hne).trans hn), hok, rfl, fun x => find_rename ?_⟩
        exact fun hx => hip (S.tree.parent_unique hi hp ⟨x, (findChild_of_node hn x).trans hx⟩ ⟨b, hb⟩)
    · rw [P.root, hroot, rename_of_ne]
      intro hr
      exact S.tree.root_not_child hp ⟨b, hr ▸ hb⟩
    · rintro i hi
      exact P.old fun h => hi (h ▸ hp)

end relink

/-! ## The two changes -/

section changes

variable {t t' : ArtTrie} {live : ArtChildRef → Prop} {path : ArtChildRef → Str} {st : ArtInsertState}
  {leaf child newChild : ArtChildRef} {b d : UInt8} {l l' : Str} {n : ArtNode}

/-- `insert` appends a leaf for the rest of the path. -/
lemma appendLeaf_appended (S : ArtShape st.trie live path) (hcur : live st.cur)
    (hn : st.trie.node st.cur = some n) (hsite : SiteOf st.trie live st.cur st.site ∨ ¬ n.Full)
    (hrest : st.rest = b :: l) (hb : n.find b = none) (h : appendLeaf st b = some (t', leaf)) :
    ∃ cur', Appended st.trie t' live st.cur cur' leaf b (b :: l) := by
  rw [appendLeaf] at h
  cases halloc : st.trie.allocN4 with
  | none =>
    rw [halloc] at h
    cases h
  | some res =>
    obtain ⟨t₁, r⟩ := res
    simp only [halloc] at h
    have G := grown_alloc halloc S.uniform { edge := st.rest }
    have hlive : ∀ {i}, live i → st.trie.node i ≠ none := fun hi => S.node_ne_none hi
    have hn₂ := (G.old (hlive hcur)).trans hn
    cases hadd : (t₁.setHeader r { edge := st.rest }).addChild st.cur b r with
    | none =>
      rw [hadd] at h
      cases h
    | some res =>
      obtain ⟨t₃, cur'⟩ := res
      simp only [hadd, Option.some.injEq, Prod.mk.injEq] at h
      obtain ⟨h, rfl⟩ := h
      have A := addChild_spec hn₂ hadd
      obtain ⟨n₀, hn₀, hok⟩ := S.node hcur
      rw [hn, Option.some.injEq] at hn₀
      subst hn₀
      have hrcur : r ≠ cur' := by
        rcases A.place with ⟨rfl, -⟩ | ⟨hnone, -⟩
        · exact (G.ne (hlive hcur)).symm
        · rintro rfl
          rw [G.new] at hnone
          cases hnone
      have hplace : cur' = st.cur ∨ ¬ live cur' := by
        rcases A.place with ⟨hc, -⟩ | ⟨hnone, -⟩
        · exact .inl hc
        · exact .inr fun hc => hlive hc ((G.old (hlive hc)).symm.trans hnone)
      have hold : ∀ {i}, live i → i ≠ st.cur → t₃.node i = st.trie.node i := by
        intro i hi hne
        rw [A.old, G.old (hlive hi)]
        rintro rfl
        rcases hplace with hc | hc
        · exact hne hc
        · exact hc hi
      have hleaf : t₃.node r = some ((ArtNode.empty .n4).setHdr { edge := b :: l }) := by
        rw [A.old hrcur, G.new, hrest]
      have hu : t₃.isUniformN4 = true → ∀ {i n}, t₃.node i = some n → i.type = .n4 :=
        fun hu => A.uniform_nodes hn₂ G.uniform hu
      have hfind : ∀ x, (n.add b r).find x = if st.cur = st.cur ∧ x = b then some r
          else (n.find x).map (rename st.cur cur') := by
        intro x
        rw [ArtNode.find_add hok hb, ← find_rename (S.find_ne_self hcur hn x)]
        simp
      have hrlive : ¬ live r := fun hr => hlive hr G.fresh
      -- what is left to say about the nodes after the patch
      suffices hs : Relinked st.trie t' live st.cur cur' ∧ t'.node r = t₃.node r ∧
          t'.node cur' = t₃.node cur' ∧ t'.matchMode = t₃.matchMode ∧
          (t'.isUniformN4 = true → ∀ {i n}, t'.node i = some n → i.type = .n4) by
        obtain ⟨R, hr, hc, hm, hu'⟩ := hs
        refine ⟨cur', ⟨_, hr.trans hleaf, ArtNode.ok_setHdr _ (ArtNode.ok_empty _), by simp, by simp⟩,
          hrlive, hplace, hrcur, ?_, R.root, hm.trans (A.mode.trans G.mode), hu'⟩
        intro i hi
        by_cases hic : i = st.cur
        · subst hic
          refine ⟨n, n.add b r, hn, ?_, ArtNode.ok_add hok hb, ArtNode.hdr_add, hfind⟩
          rw [rename_self, hc, A.new]
        · obtain ⟨k, k', hk, hk', hkok, hhdr, hkfind⟩ := R.node hi hic
          refine ⟨k, k', hk, by rwa [rename_of_ne hic], hkok, hhdr, fun x => ?_⟩
          rw [hkfind, if_neg fun hx => hic hx.1]
      rcases A.place with ⟨rfl, -⟩ | ⟨hnone, hfull⟩
      · rw [if_neg (by simp)] at h
        subst h
        refine ⟨⟨?_, by rw [rename_id, A.root, G.root]⟩, rfl, rfl, rfl, hu⟩
        intro i hi hne
        obtain ⟨k, hk, hkok⟩ := S.node hi
        exact ⟨k, k, hk, (hold hi hne).trans hk, hkok, rfl, fun x => by cases k.find x <;> simp⟩
      · have hcl : ¬ live cur' := fun hc => hlive hc ((G.old (hlive hc)).symm.trans hnone)
        have hne : cur' ≠ st.cur := fun hc => hcl (hc ▸ hcur)
        rw [if_pos hne] at h
        obtain ⟨R, hnodes, hmode, huni⟩ := relinked_patch cur' S hcur
          (hsite.resolve_right (not_not.mpr hfull)) hold (A.root.trans G.root)
        rw [h] at R hnodes hmode huni
        refine ⟨R, hnodes hrlive, hnodes hcl, hmode, ?_⟩
        rw [huni]
        exact fun hu' => absurd (A.uniform hu').2 hne

lemma findInEntries_entries (hok : n.Ok) (x : UInt8) : findInEntries n.entries x = n.find x := by
  obtain ⟨hnodup, hmem⟩ := ArtNode.entries_spec hok
  ext c
  rw [findInEntries_some hnodup, hmem]

/-- `insert` splits an edge; the split node keeps its place. -/
lemma splitEdge_splitAt (S : ArtShape t live path) (hchild : live child) (hn : t.node child = some n)
    (hedge : n.hdr.edge = b :: l ++ d :: l') (h : t.splitEdge child (l.length + 1) = some (t', newChild)) :
    newChild = child ∧ ∃ tail, SplitAt t t' live child tail b l d l' := by
  have htake : n.hdr.edge.take (l.length + 1) = b :: l := by rw [hedge]; simp
  have hdrop : n.hdr.edge.drop (l.length + 1) = d :: l' := by rw [hedge]; simp
  have hget : n.hdr.edge.getD (l.length + 1) 0 = d := by rw [hedge]; simp
  obtain ⟨n₀, hn₀, hok⟩ := S.node hchild
  rw [hn, Option.some.injEq] at hn₀
  subst hn₀
  have hlive : ∀ {i}, live i → t.node i ≠ none := fun hi => S.node_ne_none hi
  simp only [ArtTrie.splitEdge, hn, htake, hdrop, hget] at h
  cases halloc : t.allocN4 with
  | none =>
    rw [halloc] at h
    cases h
  | some res =>
    obtain ⟨t₁, r⟩ := res
    simp only [halloc] at h
    have G := grown_alloc halloc S.uniform { edge := d :: l', routeIdxByMethod := n.hdr.routeIdxByMethod }
    generalize t₁.setHeader r { edge := d :: l', routeIdxByMethod := n.hdr.routeIdxByMethod } = t₂ at h G
    cases hadd : t₂.addChildren r n.entries with
    | none =>
      rw [hadd] at h
      cases h
    | some res =>
      obtain ⟨t₃, tail⟩ := res
      simp only [hadd] at h
      obtain ⟨m, M, hmok, hmhdr, hmfind⟩ := G.addChildren (ArtNode.ok_setHdr _ (ArtNode.ok_empty _))
        (ArtNode.entries_spec hok).1 (by simp) hadd
      have hchild₃ : t₃.node child ≠ none := by
        rw [M.old (hlive hchild)]
        exact hlive hchild
      obtain ⟨k₃, hk₃⟩ := Option.ne_none_iff_exists'.mp hchild₃
      -- the node in the middle has room, so the last `add_child` does not move it
      have htype : ((ArtNode.empty child.type).setHdr { edge := b :: l }).type = child.type := by simp
      have hmid := node_store_self hk₃ htype
      have A := addChild_spec hmid h
      have hroom : ¬ ((ArtNode.empty child.type).setHdr { edge := b :: l }).Full := by
        cases child.type <;> simp [ArtNode.empty, ArtNode.setHdr, ArtNode.Full]
      obtain rfl : newChild = child := (A.place.resolve_right fun h => hroom h.2).1
      have hold : ∀ {i}, i ≠ newChild → t'.node i = t₃.node i := by
        intro i hi
        rw [A.old hi, node_store_ne htype hi]
      have htail : tail ≠ newChild := (M.ne (hlive hchild)).symm
      refine ⟨rfl, tail, fun ht => hlive ht M.fresh, htail, ?_, ?_, ?_, ?_, ?_⟩
      · intro i hi
        by_cases hic : i = newChild
        · subst hic
          refine ⟨n, m, hn, ?_, hmok, by simp [hmhdr], by simp [hmhdr], fun x => ?_⟩
          · rw [rename_self, hold htail, M.new]
          · rw [hmfind, findInEntries_entries hok]
            simp
        · obtain ⟨k, hk, hkok⟩ := S.node hi
          refine ⟨k, k, hk, ?_, hkok, rfl, by rw [if_neg hic], fun x => rfl⟩
          rw [rename_of_ne hic, hold hic, M.old (hlive hi), hk]
      · have hmok := ArtNode.ok_setHdr { edge := b :: l } (ArtNode.ok_empty newChild.type)
        have hmb : ((ArtNode.empty newChild.type).setHdr { edge := b :: l }).find d = none := by simp
        refine ⟨_, A.new, ArtNode.ok_add hmok hmb, ?_, by simp, fun x => ?_⟩
        · cases newChild.type <;> simp [ArtNode.empty, ArtNode.setHdr, ArtNode.add, ArtNode.Full]
        · rw [ArtNode.find_add hmok hmb]
          simp
      · rw [A.root, store_rootRef, M.root]
      · rw [A.mode, store_matchMode, M.mode]
      · intro hu
        refine A.uniform_nodes hmid ?_ hu
        rw [store_isUniformN4]
        intro hu i k hi
        by_cases hic : i = newChild
        · subst hic
          exact M.uniform hu hk₃
        · rw [node_store_ne htype hic] at hi
          exact M.uniform hu hi

end changes

/-! ## The descent -/

lemma commonLength_spec (e p : Str) : ∃ c e' p', e = c ++ e' ∧ p = c ++ p' ∧ commonLength e p = c.length ∧
      ∀ x y u v, e' = x :: u → p' = y :: v → x ≠ y := by
  induction e generalizing p with
  | nil => exact ⟨[], [], p, rfl, rfl, by simp [commonLength], by simp⟩
  | cons a e ih =>
    cases p with
    | nil => exact ⟨[], a :: e, [], rfl, rfl, by simp [commonLength], by simp⟩
    | cons b p =>
      by_cases hab : a = b
      · subst hab
        obtain ⟨c, e', p', rfl, rfl, hlen, hne⟩ := ih p
        exact ⟨a :: c, e', p', rfl, rfl, by simp [commonLength, hlen], hne⟩
      · refine ⟨[], a :: e, b :: p, rfl, rfl, by simp [commonLength, hab], ?_⟩
        rintro x y u v ⟨rfl, rfl⟩ ⟨rfl, rfl⟩
        exact hab

lemma commonLength_child {e l : Str} {b : UInt8} (hedge : e = b :: l) (rest : Str) : ∃ c e' p',
    b :: l = b :: c ++ e' ∧ b :: rest = b :: c ++ p' ∧ commonLength e (b :: rest) = (b :: c).length ∧
      (b :: rest).drop (b :: c).length = p' ∧ ∀ x y u v, e' = x :: u → p' = y :: v → x ≠ y := by
  obtain ⟨c, e', p', rfl, rfl, hlen, hdiff⟩ := commonLength_spec l rest
  exact ⟨c, e', p', rfl, rfl, by simp [hedge, commonLength, hlen], List.drop_left, hdiff⟩

/-- The trie holds the routes `es` and has a node for the path `p`. -/
def HasNode (P : Str → Prop) (mode : ArtMatchMode) (es : List Insertion) (p : Str) (t : ArtTrie)
    (cur : ArtChildRef) : Prop :=
  ∃ live path, ArtShape t live path ∧ ArtContent t live path es ∧ Within P live path ∧
    t.matchMode = mode ∧ live cur ∧ path cur = p

/-- The descent of `insert` at the path `p`: `rest` follows the path of the current node, and the node
either is held by the patch site or takes the next byte without an upgrade. -/
def Descent (P : Str → Prop) (mode : ArtMatchMode) (es : List Insertion) (p : Str) (st : ArtInsertState) :
    Prop :=
  ∃ live path, ArtShape st.trie live path ∧ ArtContent st.trie live path es ∧ Within P live path ∧
    st.trie.matchMode = mode ∧ live st.cur ∧ path st.cur ++ st.rest = p ∧
    (SiteOf st.trie live st.cur st.site ∨
      ∃ n, st.trie.node st.cur = some n ∧ ¬ n.Full ∧ ∀ b l, st.rest = b :: l → n.find b = none)

section descent

variable {P : Str → Prop} {mode : ArtMatchMode} {es : List Insertion} {p : Str} {st st' : ArtInsertState}

lemma Descent.step (B : PathBound P) (D : Descent P mode es p st) (h : artInsertStep st = .inl st') :
    Descent P mode es p st' ∧ st'.rest.length < st.rest.length := by
  obtain ⟨live, path, S, C, W, hmode, hcur, hp, hplace⟩ := D
  rw [artInsertStep] at h
  cases hrest : st.rest with
  | nil =>
    rw [hrest] at h
    cases h
  | cons b rest =>
    simp only [hrest] at h
    cases hfind : st.trie.findChild st.cur b with
    | none =>
      rw [hfind] at h
      cases h
    | some child =>
      simp only [hfind] at h
      have hchild := S.child_live hcur hfind
      obtain ⟨n, hn, -⟩ := S.node hchild
      obtain ⟨l, hedge, hpath⟩ := S.label hcur hfind
      rw [header_of_node hn] at h hedge
      -- the byte that led to the child is the first one of its edge
      obtain ⟨c, e', p', he, hp', hlen, hdrop, hdiff⟩ := commonLength_child hedge rest
      rw [hlen, hdrop] at h
      cases e' with
      | nil =>
        have hfull : (b :: c).length = n.hdr.edge.length := by rw [hedge, he, List.append_nil]
        rw [if_pos hfull] at h
        cases h
        refine ⟨⟨live, path, S, C, W, hmode, hchild, ?_, .inl (.inr ⟨st.cur, b, hcur, hfind, rfl⟩)⟩, ?_⟩
        · rw [hpath, he, List.append_nil, ← hp, hrest, hp', List.append_assoc]
        · rw [hp']
          simp only [List.length_append, List.length_cons]
          omega
      | cons d l' =>
        have hpart : ¬ (b :: c).length = n.hdr.edge.length := by
          rw [hedge, he]
          simp
        rw [if_neg hpart] at h
        cases hsplit : st.trie.splitEdge child (b :: c).length with
        | none =>
          rw [hsplit] at h
          cases h
        | some res =>
          obtain ⟨t', newChild⟩ := res
          simp only [hsplit] at h
          obtain ⟨rfl, tail, A⟩ := splitEdge_splitAt S hchild hn (hedge.trans he) hsplit
          rw [if_neg (by simp)] at h
          cases h
          rw [he] at hpath
          have hpath' : path newChild = path st.cur ++ b :: c ++ d :: l' := by
            rw [hpath, List.append_assoc]
          have hmid : P (path st.cur ++ b :: c) :=
            B.of_pre (List.prefix_append ..) (hpath' ▸ W hchild)
          refine ⟨⟨_, _, A.shape S hcur hfind hpath', A.content S C hcur hfind hpath', A.within W hmid,
            A.mode.trans hmode, .inr rfl, ?_, .inr ?_⟩, ?_⟩
          · rw [splitPath, if_pos rfl, ← hp, hrest, hp', List.append_assoc]
          · obtain ⟨m, hm, -, hroom, -, hmfind⟩ := A.middle
            refine ⟨m, hm, hroom, fun y u hy => ?_⟩
            rw [hmfind, if_neg]
            exact (hdiff d y l' u rfl hy).symm
          · rw [hp']
            simp only [List.length_append, List.length_cons]
            omega

lemma Descent.leave (hp' : P p) (D : Descent P mode es p st) {t cur}
    (h : artInsertStep st = .inr (some (t, cur))) : HasNode P mode es p t cur := by
  obtain ⟨live, path, S, C, W, hmode, hcur, hp, hplace⟩ := D
  rw [artInsertStep] at h
  cases hrest : st.rest with
  | nil =>
    rw [hrest] at h
    cases h
    exact ⟨live, path, S, C, W, hmode, hcur, by rw [← hp, hrest, List.append_nil]⟩
  | cons b rest =>
    simp only [hrest] at h
    cases hfind : st.trie.findChild st.cur b with
    | none =>
      simp only [hfind, Sum.inr.injEq] at h
      obtain ⟨n, hn, -⟩ := S.node hcur
      have hnb : n.find b = none := (findChild_of_node hn b).symm.trans hfind
      have hsite : SiteOf st.trie live st.cur st.site ∨ ¬ n.Full := by
        refine hplace.imp id ?_
        rintro ⟨m, hm, hroom, -⟩
        rw [hn, Option.some.injEq] at hm
        rwa [hm]
      obtain ⟨cur', A⟩ := appendLeaf_appended S hcur hn hsite hrest hnb h
      rw [hrest] at hp
      refine ⟨_, _, A.shape S hcur hfind, A.content S C hcur hfind, A.within W (hp ▸ hp'),
        A.mode.trans hmode, .inr rfl, ?_⟩
      rw [appendPath, if_pos rfl, hp]
    | some child =>
      simp only [hfind] at h
      split_ifs at h
      cases hsplit : st.trie.splitEdge child (commonLength (st.trie.header child).edge (b :: rest)) with
      | none =>
        rw [hsplit] at h
        cases h
      | some res =>
        rw [hsplit] at h
        cases h

end descent

/-! ## Recording the route -/

section record

variable {t : ArtTrie} {live : ArtChildRef → Prop} {path : ArtChildRef → Str}
  {cur : ArtChildRef}

lemma setHeader_spec {n} (hn : t.node cur = some n) (hdr : ArtNodeHeader) :
    (∀ i b, (t.setHeader cur hdr).findChild i b = t.findChild i b) ∧
    (∀ i, (t.setHeader cur hdr).header i = if i = cur then hdr else t.header i) ∧
    ∀ i, (t.setHeader cur hdr).node i = if i = cur then some (n.setHdr hdr) else t.node i := by
  have htype : (n.setHdr hdr).type = cur.type := by rw [ArtNode.type_setHdr, node_type hn]
  have hnode : ∀ i, (t.setHeader cur hdr).node i = if i = cur then some (n.setHdr hdr) else t.node i := by
    intro i
    rw [setHeader_of_node hn]
    by_cases hi : i = cur
    · rw [if_pos hi, hi, node_store_self hn htype]
    · rw [if_neg hi, node_store_ne htype hi]
  refine ⟨fun i b => ?_, fun i => ?_, hnode⟩
  · by_cases hi : i = cur
    · simp [ArtTrie.findChild, hnode, hi, hn]
    · simp [ArtTrie.findChild, hnode, hi]
  · by_cases hi : i = cur
    · simp [ArtTrie.header, hnode, hi]
    · simp [ArtTrie.header, hnode, hi]

lemma ArtShape.setHeader (S : ArtShape t live path) (hcur : live cur) {hdr}
    (hedge : hdr.edge = (t.header cur).edge) : ArtShape (t.setHeader cur hdr) live path := by
  obtain ⟨n, hn, hok⟩ := S.node hcur
  obtain ⟨hfind, hheader, hnode⟩ := setHeader_spec hn hdr
  have hroot : (t.setHeader cur hdr).rootRef = t.rootRef := by
    rw [setHeader_of_node hn, store_rootRef]
  refine ⟨?_, ?_, ?_, ?_⟩
  · rw [hroot]
    exact S.tree.congr Iff.rfl fun _ => by simp [Linked, hfind]
  · intro i hi
    rw [hnode]
    split_ifs with hic
    · exact ⟨_, rfl, ArtNode.ok_setHdr _ hok⟩
    · exact S.node hi
  · intro i b c hi hc
    rw [hfind] at hc
    obtain ⟨l, hl, hp⟩ := S.label hi hc
    refine ⟨l, ?_, hp⟩
    rw [hheader]
    split_ifs with hcc
    · rw [hedge, ← hcc, hl]
    · exact hl
  · intro hu i m hi
    rw [setHeader_of_node hn, store_isUniformN4] at hu
    rw [hnode] at hi
    split_ifs at hi with hic
    · rw [hic]
      exact S.uniform hu hn
    · exact S.uniform hu hi

end record

/-- The live nodes form a tree with paths in `P` that holds the routes `es`. -/
def ArtInv (P : Str → Prop) (mode : ArtMatchMode) (es : List Insertion) (t : ArtTrie) : Prop :=
  t.matchMode = mode ∧
    ∃ live path, ArtShape t live path ∧ ArtContent t live path es ∧ Within P live path

section insert

variable {P : Str → Prop} {mode : ArtMatchMode} {t t' : ArtTrie} {es : List Insertion} {e : Insertion}
  {cur : ArtChildRef} {slot : Slot}

lemma HasNode.record (H : HasNode P mode es (finalizePathCanonical e.path) t cur) (hes : ValidRoutes es)
    (hslot : methodSlot e.method = some slot) :
    ArtInv P mode (es ++ [e]) (t.setHeader cur ((t.header cur).record slot e.routeIdx)) := by
  obtain ⟨live, path, S, C, W, hmode, hcur, hp⟩ := H
  obtain ⟨n, hn, -⟩ := S.node hcur
  obtain ⟨hfind, hheader, hnode⟩ := setHeader_spec hn ((t.header cur).record slot e.routeIdx)
  refine ⟨by rw [setHeader_of_node hn, store_matchMode, hmode], live, path, ?_, ⟨?_, ?_⟩, W⟩
  · refine S.setHeader hcur ?_
    rw [ArtNodeHeader.record]
    split_ifs <;> rfl
  · intro i hi s
    rw [hheader]
    by_cases hic : i = cur
    · subst hic
      rw [if_pos rfl, hp, ← firstRoute_record hes rfl hslot fun s => hp ▸ C.route hi s,
        ArtNodeHeader.record]
      split_ifs <;> rfl
    · rw [if_neg hic, C.route hi, firstRoute_concat, if_neg, Option.or_none]
      rintro ⟨hk, -⟩
      exact hic (S.tree.path_inj hi hcur (hk.symm.trans hp.symm))
  · intro e' he'
    rcases List.mem_append.mp he' with he' | he'
    · exact C.complete e' he'
    · rw [List.mem_singleton.mp he']
      exact ⟨cur, hcur, hp⟩

lemma artInv_clear (B : PathBound P) : ArtInv P mode [] (ArtTrie.clear mode) := by
  have hnode : ∀ {i n}, (ArtTrie.clear mode).node i = some n → i = ⟨.n4, 0⟩ ∧ n = .n4 {} := by
    rintro ⟨type, idx⟩ n h
    cases type <;> cases idx <;> simp [ArtTrie.node, ArtTrie.clear] at h
    exact ⟨rfl, h.symm⟩
  have hfind : ∀ {i b c}, (ArtTrie.clear mode).findChild i b ≠ some c := by
    intro i b c h
    obtain ⟨n, hn, hc⟩ := Option.bind_eq_some_iff.mp h
    rw [(hnode hn).2] at hc
    cases hc
  refine ⟨rfl, fun i => i = ⟨.n4, 0⟩, fun _ => [], ⟨⟨rfl, rfl, ?_, ?_, ?_, ?_⟩, ?_, ?_, ?_⟩, ⟨?_, ?_⟩,
    fun _ => B.nil⟩
  · rintro i c - ⟨b, hb⟩
    exact absurd hb hfind
  · rintro i c - ⟨b, hb⟩
    exact absurd hb hfind
  · exact fun hj => .inl hj
  · rintro i c d a l m - ⟨b, hb⟩
    exact absurd hb hfind
  · rintro i rfl
    exact ⟨.n4 {}, rfl, by simp [ArtNode.Ok]⟩
  · intro i b c _ h
    exact absurd h hfind
  · intro _ i n h
    rw [(hnode h).1]
  · rintro i rfl slot
    rfl
  · intro e he
    cases he

lemma ArtInv.insert_hasNode (B : PathBound P) (he : P (finalizePathCanonical e.path)) (T : ArtInv P mode es t)
    (h : t.insert e.path e.method e.routeIdx = (true, t')) : ∃ slot t₁ cur, methodSlot e.method = some slot ∧
      HasNode P mode es (finalizePathCanonical e.path) t₁ cur ∧
      t' = t₁.setHeader cur ((t₁.header cur).record slot e.routeIdx) := by
  obtain ⟨hmode, live, path, S, C, W⟩ := T
  rw [ArtTrie.insert] at h
  cases hslot : methodSlot e.method with
  | none =>
    rw [hslot] at h
    cases h
  | some slot =>
    simp only [hslot] at h
    have D : Descent P mode es (finalizePathCanonical e.path)
        { trie := t, cur := t.rootRef, site := some .root, rest := finalizePathCanonical e.path } :=
      ⟨live, path, S, C, W, hmode, S.tree.root_live, by rw [S.tree.root_path, List.nil_append],
        .inl (.inl ⟨rfl, rfl⟩)⟩
    obtain ⟨r, hr, hpost⟩ := loop_total (Descent P mode es (finalizePathCanonical e.path))
      (fun r => ∀ t cur, r = some (t, cur) → HasNode P mode es (finalizePathCanonical e.path) t cur)
      (fun st => st.rest.length) (Descent.step B) (fun D hr t cur h => D.leave he (h ▸ hr)) D
      (Nat.lt_succ_self _)
    rw [hr] at h
    rcases r with _ | ⟨t₁, cur⟩
    · cases h
    · cases h
      exact ⟨slot, t₁, cur, rfl, hpost t₁ cur rfl, rfl⟩

/-- A successful insertion registers its route. -/
theorem ArtInv.insert (B : PathBound P) (he : P (finalizePathCanonical e.path)) (T : ArtInv P mode es t)
    (hes : ValidRoutes es) (h : t.insert e.path e.method e.routeIdx = (true, t')) :
    ArtInv P mode (es ++ [e]) t' := by
  obtain ⟨slot, t₁, cur, hslot, H, rfl⟩ := T.insert_hasNode B he h
  exact H.record hes hslot

lemma record_invalid (h : ArtNodeHeader) (slot : Slot) : h.record slot kInvalidRoute = h := by
  rw [ArtNodeHeader.record]
  split_ifs with hs
  · rw [← hs, Function.update_eq_self]
  · rfl

lemma ArtInv.insert_shape (B : PathBound P) (hp : P (finalizePathCanonical e.path)) (T : ArtInv P mode es t) (hes : ValidRoutes es)
    (h : t.insert e.path e.method e.routeIdx = (true, t')) : ∃ es', ValidRoutes es' ∧ ArtInv P mode es' t' := by
  by_cases he : e.routeIdx = kInvalidRoute
  · obtain ⟨slot, t₁, cur, -, ⟨live, path, S, C, W, hmode, hcur, -⟩, rfl⟩ := T.insert_hasNode B hp h
    rw [he, record_invalid]
    obtain ⟨n, hn, -⟩ := S.node hcur
    obtain ⟨-, hheader, -⟩ := setHeader_spec hn (t₁.header cur)
    refine ⟨es, hes, ?_, live, path, S.setHeader hcur rfl, ⟨?_, C.complete⟩, W⟩
    · rw [setHeader_of_node hn, store_matchMode, hmode]
    · intro i hi slot
      rw [hheader]
      split_ifs with hic
      · rw [← hic]
        exact C.route hi slot
      · exact C.route hi slot
  · refine ⟨es ++ [e], ?_, T.insert B hp hes h⟩
    intro d hd
    rcases List.mem_append.mp hd with hd | hd
    · exact hes d hd
    · rwa [List.mem_singleton.mp hd]

end insert

/-- Insert one after the other; `none` when some insertion returns false. -/
def ArtTrie.insertAll : List Insertion → ArtTrie → Option ArtTrie
  | [], t => some t
  | e :: es, t =>
    match t.insert e.path e.method e.routeIdx with
    | (false, _) => none
    | (true, t') => ArtTrie.insertAll es t'

/-- Successful insertions keep the invariant. -/
theorem ArtInv.insertAll {P : Str → Prop} {mode : ArtMatchMode} {t t' : ArtTrie} {done es} (B : PathBound P)
    (hP : ∀ e ∈ es, P (finalizePathCanonical e.path)) (T : ArtInv P mode done t)
    (hes : ValidRoutes (done ++ es)) (h : t.insertAll es = some t') : ArtInv P mode (done ++ es) t' := by
  induction es generalizing t done with
  | nil =>
    cases h
    simpa using T
  | cons e es ih =>
    rw [ArtTrie.insertAll] at h
    have hdone : ValidRoutes done := fun d hd => hes d (List.mem_append_left _ hd)
    rcases hr : t.insert e.path e.method e.routeIdx with ⟨_ | _, t₁⟩
    · rw [hr] at h
      cases h
    · rw [hr] at h
      rw [List.append_cons] at hes ⊢
      exact ih (fun d hd => hP d (List.mem_cons_of_mem _ hd)) (T.insert B (hP e List.mem_cons_self) hdone hr)
        hes h

/-- Successful insertions keep the tree for every route index. -/
theorem ArtInv.insertAll_shape {P : Str → Prop} {mode : ArtMatchMode} {t t' : ArtTrie} {done es}
    (B : PathBound P) (hP : ∀ e ∈ es, P (finalizePathCanonical e.path)) (T : ArtInv P mode done t)
    (hdone : ValidRoutes done) (h : t.insertAll es = some t') :
    ∃ es', ValidRoutes es' ∧ ArtInv P mode es' t' := by
  induction es generalizing t done with
  | nil =>
    cases h
    exact ⟨done, hdone, T⟩
  | cons e es ih =>
    rw [ArtTrie.insertAll] at h
    rcases hr : t.insert e.path e.method e.routeIdx with ⟨_ | _, t₁⟩
    · rw [hr] at h
      cases h
    · rw [hr] at h
      obtain ⟨done', hdone', T'⟩ := T.insert_shape B (hP e List.mem_cons_self) hdone hr
      exact ih (fun d hd => hP d (List.mem_cons_of_mem _ hd)) T' hdone' h

end Rut.Route
