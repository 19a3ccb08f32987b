import Rut.Lib.PathTree
import Rut.Route.ArtNodes
import Rut.Route.Spec

/-!
# The invariant of the adaptive radix trie

The live nodes of the pools form a tree whose paths are the bytes read on the way, and the node with path `p` holds the
routes registered first for `p`. Nodes that an upgrade leaves behind are not live. An insertion changes the tree in two
ways: a new leaf, with its parent possibly moved to a larger node, and a split edge.
-/

set_option linter.all false
namespace Rut.Route

open Lib

/-- `c` is a child of `i`. -/
def Linked (t : ArtTrie) (i c : ArtChildRef) : Prop := ∃ b, t.findChild i b = some c

structure ArtShape (t : ArtTrie) (live : ArtChildRef → Prop) (path : ArtChildRef → Str) : Prop where
  tree : PathTree live (Linked t) t.rootRef path
  node : ∀ {i}, live i → ∃ n, t.node i = some n ∧ n.Ok
  label : ∀ {i b c}, live i → t.findChild i b = some c →
    ∃ l, (t.header c).edge = b :: l ∧ path c = path i ++ b :: l
  uniform : t.isUniformN4 = true → ∀ {i n}, t.node i = some n → i.type = .n4

structure ArtContent (t : ArtTrie) (live : ArtChildRef → Prop) (path : ArtChildRef → Str)
    (es : List Insertion) : Prop where
  route : ∀ {i}, live i → ∀ slot, (t.header i).routeIdxByMethod slot =
    (firstRoute finalizePathCanonical es (path i) slot).getD kInvalidRoute
  complete : ∀ e ∈ es, ∃ i, live i ∧ path i = finalizePathCanonical e.path

/-- A property of paths that their prefixes share, such as a bound on their length. -/
structure PathBound (P : Str → Prop) : Prop where
  nil : P []
  of_pre : ∀ {q p}, q <+: p → P p → P q

lemma pathBound_true : PathBound fun _ => True := ⟨trivial, fun _ _ => trivial⟩

lemma pathBound_length (n : Nat) : PathBound fun p => p.length ≤ n :=
  ⟨Nat.zero_le n, fun hq hp => hq.length_le.trans hp⟩

def Within (P : Str → Prop) (live : ArtChildRef → Prop) (path : ArtChildRef → Str) : Prop :=
  ∀ {i}, live i → P (path i)

section view

variable {t : ArtTrie} {i : ArtChildRef} {n : ArtNode}

lemma header_of_node (h : t.node i = some n) : t.header i = n.hdr := by
  simp [ArtTrie.header, h]

lemma findChild_of_node (h : t.node i = some n) (b : UInt8) : t.findChild i b = n.find b := by
  simp [ArtTrie.findChild, h]

lemma setHeader_of_node (h : t.node i = some n) (hdr : ArtNodeHeader) :
    t.setHeader i hdr = t.store i (n.setHdr hdr) := by
  simp [ArtTrie.setHeader, h]

end view

section shape

variable {t : ArtTrie} {live : ArtChildRef → Prop} {path : ArtChildRef → Str} {es : List Insertion}
  {i c cur : ArtChildRef} {b : UInt8}

lemma ArtShape.child_live (S : ArtShape t live path) (hi : live i) (h : t.findChild i b = some c) :
    live c := S.tree.child_live hi ⟨b, h⟩

lemma ArtShape.key_unique (S : ArtShape t live path) {b'} (hi : live i)
    (h : t.findChild i b = some c) (h' : t.findChild i b' = some c) : b = b' := by
  obtain ⟨l, hl, -⟩ := S.label hi h
  obtain ⟨l', hl', -⟩ := S.label hi h'
  rw [hl, List.cons.injEq] at hl'
  exact hl'.1

lemma ArtShape.node_ne_none (S : ArtShape t live path) (hi : live i) : t.node i ≠ none := by
  obtain ⟨n, hn, -⟩ := S.node hi
  simp [hn]

lemma ArtShape.path_ne_beyond (S : ArtShape t live path) (hcur : live cur)
    (h : t.findChild cur b = none) {l : Str} (hi : live i) : path i ≠ path cur ++ b :: l := by
  refine S.tree.path_ne_of_no_child hcur ?_ hi
  rintro c m ⟨x, hx⟩ hp
  obtain ⟨l', -, hl'⟩ := S.label hcur hx
  rw [hl'] at hp
  obtain ⟨rfl, -⟩ := List.cons.inj (List.append_cancel_left hp)
  rw [h] at hx
  cases hx

lemma ArtContent.unregistered (C : ArtContent t live path es) {p} (hp : ∀ {i}, live i → path i ≠ p) (slot : Slot) :
    firstRoute finalizePathCanonical es p slot = none := by
  rw [firstRoute_eq_none]
  rintro e he ⟨hk, -⟩
  obtain ⟨i, hi, hpi⟩ := C.complete e he
  exact hp hi (hpi.trans hk)

end shape

/-! ## Moving a node -/

/-- The name of `r` is now `r'`. -/
def rename (r r' i : ArtChildRef) : ArtChildRef := if i = r then r' else i

@[simp] lemma rename_self (r r' : ArtChildRef) : rename r r' r = r' := if_pos rfl

lemma rename_of_ne {r r' i : ArtChildRef} (h : i ≠ r) : rename r r' i = i := if_neg h

@[simp] lemma rename_id (r i : ArtChildRef) : rename r r i = i := by
  rw [rename]
  split_ifs with h
  · exact h.symm
  · rfl

def renamePath (r r' : ArtChildRef) (path : ArtChildRef → Str) (i : ArtChildRef) : Str :=
  if i = r' then path r else path i

@[simp] lemma renamePath_self (r r' : ArtChildRef) (path : ArtChildRef → Str) :
    renamePath r r' path r' = path r := if_pos rfl

section rename

variable {t : ArtTrie} {live : ArtChildRef → Prop} {path : ArtChildRef → Str} {r r' i j : ArtChildRef}

lemma rename_inj (hr : r' = r ∨ ¬ live r') (hi : live i) (hj : live j) (h : rename r r' i = rename r r' j) : i = j := by
  rcases hr with rfl | hr
  · simpa using h
  · by_cases h1 : i = r <;> by_cases h2 : j = r
    · exact h1.trans h2.symm
    · rw [h1, rename_self, rename_of_ne h2] at h
      exact absurd (h ▸ hj) hr
    · rw [h2, rename_self, rename_of_ne h1] at h
      exact absurd (h ▸ hi) hr
    · rwa [rename_of_ne h1, rename_of_ne h2] at h

lemma renamePath_rename (path : ArtChildRef → Str) (hr : r' = r ∨ ¬ live r') (hi : live i) :
    renamePath r r' path (rename r r' i) = path i := by
  by_cases h : i = r
  · simp [renamePath, h]
  · rw [rename_of_ne h, renamePath]
    rcases hr with rfl | hr
    · rw [if_neg h]
    · rw [if_neg fun heq : i = r' => hr (heq ▸ hi)]

lemma ArtShape.renamed (S : ArtShape t live path) (hr : r' = r ∨ ¬ live r') :
    PathTree (fun j => ∃ i, live i ∧ rename r r' i = j)
      (fun j d => ∃ i, live i ∧ rename r r' i = j ∧ ∃ c, Linked t i c ∧ rename r r' c = d)
      (rename r r' t.rootRef) (renamePath r r' path) := by
  refine S.tree.map (rename r r') Iff.rfl ?_ (renamePath_rename path hr)
  intro i d hi
  constructor
  · rintro ⟨j, hj, hij, h⟩
    rwa [rename_inj hr hj hi hij] at h
  · exact fun h => ⟨i, hi, rfl, h⟩

end rename

/-! ## A new leaf -/

/-- `t'` is `t` with a new leaf under `cur`, which is now at `cur'`. -/
structure Appended (t t' : ArtTrie) (live : ArtChildRef → Prop) (cur cur' leaf : ArtChildRef)
    (b : UInt8) (edge : Str) : Prop where
  leafNode : ∃ n, t'.node leaf = some n ∧ n.Ok ∧ n.hdr = { edge := edge } ∧ ∀ x, n.find x = none
  leaf_fresh : ¬ live leaf
  place : cur' = cur ∨ ¬ live cur'
  leaf_ne : leaf ≠ cur'
  node : ∀ {i}, live i → ∃ n n', t.node i = some n ∧ t'.node (rename cur cur' i) = some n' ∧ n'.Ok ∧
    n'.hdr = n.hdr ∧
    ∀ x, n'.find x = if i = cur ∧ x = b then some leaf else (n.find x).map (rename cur cur')
  root : t'.rootRef = rename cur cur' t.rootRef
  mode : t'.matchMode = t.matchMode
  uniform : t'.isUniformN4 = true → ∀ {i n}, t'.node i = some n → i.type = .n4

def appendLive (live : ArtChildRef → Prop) (cur cur' leaf j : ArtChildRef) : Prop :=
  (∃ i, live i ∧ rename cur cur' i = j) ∨ j = leaf

def appendPath (path : ArtChildRef → Str) (cur cur' leaf : ArtChildRef) (edge : Str) (j : ArtChildRef) :
    Str :=
  if j = leaf then path cur ++ edge else renamePath cur cur' path j

section append

variable {t t' : ArtTrie} {live : ArtChildRef → Prop} {path : ArtChildRef → Str} {es : List Insertion}
  {cur cur' leaf : ArtChildRef} {b : UInt8} {l : Str}

lemma Appended.leaf_ne_rename (A : Appended t t' live cur cur' leaf b (b :: l)) {i}
    (hi : live i) : rename cur cur' i ≠ leaf := by
  by_cases h : i = cur
  · rw [h, rename_self]
    exact A.leaf_ne.symm
  · rw [rename_of_ne h]
    exact fun heq => A.leaf_fresh (heq ▸ hi)

lemma Appended.path_rename (A : Appended t t' live cur cur' leaf b (b :: l)) {i}
    (hi : live i) : appendPath path cur cur' leaf (b :: l) (rename cur cur' i) = path i := by
  rw [appendPath, if_neg (A.leaf_ne_rename hi), renamePath_rename _ A.place hi]

lemma Appended.findChild (A : Appended t t' live cur cur' leaf b (b :: l)) {i} (hi : live i) (x : UInt8) :
    t'.findChild (rename cur cur' i) x =
      if i = cur ∧ x = b then some leaf else (t.findChild i x).map (rename cur cur') := by
  obtain ⟨n, n', hn, hn', -, -, hfind⟩ := A.node hi
  rw [findChild_of_node hn', findChild_of_node hn, hfind]

lemma Appended.header (A : Appended t t' live cur cur' leaf b (b :: l)) {i}
    (hi : live i) : t'.header (rename cur cur' i) = t.header i := by
  obtain ⟨n, n', hn, hn', -, hhdr, -⟩ := A.node hi
  rw [header_of_node hn', header_of_node hn, hhdr]

lemma Appended.leaf_header (A : Appended t t' live cur cur' leaf b (b :: l)) : t'.header leaf = { edge := b :: l } := by
  obtain ⟨n, hn, -, hhdr, -⟩ := A.leafNode
  rw [header_of_node hn, hhdr]

lemma Appended.leaf_findChild (A : Appended t t' live cur cur' leaf b (b :: l)) (x : UInt8) :
    t'.findChild leaf x = none := by
  obtain ⟨n, hn, -, -, hfind⟩ := A.leafNode
  rw [findChild_of_node hn, hfind]

lemma Appended.shape (A : Appended t t' live cur cur' leaf b (b :: l)) (S : ArtShape t live path)
    (hcur : live cur) (hb : t.findChild cur b = none) :
    ArtShape t' (appendLive live cur cur' leaf) (appendPath path cur cur' leaf (b :: l)) := by
  have hcur' : ∃ i, live i ∧ rename cur cur' i = cur' := ⟨cur, hcur, rename_self ..⟩
  have hlive : ∀ {j}, (∃ i, live i ∧ rename cur cur' i = j) → j ≠ leaf := by
    rintro j ⟨i, hi, rfl⟩
    exact A.leaf_ne_rename hi
  have hlink : ∀ {i d}, live i → (Linked t' (rename cur cur' i) d ↔
      (∃ c, Linked t i c ∧ rename cur cur' c = d) ∨ i = cur ∧ d = leaf) := by
    intro i d hi
    simp only [Linked, A.findChild hi]
    constructor
    · rintro ⟨x, hx⟩
      split_ifs at hx with h
      · cases hx
        exact .inr ⟨h.1, rfl⟩
      · obtain ⟨c, hc, rfl⟩ := Option.map_eq_some_iff.mp hx
        exact .inl ⟨c, ⟨x, hc⟩, rfl⟩
    · rintro (⟨c, ⟨x, hx⟩, rfl⟩ | ⟨rfl, rfl⟩)
      · refine ⟨x, ?_⟩
        rw [if_neg, hx, Option.map_some]
        rintro ⟨rfl, rfl⟩
        rw [hb] at hx
        cases hx
      · exact ⟨b, by simp⟩
  refine ⟨?_, ?_, ?_, A.uniform⟩
  · rw [A.root]
    refine (S.renamed A.place).addLeaf (p := cur') (n := leaf) (a := b) (l := l) hcur' ?_ ?_ Iff.rfl ?_ ?_
      ?_ ?_
    · exact fun h => hlive h rfl
    · rintro d m ⟨i, hi, hic, c, hc, rfl⟩ hp
      have hicur := rename_inj A.place hi hcur (hic.trans (rename_self ..).symm)
      subst hicur
      have hclive := S.tree.child_live hi hc
      rw [renamePath_rename _ A.place hclive, renamePath_self] at hp
      exact S.path_ne_beyond hi hb hclive hp
    · rintro j d ⟨i, hi, rfl⟩
      rw [hlink hi]
      refine or_congr ?_ ?_
      · constructor
        · exact fun h => ⟨i, hi, rfl, h⟩
        · rintro ⟨i', hi', heq, h⟩
          rwa [rename_inj A.place hi' hi heq] at h
      · refine and_congr_left fun _ => ⟨fun h => h ▸ rename_self .., fun h => ?_⟩
        exact rename_inj A.place hi hcur (h.trans (rename_self ..).symm)
    · rintro c ⟨x, hx⟩
      rw [A.leaf_findChild] at hx
      cases hx
    · rintro j hj
      rw [appendPath, if_neg (hlive hj)]
    · rw [appendPath, if_pos rfl, renamePath_self]
  · rintro j (⟨i, hi, rfl⟩ | rfl)
    · obtain ⟨n, n', -, hn', hok, -, -⟩ := A.node hi
      exact ⟨n', hn', hok⟩
    · obtain ⟨n, hn, hok, -, -⟩ := A.leafNode
      exact ⟨n, hn, hok⟩
  · rintro j x c (⟨i, hi, rfl⟩ | rfl) hc
    · rw [A.findChild hi] at hc
      rw [A.path_rename hi]
      split_ifs at hc with h
      · cases hc
        rw [A.leaf_header, appendPath, if_pos rfl, h.1, h.2]
        exact ⟨l, rfl, rfl⟩
      · obtain ⟨c₀, hc₀, rfl⟩ := Option.map_eq_some_iff.mp hc
        rw [A.header (S.child_live hi hc₀), A.path_rename (S.child_live hi hc₀)]
        exact S.label hi hc₀
    · rw [A.leaf_findChild] at hc
      cases hc

lemma Appended.content (A : Appended t t' live cur cur' leaf b (b :: l)) (S : ArtShape t live path)
    (C : ArtContent t live path es) (hcur : live cur) (hb : t.findChild cur b = none) :
    ArtContent t' (appendLive live cur cur' leaf) (appendPath path cur cur' leaf (b :: l)) es where
  route := by
    rintro j (⟨i, hi, rfl⟩ | rfl) slot
    · rw [A.header hi, A.path_rename hi]
      exact C.route hi slot
    · rw [A.leaf_header, appendPath, if_pos rfl,
        C.unregistered (fun hi => S.path_ne_beyond hcur hb hi) slot]
      rfl
  complete := by
    intro e he
    obtain ⟨i, hi, hp⟩ := C.complete e he
    exact ⟨_, .inl ⟨i, hi, rfl⟩, by rw [A.path_rename hi, hp]⟩

lemma Appended.within {P} (A : Appended t t' live cur cur' leaf b (b :: l))
    (W : Within P live path) (h : P (path cur ++ b :: l)) :
    Within P (appendLive live cur cur' leaf) (appendPath path cur cur' leaf (b :: l)) := by
  rintro j (⟨i, hi, rfl⟩ | rfl)
  · rw [A.path_rename hi]
    exact W hi
  · rwa [appendPath, if_pos rfl]

end append

/-! ## A split edge -/

/-- `t'` is `t` with the edge `b :: l ++ d :: l'` into `child` split: the node of `child` is now at `tail`
and `child` is a node in the middle of the edge. -/
structure SplitAt (t t' : ArtTrie) (live : ArtChildRef → Prop) (child tail : ArtChildRef) (b : UInt8)
    (l : Str) (d : UInt8) (l' : Str) : Prop where
  tail_fresh : ¬ live tail
  tail_ne : tail ≠ child
  node : ∀ {i}, live i → ∃ n n', t.node i = some n ∧ t'.node (rename child tail i) = some n' ∧ n'.Ok ∧
    n'.hdr.routeIdxByMethod = n.hdr.routeIdxByMethod ∧
    n'.hdr.edge = (if i = child then d :: l' else n.hdr.edge) ∧ ∀ x, n'.find x = n.find x
  middle : ∃ m, t'.node child = some m ∧ m.Ok ∧ ¬ m.Full ∧ m.hdr = { edge := b :: l } ∧
    ∀ x, m.find x = if x = d then some tail else none
  root : t'.rootRef = t.rootRef
  mode : t'.matchMode = t.matchMode
  uniform : t'.isUniformN4 = true → ∀ {i n}, t'.node i = some n → i.type = .n4

def splitLive (live : ArtChildRef → Prop) (child tail j : ArtChildRef) : Prop :=
  (∃ i, live i ∧ rename child tail i = j) ∨ j = child

def splitPath (path : ArtChildRef → Str) (cur child tail : ArtChildRef) (edge : Str) (j : ArtChildRef) :
    Str :=
  if j = child then path cur ++ edge else renamePath child tail path j

section split

variable {t t' : ArtTrie} {live : ArtChildRef → Prop} {path : ArtChildRef → Str} {es : List Insertion}
  {cur child tail : ArtChildRef} {b d : UInt8} {l l' : Str}

lemma SplitAt.rename_ne (A : SplitAt t t' live child tail b l d l') {i} : rename child tail i ≠ child := by
  by_cases h : i = child
  · rw [h, rename_self]
    exact A.tail_ne
  · rwa [rename_of_ne h]

lemma SplitAt.path_rename (A : SplitAt t t' live child tail b l d l') (path : ArtChildRef → Str)
    (cur : ArtChildRef) {i} (hi : live i) : splitPath path cur child tail (b :: l) (rename child tail i) = path i := by
  rw [splitPath, if_neg A.rename_ne, renamePath_rename _ (.inr A.tail_fresh) hi]

lemma SplitAt.findChild (A : SplitAt t t' live child tail b l d l') {i} (hi : live i)
    (x : UInt8) : t'.findChild (rename child tail i) x = t.findChild i x := by
  obtain ⟨n, n', hn, hn', -, -, -, hfind⟩ := A.node hi
  rw [findChild_of_node hn', findChild_of_node hn, hfind]

lemma SplitAt.middle_findChild (A : SplitAt t t' live child tail b l d l') (x : UInt8) :
    t'.findChild child x = if x = d then some tail else none := by
  obtain ⟨m, hm, -, -, -, hfind⟩ := A.middle
  rw [findChild_of_node hm, hfind]

lemma SplitAt.middle_header (A : SplitAt t t' live child tail b l d l') : t'.header child = { edge := b :: l } := by
  obtain ⟨m, hm, -, -, hhdr, -⟩ := A.middle
  rw [header_of_node hm, hhdr]

lemma SplitAt.header (A : SplitAt t t' live child tail b l d l') {i} (hi : live i) :
    (t'.header (rename child tail i)).routeIdxByMethod = (t.header i).routeIdxByMethod ∧
    (t'.header (rename child tail i)).edge = if i = child then d :: l' else (t.header i).edge := by
  obtain ⟨n, n', hn, hn', -, hroute, hedge, -⟩ := A.node hi
  rw [header_of_node hn', header_of_node hn]
  exact ⟨hroute, hedge⟩

lemma SplitAt.shape (A : SplitAt t t' live child tail b l d l') (S : ArtShape t live path)
    (hcur : live cur) (hchild : t.findChild cur b = some child) (hpath : path child = path cur ++ b :: l ++ d :: l') :
    ArtShape t' (splitLive live child tail) (splitPath path cur child tail (b :: l)) := by
  have hlive := S.child_live hcur hchild
  have hne : cur ≠ child := by
    rintro rfl
    exact absurd (congrArg List.length hpath) (by simp)
  have hcur' : rename child tail cur = cur := rename_of_ne hne
  -- `child` hangs under `cur` only, and under one byte
  have honly : ∀ {i x}, live i → t.findChild i x = some child → i = cur ∧ x = b := by
    intro i x hi hx
    have hic := S.tree.parent_unique hi hcur ⟨x, hx⟩ ⟨b, hchild⟩
    subst hic
    exact ⟨rfl, S.key_unique hi hx hchild⟩
  refine ⟨?_, ?_, ?_, A.uniform⟩
  · have hroot : rename child tail t.rootRef = t.rootRef := by
      refine rename_of_ne ?_
      rintro rfl
      exact S.tree.root_not_child hcur ⟨b, hchild⟩
    have T := S.renamed (.inr A.tail_fresh : tail = child ∨ ¬ live tail)
    rw [hroot] at T
    rw [A.root]
    refine T.insertBetween (p := cur) (c := tail) (m := child) (a := b) (l := l) (b := d) (e := l')
      ⟨cur, hcur, hcur'⟩ ⟨cur, hcur, hcur', child, ⟨b, hchild⟩, rename_self ..⟩ ?_ ?_ Iff.rfl ?_ ?_ ?_ ?_ ?_
    · rintro ⟨i, -, hi⟩
      exact A.rename_ne hi
    · have h := renamePath_rename path (.inr A.tail_fresh : tail = child ∨ ¬ live tail) hcur
      rw [hcur'] at h
      rw [renamePath_self, h, hpath]
    · rintro j x ⟨i, hi, rfl⟩ hjc
      have hic : i ≠ cur := fun h => hjc (h ▸ hcur')
      simp only [Linked, A.findChild hi]
      constructor
      · rintro ⟨y, hy⟩
        refine ⟨i, hi, rfl, x, ⟨y, hy⟩, rename_of_ne ?_⟩
        rintro rfl
        exact hic (honly hi hy).1
      · rintro ⟨i', hi', heq, c, ⟨y, hy⟩, rfl⟩
        obtain rfl := rename_inj (.inr A.tail_fresh) hi' hi heq
        refine ⟨y, ?_⟩
        rw [rename_of_ne]
        · exact hy
        · rintro rfl
          exact hic (honly hi hy).1
    · intro x
      have hfind : ∀ y, t'.findChild cur y = t.findChild cur y := by
        intro y
        rw [← A.findChild hcur, hcur']
      simp only [Linked, hfind]
      constructor
      · rintro ⟨y, hy⟩
        by_cases hx : x = child
        · exact .inr hx
        · refine .inl ⟨⟨cur, hcur, hcur', x, ⟨y, hy⟩, rename_of_ne hx⟩, ?_⟩
          rintro rfl
          exact A.tail_fresh (S.child_live hcur hy)
      · rintro (⟨⟨i, hi, heq, c, ⟨y, hy⟩, rfl⟩, hx⟩ | rfl)
        · obtain rfl := rename_inj (.inr A.tail_fresh : tail = child ∨ ¬ live tail) hi hcur (heq.trans hcur'.symm)
          by_cases hc : c = child
          · rw [hc, rename_self] at hx
            exact absurd rfl hx
          · rw [rename_of_ne hc]
            exact ⟨y, hy⟩
        · exact ⟨b, hchild⟩
    · intro x
      simp only [Linked, A.middle_findChild]
      constructor
      · rintro ⟨y, hy⟩
        split_ifs at hy
        cases hy
        rfl
      · rintro rfl
        exact ⟨d, if_pos rfl⟩
    · rintro j ⟨i, hi, rfl⟩
      rw [splitPath, if_neg A.rename_ne]
    · have h := renamePath_rename path (.inr A.tail_fresh : tail = child ∨ ¬ live tail) hcur
      rw [hcur'] at h
      rw [splitPath, if_pos rfl, h]
  · rintro j (⟨i, hi, rfl⟩ | rfl)
    · obtain ⟨n, n', -, hn', hok, -, -⟩ := A.node hi
      exact ⟨n', hn', hok⟩
    · obtain ⟨m, hm, hok, -, -⟩ := A.middle
      exact ⟨m, hm, hok⟩
  · rintro j x c (⟨i, hi, rfl⟩ | rfl) hc
    · rw [A.findChild hi] at hc
      rw [A.path_rename path cur hi]
      by_cases hcc : c = child
      · subst hcc
        obtain ⟨rfl, rfl⟩ := honly hi hc
        rw [A.middle_header, splitPath, if_pos rfl]
        exact ⟨l, rfl, rfl⟩
      · have hclive := S.child_live hi hc
        obtain ⟨u, hu, hp⟩ := S.label hi hc
        have hedge := (A.header hclive).2
        rw [rename_of_ne hcc, if_neg hcc] at hedge
        have hpath := A.path_rename path cur hclive
        rw [rename_of_ne hcc] at hpath
        exact ⟨u, by rw [hedge, hu], by rw [hpath, hp]⟩
    · rw [A.middle_findChild] at hc
      split_ifs at hc with hx
      cases hc
      have hedge := (A.header hlive).2
      rw [rename_self, if_pos rfl] at hedge
      have htp := A.path_rename path cur hlive
      rw [rename_self] at htp
      exact ⟨l', by rw [hedge, hx], by rw [htp, hpath, splitPath, if_pos rfl, hx]⟩

lemma SplitAt.content (A : SplitAt t t' live child tail b l d l') (S : ArtShape t live path)
    (C : ArtContent t live path es) (hcur : live cur) (hchild : t.findChild cur b = some child)
    (hpath : path child = path cur ++ b :: l ++ d :: l') :
    ArtContent t' (splitLive live child tail) (splitPath path cur child tail (b :: l)) es where
  route := by
    rintro j (⟨i, hi, rfl⟩ | rfl) slot
    · rw [(A.header hi).1, A.path_rename path cur hi]
      exact C.route hi slot
    · rw [A.middle_header, splitPath, if_pos rfl, C.unregistered
        (fun hi => S.tree.path_ne_inside_edge hcur ⟨b, hchild⟩ hpath hi) slot]
      rfl
  complete := by
    intro e he
    obtain ⟨i, hi, hp⟩ := C.complete e he
    exact ⟨_, .inl ⟨i, hi, rfl⟩, by rw [A.path_rename path cur hi, hp]⟩

lemma SplitAt.within {P} (A : SplitAt t t' live child tail b l d l') (W : Within P live path)
    (h : P (path cur ++ b :: l)) : Within P (splitLive live child tail) (splitPath path cur child tail (b :: l)) := by
  rintro j (⟨i, hi, rfl⟩ | rfl)
  · rw [A.path_rename path cur hi]
    exact W hi
  · rwa [splitPath, if_pos rfl]

end split

end Rut.Route
