import Rut.Lib.Budget
import Rut.Route.ArtInsert

/-!
# Capacity of the pools

Which nodes an insertion takes is decided by where its path leaves the trie: at a node without a child for the next byte
it takes a leaf and, if the node is full, one of the next size; inside an edge it takes a tail, a leaf, and one node of
each larger size that the children of the split node pass through. The Node4 pool covers 128 routes in any order. The
other pools do not, since splits above a node with many children take a node each time.
-/

set_option linter.all false
namespace Rut.Route

open Lib

inductive ArtExit where
  | node
  | leaf (cur : ArtChildRef)
  | split (child : ArtChildRef) (leaf : Bool)
deriving DecidableEq

/-- One step down for the bytes `rest` at the node `cur`. -/
def artExitStep (t : ArtTrie) : ArtChildRef × Str → (ArtChildRef × Str) ⊕ ArtExit
  | (_, []) => .inr .node
  | (cur, b :: rest) =>
    match t.findChild cur b with
    | none => .inr (.leaf cur)
    | some child =>
      let e := (t.header child).edge
      let k := commonLength e (b :: rest)
      if k = e.length then .inl (child, (b :: rest).drop k)
      else .inr (.split child ((b :: rest).drop k ≠ []))

def ArtTrie.exit (t : ArtTrie) (path : Str) : ArtExit :=
  (loop (artExitStep t) (path.length + 1) (t.rootRef, path)).getD .node

def ArtNode.upgradeNeeds : ArtNode → ArtNodeType → Nat
  | .n4 n, .n16 => if n.entries.length < 4 then 0 else 1
  | .n16 n, .n48 => if n.entries.length < 16 then 0 else 1
  | .n48 n, .n256 => if n.children.length < 48 then 0 else 1
  | _, _ => 0

/-- The nodes that a Node4 takes to grow from `n` to `m` children. -/
def growthNeeds (n m : Nat) : ArtNodeType → Nat
  | .n4 => 0
  | .n16 => if n ≤ 4 ∧ 4 < m then 1 else 0
  | .n48 => if n ≤ 16 ∧ 16 < m then 1 else 0
  | .n256 => if n ≤ 48 ∧ 48 < m then 1 else 0

def leafNeeds : ArtNodeType → Nat
  | .n4 => 1
  | _ => 0

def ArtTrie.exitNeeds (t : ArtTrie) : ArtExit → ArtNodeType → Nat
  | .node => 0
  | .leaf cur => leafNeeds + ((t.node cur).map ArtNode.upgradeNeeds).getD 0
  | .split child leaf =>
    leafNeeds + growthNeeds 0 (((t.node child).map ArtNode.entries).getD []).length +
      if leaf then leafNeeds else 0

/-- The pools of the larger nodes have what the insertion of the path takes. -/
def HasRoom (t : ArtTrie) (path : Str) : Prop :=
  ∀ k, k ≠ .n4 → t.poolLen k + t.exitNeeds (t.exit (finalizePathCanonical path)) k ≤ k.cap

abbrev NodeCosts (t : ArtTrie) (need : ArtNodeType → Nat) (r : Option (ArtTrie × ArtChildRef)) : Prop :=
  Costs ArtTrie.poolLen ArtNodeType.cap t need r

abbrev NodesFit (t : ArtTrie) (need : ArtNodeType → Nat) : Prop :=
  Fits ArtTrie.poolLen ArtNodeType.cap t need

/-! ## Costs of the operations -/

section costs

variable {t t' : ArtTrie} {r c : ArtChildRef} {n m : ArtNode} {b : UInt8}

lemma node_ne_none_iff : t.node r ≠ none ↔ r.idx < t.poolLen r.type := by
  obtain ⟨type, idx⟩ := r
  cases type <;> simp [ArtTrie.node, ArtTrie.poolLen]

@[simp] lemma poolLen_store (k : ArtNodeType) : (t.store r n).poolLen k = t.poolLen k := by
  cases n <;> cases k <;> simp [ArtTrie.store, ArtTrie.poolLen]

@[simp] lemma poolLen_setHeader (h : ArtNodeHeader) (k : ArtNodeType) : (t.setHeader r h).poolLen k = t.poolLen k := by
  rw [ArtTrie.setHeader]
  cases t.node r <;> simp

@[simp] lemma poolLen_patch (site : Option PatchSite) (k : ArtNodeType) : (t.patch r site).poolLen k = t.poolLen k := by
  rcases site with _ | _ | _ | _ | _ | _ <;> cases k <;> simp [ArtTrie.patch, ArtTrie.poolLen]

lemma poolLen_push (k j : ArtNodeType) : (t.push k).poolLen j = t.poolLen j + if j = k then 1 else 0 := by
  cases k <;> cases j <;> simp [ArtTrie.push, ArtTrie.poolLen]

lemma alloc_costs (hfit : NodesFit t 0) (k : ArtNodeType) :
    NodeCosts t (fun j => if j = k then 1 else 0) (t.alloc k) := by
  rw [ArtTrie.alloc]
  split_ifs with h
  · intro hall
    have := hall k
    simp only [if_true] at this
    omega
  · refine ⟨fun j => ?_, fun j => poolLen_push k j⟩
    have hj := hfit j
    by_cases hjk : j = k
    · subst hjk
      simp only [if_true]
      omega
    · simpa [hjk] using hj

lemma allocN4_costs (hfit : NodesFit t 0) : NodeCosts t leafNeeds t.allocN4 :=
  (alloc_costs hfit .n4).congr (fun _ => rfl) fun k => by cases k <;> rfl

lemma upgrade_costs (hfit : NodesFit t 0) (k : ArtNodeType) : NodeCosts t (fun j => if j = k then 1 else 0)
      ((t.alloc k).map fun (t, newRef) => (t.store newRef n, newRef)) := by
  have h := alloc_costs hfit k
  cases halloc : t.alloc k with
  | none => rwa [halloc] at h
  | some p =>
    rw [halloc] at h
    exact ⟨h.1, fun j => (poolLen_store j).trans (h.2 j)⟩

lemma addChild_costs (hfit : NodesFit t 0) (hn : t.node r = some n) :
    NodeCosts t n.upgradeNeeds (t.addChild r b c) := by
  have hroom : ∀ m : ArtNode, NodeCosts t 0 (some (t.store r m, r)) :=
    fun m => costs_zero hfit fun k => poolLen_store k
  rw [ArtTrie.addChild, hn]
  cases n with
  | n4 n =>
    by_cases h : n.entries.length < 4
    · simp only [if_pos h]
      exact (hroom _).congr (fun _ => rfl) fun k => by cases k <;> simp [ArtNode.upgradeNeeds, h]
    · simp only [if_neg h]
      exact (upgrade_costs hfit .n16).congr (fun _ => rfl) fun k => by
        cases k <;> simp [ArtNode.upgradeNeeds, h]
  | n16 n =>
    by_cases h : n.entries.length < 16
    · simp only [if_pos h]
      exact (hroom _).congr (fun _ => rfl) fun k => by cases k <;> simp [ArtNode.upgradeNeeds, h]
    · simp only [if_neg h]
      exact (upgrade_costs hfit .n48).congr (fun _ => rfl) fun k => by
        cases k <;> simp [ArtNode.upgradeNeeds, h]
  | n48 n =>
    by_cases h : n.children.length < 48
    · simp only [if_pos h]
      exact (hroom _).congr (fun _ => rfl) fun k => by cases k <;> simp [ArtNode.upgradeNeeds, h]
    · simp only [if_neg h]
      exact (upgrade_costs hfit .n256).congr (fun _ => rfl) fun k => by
        cases k <;> simp [ArtNode.upgradeNeeds, h]
  | n256 n => exact (hroom _).congr (fun _ => rfl) fun k => by cases k <;> simp [ArtNode.upgradeNeeds]

/-- A node with `s` children that has the size for them. -/
def ArtNode.Tight (s : Nat) : ArtNode → Prop
  | .n4 n => n.entries.length = s ∧ s ≤ 4
  | .n16 n => n.entries.length = s ∧ 4 < s ∧ s ≤ 16
  | .n48 n => n.children.length = s ∧ 16 < s ∧ s ≤ 48
  | .n256 _ => 48 < s

lemma ArtNode.Tight.add {s} (h : n.Tight s) : (n.add b c).Tight (s + 1) := by
  cases n with
  | n4 n =>
    obtain ⟨hlen, hle⟩ := h
    by_cases hroom : n.entries.length < 4
    · rw [ArtNode.add, if_pos hroom]
      exact ⟨by simp [hlen], by omega⟩
    · rw [ArtNode.add, if_neg hroom]
      exact ⟨by simp [hlen], by omega, by omega⟩
  | n16 n =>
    obtain ⟨hlen, hlt, hle⟩ := h
    by_cases hroom : n.entries.length < 16
    · rw [ArtNode.add, if_pos hroom]
      exact ⟨by simp [hlen], by omega, by omega⟩
    · rw [ArtNode.add, if_neg hroom]
      exact ⟨by simp [hlen], by omega, by omega⟩
  | n48 n =>
    obtain ⟨hlen, hlt, hle⟩ := h
    by_cases hroom : n.children.length < 48
    · rw [ArtNode.add, if_pos hroom]
      exact ⟨by simp [hlen], by omega, by omega⟩
    · rw [ArtNode.add, if_neg hroom]
      exact (by omega : 48 < s + 1)
  | n256 n => exact Nat.lt_succ_of_lt h

lemma ArtNode.Tight.upgradeNeeds {s} (h : n.Tight s) (k : ArtNodeType) :
    n.upgradeNeeds k = growthNeeds s (s + 1) k := by
  cases n with
  | n4 n =>
    obtain ⟨hlen, hle⟩ := h
    cases k <;> simp only [ArtNode.upgradeNeeds, growthNeeds] <;> (try split_ifs) <;> omega
  | n16 n =>
    obtain ⟨hlen, hlt, hle⟩ := h
    cases k <;> simp only [ArtNode.upgradeNeeds, growthNeeds] <;> (try split_ifs) <;> omega
  | n48 n =>
    obtain ⟨hlen, hlt, hle⟩ := h
    cases k <;> simp only [ArtNode.upgradeNeeds, growthNeeds] <;> (try split_ifs) <;> omega
  | n256 n =>
    have hlt : 48 < s := h
    cases k <;> simp only [ArtNode.upgradeNeeds, growthNeeds] <;> (try split_ifs) <;> omega

lemma growthNeeds_add {i j l} (hij : i ≤ j) (hjl : j ≤ l) (k : ArtNodeType) :
    growthNeeds i j k + growthNeeds j l k = growthNeeds i l k := by
  cases k <;> simp only [growthNeeds] <;> split_ifs <;> omega

lemma addChildren_costs (entries : List (UInt8 × ArtChildRef)) {s} (hfit : NodesFit t 0)
    (hn : t.node r = some n) (hs : n.Tight s) :
    NodeCosts t (growthNeeds s (s + entries.length)) (t.addChildren r entries) := by
  induction entries generalizing t r n s with
  | nil =>
    refine (costs_zero hfit fun k => rfl).congr (fun _ => rfl) fun k => ?_
    cases k <;> simp [growthNeeds]
  | cons e entries ih =>
    obtain ⟨b, c⟩ := e
    have heq : t.addChildren r ((b, c) :: entries) =
        (t.addChild r b c).bind fun p => p.1.addChildren p.2 entries := by
      rw [ArtTrie.addChildren]
      cases t.addChild r b c <;> rfl
    have hadd := addChild_costs (b := b) (c := c) hfit hn
    rw [heq]
    refine (hadd.bind (growthNeeds (s + 1) (s + 1 + entries.length)) ?_).congr (fun _ => rfl) ?_
    · intro t₁ r₁ h
      rw [h] at hadd
      exact ih hadd.fits_after (addChild_spec hn h).new hs.add
    · intro k
      rw [Pi.add_apply, hs.upgradeNeeds, growthNeeds_add (by omega) (by omega), List.length_cons,
        Nat.add_assoc, Nat.add_comm 1]

lemma allocN4_setHeader (h : t.allocN4 = some (t', r)) (hdr : ArtNodeHeader) :
    (t'.setHeader r hdr).node r = some ((ArtNode.empty .n4).setHdr hdr) ∧
    ∀ {i}, t.node i ≠ none → (t'.setHeader r hdr).node i = t.node i := by
  have A := alloc_spec h
  have htype : ((ArtNode.empty .n4).setHdr hdr).type = r.type := A.type.symm
  rw [setHeader_of_node A.new]
  refine ⟨node_store_self A.new htype, fun {i} hi => ?_⟩
  have hne : i ≠ r := by
    rintro rfl
    exact hi A.fresh
  rw [node_store_ne htype hne, A.old hne]

lemma appendLeaf_costs {st} (hfit : NodesFit st.trie 0) (hn : st.trie.node st.cur = some n) :
    NodeCosts st.trie (leafNeeds + n.upgradeNeeds) (appendLeaf st b) := by
  have heq : appendLeaf st b = st.trie.allocN4.bind fun p =>
      ((p.1.setHeader p.2 { edge := st.rest }).addChild st.cur b p.2).bind fun q =>
        some (if q.2 ≠ st.cur then q.1.patch q.2 st.site else q.1, p.2) := by
    rw [appendLeaf]
    cases st.trie.allocN4 with
    | none => rfl
    | some p =>
      simp only [Option.bind_some]
      cases (p.1.setHeader p.2 { edge := st.rest }).addChild st.cur b p.2 <;> rfl
  have halloc := allocN4_costs hfit
  rw [heq]
  refine halloc.bind _ fun t₁ leaf h₁ => ?_
  rw [h₁] at halloc
  have hcur := ((allocN4_setHeader h₁ { edge := st.rest }).2 (by simp [hn])).trans hn
  have hfit₁ : NodesFit (t₁.setHeader leaf { edge := st.rest }) 0 := by
    intro k
    rw [poolLen_setHeader]
    exact halloc.fits_after k
  have hadd := addChild_costs (b := b) (c := leaf) hfit₁ hcur
  refine (hadd.bind 0 fun t₂ p h₂ => ?_).congr (fun k => (poolLen_setHeader _ k).symm)
    fun k => by simp
  rw [h₂] at hadd
  refine costs_zero hadd.fits_after fun k => ?_
  split_ifs <;> simp

lemma splitEdge_costs {k} (hfit : NodesFit t 0) (hn : t.node r = some n) :
    NodeCosts t (leafNeeds + growthNeeds 0 n.entries.length) (t.splitEdge r k) := by
  set hdr : ArtNodeHeader := { edge := n.hdr.edge.drop k, routeIdxByMethod := n.hdr.routeIdxByMethod }
  set mid := (ArtNode.empty r.type).setHdr { edge := n.hdr.edge.take k } with hmid
  have heq : t.splitEdge r k = t.allocN4.bind fun p =>
      ((p.1.setHeader p.2 hdr).addChildren p.2 n.entries).bind fun q =>
        (q.1.store r mid).addChild r (n.hdr.edge.getD k 0) q.2 := by
    simp only [ArtTrie.splitEdge, hn]
    cases t.allocN4 with
    | none => rfl
    | some p =>
      simp only [Option.bind_some]
      cases (p.1.setHeader p.2 hdr).addChildren p.2 n.entries <;> rfl
  have halloc := allocN4_costs hfit
  rw [heq]
  refine halloc.bind _ fun t₁ tail h₁ => ?_
  rw [h₁] at halloc
  have htail := (allocN4_setHeader h₁ hdr).1
  have hfit₁ : NodesFit (t₁.setHeader tail hdr) 0 := by
    intro j
    rw [poolLen_setHeader]
    exact halloc.fits_after j
  have hadd := addChildren_costs n.entries (s := 0) hfit₁ htail ⟨rfl, by omega⟩
  refine (hadd.bind 0 fun t₂ tailRef h₂ => ?_).congr (fun j => (poolLen_setHeader _ j).symm)
    fun j => by simp
  rw [h₂] at hadd
  -- the split node is still there and is now empty
  have hr : r.idx < t₂.poolLen r.type := by
    have hlt := node_ne_none_iff.mp (by simp [hn] : t.node r ≠ none)
    have h₁ := halloc.2 r.type
    have h₂ := hadd.2 r.type
    rw [poolLen_setHeader] at h₂
    omega
  obtain ⟨m, hm⟩ := Option.ne_none_iff_exists'.mp (node_ne_none_iff.mpr hr)
  have hfit₂ : NodesFit (t₂.store r mid) 0 := by
    intro j
    rw [poolLen_store]
    exact hadd.fits_after j
  refine (addChild_costs hfit₂ (node_store_self hm (by simp [hmid]))).congr
    (fun j => (poolLen_store j).symm) fun j => ?_
  rw [hmid]
  cases r.type <;> cases j <;> rfl

end costs

/-! ## Costs of an insertion -/

section insert

variable {t t' : ArtTrie} {live : ArtChildRef → Prop} {path : ArtChildRef → Str} {cur : ArtChildRef}

lemma upgradeNeeds_of_not_full {n : ArtNode} (h : ¬n.Full) (k : ArtNodeType) : n.upgradeNeeds k = 0 := by
  cases n <;> cases k <;> simp_all [ArtNode.upgradeNeeds, ArtNode.Full]

lemma descent_costs (S : ArtShape t live path) (hfit : NodesFit t 0) (site : Option PatchSite) (rest : Str)
    (fuel : Nat) (hcur : live cur) (hfuel : rest.length < fuel) : ∃ x, loop (artExitStep t) fuel (cur, rest) = some x ∧
      NodeCosts t (t.exitNeeds x) (loop artInsertStep fuel ⟨t, cur, site, rest⟩).join := by
  induction fuel generalizing cur rest site with
  | zero => omega
  | succ fuel ih =>
    rw [loop, loop]
    cases rest with
    | nil => exact ⟨.node, rfl, costs_zero hfit fun k => rfl⟩
    | cons b rest =>
      simp only [artExitStep, artInsertStep]
      obtain ⟨n, hn, -⟩ := S.node hcur
      cases hfind : t.findChild cur b with
      | none =>
        refine ⟨_, rfl, ?_⟩
        simp only [Option.join, ArtTrie.exitNeeds, hn, Option.map_some, Option.getD_some]
        exact appendLeaf_costs hfit hn
      | some child =>
        have hchild := S.child_live hcur hfind
        obtain ⟨m, hm, -⟩ := S.node hchild
        obtain ⟨l, hedge, hpath⟩ := S.label hcur hfind
        rw [header_of_node hm] at hedge
        obtain ⟨c, e', p', he, hp', hlen, hdrop, hdiff⟩ := commonLength_child hedge rest
        have hshort : p'.length < fuel := by
          have := congrArg List.length hp'
          simp only [List.length_append, List.length_cons] at this hfuel
          omega
        simp only [header_of_node hm, hlen, hdrop]
        cases e' with
        | nil =>
          have hfull : (b :: c).length = m.hdr.edge.length := by rw [hedge, he, List.append_nil]
          simp only [if_pos hfull]
          exact ih _ _ hchild hshort
        | cons d l' =>
          have hpart : ¬ (b :: c).length = m.hdr.edge.length := by
            rw [hedge, he]
            simp
          simp only [if_neg hpart]
          refine ⟨_, rfl, ?_⟩
          have hsplit := splitEdge_costs (k := (b :: c).length) hfit hm
          simp only [ArtTrie.exitNeeds, hm, Option.map_some, Option.getD_some]
          cases hr : t.splitEdge child (b :: c).length with
          | none =>
            rw [hr] at hsplit
            exact fun h => hsplit (h.mono fun k => Nat.le_add_right ..)
          | some q =>
            obtain ⟨t', newChild⟩ := q
            obtain ⟨rfl, tail, A⟩ := splitEdge_splitAt S hchild hm (hedge.trans he) hr
            rw [hr] at hsplit
            -- one more turn: the path ends here, or the middle node takes the leaf
            suffices hturn : NodeCosts t' (if p' ≠ [] then leafNeeds else 0)
                (loop artInsertStep fuel ⟨t', newChild, site, p'⟩).join by
              have hboth := Costs.bind (f := fun _ => (loop artInsertStep fuel ⟨t', newChild, site, p'⟩).join)
                _ hsplit (fun s' x hs => by cases hs; exact hturn)
              simpa using hboth
            obtain ⟨fuel, rfl⟩ : ∃ f, fuel = f + 1 := ⟨fuel - 1, by omega⟩
            rw [loop]
            cases p' with
            | nil => exact costs_zero hsplit.fits_after fun k => rfl
            | cons y u =>
              have hy : t'.findChild newChild y = none := by
                rw [A.middle_findChild, if_neg (hdiff d y l' u rfl rfl).symm]
              obtain ⟨mid, hmid, -, hroom, -, -⟩ := A.middle
              simp only [artInsertStep, hy, Option.join]
              refine (appendLeaf_costs hsplit.fits_after hmid).congr (fun _ => rfl) fun k => ?_
              rw [if_pos (List.cons_ne_nil y u), Pi.add_apply, upgradeNeeds_of_not_full hroom, Nat.add_zero]

lemma insert_costs (S : ArtShape t live path) (hfit : NodesFit t 0) (p : Str) {m} (idx : RouteIdx)
    (hm : methodSlot m ≠ none) :
    ((t.insert p m idx).1 = true ↔ NodesFit t (t.exitNeeds (t.exit (finalizePathCanonical p)))) ∧
    ((t.insert p m idx).1 = true → ∀ k, (t.insert p m idx).2.poolLen k =
      t.poolLen k + t.exitNeeds (t.exit (finalizePathCanonical p)) k) := by
  obtain ⟨slot, hslot⟩ := Option.ne_none_iff_exists'.mp hm
  obtain ⟨x, hx, hcosts⟩ := descent_costs S hfit (some .root) (finalizePathCanonical p)
    ((finalizePathCanonical p).length + 1) S.tree.root_live (Nat.lt_succ_self _)
  have hexit : t.exit (finalizePathCanonical p) = x := by rw [ArtTrie.exit, hx, Option.getD_some]
  have hiff := hcosts.isSome_iff
  rw [hexit, NodesFit, ← hiff]
  simp only [ArtTrie.insert, hslot]
  rcases hr : loop artInsertStep ((finalizePathCanonical p).length + 1)
      ⟨t, t.rootRef, some .root, finalizePathCanonical p⟩ with _ | _ | ⟨t₁, cur⟩
  · simp
  · simp
  · rw [hr] at hcosts
    exact ⟨by simp, fun _ k => (poolLen_setHeader _ k).trans (hcosts.2 k)⟩

end insert

/-! ## Runs -/

section runs

variable {mode : ArtMatchMode} {t t' : ArtTrie} {e : Insertion} {n : Nat}

/-- After `n` insertions: every insertion takes at most two Node4, the first one at most one. -/
structure Filled (mode : ArtMatchMode) (n : Nat) (t : ArtTrie) : Prop where
  inv : ∃ es, ValidRoutes es ∧ ArtInv (fun _ => True) mode es t
  fits : NodesFit t 0
  n4 : t.poolLen .n4 ≤ max 1 (2 * n)
  first : n = 0 → t = ArtTrie.clear mode

lemma filled_clear : Filled mode 0 (ArtTrie.clear mode) where
  inv := ⟨[], by simp [ValidRoutes], artInv_clear pathBound_true⟩
  fits := by
    intro k
    cases k <;> simp [ArtTrie.poolLen, ArtTrie.clear, ArtNodeType.cap, kMaxN4]
  n4 := by simp [ArtTrie.poolLen, ArtTrie.clear]
  first := fun _ => rfl

lemma exitNeeds_n4 (t : ArtTrie) (x : ArtExit) : t.exitNeeds x .n4 ≤ 2 := by
  have hup : ∀ n : Option ArtNode, ((n.map ArtNode.upgradeNeeds).getD 0) .n4 = 0 := by
    intro n
    rcases n with _ | n
    · rfl
    · cases n <;> rfl
  cases x with
  | node => simp [ArtTrie.exitNeeds]
  | leaf cur => simp [ArtTrie.exitNeeds, hup, leafNeeds]
  | split child leaf => cases leaf <;> simp [ArtTrie.exitNeeds, growthNeeds, leafNeeds]

lemma exitNeeds_clear (mode : ArtMatchMode) (p : Str) : (ArtTrie.clear mode).exitNeeds ((ArtTrie.clear mode).exit p) .n4 ≤ 1 := by
  cases p with
  | nil => simp [ArtTrie.exit, loop, artExitStep, ArtTrie.exitNeeds]
  | cons b p => exact Nat.le_refl 1

lemma Filled.n4_room (F : Filled mode n t) (hn : n < 128) (p : Str) :
    t.poolLen .n4 + t.exitNeeds (t.exit p) .n4 ≤ max 1 (2 * (n + 1)) ∧
    t.poolLen .n4 + t.exitNeeds (t.exit p) .n4 ≤ ArtNodeType.cap .n4 := by
  have h4 := F.n4
  have hcap : ArtNodeType.cap .n4 = 256 := rfl
  rcases Nat.eq_zero_or_pos n with rfl | hpos
  · have hfirst := exitNeeds_clear mode p
    rw [← F.first rfl] at hfirst
    omega
  · have := exitNeeds_n4 t (t.exit p)
    omega

lemma Filled.insert_iff (F : Filled mode n t) (hn : n < 128) (hm : methodSlot e.method ≠ none) :
    (t.insert e.path e.method e.routeIdx).1 = true ↔ HasRoom t e.path := by
  obtain ⟨es, -, -, live, path, S, -⟩ := F.inv
  rw [(insert_costs S F.fits e.path e.routeIdx hm).1]
  constructor
  · exact fun h k _ => h k
  · intro h k
    by_cases hk : k = .n4
    · rw [hk]
      exact (F.n4_room hn _).2
    · exact h k hk

lemma Filled.insert (F : Filled mode n t) (hn : n < 128) (hm : methodSlot e.method ≠ none)
    (h : t.insert e.path e.method e.routeIdx = (true, t')) : Filled mode (n + 1) t' := by
  obtain ⟨es, hes, T⟩ := F.inv
  have hinv := T.insert_shape pathBound_true trivial hes h
  obtain ⟨-, live, path, S, -⟩ := T
  have hcosts := insert_costs S F.fits e.path e.routeIdx hm
  rw [h] at hcosts
  have hused := hcosts.2 rfl
  have hfits := hcosts.1.mp rfl
  refine ⟨hinv, ?_, ?_, by omega⟩
  · intro k
    have := hfits k
    rw [hused]
    simpa using this
  · rw [hused]
    exact (F.n4_room hn _).1

lemma Filled.insertAll_iff {es} (F : Filled mode n t) (hn : n + es.length ≤ 128)
    (hm : ∀ e ∈ es, methodSlot e.method ≠ none) : (t.insertAll es).isSome = true ↔
      ∀ done e rest s, es = done ++ e :: rest → t.insertAll done = some s → HasRoom s e.path := by
  induction es generalizing t n with
  | nil => simp [ArtTrie.insertAll]
  | cons e es ih =>
    have hiff := F.insert_iff (e := e) (by simp at hn; omega) (hm e (by simp))
    rw [ArtTrie.insertAll]
    rcases hr : t.insert e.path e.method e.routeIdx with ⟨_ | _, t₁⟩
    · rw [hr] at hiff
      simp only [Option.isSome_none, Bool.false_eq_true, false_iff, not_forall]
      exact ⟨[], e, es, t, rfl, rfl, fun h => absurd (hiff.mpr h) (by simp)⟩
    · rw [hr] at hiff
      have F₁ := F.insert (by simp at hn; omega) (hm e (by simp)) hr
      simp only [ih F₁ (by simp at hn; omega) fun d hd => hm d (by simp [hd])]
      constructor
      · intro h done d rest s heq hs
        cases done with
        | nil =>
          obtain ⟨rfl, rfl⟩ := List.cons.inj heq
          cases hs
          exact hiff.mp rfl
        | cons e' done =>
          obtain ⟨rfl, rfl⟩ := List.cons.inj heq
          rw [ArtTrie.insertAll, hr] at hs
          exact h done d rest s rfl hs
      · intro h done d rest s heq hs
        refine h (e :: done) d rest s (by rw [heq, List.cons_append]) ?_
        rw [ArtTrie.insertAll, hr]
        exact hs

end runs

/-- At most 128 insertions with recognised methods into an empty trie all succeed exactly if each of
them finds the larger nodes it takes in the pools; the Node4 pool always suffices. -/
theorem insertAll_succeeds_iff (mode : ArtMatchMode) (es : List Insertion) (hlen : es.length ≤ 128)
    (hm : ∀ e ∈ es, methodSlot e.method ≠ none) :
    ((ArtTrie.clear mode).insertAll es).isSome = true ↔
      ∀ done e rest t, es = done ++ e :: rest → (ArtTrie.clear mode).insertAll done = some t →
        HasRoom t e.path :=
  filled_clear.insertAll_iff (by omega) hm

def smallFan : List Insertion :=
  (List.range 5).map fun d => ⟨[ch '/', ch 'a', UInt8.ofNat (49 + d)], ch 'G', UInt16.ofNat d⟩

theorem smallFan_succeeds :
    ((ArtTrie.clear .segmentPrefix).insertAll smallFan).isSome = true ∧
      ∀ done e rest t, smallFan = done ++ e :: rest →
        (ArtTrie.clear .segmentPrefix).insertAll done = some t → HasRoom t e.path :=
  have h : ((ArtTrie.clear .segmentPrefix).insertAll smallFan).isSome = true := by decide
  ⟨h, (insertAll_succeeds_iff .segmentPrefix smallFan (by decide) (by decide)).mp h⟩

/-- Under each of four letters, five routes that share a prefix `aa…a` make its node a Node16. The shorter prefixes then
split the edge to this node from the top down; its children move to a new Node16 each time. -/
def deepFan : List Insertion :=
  (List.range 4).flatMap fun i =>
    let top := [ch '/', UInt8.ofNat (65 + i)]
    (List.range 5).map (fun d => ⟨top ++ List.replicate 16 (ch 'a') ++ [UInt8.ofNat (49 + d)], ch 'G', UInt16.ofNat d⟩) ++
      (List.range 16).map fun j => ⟨top ++ List.replicate j (ch 'a'), ch 'G', UInt16.ofNat (5 + j)⟩

/-- The 81st of these insertions fails. -/
theorem deepFan_exhausts_n16 :
    ¬ ∀ (mode : ArtMatchMode) (es : List Insertion), es.length ≤ 128 →
      (∀ e ∈ es, (finalizePathCanonical e.path).length < 128 ∧ methodSlot e.method ≠ none) →
      ((ArtTrie.clear mode).insertAll es).isSome = true := by
  intro h
  have hsome := h .segmentPrefix deepFan (by decide) (by decide)
  have hnone : ((ArtTrie.clear .segmentPrefix).insertAll deepFan).isSome = false := by decide +kernel
  rw [hnone] at hsome
  cases hsome

end Rut.Route
