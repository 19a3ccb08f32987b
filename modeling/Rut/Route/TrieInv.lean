import Rut.Lib.PathTree
import Rut.Route.Spec

/-!
# The invariant of the segment trie

The nodes of the pool form a tree whose paths are lists of segments, and the tables of the node with
path `p` hold the routes that were registered first for `p`. Insertion keeps this: its segment loop
extends the tree by leaves, and the rest of it publishes the new children, the route and the method.
-/

set_option linter.all false
namespace Rut.Route

open Lib

/-! ## The node pool -/

section pool

variable {nodes : List TrieNode} {f : TrieNode → TrieNode} {i j : Nat}

lemma nodeAt_modify (hi : i < nodes.length) :
    nodeAt (nodes.modify j f) i = if j = i then f (nodeAt nodes i) else nodeAt nodes i := by
  simp only [nodeAt, List.getD_eq_getElem?_getD, List.getElem?_modify]
  split_ifs with h
  · simp [hi]
  · simp

lemma nodeAt_append_left {more} (hi : i < nodes.length) : nodeAt (nodes ++ more) i = nodeAt nodes i := by
  simp [nodeAt, List.getD_eq_getElem?_getD, List.getElem?_append_left hi]

lemma nodeAt_concat (n : TrieNode) : nodeAt (nodes ++ [n]) nodes.length = n := by
  simp [nodeAt]

end pool

/-! ## Shape and content -/

/-- The pool is a tree with the given paths, every label being the segment of the node. -/
structure Shape (nodes : List TrieNode) (path : Nat → List Str) : Prop where
  tree : PathTree (· < nodes.length) (fun i c => c ∈ (nodeAt nodes i).children.data) 0 path
  label : ∀ {i c}, i < nodes.length → c ∈ (nodeAt nodes i).children.data →
    path c = path i ++ [(nodeAt nodes c).segment]
  label_ne : ∀ {i c}, i < nodes.length → c ∈ (nodeAt nodes i).children.data →
    (nodeAt nodes c).segment ≠ []
  fanout : ∀ {i}, i < nodes.length → (nodeAt nodes i).children.data.length ≤ kMaxChildren

def Below (es : List Insertion) (slot : Slot) (p : List Str) : Prop :=
  ∃ e ∈ es, methodSlot e.method = some slot ∧ p <+: segments e.path

structure Content (nodes : List TrieNode) (path : Nat → List Str) (es : List Insertion) : Prop where
  route : ∀ {i}, i < nodes.length → ∀ slot, (nodeAt nodes i).routeIdxByMethod slot =
    (firstRoute segments es (path i) slot).getD kInvalidRoute
  mask : ∀ {i}, i < nodes.length → ∀ slot : Slot,
    (nodeAt nodes i).children.methodMask.testBit slot.val = true ↔ Below es slot (path i)
  complete : ∀ e ∈ es, ∃ i < nodes.length, path i = segments e.path

structure Partitioned (isParam : Nat → Bool) (data : List Nat) (paramCount : Nat) : Prop where
  le : paramCount ≤ data.length
  params : ∀ c ∈ data.take paramCount, isParam c = true
  literals : ∀ c ∈ data.drop paramCount, isParam c = false

lemma Partitioned.congr {p q : Nat → Bool} {data n} (h : Partitioned p data n)
    (hpq : ∀ c ∈ data, p c = q c) : Partitioned q data n where
  le := h.le
  params := fun c hc => hpq c (List.mem_of_mem_take hc) ▸ h.params c hc
  literals := fun c hc => hpq c (List.mem_of_mem_drop hc) ▸ h.literals c hc

structure TrieInv (t : RouteTrie) (path : Nat → List Str) (es : List Insertion) : Prop where
  shape : Shape t.nodes path
  content : Content t.nodes path es
  methodMask : ∀ slot : Slot, t.methodMask.testBit slot.val = true ↔ Below es slot []
  partition : ∀ {i}, i < t.nodes.length → Partitioned (isParamNode t.nodes)
    (nodeAt t.nodes i).children.data (nodeAt t.nodes i).children.paramCount
  backtracking : ∀ {i}, i < t.nodes.length → (nodeAt t.nodes i).children.paramCount ≠ 0 →
    1 < (nodeAt t.nodes i).children.data.length → t.needsBacktracking = true
  short : ∀ e ∈ es, (segments e.path).length ≤ kMaxPathSegments

lemma trieInv_clear : TrieInv .clear (fun _ => []) [] := by
  have h0 : ∀ {i}, i < RouteTrie.clear.nodes.length → nodeAt RouteTrie.clear.nodes i = {} := by
    intro i hi
    simp only [RouteTrie.clear, List.length_singleton, Nat.lt_one_iff] at hi
    subst hi
    rfl
  have hno : ∀ {slot : Slot} {p}, ¬ Below [] slot p := by simp [Below]
  have hroot : ∀ {i}, i < RouteTrie.clear.nodes.length → i = 0 := by
    intro i hi
    simpa [RouteTrie.clear] using hi
  refine ⟨⟨⟨?_, rfl, ?_, ?_, ?_, ?_⟩, ?_, ?_, ?_⟩, ⟨?_, ?_, by simp⟩, ?_, ?_, ?_, by simp⟩
  · exact Nat.zero_lt_one
  · intro i c hi hc
    simp [h0 hi] at hc
  · intro i c hi hc
    simp [h0 hi] at hc
  · exact fun hj => .inl (hroot hj)
  · intro i c d a l m hi hc
    simp [h0 hi] at hc
  · intro i c hi hc
    simp [h0 hi] at hc
  · intro i c hi hc
    simp [h0 hi] at hc
  · intro i hi
    simp [h0 hi]
  · intro i hi slot
    simp [h0 hi]
  · intro i hi slot
    simp [h0 hi, hno]
  · intro slot
    simp [RouteTrie.clear, hno]
  · intro i hi
    rw [h0 hi]
    exact ⟨Nat.le_refl _, by simp, by simp⟩
  · intro i hi hne
    simp [h0 hi] at hne

/-! ## Finding children -/

section find

variable {nodes : List TrieNode} {path : Nat → List Str} {i : Nat} {seg : Str} {first : Nat}

lemma findChild_some {c} (h : findChild nodes i seg first = some c) :
    c ∈ (nodeAt nodes i).children.data.drop first ∧ (nodeAt nodes c).segment = seg := by
  rw [findChild] at h
  split_ifs at h
  exact ⟨List.mem_of_find?_eq_some h, by simpa using List.find?_some h⟩

lemma findChild_none (hseg : seg ≠ []) (h : findChild nodes i seg first = none) :
    ∀ c ∈ (nodeAt nodes i).children.data.drop first, (nodeAt nodes c).segment ≠ seg := by
  rw [findChild, if_neg hseg] at h
  simpa using h

lemma findChild_path (S : Shape nodes path) (hi : i < nodes.length) {c} (h : findChild nodes i seg first = some c) :
    c ∈ (nodeAt nodes i).children.data ∧ path c = path i ++ [seg] := by
  obtain ⟨hc, hs⟩ := findChild_some h
  have hc := List.mem_of_mem_drop hc
  exact ⟨hc, hs ▸ S.label hi hc⟩

end find

/-! ## The segment loop -/

lemma Shape.prefix_closed {nodes path} (S : Shape nodes path) {j p} (hj : j < nodes.length)
    (hp : p <+: path j) : ∃ i < nodes.length, path i = p := by
  induction p using List.reverseRecOn with
  | nil => exact ⟨0, S.tree.root_live, S.tree.root_path⟩
  | append_singleton p seg ih =>
    obtain ⟨i, hi, hpi⟩ := ih ((List.prefix_append p [seg]).trans hp)
    rcases S.tree.way_down hi hj (hpi ▸ (List.prefix_append p [seg]).trans hp) with rfl | ⟨c, hc, hcj⟩
    · have := hp.length_le
      simp only [hpi, List.length_append, List.length_cons] at this
      omega
    · refine ⟨c, S.tree.child_live hi hc, ?_⟩
      have hlab := S.label hi hc
      rw [hpi] at hlab
      refine (List.prefix_of_prefix_length_le hp hcj ?_).eq_of_length ?_ |>.symm <;> simp [hlab]

/-- The new children of a node stand behind its partitioned ones until they are published. -/
def PartitionedBut (isParam : Nat → Bool) (pushed : Prop) (data : List Nat) (paramCount : Nat) : Prop :=
  ∃ old new, data = old ++ new ∧ Partitioned isParam old paramCount ∧
    ((pushed ∧ new.length = 1) ∨ (¬ pushed ∧ new = []))

/-- The invariant of the segment loop of `insert` behind the segments `done`. -/
structure Growing (es : List Insertion) (needsBacktracking : Bool) (st : InsertState)
    (path : Nat → List Str) (done : List Str) : Prop where
  shape : Shape st.nodes path
  content : Content st.nodes path es
  cur_lt : st.cur < st.nodes.length
  cur_path : path st.cur = done
  visited : ∀ {i}, i < st.nodes.length → (i ∈ st.visited ↔ path i <+: done)
  pushed : ∀ {i}, i ∈ st.pushedParents → i < st.nodes.length ∧ (path i).length < done.length
  nodup : st.pushedParents.Nodup
  partition : ∀ {i}, i < st.nodes.length → PartitionedBut (isParamNode st.nodes)
    (i ∈ st.pushedParents) (nodeAt st.nodes i).children.data (nodeAt st.nodes i).children.paramCount
  backtracking : ∀ {i}, i < st.nodes.length → i ∉ st.pushedParents →
    (nodeAt st.nodes i).children.paramCount ≠ 0 →
    1 < (nodeAt st.nodes i).children.data.length → needsBacktracking = true

lemma Growing.follow {es nb st path done seg c} (G : Growing es nb st path done)
    (h : findChild st.nodes st.cur seg 0 = some c) :
    Growing es nb { st with cur := c, visited := st.visited ++ [c] } path (done ++ [seg]) := by
  obtain ⟨hc, hpc⟩ := findChild_path G.shape G.cur_lt h
  have hlt := G.shape.tree.child_live G.cur_lt hc
  rw [G.cur_path] at hpc
  exact
    { shape := G.shape
      content := G.content
      cur_lt := hlt
      cur_path := hpc
      visited := by
        intro i hi
        rw [List.mem_append, G.visited hi, List.prefix_concat_iff, List.mem_singleton, ← hpc, or_comm]
        exact or_congr_left ⟨fun h => h ▸ rfl, G.shape.tree.path_inj hi hlt⟩
      pushed := by
        intro i hi
        obtain ⟨h1, h2⟩ := G.pushed hi
        exact ⟨h1, by simp; omega⟩
      nodup := G.nodup
      partition := G.partition
      backtracking := G.backtracking }

/-- The pool after a leaf was added under `cur`. -/
def growNodes (nodes : List TrieNode) (cur : Nat) (seg : Str) : List TrieNode :=
  (nodes ++ [({ segment := seg } : TrieNode)]).modify cur (pushChild nodes.length)

section grow

variable {nodes : List TrieNode} {path : Nat → List Str} {cur i : Nat} {seg : Str}

@[simp] lemma length_growNodes : (growNodes nodes cur seg).length = nodes.length + 1 := by
  simp [growNodes]

lemma nodeAt_growNodes_old (hi : i < nodes.length) : nodeAt (growNodes nodes cur seg) i =
      if cur = i then pushChild nodes.length (nodeAt nodes i) else nodeAt nodes i := by
  rw [growNodes, nodeAt_modify (by simp; omega), nodeAt_append_left hi]

lemma nodeAt_growNodes_new (hcur : cur < nodes.length) :
    nodeAt (growNodes nodes cur seg) nodes.length = { segment := seg } := by
  rw [growNodes, nodeAt_modify (by simp), if_neg (by omega), nodeAt_concat]

lemma mem_children_growNodes {c} (hi : i < nodes.length) : c ∈ (nodeAt (growNodes nodes cur seg) i).children.data ↔
      c ∈ (nodeAt nodes i).children.data ∨ i = cur ∧ c = nodes.length := by
  rw [nodeAt_growNodes_old hi]
  split_ifs with h
  · simp [pushChild, h]
  · simp [Ne.symm h]

lemma segment_growNodes_old (hi : i < nodes.length) :
    (nodeAt (growNodes nodes cur seg) i).segment = (nodeAt nodes i).segment := by
  rw [nodeAt_growNodes_old hi]
  split_ifs <;> rfl

lemma path_old {p} (hi : i < nodes.length) : Function.update path nodes.length p i = path i :=
  Function.update_of_ne (Nat.ne_of_lt hi) ..

lemma lt_growNodes (hi : i < (growNodes nodes cur seg).length) : i < nodes.length ∨ i = nodes.length := by
  rw [length_growNodes] at hi
  omega

lemma Shape.grow (S : Shape nodes path) (hcur : cur < nodes.length) (hseg : seg ≠ [])
    (hroom : (nodeAt nodes cur).children.data.length < kMaxChildren)
    (hnone : ∀ c ∈ (nodeAt nodes cur).children.data, (nodeAt nodes c).segment ≠ seg) :
    Shape (growNodes nodes cur seg) (Function.update path nodes.length (path cur ++ [seg])) := by
  have hleaf : ∀ {c}, c ∉ (nodeAt (growNodes nodes cur seg) nodes.length).children.data := by
    simp [nodeAt_growNodes_new hcur]
  have htree : PathTree (· < (growNodes nodes cur seg).length)
      (fun i c => c ∈ (nodeAt (growNodes nodes cur seg) i).children.data) 0
      (Function.update path nodes.length (path cur ++ [seg])) := by
    refine S.tree.addLeaf (p := cur) (n := nodes.length) (a := seg) (l := []) hcur (Nat.lt_irrefl _) ?_ ?_
      (fun hi => mem_children_growNodes hi) hleaf path_old (Function.update_self ..)
    · intro c m hc heq
      rw [S.label hcur hc] at heq
      exact hnone c hc (List.cons.inj (List.append_cancel_left heq)).1
    · intro i
      rw [length_growNodes]
      omega
  refine ⟨htree, ?_, ?_, ?_⟩
  · intro i c hi hc
    rcases lt_growNodes hi with hi | rfl
    · rcases (mem_children_growNodes hi).mp hc with hc | ⟨hic, rfl⟩
      · have hclt := S.tree.child_live hi hc
        rw [path_old hi, path_old hclt, segment_growNodes_old hclt]
        exact S.label hi hc
      · rw [path_old hi, Function.update_self, nodeAt_growNodes_new hcur, hic]
    · exact absurd hc hleaf
  · intro i c hi hc
    rcases lt_growNodes hi with hi | rfl
    · rcases (mem_children_growNodes hi).mp hc with hc | ⟨rfl, rfl⟩
      · rw [segment_growNodes_old (S.tree.child_live hi hc)]
        exact S.label_ne hi hc
      · rwa [nodeAt_growNodes_new hcur]
    · exact absurd hc hleaf
  · intro i hi
    rcases lt_growNodes hi with hi | rfl
    · rw [nodeAt_growNodes_old hi]
      split_ifs with h
      · subst h
        simpa [pushChild] using Nat.succ_le_of_lt hroom
      · exact S.fanout hi
    · simp [nodeAt_growNodes_new hcur]

lemma Content.grow {es} (S : Shape nodes path) (C : Content nodes path es) (hcur : cur < nodes.length)
    (hnone : ∀ c ∈ (nodeAt nodes cur).children.data, (nodeAt nodes c).segment ≠ seg) :
    Content (growNodes nodes cur seg) (Function.update path nodes.length (path cur ++ [seg])) es := by
  -- no insertion went through the new path: its node would be there already
  have hnew : ∀ slot, ¬ Below es slot (path cur ++ [seg]) := by
    rintro slot ⟨e, he, -, hpre⟩
    obtain ⟨j, hj, hpj⟩ := C.complete e he
    obtain ⟨i, hi, hpi⟩ := S.prefix_closed hj (hpj ▸ hpre)
    rcases S.tree.way_down hcur hi (hpi ▸ List.prefix_append ..) with rfl | ⟨c, hc, hci⟩
    · simp at hpi
    · rw [hpi, S.label hcur hc, List.prefix_append_right_inj] at hci
      exact hnone c hc (List.cons.inj (hci.eq_of_length rfl)).1
  refine ⟨?_, ?_, ?_⟩
  · intro i hi slot
    rcases lt_growNodes hi with hi | rfl
    · rw [path_old hi, ← C.route hi, nodeAt_growNodes_old hi]
      split_ifs <;> rfl
    · rw [nodeAt_growNodes_new hcur, Function.update_self]
      have : firstRoute segments es (path cur ++ [seg]) slot = none := by
        rw [firstRoute_eq_none]
        rintro e he ⟨hs, hm⟩
        exact hnew slot ⟨e, he, hm, hs ▸ List.prefix_refl _⟩
      simp [this]
  · intro i hi slot
    rcases lt_growNodes hi with hi | rfl
    · rw [path_old hi, ← C.mask hi, nodeAt_growNodes_old hi]
      split_ifs <;> rfl
    · rw [nodeAt_growNodes_new hcur, Function.update_self]
      simp [hnew slot]
  · intro e he
    obtain ⟨i, hi, hp⟩ := C.complete e he
    exact ⟨i, by rw [length_growNodes]; omega, by rw [path_old hi, hp]⟩

end grow

lemma Growing.grow {es nb st path done seg} (G : Growing es nb st path done) (hseg : seg ≠ [])
    (hroom : (nodeAt st.nodes st.cur).children.data.length < kMaxChildren)
    (h : findChild st.nodes st.cur seg 0 = none) : Growing es nb
      { nodes := growNodes st.nodes st.cur seg
        pushedParents := st.pushedParents ++ [st.cur]
        visited := st.visited ++ [st.nodes.length]
        cur := st.nodes.length }
      (Function.update path st.nodes.length (path st.cur ++ [seg])) (done ++ [seg]) := by
  have hcur := G.cur_lt
  have hnone : ∀ c ∈ (nodeAt st.nodes st.cur).children.data, (nodeAt st.nodes c).segment ≠ seg := by
    simpa using findChild_none hseg h
  have hpath : ∀ {i}, i < st.nodes.length →
      Function.update path st.nodes.length (path st.cur ++ [seg]) i = path i :=
    fun hi => Function.update_of_ne (Nat.ne_of_lt hi) ..
  have hself : Function.update path st.nodes.length (path st.cur ++ [seg]) st.nodes.length =
      done ++ [seg] := by
    rw [Function.update_self, G.cur_path]
  have hlen : ∀ {i}, i < (growNodes st.nodes st.cur seg).length →
      i < st.nodes.length ∨ i = st.nodes.length := by
    intro i hi
    rw [length_growNodes] at hi
    omega
  have hcurNot : st.cur ∉ st.pushedParents := by
    intro hm
    have := (G.pushed hm).2
    rw [G.cur_path] at this
    omega
  exact
    { shape := G.shape.grow hcur hseg hroom hnone
      content := G.content.grow G.shape hcur hnone
      cur_lt := by simp
      cur_path := hself
      visited := by
        intro i hi
        rw [List.mem_append, List.mem_singleton, List.prefix_concat_iff]
        rcases hlen hi with hi | rfl
        · have hne : path i ≠ done ++ [seg] := by
            intro hpi
            rcases G.shape.tree.way_down hcur hi (by rw [hpi, G.cur_path]; simp) with rfl | ⟨c, hc, hci⟩
            · simp [G.cur_path] at hpi
            · rw [hpi, G.shape.label hcur hc, G.cur_path, List.prefix_append_right_inj] at hci
              exact hnone c hc (List.cons.inj (hci.eq_of_length rfl)).1
          simp [hne, G.visited hi, Nat.ne_of_lt hi]
        · exact ⟨fun _ => .inl hself, fun _ => .inr rfl⟩
      pushed := by
        intro i hi
        rcases List.mem_append.mp hi with hi | hi
        · obtain ⟨h1, h2⟩ := G.pushed hi
          rw [hpath h1]
          exact ⟨by rw [length_growNodes]; omega, by simp; omega⟩
        · rw [List.mem_singleton.mp hi, hpath hcur, G.cur_path]
          exact ⟨by rw [length_growNodes]; omega, by simp⟩
      nodup := by
        rw [List.nodup_append]
        refine ⟨G.nodup, by simp, ?_⟩
        intro a ha b hb hab
        rw [List.mem_singleton.mp hb] at hab
        exact hcurNot (hab ▸ ha)
      partition := by
        intro i hi
        rcases hlen hi with hi | rfl
        · obtain ⟨old, new, hdata, hold, hnew⟩ := G.partition hi
          have hold : Partitioned (isParamNode (growNodes st.nodes st.cur seg)) old
              (nodeAt st.nodes i).children.paramCount := by
            refine hold.congr fun c hc => ?_
            have hclt := G.shape.tree.child_live hi (hdata ▸ List.mem_append_left _ hc)
            rw [isParamNode, isParamNode, segment_growNodes_old hclt]
          simp only [nodeAt_growNodes_old hi, List.mem_append, List.mem_singleton]
          by_cases hic : st.cur = i
          · obtain ⟨hp, -⟩ | ⟨-, rfl⟩ := hnew
            · exact absurd (hic ▸ hp) hcurNot
            · refine ⟨old, [st.nodes.length], ?_, ?_, .inl ⟨.inr hic.symm, rfl⟩⟩
              · simp [hic, pushChild, hdata]
              · simpa [hic, pushChild] using hold
          · refine ⟨old, new, ?_, ?_, ?_⟩
            · rw [if_neg hic, hdata]
            · rwa [if_neg hic]
            · simpa [Ne.symm hic] using hnew
        · refine ⟨[], [], ?_, ?_, .inr ⟨?_, rfl⟩⟩
          · simp [nodeAt_growNodes_new hcur]
          · rw [nodeAt_growNodes_new hcur]
            exact ⟨Nat.le_refl _, by simp, by simp⟩
          · rw [List.mem_append, List.mem_singleton, not_or]
            exact ⟨fun hm => Nat.lt_irrefl _ (G.pushed hm).1, Nat.ne_of_gt hcur⟩
      backtracking := by
        intro i hi hnot
        rw [List.mem_append, List.mem_singleton, not_or] at hnot
        rcases hlen hi with hi | rfl
        · simp only [nodeAt_growNodes_old hi, if_neg (Ne.symm hnot.2)]
          exact G.backtracking hi hnot.1
        · simp [nodeAt_growNodes_new hcur] }

lemma Growing.insertSegments {es nb st path done segs st'} (G : Growing es nb st path done)
    (hne : ∀ seg ∈ segs, seg ≠ []) (h : insertSegments segs st = .ok st') :
    ∃ path', Growing es nb st' path' (done ++ segs) := by
  induction segs generalizing st path done with
  | nil =>
    cases h
    exact ⟨path, by simpa using G⟩
  | cons seg segs ih =>
    have hnext : ∃ st1 path1, Growing es nb st1 path1 (done ++ [seg]) ∧
        Rut.Route.insertSegments segs st1 = .ok st' := by
      rw [Rut.Route.insertSegments, insertSegment] at h
      cases hf : findChild st.nodes st.cur seg 0 with
      | some c =>
        simp only [hf] at h
        exact ⟨_, path, G.follow hf, h⟩
      | none =>
        simp only [hf] at h
        by_cases hcap : kMaxNodes ≤ st.nodes.length ∨
            kMaxChildren ≤ (nodeAt st.nodes st.cur).children.data.length
        · simp only [if_pos hcap] at h
          cases h
        · simp only [if_neg hcap] at h
          exact ⟨_, _, G.grow (hne seg (by simp)) (by omega) hf, h⟩
    obtain ⟨st1, path1, G1, h1⟩ := hnext
    obtain ⟨path', G'⟩ := ih G1 (fun s hs => hne s (by simp [hs])) h1
    exact ⟨path', by simpa using G'⟩

/-! ## Publishing -/

section publish

variable {nodes : List TrieNode} {i j : Nat}

lemma segment_modify {f} (hf : ∀ n, (f n).segment = n.segment) :
    (nodeAt (nodes.modify j f) i).segment = (nodeAt nodes i).segment := by
  by_cases hi : i < nodes.length
  · rw [nodeAt_modify hi]
    split_ifs
    · exact hf _
    · rfl
  · simp [nodeAt, List.getD_eq_getElem?_getD, hi]

lemma publishLast_spec {isParam old n} (c mask : Nat) (h : Partitioned isParam old n) :
    ∃ data count, Children.publishLast isParam ⟨old ++ [c], n, mask⟩ = ⟨data, count, mask⟩ ∧
      Partitioned isParam data count ∧ (∀ x, x ∈ data ↔ x ∈ old ++ [c]) ∧ data.length = (old ++ [c]).length := by
  have hle := h.le
  by_cases hc : isParam c = true
  · have htake : (old ++ [c]).take n = old.take n := List.take_append_of_le_length hle
    have hdrop : ((old ++ [c]).drop n).dropLast = old.drop n := by
      rw [List.drop_append_of_le_length hle, List.dropLast_concat]
    have hn : (old.take n).length = n := by simp [hle]
    refine ⟨old.take n ++ c :: old.drop n, n + 1, ?_, ⟨?_, ?_, ?_⟩, ?_, ?_⟩
    · simp [Children.publishLast, hc, htake, hdrop]
    · simp
      omega
    · rw [List.take_append, hn, List.take_of_length_le (by omega)]
      intro x hx
      rcases List.mem_append.mp hx with hx | hx
      · exact h.params x hx
      · simp at hx
        exact hx ▸ hc
    · rw [List.drop_append, hn, List.drop_of_length_le (by omega)]
      simpa using h.literals
    · intro x
      have hmem : x ∈ old ↔ x ∈ old.take n ∨ x ∈ old.drop n := by
        rw [← List.mem_append, List.take_append_drop]
      simp only [List.mem_append, List.mem_cons, List.not_mem_nil, or_false, hmem]
      tauto
    · simp
      omega
  · refine ⟨old ++ [c], n, ?_, ⟨?_, ?_, ?_⟩, fun x => Iff.rfl, rfl⟩
    · simp [Children.publishLast, hc]
    · simp
      omega
    · rw [List.take_append_of_le_length hle]
      exact h.params
    · rw [List.drop_append_of_le_length hle]
      intro x hx
      rcases List.mem_append.mp hx with hx | hx
      · exact h.literals x hx
      · simpa [List.mem_singleton.mp hx] using hc

lemma publish_spec (nodes : List TrieNode) {pushed : List Nat} (nb : Bool) (hnodup : pushed.Nodup)
    (hlt : ∀ p ∈ pushed, p < nodes.length) : (pushed.foldl publishParent (nodes, nb)).1.length = nodes.length ∧
    (∀ i < nodes.length, nodeAt (pushed.foldl publishParent (nodes, nb)).1 i =
      if i ∈ pushed then publishNode (isParamNode nodes) (nodeAt nodes i) else nodeAt nodes i) ∧
    (nb = true → (pushed.foldl publishParent (nodes, nb)).2 = true) ∧
    ∀ p ∈ pushed, (publishNode (isParamNode nodes) (nodeAt nodes p)).children.competing = true →
      (pushed.foldl publishParent (nodes, nb)).2 = true := by
  induction pushed generalizing nodes nb with
  | nil => simp
  | cons p pushed ih =>
    have hp := hlt p (by simp)
    obtain ⟨hnot, hnodup⟩ := List.nodup_cons.mp hnodup
    have hparam : isParamNode (nodes.modify p (publishNode (isParamNode nodes))) = isParamNode nodes := by
      funext k
      rw [isParamNode, isParamNode, segment_modify (fun n => by rfl)]
    have hat : ∀ {i}, i < nodes.length → nodeAt (nodes.modify p (publishNode (isParamNode nodes))) i =
        if p = i then publishNode (isParamNode nodes) (nodeAt nodes i) else nodeAt nodes i :=
      fun hi => nodeAt_modify hi
    have hstep : publishParent (nodes, nb) p =
        (nodes.modify p (publishNode (isParamNode nodes)),
          nb || (publishNode (isParamNode nodes) (nodeAt nodes p)).children.competing) := by
      rw [publishParent, hat hp, if_pos rfl]
    obtain ⟨h1, h2, h3, h4⟩ := @ih (nodes.modify p (publishNode (isParamNode nodes)))
      (nb || (publishNode (isParamNode nodes) (nodeAt nodes p)).children.competing) hnodup
      (fun q hq => by simpa using hlt q (by simp [hq]))
    rw [hparam] at h2 h4
    rw [List.length_modify] at h1 h2
    simp only [List.foldl_cons, hstep]
    refine ⟨h1, ?_, ?_, ?_⟩
    · intro i hi
      rw [h2 i hi, hat hi]
      by_cases hip : p = i
      · subst hip
        simp [hnot]
      · simp [hip, Ne.symm hip]
    · intro hnb
      exact h3 (by simp [hnb])
    · intro q hq hcomp
      rcases List.mem_cons.mp hq with rfl | hq
      · exact h3 (by simp [hcomp])
      · refine h4 q hq ?_
        rwa [hat (hlt q (by simp [hq])), if_neg (fun hpq => hnot (by rwa [hpq]))]

lemma addMethods_spec (nodes : List TrieNode) (visited : List Nat) (bit : Nat) :
    (visited.foldl (fun nodes i => nodes.modify i (addMethod bit)) nodes).length = nodes.length ∧
    ∀ i < nodes.length, nodeAt (visited.foldl (fun nodes i => nodes.modify i (addMethod bit)) nodes) i =
      if i ∈ visited then addMethod bit (nodeAt nodes i) else nodeAt nodes i := by
  induction visited generalizing nodes with
  | nil => simp
  | cons v visited ih =>
    obtain ⟨h1, h2⟩ := @ih (nodes.modify v (addMethod bit))
    rw [List.length_modify] at h1 h2
    refine ⟨h1, ?_⟩
    intro i hi
    rw [List.foldl_cons, h2 i hi, nodeAt_modify hi]
    by_cases hv : v = i
    · subst hv
      by_cases hm : v ∈ visited <;> simp [hm, addMethod]
    · simp [hv, Ne.symm hv]

end publish

/-! ## Insertion -/

lemma Shape.congr {nodes nodes' path} (S : Shape nodes path) (hlen : nodes'.length = nodes.length)
    (hseg : ∀ {i}, i < nodes.length → (nodeAt nodes' i).segment = (nodeAt nodes i).segment)
    (hmem : ∀ {i c}, i < nodes.length → (c ∈ (nodeAt nodes' i).children.data ↔ c ∈ (nodeAt nodes i).children.data))
    (hdata : ∀ {i}, i < nodes.length → (nodeAt nodes' i).children.data.length = (nodeAt nodes i).children.data.length) :
    Shape nodes' path where
  tree := S.tree.congr (by rw [hlen]) hmem
  label := by
    intro i c hi hc
    rw [hlen] at hi
    have hc := (hmem hi).mp hc
    rw [hseg (S.tree.child_live hi hc)]
    exact S.label hi hc
  label_ne := by
    intro i c hi hc
    rw [hlen] at hi
    have hc := (hmem hi).mp hc
    rw [hseg (S.tree.child_live hi hc)]
    exact S.label_ne hi hc
  fanout := by
    intro i hi
    rw [hlen] at hi
    rw [hdata hi]
    exact S.fanout hi

lemma below_concat {es} {e : Insertion} {slot p} : Below (es ++ [e]) slot p ↔
      Below es slot p ∨ (methodSlot e.method = some slot ∧ p <+: segments e.path) := by
  simp [Below, or_and_right, exists_or]

lemma testBit_addMethod {mask} {slot s : Slot} :
    (mask ||| 1 <<< slot.val).testBit s.val = true ↔ mask.testBit s.val = true ∨ slot = s := by
  rw [Nat.testBit_or, Nat.one_shiftLeft, Nat.testBit_two_pow, Bool.or_eq_true, decide_eq_true_eq,
    Fin.ext_iff]

lemma recordRoute_route {es} {e : Insertion} {node slot s} (hes : ValidRoutes es) (hslot : methodSlot e.method = some slot)
    (hnode : ∀ s, node.routeIdxByMethod s = (firstRoute segments es (segments e.path) s).getD kInvalidRoute) :
    (recordRoute slot e.routeIdx node).routeIdxByMethod s =
      (firstRoute segments (es ++ [e]) (segments e.path) s).getD kInvalidRoute := by
  rw [← firstRoute_record hes rfl hslot hnode, recordRoute]
  split_ifs <;> rfl

/-- The pool and the flag after the publishing part of `insert`. -/
def publishInsert (st : InsertState) (slot : Slot) (routeIdx : RouteIdx) (nb : Bool) :
    List TrieNode × Bool :=
  let pub := st.pushedParents.foldl publishParent
    (st.nodes.modify st.cur (recordRoute slot routeIdx), nb)
  (st.visited.foldl (fun nodes i => nodes.modify i (addMethod (1 <<< slot.val))) pub.1, pub.2)

def publishedChildren (st : InsertState) (i : Nat) : Children :=
  if i ∈ st.pushedParents then (nodeAt st.nodes i).children.publishLast (isParamNode st.nodes)
  else (nodeAt st.nodes i).children

lemma publishInsert_spec {st} (slot : Slot) (routeIdx : RouteIdx) (nb : Bool)
    (hnodup : st.pushedParents.Nodup) (hlt : ∀ p ∈ st.pushedParents, p < st.nodes.length) :
    let out := publishInsert st slot routeIdx nb
    out.1.length = st.nodes.length ∧
    (∀ i < st.nodes.length,
      (nodeAt out.1 i).segment = (nodeAt st.nodes i).segment ∧
      (nodeAt out.1 i).children.data = (publishedChildren st i).data ∧
      (nodeAt out.1 i).children.paramCount = (publishedChildren st i).paramCount ∧
      (nodeAt out.1 i).children.methodMask =
        (if i ∈ st.visited then (nodeAt st.nodes i).children.methodMask ||| 1 <<< slot.val
          else (nodeAt st.nodes i).children.methodMask) ∧
      (nodeAt out.1 i).routeIdxByMethod =
        (if st.cur = i then (recordRoute slot routeIdx (nodeAt st.nodes i)).routeIdxByMethod
          else (nodeAt st.nodes i).routeIdxByMethod)) ∧
    (nb = true → out.2 = true) ∧
    ∀ p ∈ st.pushedParents, (publishedChildren st p).competing = true → out.2 = true := by
  intro out
  have hrec : ∀ n, (recordRoute slot routeIdx n).segment = n.segment ∧
      (recordRoute slot routeIdx n).children = n.children := by
    intro n
    rw [recordRoute]
    split_ifs <;> exact ⟨rfl, rfl⟩
  have hparam : isParamNode (st.nodes.modify st.cur (recordRoute slot routeIdx)) =
      isParamNode st.nodes := by
    funext k
    rw [isParamNode, isParamNode, segment_modify fun n => (hrec n).1]
  have hmask : ∀ (c : Children) p, (c.publishLast p).methodMask = c.methodMask := by
    intro c p
    rw [Children.publishLast]
    split
    · rfl
    · split_ifs <;> rfl
  obtain ⟨p1, p2, p3, p4⟩ := publish_spec
    (st.nodes.modify st.cur (recordRoute slot routeIdx)) nb hnodup (by simpa using hlt)
  obtain ⟨m1, m2⟩ := addMethods_spec
    (st.pushedParents.foldl publishParent (st.nodes.modify st.cur (recordRoute slot routeIdx), nb)).1
    st.visited (1 <<< slot.val)
  rw [List.length_modify] at p1 p2
  rw [hparam] at p2 p4
  rw [p1] at m1 m2
  refine ⟨m1, ?_, p3, ?_⟩
  · intro i hi
    have hat : nodeAt out.1 i = _ := m2 i hi
    rw [p2 i hi, nodeAt_modify hi] at hat
    rw [hat, publishedChildren]
    by_cases hv : i ∈ st.visited <;> by_cases hp : i ∈ st.pushedParents <;>
      by_cases hc : st.cur = i <;>
      simp [hv, hp, hc, addMethod, publishNode, hrec, hmask]
  · intro p hp hcomp
    refine p4 p hp ?_
    rw [nodeAt_modify (hlt p hp)]
    rw [publishedChildren, if_pos hp] at hcomp
    split_ifs
    · simpa [publishNode, hrec] using hcomp
    · exact hcomp

lemma Growing.publishedChildren {es nb st path done i} (G : Growing es nb st path done) (hi : i < st.nodes.length) :
    Partitioned (isParamNode st.nodes) (publishedChildren st i).data (publishedChildren st i).paramCount ∧
    (∀ c, c ∈ (Rut.Route.publishedChildren st i).data ↔ c ∈ (nodeAt st.nodes i).children.data) ∧
    (Rut.Route.publishedChildren st i).data.length = (nodeAt st.nodes i).children.data.length := by
  obtain ⟨old, new, hdata, hold, ⟨hp, hnew⟩ | ⟨hp, rfl⟩⟩ := G.partition hi
  · obtain ⟨c, rfl⟩ := List.length_eq_one_iff.mp hnew
    obtain ⟨data, count, heq, hpart, hmem, hlen⟩ :=
      publishLast_spec c (nodeAt st.nodes i).children.methodMask hold
    rw [← hdata] at heq hmem hlen
    rw [Rut.Route.publishedChildren, if_pos hp, heq]
    exact ⟨hpart, hmem, hlen⟩
  · rw [Rut.Route.publishedChildren, if_neg hp]
    rw [List.append_nil] at hdata
    rw [← hdata] at hold
    exact ⟨hold, fun _ => Iff.rfl, rfl⟩

/-- The publishing part of `insert` registers the insertion. -/
lemma Growing.publish {es nb st path mask} {e : Insertion} {slot} (G : Growing es nb st path (segments e.path)) (hes : ValidRoutes es)
    (hslot : methodSlot e.method = some slot) (hmask : ∀ s : Slot, mask.testBit s.val = true ↔ Below es s [])
    (hshort : ∀ e' ∈ es ++ [e], (segments e'.path).length ≤ kMaxPathSegments) : TrieInv
      { nodes := (publishInsert st slot e.routeIdx nb).1
        methodMask := mask ||| 1 <<< slot.val
        needsBacktracking := (publishInsert st slot e.routeIdx nb).2 } path (es ++ [e]) := by
  obtain ⟨hlen, hat, hold, hnew⟩ := publishInsert_spec slot e.routeIdx nb
    G.nodup fun p hp => (G.pushed hp).1
  generalize publishInsert st slot e.routeIdx nb = out at hlen hat hold hnew
  have hparam : ∀ c < st.nodes.length, isParamNode st.nodes c = isParamNode out.1 c := by
    intro c hc
    rw [isParamNode, isParamNode, (hat c hc).1]
  refine ⟨?_, ⟨?_, ?_, ?_⟩, ?_, ?_, ?_, hshort⟩
  · refine G.shape.congr hlen (fun hi => (hat _ hi).1) ?_ ?_
    · intro i c hi
      rw [(hat i hi).2.1]
      exact (G.publishedChildren hi).2.1 c
    · intro i hi
      rw [(hat i hi).2.1]
      exact (G.publishedChildren hi).2.2
  · intro i hi s
    simp only [hlen] at hi
    rw [(hat i hi).2.2.2.2]
    by_cases hc : st.cur = i
    · subst hc
      rw [if_pos rfl, G.cur_path]
      refine recordRoute_route hes hslot fun s => ?_
      rw [G.content.route hi, G.cur_path]
    · rw [if_neg hc, G.content.route hi, firstRoute_concat, if_neg, Option.or_none]
      rintro ⟨hp, -⟩
      exact hc (G.shape.tree.path_inj G.cur_lt hi (G.cur_path.trans hp))
  · intro i hi s
    simp only [hlen] at hi
    rw [(hat i hi).2.2.2.1, below_concat, hslot, Option.some.injEq, ← G.content.mask hi,
      ← G.visited hi]
    split_ifs with hv
    · rw [testBit_addMethod]
      simp [hv]
    · simp [hv]
  · intro e' he'
    rcases List.mem_append.mp he' with he' | he'
    · obtain ⟨i, hi, hp⟩ := G.content.complete e' he'
      exact ⟨i, by simpa only [hlen] using hi, hp⟩
    · rw [List.mem_singleton.mp he']
      exact ⟨st.cur, by simpa only [hlen] using G.cur_lt, G.cur_path⟩
  · intro s
    rw [testBit_addMethod, hmask, below_concat, hslot]
    simp
  · intro i hi
    simp only [hlen] at hi
    rw [(hat i hi).2.1, (hat i hi).2.2.1]
    refine (G.publishedChildren hi).1.congr fun c hc => hparam c ?_
    exact G.shape.tree.child_live hi (((G.publishedChildren hi).2.1 c).mp hc)
  · intro i hi
    simp only [hlen] at hi
    simp only [(hat i hi).2.1, (hat i hi).2.2.1]
    intro hne hlt
    by_cases hp : i ∈ st.pushedParents
    · exact hnew i hp (by simp [Children.competing, hne, hlt])
    · rw [Rut.Route.publishedChildren, if_neg hp] at hne hlt
      exact hold (G.backtracking hi hp hne hlt)

/-- A successful insertion keeps the invariant. -/
theorem TrieInv.insert {t t' : RouteTrie} {path es} {e : Insertion} (T : TrieInv t path es)
    (hes : ValidRoutes es) (h : t.insert e.path e.method e.routeIdx = (true, t')) :
    ∃ path', TrieInv t' path' (es ++ [e]) := by
  rw [RouteTrie.insert] at h
  cases hslot : methodSlot e.method with
  | none =>
    rw [hslot] at h
    cases h
  | some slot =>
    rw [hslot, tokenizeSegments_eq] at h
    simp only at h
    by_cases hover : min (segments e.path).length (kMaxPathSegments + 1) > kMaxPathSegments
    · rw [if_pos hover] at h
      cases h
    rw [if_neg hover, List.take_of_length_le (by omega)] at h
    cases hrun : insertSegments (segments e.path)
        { nodes := t.nodes, pushedParents := [], visited := [0], cur := 0 } with
    | error st =>
      rw [hrun] at h
      cases h
    | ok st =>
      have hstart : Growing es t.needsBacktracking
          { nodes := t.nodes, pushedParents := [], visited := [0], cur := 0 } path [] :=
        { shape := T.shape
          content := T.content
          cur_lt := T.shape.tree.root_live
          cur_path := T.shape.tree.root_path
          visited := by
            intro i hi
            rw [List.mem_singleton, List.prefix_nil, ← T.shape.tree.root_path]
            exact ⟨fun h => h ▸ rfl, T.shape.tree.path_inj hi T.shape.tree.root_live⟩
          pushed := by simp
          nodup := by simp
          partition := fun hi => ⟨_, [], by simp, T.partition hi, .inr ⟨by simp, rfl⟩⟩
          backtracking := fun hi _ => T.backtracking hi }
      obtain ⟨path', G⟩ := hstart.insertSegments (fun seg hs => segments_ne_nil hs) hrun
      rw [hrun] at h
      simp only [Prod.mk.injEq, true_and] at h
      refine ⟨path', h ▸ G.publish hes hslot T.methodMask fun e' he' => ?_⟩
      rcases List.mem_append.mp he' with he' | he'
      · exact T.short e' he'
      · rw [List.mem_singleton.mp he']
        omega

/-- Insert one after the other; `none` when some insertion returns false. -/
def RouteTrie.insertAll : List Insertion → RouteTrie → Option RouteTrie
  | [], t => some t
  | e :: es, t =>
    match t.insert e.path e.method e.routeIdx with
    | (false, _) => none
    | (true, t') => RouteTrie.insertAll es t'

/-- Successful insertions keep the invariant. -/
theorem TrieInv.insertAll {t t' : RouteTrie} {path done es} (T : TrieInv t path done)
    (hes : ValidRoutes (done ++ es)) (h : t.insertAll es = some t') :
    ∃ path', TrieInv t' path' (done ++ es) := by
  induction es generalizing t path done with
  | nil =>
    cases h
    exact ⟨path, by simpa using T⟩
  | cons e es ih =>
    rw [RouteTrie.insertAll] at h
    have hdone : ValidRoutes done := fun d hd => hes d (List.mem_append_left _ hd)
    rcases hr : t.insert e.path e.method e.routeIdx with ⟨_ | _, t1⟩
    · rw [hr] at h
      cases h
    · rw [hr] at h
      obtain ⟨path1, T1⟩ := T.insert hdone hr
      rw [List.append_cons] at hes ⊢
      exact ih T1 hes h

end Rut.Route
