import Rut.Route.Art

/-!
# Nodes of the adaptive radix trie

A node of any size is a finite map from bytes to children. `Ok` is the well-formedness of each size that
makes this true, and adding a child is an update of the map, whether or not it upgrades the node. Every
write to a pool changes the node at one reference.
-/

set_option linter.all false
namespace Rut.Route

def ArtNode.Ok : ArtNode → Prop
  | .n4 n => n.entries.length ≤ 4 ∧ (n.entries.map Prod.fst).Nodup
  | .n16 n => n.entries.length ≤ 16 ∧ (n.entries.map Prod.fst).Nodup
  | .n48 n => n.children.length ≤ 48 ∧ (∀ b, n.childIndex b ≤ n.children.length) ∧
      ∀ b c, n.childIndex b = n.childIndex c → n.childIndex b ≠ 0 → b = c
  | .n256 _ => True

def ArtNode.Full : ArtNode → Prop
  | .n4 n => ¬ n.entries.length < 4
  | .n16 n => ¬ n.entries.length < 16
  | .n48 n => ¬ n.children.length < 48
  | .n256 _ => False

instance (n : ArtNode) : Decidable n.Full := by
  cases n <;> unfold ArtNode.Full <;> infer_instance

def ArtNode.add (b : UInt8) (child : ArtChildRef) : ArtNode → ArtNode
  | .n4 n =>
    if n.entries.length < 4 then .n4 { n with entries := n.entries ++ [(b, child)] }
    else .n16 { hdr := n.hdr, entries := n.entries ++ [(b, child)] }
  | .n16 n =>
    if n.entries.length < 16 then .n16 { n with entries := n.entries ++ [(b, child)] }
    else
      .n48
        { hdr := n.hdr
          childIndex := Function.update (indexEntries n.entries) b 17
          children := n.entries.map Prod.snd ++ [child] }
  | .n48 n =>
    if n.children.length < 48 then
      .n48
        { n with
          children := n.children ++ [child]
          childIndex := Function.update n.childIndex b (n.children.length + 1) }
    else
      .n256
        { hdr := n.hdr
          children := Function.update (fun byte => ArtNode.find byte (.n48 n)) b (some child) }
  | .n256 n => .n256 { n with children := Function.update n.children b (some child) }

/-! ## Entry lists -/

section entries

variable {entries : List (UInt8 × ArtChildRef)} {b : UInt8} {c : ArtChildRef}

lemma findInEntries_none : findInEntries entries b = none ↔ b ∉ entries.map Prod.fst := by
  simp only [findInEntries, Option.map_eq_none_iff, List.find?_eq_none, beq_iff_eq, List.mem_map,
    not_exists, not_and]

lemma findInEntries_some (hnodup : (entries.map Prod.fst).Nodup) :
    findInEntries entries b = some c ↔ (b, c) ∈ entries := by
  induction entries with
  | nil => simp [findInEntries]
  | cons e entries ih =>
    obtain ⟨k, d⟩ := e
    simp only [List.map_cons, List.nodup_cons] at hnodup
    have ih := ih hnodup.2
    simp only [findInEntries] at ih
    by_cases hk : k = b
    · subst hk
      have hnot : (k, c) ∉ entries := fun hm => hnodup.1 (List.mem_map_of_mem hm)
      simp [findInEntries, hnot, eq_comm]
    · simp [findInEntries, hk, Ne.symm hk, ih]

lemma findInEntries_concat {x} (hb : findInEntries entries b = none) :
    findInEntries (entries ++ [(b, c)]) x = if x = b then some c else findInEntries entries x := by
  simp only [findInEntries, List.find?_append]
  by_cases hx : x = b
  · subst hx
    simp only [findInEntries, Option.map_eq_none_iff] at hb
    simp [hb]
  · simp [hx, Ne.symm hx]

lemma nodup_concat (hnodup : (entries.map Prod.fst).Nodup) (hb : findInEntries entries b = none) :
    ((entries ++ [(b, c)]).map Prod.fst).Nodup := by
  rw [List.map_append, List.nodup_append]
  refine ⟨hnodup, by simp, ?_⟩
  intro x hx y hy hxy
  rw [List.map_singleton, List.mem_singleton] at hy
  subst hy
  exact findInEntries_none.mp hb (hxy ▸ hx)

lemma indexEntries_eq (hnodup : (entries.map Prod.fst).Nodup) (x : UInt8) :
    indexEntries entries x = 0 ∧ x ∉ entries.map Prod.fst ∨
    ∃ k c, entries[k]? = some (x, c) ∧ indexEntries entries x = k + 1 := by
  induction entries using List.reverseRecOn with
  | nil => exact .inl ⟨rfl, by simp⟩
  | append_singleton entries e ih =>
    have hstep : indexEntries (entries ++ [e]) =
        Function.update (indexEntries entries) e.1 (entries.length + 1) := by
      simp [indexEntries, List.zipIdx_append]
    rw [List.map_append, List.nodup_append] at hnodup
    rw [hstep]
    by_cases hx : x = e.1
    · subst hx
      right
      exact ⟨entries.length, e.2, by simp, by simp⟩
    · rw [Function.update_of_ne hx]
      rcases ih hnodup.1 with ⟨h0, hn⟩ | ⟨k, c, hk, hi⟩
      · exact .inl ⟨h0, by simpa [hx] using hn⟩
      · refine .inr ⟨k, c, ?_, hi⟩
        rw [List.getElem?_append_left (List.getElem?_eq_some_iff.mp hk).1, hk]

end entries

/-! ## Finite maps -/

lemma mem_allBytes (b : UInt8) : b ∈ allBytes := by
  rw [allBytes, List.mem_map]
  exact ⟨b.toNat, List.mem_range.mpr b.toNat_lt, UInt8.ofNat_toNat⟩

lemma nodup_allBytes : allBytes.Nodup := by
  refine List.Nodup.map_on ?_ List.nodup_range
  intro x hx y hy hxy
  have h := congrArg UInt8.toNat hxy
  rw [UInt8.toNat_ofNat', UInt8.toNat_ofNat'] at h
  have := List.mem_range.mp hx
  have := List.mem_range.mp hy
  omega

lemma map_fst_filterMap (f : UInt8 → Option ArtChildRef) (l : List UInt8) :
    (l.filterMap fun b => (f b).map (b, ·)).map Prod.fst = l.filter fun b => (f b).isSome := by
  induction l with
  | nil => rfl
  | cons b l ih => cases h : f b <;> simp [h, ih]

lemma entries_of_function (f : UInt8 → Option ArtChildRef) :
    ((allBytes.filterMap fun b => (f b).map (b, ·)).map Prod.fst).Nodup ∧
    ∀ b c, (b, c) ∈ allBytes.filterMap (fun b => (f b).map (b, ·)) ↔ f b = some c := by
  refine ⟨map_fst_filterMap f allBytes ▸ nodup_allBytes.filter _, ?_⟩
  intro b c
  rw [List.mem_filterMap]
  constructor
  · rintro ⟨x, -, hx⟩
    obtain ⟨d, hd, heq⟩ := Option.map_eq_some_iff.mp hx
    cases heq
    exact hd
  · intro h
    exact ⟨b, mem_allBytes b, by simp [h]⟩

namespace ArtNode

variable {n : ArtNode} {b : UInt8} {c : ArtChildRef}

lemma entries_spec (hok : n.Ok) : (n.entries.map Prod.fst).Nodup ∧ ∀ b c, (b, c) ∈ n.entries ↔ n.find b = some c := by
  cases n with
  | n4 n => exact ⟨hok.2, fun b c => (findInEntries_some hok.2).symm⟩
  | n16 n => exact ⟨hok.2, fun b c => (findInEntries_some hok.2).symm⟩
  | n48 n =>
    have heq : (ArtNode.n48 n).entries =
        allBytes.filterMap fun b => ((ArtNode.n48 n).find b).map (b, ·) := by
      rw [entries]
      congr 1
      funext b
      rw [find]
      split_ifs <;> rfl
    rw [heq]
    exact entries_of_function _
  | n256 n => exact entries_of_function _

@[simp] lemma hdr_add : (n.add b c).hdr = n.hdr := by
  cases n <;> rw [add] <;> first | rfl | (split_ifs <;> rfl)

lemma find_indexEntries {entries x more} (hnodup : (entries.map Prod.fst).Nodup) :
    (if indexEntries entries x = 0 then none
      else (entries.map Prod.snd ++ more)[indexEntries entries x - 1]?) = findInEntries entries x := by
  rcases indexEntries_eq hnodup x with ⟨h0, hn⟩ | ⟨k, d, hk, hi⟩
  · rw [if_pos h0, findInEntries_none.mpr hn]
  · have hlt := (List.getElem?_eq_some_iff.mp hk).1
    rw [if_neg (by omega), hi, Nat.add_sub_cancel, List.getElem?_append_left (by simpa using hlt),
      List.getElem?_map, hk, (findInEntries_some hnodup).mpr (List.mem_of_getElem? hk)]
    rfl

lemma find_add (hok : n.Ok) (hb : n.find b = none) (x : UInt8) :
    (n.add b c).find x = if x = b then some c else n.find x := by
  cases n with
  | n4 n =>
    by_cases hroom : n.entries.length < 4
    · rw [add, if_pos hroom]
      exact findInEntries_concat hb
    · rw [add, if_neg hroom]
      exact findInEntries_concat hb
  | n16 n =>
    by_cases hroom : n.entries.length < 16
    · rw [add, if_pos hroom]
      exact findInEntries_concat hb
    · have hlen : n.entries.length = 16 := Nat.le_antisymm hok.1 (by omega)
      simp only [add, if_neg hroom, find]
      by_cases hx : x = b
      · subst hx
        simp [hlen]
      · simp only [Function.update_of_ne hx, if_neg hx]
        exact find_indexEntries hok.2
  | n48 n =>
    by_cases hroom : n.children.length < 48
    · simp only [add, if_pos hroom, find]
      by_cases hx : x = b
      · subst hx
        simp
      · have hle := hok.2.1 x
        simp only [Function.update_of_ne hx, if_neg hx]
        split_ifs with h0
        · rfl
        · rw [List.getElem?_append_left (by omega)]
    · rw [add, if_neg hroom]
      by_cases hx : x = b
      · simp [find, hx]
      · simp [find, hx]
  | n256 n =>
    by_cases hx : x = b
    · simp [add, find, hx]
    · simp [add, find, hx]

lemma indexEntries_le {entries} (hnodup : (entries.map Prod.fst).Nodup)
    (x : UInt8) : indexEntries entries x ≤ entries.length := by
  rcases indexEntries_eq hnodup x with ⟨h0, -⟩ | ⟨k, d, hk, hi⟩
  · omega
  · have := (List.getElem?_eq_some_iff.mp hk).1
    omega

lemma indexEntries_inj {entries} (hnodup : (entries.map Prod.fst).Nodup)
    {x y} (h : indexEntries entries x = indexEntries entries y) (h0 : indexEntries entries x ≠ 0) : x = y := by
  rcases indexEntries_eq hnodup x with ⟨hx, -⟩ | ⟨k, d, hk, hi⟩
  · exact absurd hx h0
  rcases indexEntries_eq hnodup y with ⟨hy, -⟩ | ⟨l, e, hl, hj⟩
  · omega
  · obtain rfl : k = l := by omega
    rw [hk, Option.some.injEq, Prod.mk.injEq] at hl
    exact hl.1

lemma ok_add (hok : n.Ok) (hb : n.find b = none) : (n.add b c).Ok := by
  cases n with
  | n4 n =>
    have hlen := hok.1
    by_cases hroom : n.entries.length < 4
    · rw [add, if_pos hroom]
      exact ⟨by simp; omega, nodup_concat hok.2 hb⟩
    · rw [add, if_neg hroom]
      exact ⟨by simp; omega, nodup_concat hok.2 hb⟩
  | n16 n =>
    have hlen := hok.1
    by_cases hroom : n.entries.length < 16
    · rw [add, if_pos hroom]
      exact ⟨by simp; omega, nodup_concat hok.2 hb⟩
    · rw [add, if_neg hroom]
      refine ⟨by simp; omega, fun x => ?_, fun x y => ?_⟩
      · have hle := indexEntries_le hok.2 x
        by_cases hx : x = b
        · simp [hx]
          omega
        · simp [hx]
          omega
      · have hlex := indexEntries_le hok.2 x
        have hley := indexEntries_le hok.2 y
        by_cases hx : x = b <;> by_cases hy : y = b
        · exact fun _ _ => hx.trans hy.symm
        · simp [hx, hy]
          omega
        · simp [hx, hy]
          omega
        · simpa [hx, hy] using indexEntries_inj hok.2
  | n48 n =>
    obtain ⟨hlen, hle, hinj⟩ := hok
    by_cases hroom : n.children.length < 48
    · rw [add, if_pos hroom]
      refine ⟨by simp; omega, fun x => ?_, fun x y => ?_⟩
      · have := hle x
        by_cases hx : x = b
        · simp [hx]
        · simp [hx]
          omega
      · have hlex := hle x
        have hley := hle y
        by_cases hx : x = b <;> by_cases hy : y = b
        · exact fun _ _ => hx.trans hy.symm
        · simp [hx, hy]
          omega
        · simp [hx, hy]
          omega
        · simpa [hx, hy] using hinj x y
    · rw [add, if_neg hroom]
      trivial
  | n256 n => trivial

@[simp] lemma type_setHdr (h : ArtNodeHeader) : (n.setHdr h).type = n.type := by cases n <;> rfl

@[simp] lemma hdr_setHdr (h : ArtNodeHeader) : (n.setHdr h).hdr = h := by cases n <;> rfl

@[simp] lemma find_setHdr (h : ArtNodeHeader) : (n.setHdr h).find b = n.find b := by cases n <;> rfl

lemma ok_setHdr (h : ArtNodeHeader) (hok : n.Ok) : (n.setHdr h).Ok := by cases n <;> exact hok

@[simp] lemma type_empty (k : ArtNodeType) : (empty k).type = k := by cases k <;> rfl

@[simp] lemma find_empty (k : ArtNodeType) : (empty k).find b = none := by cases k <;> rfl

lemma ok_empty (k : ArtNodeType) : (empty k).Ok := by
  cases k <;> simp [empty, Ok]

end ArtNode

/-! ## Pools -/

section pools

variable {t t' : ArtTrie} {r i : ArtChildRef} {n : ArtNode}

lemma node_type (h : t.node r = some n) : n.type = r.type := by
  obtain ⟨type, idx⟩ := r
  cases type <;>
  · simp only [ArtTrie.node, Option.map_eq_some_iff] at h
    obtain ⟨m, -, rfl⟩ := h
    rfl

lemma node_store_self {m} (h : t.node r = some m) (hn : n.type = r.type) : (t.store r n).node r = some n := by
  obtain ⟨type, idx⟩ := r
  cases n <;> cases hn <;>
  · simp only [ArtTrie.node, Option.map_eq_some_iff] at h
    obtain ⟨k, hk, -⟩ := h
    simp [ArtTrie.node, ArtTrie.store, (List.getElem?_eq_some_iff.mp hk).1]

lemma node_store_ne (hn : n.type = r.type) (hi : i ≠ r) : (t.store r n).node i = t.node i := by
  obtain ⟨type, idx⟩ := r
  obtain ⟨itype, iidx⟩ := i
  cases n <;> cases hn <;> cases itype <;>
  first
  | rfl
  | have hne : idx ≠ iidx := fun h => hi (by rw [h])
    simp [ArtTrie.node, ArtTrie.store, hne]

@[simp] lemma store_rootRef : (t.store r n).rootRef = t.rootRef := by cases n <;> rfl

@[simp] lemma store_matchMode : (t.store r n).matchMode = t.matchMode := by cases n <;> rfl

@[simp] lemma store_isUniformN4 : (t.store r n).isUniformN4 = t.isUniformN4 := by cases n <;> rfl

/-- `t'` is `t` with a fresh empty node at `r`. -/
structure Alloc (t t' : ArtTrie) (k : ArtNodeType) (r : ArtChildRef) : Prop where
  type : r.type = k
  fresh : t.node r = none
  new : t'.node r = some (ArtNode.empty k)
  old : ∀ {i}, i ≠ r → t'.node i = t.node i
  root : t'.rootRef = t.rootRef
  mode : t'.matchMode = t.matchMode
  uniform : t'.isUniformN4 = true → t.isUniformN4 = true ∧ k = .n4

lemma getElem?_concat_of_ne {α} {l : List α} {a k} (h : k ≠ l.length) : (l ++ [a])[k]? = l[k]? := by
  rcases Nat.lt_or_gt_of_ne h with hlt | hgt
  · exact List.getElem?_append_left hlt
  · rw [List.getElem?_eq_none (by simp; omega), List.getElem?_eq_none (by omega)]

lemma alloc_spec {k} (h : t.alloc k = some (t', r)) : Alloc t t' k r := by
  rw [ArtTrie.alloc] at h
  split_ifs at h
  cases h
  refine ⟨rfl, ?_, ?_, ?_, ?_, ?_, ?_⟩
  · cases k <;> simp [ArtTrie.node, ArtTrie.poolLen]
  · cases k <;> simp [ArtTrie.node, ArtTrie.poolLen, ArtTrie.push, ArtNode.empty]
  · intro i hi
    obtain ⟨type, idx⟩ := i
    cases k <;> cases type <;> first | rfl | skip
    all_goals
      have hne : idx ≠ t.poolLen _ := fun h => hi (by rw [h])
      simp only [ArtTrie.node, ArtTrie.push, getElem?_concat_of_ne hne]
  · cases k <;> rfl
  · cases k <;> rfl
  · cases k <;> simp [ArtTrie.push]

/-- `t'` is `t` with one more child at the node `n` of `p`, which is now at `p'`. -/
structure Added (t t' : ArtTrie) (p p' : ArtChildRef) (n n' : ArtNode) : Prop where
  new : t'.node p' = some n'
  old : ∀ {i}, i ≠ p' → t'.node i = t.node i
  place : p' = p ∧ ¬ n.Full ∨ t.node p' = none ∧ n.Full
  root : t'.rootRef = t.rootRef
  mode : t'.matchMode = t.matchMode
  uniform : t'.isUniformN4 = true → t.isUniformN4 = true ∧ p' = p

lemma added_upgrade {p p' b c k} (hfull : n.Full) (hk : (n.add b c).type = k) (hk4 : k ≠ .n4)
    (h : (t.alloc k).map (fun (t, newRef) => (t.store newRef (n.add b c), newRef)) = some (t', p')) :
    Added t t' p p' n (n.add b c) := by
  obtain ⟨⟨t₁, r⟩, halloc, heq⟩ := Option.map_eq_some_iff.mp h
  cases heq
  have A := alloc_spec halloc
  refine ⟨node_store_self A.new (hk.trans A.type.symm), ?_, .inr ⟨A.fresh, hfull⟩,
    by rw [store_rootRef, A.root], by rw [store_matchMode, A.mode], ?_⟩
  · intro i hi
    rw [node_store_ne (hk.trans A.type.symm) hi, A.old hi]
  · rw [store_isUniformN4]
    exact fun hu => absurd (A.uniform hu).2 hk4

lemma added_store {p p' b c} (hp : t.node p = some n) (hroom : ¬ n.Full)
    (hk : (n.add b c).type = n.type) (h : some (t.store p (n.add b c), p) = some (t', p')) :
    Added t t' p p' n (n.add b c) := by
  cases h
  have hk := hk.trans (node_type hp)
  exact ⟨node_store_self hp hk, fun hi => node_store_ne hk hi, .inl ⟨rfl, hroom⟩, by simp, by simp,
    fun hu => ⟨by simpa using hu, rfl⟩⟩

/-- `add_child` replaces the node of the parent by the one with the child added. -/
lemma addChild_spec {p p' b c} (hp : t.node p = some n) (h : t.addChild p b c = some (t', p')) :
    Added t t' p p' n (n.add b c) := by
  rw [ArtTrie.addChild, hp] at h
  cases n with
  | n4 n =>
    by_cases hroom : n.entries.length < 4
    · simp only [if_pos hroom] at h
      exact added_store hp (by simpa [ArtNode.Full] using hroom) (by simp [ArtNode.add, hroom, ArtNode.type])
        (by rw [ArtNode.add, if_pos hroom]; exact h)
    · simp only [if_neg hroom] at h
      exact added_upgrade (k := .n16) (by simpa [ArtNode.Full] using hroom)
        (by simp [ArtNode.add, hroom, ArtNode.type]) (by decide) (by rw [ArtNode.add, if_neg hroom]; exact h)
  | n16 n =>
    by_cases hroom : n.entries.length < 16
    · simp only [if_pos hroom] at h
      exact added_store hp (by simpa [ArtNode.Full] using hroom) (by simp [ArtNode.add, hroom, ArtNode.type])
        (by rw [ArtNode.add, if_pos hroom]; exact h)
    · simp only [if_neg hroom] at h
      exact added_upgrade (k := .n48) (by simpa [ArtNode.Full] using hroom)
        (by simp [ArtNode.add, hroom, ArtNode.type]) (by decide) (by rw [ArtNode.add, if_neg hroom]; exact h)
  | n48 n =>
    by_cases hroom : n.children.length < 48
    · simp only [if_pos hroom] at h
      exact added_store hp (by simpa [ArtNode.Full] using hroom) (by simp [ArtNode.add, hroom, ArtNode.type])
        (by rw [ArtNode.add, if_pos hroom]; exact h)
    · simp only [if_neg hroom] at h
      exact added_upgrade (k := .n256) (by simpa [ArtNode.Full] using hroom)
        (by simp [ArtNode.add, hroom, ArtNode.type]) (by decide) (by rw [ArtNode.add, if_neg hroom]; exact h)
  | n256 n => exact added_store hp id rfl h

end pools

/-! ## Patching -/

lemma findInEntries_modify {entries b r j} (hj : entries.findIdx? (fun entry => entry.1 == b) = some j) (x : UInt8) :
    findInEntries (entries.modify j fun entry => (entry.1, r)) x =
      if x = b then some r else findInEntries entries x := by
  induction entries generalizing j with
  | nil => cases hj
  | cons e entries ih =>
    obtain ⟨k, d⟩ := e
    rw [List.findIdx?_cons] at hj
    by_cases hk : k = b
    · subst hk
      simp only [beq_self_eq_true, if_true, Option.some.injEq] at hj
      subst hj
      by_cases hx : k = x
      · simp [findInEntries, hx]
      · simp [findInEntries, hx, Ne.symm hx]
    · simp only [beq_eq_false_iff_ne.mpr hk, Bool.false_eq_true, if_false, Option.map_eq_some_iff] at hj
      obtain ⟨j', hj', rfl⟩ := hj
      have ih := ih hj'
      by_cases hx : k = x
      · subst hx
        simp [findInEntries, hk]
      · simp only [findInEntries] at ih
        simp [findInEntries, hx, ih]

lemma map_fst_modify {entries : List (UInt8 × ArtChildRef)} {r j} :
    (entries.modify j fun entry => (entry.1, r)).map Prod.fst = entries.map Prod.fst := by
  induction entries generalizing j with
  | nil => simp
  | cons e entries ih => cases j <;> simp [ih]

lemma findIdx?_of_find {entries b c} (h : findInEntries entries b = some c) :
    ∃ j, entries.findIdx? (fun entry => entry.1 == b) = some j := by
  rw [findInEntries, Option.map_eq_some_iff] at h
  obtain ⟨e, he, -⟩ := h
  rw [← Option.isSome_iff_exists, List.findIdx?_isSome, List.any_eq_true]
  exact ⟨e, List.mem_of_find?_eq_some he, by simpa using List.find?_some he⟩

/-- `t'` is `t` with the child of `i` under the byte `b` replaced by `r`. -/
structure Patched (t t' : ArtTrie) (i : ArtChildRef) (n : ArtNode) (b : UInt8) (r : ArtChildRef) : Prop where
  new : ∃ n', t'.node i = some n' ∧ n'.hdr = n.hdr ∧ n'.Ok ∧
    ∀ x, n'.find x = if x = b then some r else n.find x
  old : ∀ {j}, j ≠ i → t'.node j = t.node j
  root : t'.rootRef = t.rootRef
  mode : t'.matchMode = t.matchMode
  uniform : t'.isUniformN4 = t.isUniformN4

lemma patched_store {t : ArtTrie} {i r : ArtChildRef} {n : ArtNode} (n' : ArtNode) {b : UInt8} (h : t.node i = some n)
    (htype : n'.type = n.type) (hhdr : n'.hdr = n.hdr) (hok : n'.Ok)
    (hfind : ∀ x, n'.find x = if x = b then some r else n.find x) : Patched t (t.store i n') i n b r :=
  have ht := htype.trans (node_type h)
  ⟨⟨n', node_store_self h ht, hhdr, hok, hfind⟩, fun hj => node_store_ne ht hj, by simp, by simp,
    by simp⟩

lemma modify_eq_set {α} {l : List α} {k a f} (h : l[k]? = some a) : l.modify k f = l.set k (f a) := by
  rw [List.modify_eq_set_getElem?, h]
  rfl

lemma patch_spec {t₀ t : ArtTrie} {i c r n b}
    (h₀ : t₀.node i = some n) (h : t.node i = some n) (hok : n.Ok) (hc : n.find b = some c) :
    Patched t (t.patch r (t₀.childSite i b)) i n b r := by
  have ht := node_type h
  have hget := h
  obtain ⟨type, idx⟩ := i
  rw [ArtTrie.childSite, h₀]
  cases n with
  | n4 m =>
    cases ht
    obtain ⟨j, hj⟩ := findIdx?_of_find hc
    have hm : t.n4Pool[idx]? = some m := by simpa [ArtTrie.node] using hget
    simp only [hj, Option.map_some, ArtTrie.patch, modify_eq_set hm]
    exact patched_store (.n4 (m.setChild j r)) h rfl rfl
      ⟨by simpa [ArtListNode.setChild] using hok.1,
        by simpa [ArtListNode.setChild, map_fst_modify] using hok.2⟩ (findInEntries_modify hj)
  | n16 m =>
    cases ht
    obtain ⟨j, hj⟩ := findIdx?_of_find hc
    have hm : t.n16Pool[idx]? = some m := by simpa [ArtTrie.node] using hget
    simp only [hj, Option.map_some, ArtTrie.patch, modify_eq_set hm]
    exact patched_store (.n16 (m.setChild j r)) h rfl rfl
      ⟨by simpa [ArtListNode.setChild] using hok.1,
        by simpa [ArtListNode.setChild, map_fst_modify] using hok.2⟩ (findInEntries_modify hj)
  | n48 m =>
    cases ht
    have hm : t.n48Pool[idx]? = some m := by simpa [ArtTrie.node] using hget
    have h0 : m.childIndex b ≠ 0 := by
      intro h0
      simp [ArtNode.find, h0] at hc
    have hle := hok.2.1 b
    simp only [ArtTrie.patch, modify_eq_set hm]
    refine patched_store (.n48 { m with children := m.children.set (m.childIndex b - 1) r }) h rfl rfl
      ⟨by simpa using hok.1, by simpa using hok.2.1, hok.2.2⟩ fun x => ?_
    by_cases hx : x = b
    · subst hx
      simp only [ArtNode.find, if_neg h0, if_true]
      rw [List.getElem?_set_self (by omega)]
    · simp only [ArtNode.find, if_neg hx]
      split_ifs with hx0
      · rfl
      · rw [List.getElem?_set_ne]
        intro heq
        exact hx (hok.2.2 x b (by omega) hx0)
  | n256 m =>
    cases ht
    have hm : t.n256Pool[idx]? = some m := by simpa [ArtTrie.node] using hget
    simp only [ArtTrie.patch, modify_eq_set hm]
    refine patched_store (.n256 { m with children := Function.update m.children b (some r) }) h rfl
      rfl trivial fun x => ?_
    by_cases hx : x = b <;> simp [ArtNode.find, hx]

end Rut.Route
