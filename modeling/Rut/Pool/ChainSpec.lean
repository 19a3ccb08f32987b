import Rut.Pool.ChainInv

/-!
# The operations of a chain

What each operation of a chain does, to the nodes of the chain and to the bytes that can be read from it. A chain is
linked when it holds the buffers of its nodes and its ledger balances: what it took from pools is what it gave back and
what it holds.
-/

namespace Rut.Pool

open Lib.Memory (read write Blank)
open SlicePool ResponseBodyChain

variable {P κ : Type} {pool pool' : SlicePool κ} {p : P} {k : κ} {c c' : ResponseBodyChain P κ} {layout : Layout}

def ResponseBodyChain.all (c : ResponseBodyChain P κ) : List Node := c.nodes ++ c.recycled.toList

/-- The chain holds the buffers of its nodes, from the pool that owns them, and its ledger balances. -/
structure Linked (pool : SlicePool κ) (p : P) (k : κ) (c : ResponseBodyChain P κ) : Prop where
  holds : Holds pool k c.all
  tail : ∀ t, c.nodes.getLast? = some t → c.tail_dirty_end ≤ t.dirty_end
  taken : c.taken.Perm (c.returned.map Prod.fst ++ c.all.map fun n => (p, n.buf))
  found : ∀ r ∈ c.returned, r.2 = some (.chain k)
  owner : c.all ≠ [] → c.owner = some p

structure Sized (pool : SlicePool κ) (c : ResponseBodyChain P κ) : Prop where
  size : c.size = (readable pool c.nodes).length
  max : c.size ≤ kMaxBody

structure Works (p : P) (k : κ) (pool : SlicePool κ) (pool' : SlicePool κ) (c' : ResponseBodyChain P κ) : Prop where
  linked : Linked pool' p k c'
  others : ∀ k', k' ≠ k → Keeps k' pool pool'
  owner : c'.owner = none ∨ c'.owner = some p

lemma Linked.works (h : Linked pool p k c) (ho : c.owner = none ∨ c.owner = some p) : Works p k pool pool c :=
  ⟨h, fun _ _ => Keeps.refl _ _, ho⟩

lemma dropLast_append_getLast (l : List Node) : l.dropLast ++ l.getLast?.toList = l := by
  rcases List.eq_nil_or_concat l with rfl | ⟨l, t, rfl⟩
  · rfl
  · rw [List.concat_eq_append, List.dropLast_concat, List.getLast?_concat]
    rfl

lemma add32_of_le {a b} (h : a + b ≤ kMaxBody) : add32 a b = a + b := by
  unfold add32
  unfold kMaxBody at h
  exact Nat.mod_eq_of_lt (by omega)

lemma sub32_of_le {a b} (h : b ≤ a) (ha : a ≤ kMaxBody) : sub32 a b = a - b := by
  unfold sub32
  unfold kMaxBody at ha
  omega

/-! ## `append` -/

lemma all_split (c : ResponseBodyChain P κ) (fresh : List Node) :
    (fresh ++ c.all).Perm ((c.nodes.getLast?.toList ++ fresh) ++ (c.nodes.dropLast ++ c.recycled.toList)) := by
  have hsplit : c.all = c.nodes.dropLast ++ c.nodes.getLast?.toList ++ c.recycled.toList := by
    rw [dropLast_append_getLast]
    rfl
  rw [hsplit, ← List.append_assoc, ← List.append_assoc, ← List.append_assoc]
  refine List.Perm.append_right _ ?_
  calc (fresh ++ c.nodes.dropLast ++ c.nodes.getLast?.toList).Perm
        (c.nodes.getLast?.toList ++ (fresh ++ c.nodes.dropLast)) := List.perm_append_comm
    _ = c.nodes.getLast?.toList ++ fresh ++ c.nodes.dropLast := (List.append_assoc ..).symm

/-- The bytes that `append` adds. -/
def appended (ok : Bool) (src : List UInt8) : List UInt8 := if ok then src else []

lemma Linked.give_back (h : Linked pool p k c) {fresh : List Node} {found}
    (hh : Holds pool' k c.all) (hfound : found = fresh.map fun n => (n.buf, some (.chain k))) :
    Linked pool' p k { c with
      taken := fresh.map (fun n => (p, n.buf)) ++ c.taken
      returned := found.map (fun r => ((p, r.1), r.2)) ++ c.returned } where
  holds := hh
  tail := h.tail
  taken := by
    rw [hfound, List.map_append, List.map_map, List.map_map, List.append_assoc]
    exact h.taken.append_left _
  found := by
    intro r hr
    rcases List.mem_append.mp hr with hr | hr
    · rw [hfound, List.map_map] at hr
      obtain ⟨n, -, rfl⟩ := List.mem_map.mp hr
      rfl
    · exact h.found r hr
  owner := h.owner

lemma room_enough (h : Holds pool k c.all) {spare missing len fresh}
    (hspare : (c.nodes.getLast?.elim 0 fun t => payload_capacity pool t - t.len) = spare) (hmissing : missing = len - spare)
    (henough : missing ≤ room fresh) : len ≤ room (c.nodes.getLast?.toList ++ fresh) := by
  cases htail : c.nodes.getLast? with
  | none =>
    rw [htail] at hspare
    subst hspare
    show len ≤ room fresh
    rwa [hmissing, Option.elim_none, Nat.sub_zero] at henough
  | some t =>
    have hmem : t ∈ c.all := List.mem_append_left _ (List.mem_of_getLast? htail)
    rw [htail, Option.elim_some, h.capacity hmem] at hspare
    show len ≤ room (t :: fresh)
    rw [room_cons]
    omega

lemma Node.Grows.map_buf {l l'} (h : List.Forall₂ Node.Grows l l') :
    (l'.map fun n => (p, n.buf)) = l.map fun n => (p, n.buf) := by
  induction h with
  | nil => rfl
  | cons hn _ ih => rw [List.map_cons, List.map_cons, ih, hn.buf]

lemma Linked.extend (h : Linked pool p k c) (fresh written : List Node) (size : Nat)
    (hh : Holds pool' k (written ++ (c.nodes.dropLast ++ c.recycled.toList)))
    (hgrows : List.Forall₂ Node.Grows (c.nodes.getLast?.toList ++ fresh) written) : Linked pool' p k { c with
      nodes := c.nodes.dropLast ++ written
      tail_dirty_end := if fresh = [] then c.tail_dirty_end else 0
      owner := some p
      size := size
      taken := fresh.map (fun n => (p, n.buf)) ++ c.taken } := by
  have hperm : (c.nodes.dropLast ++ written ++ c.recycled.toList).Perm
      (written ++ (c.nodes.dropLast ++ c.recycled.toList)) := by
    rw [List.append_assoc, ← List.append_assoc written]
    exact (List.perm_append_comm_assoc ..).trans (by rw [List.append_assoc])
  refine ⟨hh.perm hperm.symm, ?_, ?_, h.found, fun _ => rfl⟩
  · intro t' ht'
    by_cases hfresh : fresh = []
    · show (if fresh = [] then c.tail_dirty_end else 0) ≤ t'.dirty_end
      rw [if_pos hfresh]
      rw [hfresh, List.append_nil] at hgrows
      cases htail : c.nodes.getLast? with
      | none =>
        rw [htail] at hgrows
        cases hgrows
        rw [List.getLast?_eq_none_iff.mp htail] at ht'
        cases ht'
      | some t =>
        rw [htail] at hgrows
        cases hgrows with
        | cons hgrow hnil =>
          cases hnil
          rw [List.getLast?_concat] at ht'
          cases ht'
          exact (h.tail t htail).trans hgrow.dirty
    · show (if fresh = [] then c.tail_dirty_end else 0) ≤ t'.dirty_end
      rw [if_neg hfresh]
      exact Nat.zero_le _
  · have hall : ((c.nodes.dropLast ++ written ++ c.recycled.toList).map fun n => (p, n.buf)).Perm
        ((fresh ++ c.all).map fun n => (p, n.buf)) := by
      refine (hperm.map _).trans ?_
      rw [List.map_append, Node.Grows.map_buf hgrows, ← List.map_append]
      exact ((all_split c fresh).map _).symm
    refine List.Perm.trans ?_ (hall.append_left _).symm
    rw [List.map_append]
    exact (h.taken.append_left _).trans (List.perm_append_comm_assoc ..)

variable [DecidableEq P]

/-- `append` adds all of the bytes or none. -/
lemma append_spec (h : Linked pool p k c) (ho : c.owner = none ∨ c.owner = some p) {src bulk_after} :
    let r := append layout p k pool c src bulk_after
    Works p k pool r.2.1 r.2.2 ∧ readable r.2.1 r.2.2.nodes = readable pool c.nodes ++ appended r.1 src ∧
      (Sized pool c → Sized r.2.1 r.2.2) := by
  unfold append
  by_cases hguard : src.length > sub32 kMaxBody c.size ∨ (c.owner ≠ none ∧ c.owner ≠ some p)
  · rw [if_pos hguard]
    exact ⟨h.works ho, (List.append_nil _).symm, id⟩
  rw [if_neg hguard]
  by_cases hsrc : src = []
  · rw [if_pos hsrc, hsrc]
    exact ⟨h.works ho, (List.append_nil _).symm, id⟩
  rw [if_neg hsrc]
  dsimp only
  generalize hspare : (c.nodes.getLast?.elim 0 fun t => payload_capacity pool t - t.len) = spare
  have hres := reserve_spec h.holds (decide (c.size ≥ bulk_after)) (Nat.le_refl (src.length - spare))
  generalize reserve k (decide (c.size ≥ bulk_after)) (src.length - spare) pool (src.length - spare) = r at hres
  obtain ⟨_ | _, pool₁, fresh⟩ := r
  · obtain ⟨h₁, hspares₁, -, -⟩ := hres
    have hdirty : ∀ (n : Node) (_ : List Node), n.dirty_end ≤ n.dirty_end := fun _ _ => Nat.le_refl _
    have hfree := freeAll_spec layout hdirty h₁
    dsimp only
    generalize freeAll layout (fun n _ => n.dirty_end) pool₁ fresh = r at hfree
    obtain ⟨pool₂, found⟩ := r
    obtain ⟨h₂, hspares₂, hfound⟩ := hfree
    have hspares := hspares₁.trans hspares₂
    have hread : readable pool₂ c.nodes = readable pool c.nodes :=
      readable_congr fun n hn => hspares.data n (List.mem_append_left _ hn)
    refine ⟨⟨h.give_back h₂ hfound, hspares.others, ho⟩, hread.trans (List.append_nil _).symm, fun hsz => ⟨?_, hsz.max⟩⟩
    rw [hread]
    exact hsz.size
  · obtain ⟨h₁, hspares₁, hfresh, henough⟩ := hres
    have hempty : ∀ n ∈ (c.nodes.getLast?.toList ++ fresh).tail, n.len = 0 ∧ n.offset = 0 := by
      intro n hn
      cases htail : c.nodes.getLast? with
      | none =>
        rw [htail] at hn
        exact hfresh n (List.mem_of_mem_tail hn)
      | some t =>
        rw [htail] at hn
        exact hfresh n hn
    have hfill := fill_spec src (h₁.perm (all_split c fresh)) hempty
      (room_enough h.holds hspare rfl (henough rfl))
    dsimp only
    generalize fill pool₁ (c.nodes.getLast?.toList ++ fresh) src = r at hfill
    obtain ⟨pool₂, written⟩ := r
    obtain ⟨h₂, hspares₂, hgrows, hread⟩ := hfill
    have hdrop : ∀ n ∈ c.nodes.dropLast, n ∈ c.all := fun n hn => List.mem_append_left _ (List.dropLast_subset _ hn)
    have htail : ∀ n ∈ c.nodes.getLast?.toList, n ∈ c.all := by
      intro n hn
      exact List.mem_append_left _ (List.mem_of_getLast? (Option.mem_toList.mp hn))
    have hnodes : readable pool₂ (c.nodes.dropLast ++ written) = readable pool c.nodes ++ src := by
      have hbefore : readable pool₂ c.nodes.dropLast = readable pool c.nodes.dropLast :=
        readable_congr fun n hn =>
          (hspares₂.data n (List.mem_append_left _ hn)).trans (hspares₁.data n (hdrop n hn))
      have hlast : readable pool₁ c.nodes.getLast?.toList = readable pool c.nodes.getLast?.toList :=
        readable_congr fun n hn => hspares₁.data n (htail n hn)
      rw [readable_append, hbefore, hread, readable_append, hlast, readable_empty hfresh, List.append_nil,
        ← List.append_assoc, ← readable_append, dropLast_append_getLast]
    refine ⟨⟨h.extend fresh written _ h₂ hgrows, ?_, .inr rfl⟩, hnodes, fun hsz => ?_⟩
    · exact fun k' hk' => (hspares₁.others k' hk').trans (hspares₂.others k' hk')
    · rw [not_or, Nat.not_lt, sub32_of_le hsz.max (Nat.le_refl _)] at hguard
      have hmax := hsz.max
      have hadd : add32 c.size src.length = c.size + src.length := add32_of_le (by omega)
      refine ⟨?_, ?_⟩
      · show add32 c.size src.length = (readable pool₂ (c.nodes.dropLast ++ written)).length
        rw [hadd, hnodes, List.length_append, hsz.size]
      · show add32 c.size src.length ≤ kMaxBody
        omega

/-! ## The tail -/

omit [DecidableEq P] in
lemma Linked.relink (h : Linked pool p k c) (nodes : List Node) (recycled : Option Node) {d : Nat}
    (hh : Holds pool' k (nodes ++ recycled.toList))
    (hbuf : ((nodes ++ recycled.toList).map fun n => (p, n.buf)).Perm (c.all.map fun n => (p, n.buf)))
    (hd : ∀ t, nodes.getLast? = some t → d ≤ t.dirty_end) {size : Nat} {owner : Option P} (ho : owner = some p) :
    Linked pool' p k { c with
      nodes := nodes, recycled := recycled, tail_dirty_end := d, size := size, owner := owner } where
  holds := hh
  tail := hd
  taken := h.taken.trans (hbuf.symm.append_left _)
  found := h.found
  owner := fun _ => ho

lemma Holds.relabel {n ns} (h : Holds pool k (n :: ns)) (n' : Node) (hbuf : n'.buf = n.buf)
    (hok : n'.Ok (pool.data n.buf)) : Holds pool k (n' :: ns) where
  inv := h.inv
  nodup := by
    rw [List.map_cons, hbuf]
    exact h.nodup
  held := by
    rw [List.map_cons, hbuf]
    exact h.held
  ok := by
    rintro x (_ | ⟨_, hx⟩)
    · rw [hbuf]
      exact hok
    · exact h.ok x (List.mem_cons_of_mem _ hx)

/-- `reserve_tail` changes nothing that can be read. -/
lemma reserve_tail_spec (h : Linked pool p k c) (ho : c.owner = none ∨ c.owner = some p) {bulk_after} :
    let r := reserve_tail p k pool c bulk_after
    Works p k pool r.2.1 r.2.2 ∧ readable r.2.1 r.2.2.nodes = readable pool c.nodes ∧
      (Sized pool c → Sized r.2.1 r.2.2) := by
  unfold reserve_tail
  by_cases hroom : (c.nodes.getLast?.any fun t => decide (c.capacity_seen p pool t > t.len)) = true
  · rw [if_pos hroom]
    exact ⟨h.works ho, rfl, id⟩
  rw [if_neg hroom]
  by_cases hown : c.owner ≠ none ∧ c.owner ≠ some p
  · rw [if_pos hown]
    exact ⟨h.works ho, rfl, id⟩
  rw [if_neg hown]
  generalize hreuse : (if c.size ≥ bulk_after then c.recycled else none) = reuse
  cases reuse with
  | some r =>
    have hrec : c.recycled = some r := by
      split at hreuse
      · exact hreuse
      · cases hreuse
    have hall : c.all = c.nodes ++ [r] := by rw [ResponseBodyChain.all, hrec, Option.toList_some]
    have hholds := h.holds
    rw [hall] at hholds
    have hok := hholds.ok r (List.mem_append_right _ (List.mem_singleton_self r))
    have hempty := (hholds.perm (List.perm_append_singleton r c.nodes)).relabel
      { r with len := 0, offset := 0 } rfl ⟨Nat.le_refl _, Nat.zero_le _, hok.room, hok.blank⟩
    have hread : readable pool (c.nodes ++ [{ r with len := 0, offset := 0 }]) = readable pool c.nodes := by
      rw [readable_append, readable_cons]
      exact List.append_nil _
    refine ⟨⟨?_, fun _ _ => Keeps.refl _ _, .inr rfl⟩, hread, fun hsz => ⟨hsz.size.trans ?_, hsz.max⟩⟩
    · refine h.relink (c.nodes ++ [{ r with len := 0, offset := 0 }]) none ?_ ?_ (fun _ _ => Nat.zero_le _) rfl
      · rw [Option.toList_none, List.append_nil]
        exact hempty.perm (List.perm_append_singleton ..).symm
      · rw [Option.toList_none, List.append_nil, hall, List.map_append, List.map_append]
        exact List.Perm.refl _
    · exact congrArg List.length hread.symm
  | none =>
    have hnew := new_node_spec h.holds (decide (c.size ≥ bulk_after))
    generalize new_node pool k (decide (c.size ≥ bulk_after)) = r at hnew
    obtain ⟨_ | n, pool₁⟩ := r
    · obtain ⟨h₁, hspares₁⟩ := hnew
      have hread : readable pool₁ c.nodes = readable pool c.nodes :=
        readable_congr fun n hn => hspares₁.data n (List.mem_append_left _ hn)
      refine ⟨⟨{ h with holds := h₁ }, hspares₁.others, ho⟩, hread, fun hsz => ⟨?_, hsz.max⟩⟩
      rw [hread]
      exact hsz.size
    · obtain ⟨h₁, hspares₁, hlen, hoffset⟩ := hnew
      have hread : readable pool₁ (c.nodes ++ [n]) = readable pool c.nodes := by
        rw [readable_append, readable_congr fun n hn => hspares₁.data n (List.mem_append_left _ hn)]
        rw [readable_empty fun x hx => List.mem_singleton.mp hx ▸ ⟨hlen, hoffset⟩, List.append_nil]
      refine ⟨⟨?_, hspares₁.others, .inr rfl⟩, hread, fun hsz => ⟨hsz.size.trans ?_, hsz.max⟩⟩
      · have hext := h.extend [n] (c.nodes.getLast?.toList ++ [n]) c.size
          (h₁.perm (all_split c [n])) (List.forall₂_same.mpr fun x _ => ⟨rfl, Nat.le_refl _⟩)
        rw [← List.append_assoc, dropLast_append_getLast] at hext
        exact hext
      · exact congrArg List.length hread.symm

omit [DecidableEq P] in
lemma Linked.putTail (h : Linked pool p k c) {t} (t' : Node) (pos d size : Nat) (bytes : List UInt8)
    (ht : c.nodes.getLast? = some t) (hbuf : t'.buf = t.buf) (hroom : header_size + pos + bytes.length ≤ t.buf.capacity)
    (hok : t'.Ok (write (pool.data t.buf) (header_size + pos) bytes)) (hd : d ≤ t'.dirty_end) :
    Works p k pool (pool.put t.buf (header_size + pos) bytes)
      { c with nodes := c.nodes.dropLast ++ [t'], tail_dirty_end := d, size := size } ∧
    readable (pool.put t.buf (header_size + pos) bytes) (c.nodes.dropLast ++ [t']) =
      readable pool c.nodes.dropLast ++
        read (write (pool.data t.buf) (header_size + pos) bytes) (header_size + t'.offset) (t'.len - t'.offset) := by
  have hmem : t ∈ c.all := List.mem_append_left _ (List.mem_of_getLast? ht)
  have ho := h.owner (List.ne_nil_of_mem hmem)
  have hnodes : c.nodes = c.nodes.dropLast ++ [t] := by
    conv_lhs => rw [← dropLast_append_getLast c.nodes, ht, Option.toList_some]
  have hsplit : Holds pool k (t :: (c.nodes.dropLast ++ c.recycled.toList)) := by
    refine h.holds.perm ?_
    rw [ResponseBodyChain.all, hnodes, List.append_assoc, List.dropLast_concat]
    exact List.perm_middle
  obtain ⟨h₁, hspares₁⟩ := hsplit.put t' _ bytes hbuf hroom hok
  refine ⟨⟨?_, hspares₁.others, .inr ho⟩, ?_⟩
  · refine h.relink (c.nodes.dropLast ++ [t']) c.recycled ?_ ?_ ?_ ho
    · refine h₁.perm ?_
      rw [List.append_assoc]
      exact List.perm_middle.symm
    · have hmap : ((c.nodes.dropLast ++ [t'] ++ c.recycled.toList).map fun n => (p, n.buf)) =
          c.all.map fun n => (p, n.buf) := by
        conv_rhs => rw [ResponseBodyChain.all, hnodes]
        simp only [List.map_append, List.map_cons, List.map_nil, hbuf]
      rw [hmap]
    · intro x hx
      rw [List.getLast?_concat] at hx
      cases hx
      exact hd
  · have hself : (pool.put t.buf (header_size + pos) bytes).data t'.buf =
        write (pool.data t.buf) (header_size + pos) bytes := by
      rw [hbuf]
      exact Function.update_self ..
    have hbefore : readable (pool.put t.buf (header_size + pos) bytes) c.nodes.dropLast = readable pool c.nodes.dropLast :=
      readable_congr fun n hn => hspares₁.data n (List.mem_append_left _ hn)
    rw [readable_append, hbefore, readable_cons, hself]
    exact congrArg _ (List.append_nil _)

omit [DecidableEq P] in
lemma readable_tail {t} (ht : c.nodes.getLast? = some t) : readable pool c.nodes = readable pool c.nodes.dropLast ++
      read (pool.data t.buf) (header_size + t.offset) (t.len - t.offset) := by
  conv_lhs => rw [← dropLast_append_getLast c.nodes, ht, Option.toList_some]
  rw [readable_append, readable_cons]
  exact congrArg _ (List.append_nil _)

omit [DecidableEq P] in
/-- `commit` adds the bytes. -/
lemma commit_spec (h : Linked pool p k c) {t bytes} (ht : c.nodes.getLast? = some t)
    (hroom : t.len + bytes.length ≤ t.buf.capacity - header_size) :
    let r := commit pool c bytes
    Works p k pool r.1 r.2 ∧ readable r.1 r.2.nodes = readable pool c.nodes ++ bytes ∧
      (c.size + bytes.length ≤ kMaxBody → Sized pool c → Sized r.1 r.2) := by
  have hok := h.holds.ok t (List.mem_append_left _ (List.mem_of_getLast? ht))
  have hoffset := hok.offset
  have hdirty := hok.room
  obtain ⟨hworks, hread⟩ := h.putTail
    { t with len := t.len + bytes.length, dirty_end := max t.dirty_end (t.len + bytes.length) } t.len c.tail_dirty_end
    (add32 c.size bytes.length) bytes ht rfl (by omega)
    ⟨by dsimp only; omega, by dsimp only; omega, by dsimp only; omega,
      (hok.blank.mono (by dsimp only; omega)).write (by dsimp only; omega)⟩
    ((h.tail t ht).trans (Nat.le_max_left ..))
  rw [read_put hoffset, ← List.append_assoc, ← readable_tail ht] at hread
  unfold commit
  rw [ht]
  refine ⟨hworks, hread, fun hle hsz => ⟨?_, ?_⟩⟩
  · show add32 c.size bytes.length = _
    rw [add32_of_le hle]
    exact (congrArg (· + bytes.length) hsz.size).trans (by rw [← List.length_append, ← hread])
  · show add32 c.size bytes.length ≤ _
    rw [add32_of_le hle]
    exact hle

omit [DecidableEq P] in
lemma record_direct_write_spec (h : Linked pool p k c) {t pos bytes}
    (ht : c.nodes.getLast? = some t) (hroom : pos + bytes.length ≤ t.buf.capacity - header_size) :
    let r := record_direct_write pool c pos bytes
    Works p k pool r.1 r.2 ∧
      (t.len ≤ pos → readable r.1 r.2.nodes = readable pool c.nodes ∧ (Sized pool c → Sized r.1 r.2)) := by
  have hok := h.holds.ok t (List.mem_append_left _ (List.mem_of_getLast? ht))
  have hoffset := hok.offset
  have hlen := hok.len
  have hdirty := hok.room
  have htail := h.tail t ht
  obtain ⟨hworks, hread⟩ := h.putTail { t with dirty_end := max t.dirty_end (pos + bytes.length) } pos
    (max c.tail_dirty_end (pos + bytes.length)) c.size bytes ht rfl (by omega)
    ⟨hoffset, by dsimp only; omega, by dsimp only; omega,
      (hok.blank.mono (by dsimp only; omega)).write (by dsimp only; omega)⟩
    (by dsimp only; omega)
  unfold record_direct_write
  rw [ht]
  refine ⟨hworks, fun hpos => ?_⟩
  rw [Lib.Memory.read_write_of_le (by dsimp only; omega), ← readable_tail ht] at hread
  exact ⟨hread, fun hsz => ⟨hsz.size.trans (congrArg List.length hread.symm), hsz.max⟩⟩

/-! ## `consume` and `release` -/

section Consume

omit [DecidableEq P]

lemma le_nodeDirty (d : Nat) (n : Node) (rest : List Node) : n.dirty_end ≤ nodeDirty d n rest := by
  unfold nodeDirty
  dsimp only
  split <;> omega

lemma logReturned_eq {l : List Node} (ho : l ≠ [] → c.owner = some p) :
    c.logReturned (l.map fun n => (n.buf, some (.chain k))) =
      (l.map fun n => ((p, n.buf), some (.chain k))) ++ c.returned := by
  unfold logReturned
  by_cases hl : l = []
  · subst hl
    cases c.owner <;> rfl
  · rw [ho hl, Option.toList_some, List.flatMap_singleton, List.map_map]
    rfl

lemma Linked.settle (h : Linked pool p k c) {l : List Node} (htaken : c'.taken = c.taken)
    (hret : c'.returned = (l.map fun n => ((p, n.buf), some (.chain k))) ++ c.returned)
    (hall : (c.all.map fun n => (p, n.buf)).Perm ((l.map fun n => (p, n.buf)) ++ c'.all.map fun n => (p, n.buf)))
    (hh : Holds pool' k c'.all) (htail : ∀ t, c'.nodes.getLast? = some t → c'.tail_dirty_end ≤ t.dirty_end)
    (ho : c'.all ≠ [] → c'.owner = some p) : Linked pool' p k c' where
  holds := hh
  tail := htail
  taken := by
    rw [htaken, hret, List.map_append, List.map_map, List.append_assoc]
    refine h.taken.trans ((hall.append_left _).trans ?_)
    exact List.perm_append_comm_assoc ..
  found := by
    intro r hr
    rw [hret] at hr
    rcases List.mem_append.mp hr with hr | hr
    · obtain ⟨n, -, rfl⟩ := List.mem_map.mp hr
      rfl
    · exact h.found r hr
  owner := ho

/-- `release_recycled` gives one node back at most. -/
lemma release_recycled_spec (layout : Layout) (h : Linked pool p k c) (ho : c.owner = none ∨ c.owner = some p) :
    let r := release_recycled layout pool c
    Works p k pool r.1 r.2 ∧ r.2.nodes = c.nodes ∧ r.2.recycled = none ∧
      readable r.1 r.2.nodes = readable pool c.nodes ∧ (Sized pool c → Sized r.1 r.2) := by
  unfold release_recycled
  have hdirty : ∀ (n : Node) (_ : List Node), n.dirty_end ≤ max n.dirty_end n.len := fun _ _ => Nat.le_max_left ..
  have hfree := freeAll_spec layout hdirty (h.holds.perm List.perm_append_comm)
  generalize freeAll layout (fun n _ => max n.dirty_end n.len) pool c.recycled.toList = r at hfree
  obtain ⟨pool₁, found⟩ := r
  obtain ⟨h₁, hspares₁, rfl⟩ := hfree
  have hread : readable pool₁ c.nodes = readable pool c.nodes := readable_congr hspares₁.data
  refine ⟨⟨?_, hspares₁.others, ?_⟩, rfl, rfl, hread, fun hsz => ⟨hsz.size.trans (congrArg List.length hread.symm), hsz.max⟩⟩
  · refine h.settle (l := c.recycled.toList) rfl (logReturned_eq fun hne => ?_) ?_ ?_ h.tail ?_
    · refine h.owner fun hnil => hne ?_
      exact (List.append_eq_nil_iff.mp hnil).2
    · show ((c.nodes ++ c.recycled.toList).map fun n => (p, n.buf)).Perm
        ((c.recycled.toList.map fun n : Node => (p, n.buf)) ++ (c.nodes ++ []).map fun n : Node => (p, n.buf))
      rw [List.append_nil, ← List.map_append]
      exact List.perm_append_comm.map _
    · show Holds pool₁ k (c.nodes ++ [])
      rwa [List.append_nil]
    · intro hne
      have hnodes : c.nodes ≠ [] := fun hnil => hne (by rw [ResponseBodyChain.all, hnil]; rfl)
      show (if c.nodes = [] then none else c.owner) = some p
      rw [if_neg hnodes]
      exact h.owner fun hnil => hnodes (List.append_eq_nil_iff.mp hnil).1
  · show (if c.nodes = [] then none else c.owner) = none ∨ (if c.nodes = [] then none else c.owner) = some p
    split
    · exact .inl rfl
    · exact ho

/-- `release` gives all nodes back. -/
lemma release_spec (h : Linked pool p k c) (ho : c.owner = none ∨ c.owner = some p) :
    let r := release layout pool c
    Works p k pool r.1 r.2 ∧ r.2.all = [] ∧ r.2.owner = none ∧ readable r.1 r.2.nodes = [] ∧ Sized r.1 r.2 := by
  unfold release
  have hfree := freeAll_spec layout (le_nodeDirty c.tail_dirty_end) h.holds
  generalize freeAll layout (nodeDirty c.tail_dirty_end) pool c.nodes = r at hfree
  obtain ⟨pool₁, found⟩ := r
  obtain ⟨h₁, hspares₁, rfl⟩ := hfree
  have hne : c.nodes ≠ [] → c.owner = some p := fun hne => h.owner fun hnil => hne (List.append_eq_nil_iff.mp hnil).1
  have hnodes : Linked pool₁ p k { c with
      nodes := [], returned := c.logReturned (c.nodes.map fun n => (n.buf, some (.chain k))) } := by
    refine h.settle (l := c.nodes) rfl (logReturned_eq hne) ?_ h₁ (fun t ht => by cases ht) ?_
    · rw [ResponseBodyChain.all, List.map_append]
      exact List.Perm.refl _
    · intro hrec
      refine h.owner fun hnil => hrec ?_
      exact (List.append_eq_nil_iff.mp hnil).2
  have hrec := release_recycled_spec layout hnodes ho
  dsimp only
  generalize release_recycled layout pool₁ _ = r at hrec
  obtain ⟨pool₂, c₂⟩ := r
  obtain ⟨hworks, hnil, hnone, -, -⟩ := hrec
  have hall : c₂.all = [] := by
    rw [ResponseBodyChain.all, hnil, hnone]
    rfl
  refine ⟨⟨?_, fun k' hk' => (hspares₁.others k' hk').trans (hworks.others k' hk'), .inl rfl⟩, hall, rfl, ?_, ?_, ?_⟩
  · refine ⟨hworks.linked.holds, fun t ht => ?_, hworks.linked.taken, hworks.linked.found, fun hne => absurd hall hne⟩
    rw [hnil] at ht
    cases ht
  · show readable pool₂ c₂.nodes = []
    rw [hnil]
    rfl
  · show 0 = (readable pool₂ c₂.nodes).length
    rw [hnil]
    rfl
  · exact Nat.zero_le _

lemma readable_drop (pool : SlicePool κ) (n : Node) (rest : List Node) {len} (hlen : n.len - n.offset ≤ len) :
    (readable pool (n :: rest)).drop len = (readable pool rest).drop (len - (n.len - n.offset)) := by
  rw [readable_cons, List.drop_append, List.drop_eq_nil_of_le (by rw [Lib.Memory.length_read]; exact hlen),
    List.nil_append, Lib.Memory.length_read]

/-- The loop of `consume` takes bytes from the front. -/
lemma consumeLoop_spec {l} (len : Nat) {tail_pinned recycle_bulk} (h : Linked pool p k { c with nodes := l }) :
    match consumeLoop layout tail_pinned recycle_bulk l pool c len with
    | (pool', c') =>
      Linked pool' p k c' ∧ (∀ k', k' ≠ k → Keeps k' pool pool') ∧ c'.owner = c.owner ∧
        (len ≤ (readable pool l).length →
          readable pool' c'.nodes = (readable pool l).drop len ∧ (Sized pool { c with nodes := l } → Sized pool' c')) := by
  induction l generalizing pool c len with
  | nil =>
    refine ⟨h, fun _ _ => Keeps.refl _ _, rfl, fun _ => ⟨?_, id⟩⟩
    exact List.drop_nil.symm
  | cons n rest ih =>
    have ho : c.owner = some p := h.owner (List.cons_ne_nil _ _)
    have hok := h.holds.ok n List.mem_cons_self
    have hoffset := hok.offset
    have hfront : (readable pool (n :: rest)).length = n.len - n.offset + (readable pool rest).length := by
      rw [readable_cons, List.length_append, Lib.Memory.length_read]
    unfold consumeLoop
    by_cases hturn : len ≠ 0 ∨ n.offset = n.len
    · rw [if_pos hturn]
      generalize htaken : min len (n.len - n.offset) = taken
      have hrel : Holds pool k ({ n with offset := n.offset + taken } :: (rest ++ c.recycled.toList)) :=
        h.holds.relabel { n with offset := n.offset + taken } rfl ⟨by dsimp only; omega, hok.len, hok.room, hok.blank⟩
      have hsize : len ≤ (readable pool (n :: rest)).length → Sized pool { c with nodes := n :: rest } →
          sub32 c.size taken = (readable pool (n :: rest)).length - taken ∧ sub32 c.size taken ≤ kMaxBody := by
        intro hlen hsz
        have heq : c.size = (readable pool (n :: rest)).length := hsz.size
        have hmax : c.size ≤ kMaxBody := hsz.max
        rw [sub32_of_le (by omega) hmax]
        omega
      by_cases hempty : n.offset + taken = n.len
      · rw [if_pos hempty]
        have hle : n.len - n.offset ≤ len := by omega
        have htake : taken = n.len - n.offset := by omega
        -- what the turns that follow make of the other nodes
        have hnext : ∀ {pool₁ : SlicePool κ} {c₁ : ResponseBodyChain P κ},
            Linked pool₁ p k { c₁ with nodes := rest } → (∀ k', k' ≠ k → Keeps k' pool pool₁) → c₁.owner = c.owner →
            c₁.size = sub32 c.size taken → readable pool₁ rest = readable pool rest →
            match consumeLoop layout tail_pinned recycle_bulk rest pool₁ c₁ (len - taken) with
            | (pool', c') =>
              Linked pool' p k c' ∧ (∀ k', k' ≠ k → Keeps k' pool pool') ∧ c'.owner = c.owner ∧
                (len ≤ (readable pool (n :: rest)).length →
                  readable pool' c'.nodes = (readable pool (n :: rest)).drop len ∧
                    (Sized pool { c with nodes := n :: rest } → Sized pool' c')) := by
          intro pool₁ c₁ h₁ hothers howner hsz₁ hread₁
          have hrest := ih (len - taken) h₁
          generalize consumeLoop layout tail_pinned recycle_bulk rest pool₁ c₁ (len - taken) = r at hrest
          obtain ⟨h₂, hothers₂, howner₂, hread₂⟩ := hrest
          refine ⟨h₂, fun k' hk' => (hothers k' hk').trans (hothers₂ k' hk'), howner₂.trans howner, fun hlen => ?_⟩
          rw [hread₁] at hread₂
          obtain ⟨hdrop, hsized⟩ := hread₂ (by omega)
          refine ⟨hdrop.trans ?_, fun hsz => hsized ?_⟩
          · rw [readable_drop pool n rest hle, htake]
          · obtain ⟨hsub, hmax⟩ := hsize hlen hsz
            refine ⟨?_, ?_⟩
            · show c₁.size = (readable pool₁ rest).length
              rw [hsz₁, hsub, hread₁]
              omega
            · show c₁.size ≤ kMaxBody
              rw [hsz₁]
              exact hmax
        by_cases hpin : rest = [] ∧ tail_pinned = true
        · rw [if_pos hpin]
          obtain ⟨rfl, -⟩ := hpin
          have hnil : readable pool [{ n with offset := n.offset + taken }] = [] := by
            rw [readable_cons]
            rw [hempty, Nat.sub_self]
            rfl
          refine ⟨?_, fun _ _ => Keeps.refl _ _, rfl, fun hlen => ⟨?_, fun hsz => ?_⟩⟩
          · refine h.relink [{ n with offset := n.offset + taken }] c.recycled hrel (List.Perm.refl _) (fun t ht => ?_) ho
            cases ht
            exact h.tail n rfl
          · rw [readable_drop pool n [] hle]
            exact hnil.trans List.drop_nil.symm
          · obtain ⟨hsub, hmax⟩ := hsize hlen hsz
            refine ⟨?_, hmax⟩
            show sub32 c.size taken = (readable pool [{ n with offset := n.offset + taken }]).length
            rw [hsub, hnil, hfront, htake]
            exact Nat.sub_self _
        rw [if_neg hpin]
        by_cases hrecycle : recycle_bulk = true ∧ c.recycled.isNone = true ∧ pool.is_bulk n.buf = true
        · rw [if_pos hrecycle]
          have hnone : c.recycled = none := Option.isNone_iff_eq_none.mp hrecycle.2.1
          generalize hn₂ : (if rest = [] then
            { n with offset := n.offset + taken, dirty_end := max n.dirty_end c.tail_dirty_end }
            else { n with offset := n.offset + taken }) = n₂
          have hbuf : n₂.buf = n.buf := by
            rw [← hn₂]
            split <;> rfl
          have hok₂ : n₂.Ok (pool.data n.buf) := by
            rw [← hn₂]
            have hok₁ := hrel.ok _ List.mem_cons_self
            split
            · rename_i hlast
              have htail : c.tail_dirty_end ≤ n.dirty_end := h.tail n (by rw [hlast]; rfl)
              have hmax : max n.dirty_end c.tail_dirty_end = n.dirty_end := Nat.max_eq_left htail
              rw [hmax]
              exact hok₁
            · exact hok₁
          have hholds := hrel.relabel n₂ hbuf hok₂
          rw [hnone, Option.toList_none, List.append_nil] at hholds
          refine hnext ?_ (fun _ _ => Keeps.refl _ _) rfl rfl rfl
          refine ⟨hholds.perm (List.perm_append_singleton ..).symm, fun t ht => ?_, ?_, h.found, fun _ => ho⟩
          · refine h.tail t ?_
            show (n :: rest).getLast? = some t
            rw [List.getLast?_cons, show rest.getLast? = some t from ht]
            rfl
          · refine h.taken.trans (List.Perm.append_left _ ?_)
            show ((n :: rest ++ c.recycled.toList).map fun n => (p, n.buf)).Perm ((rest ++ [n₂]).map fun n => (p, n.buf))
            rw [hnone, Option.toList_none, List.append_nil, List.map_append, List.map_cons, List.map_cons, hbuf]
            exact (List.perm_append_singleton ..).symm
        · rw [if_neg hrecycle]
          obtain ⟨h₁, hspares₁⟩ := free_node_spec layout (rest.head?.map Node.buf)
            (le_nodeDirty c.tail_dirty_end { n with offset := n.offset + taken } rest) hrel
          have hheld := h.holds.held_of_mem (n := n) List.mem_cons_self
          refine hnext ?_ hspares₁.others rfl rfl (readable_congr fun x hx => hspares₁.data x (List.mem_append_left _ hx))
          refine h.settle (l := [n]) rfl ?_ (List.Perm.refl _) h₁ (fun t ht => ?_) fun _ => ho
          · rw [hheld]
            exact logReturned_eq (l := [n]) fun _ => ho
          · show (if rest = [] then 0 else c.tail_dirty_end) ≤ t.dirty_end
            split
            · exact Nat.zero_le _
            · refine h.tail t ?_
              show (n :: rest).getLast? = some t
              rw [List.getLast?_cons, show rest.getLast? = some t from ht]
              rfl
      · rw [if_neg hempty]
        have htake : taken = len := by omega
        have hread : readable pool ({ n with offset := n.offset + taken } :: rest) =
            (readable pool (n :: rest)).drop len := by
          have hle : len ≤ (read (pool.data n.buf) (header_size + n.offset) (n.len - n.offset)).length := by
            rw [Lib.Memory.length_read]
            omega
          rw [readable_cons, readable_cons, List.drop_append_of_le_length hle, ← Lib.Memory.read_drop _ (by omega)]
          rw [htake, Nat.add_assoc, Nat.sub_add_eq]
        refine ⟨?_, fun _ _ => Keeps.refl _ _, rfl, fun hlen => ⟨hread, fun hsz => ?_⟩⟩
        · refine h.relink ({ n with offset := n.offset + taken } :: rest) c.recycled hrel (List.Perm.refl _)
            (fun t ht => ?_) ho
          have htail := h.tail
          rw [List.getLast?_cons] at ht
          simp only [List.getLast?_cons, Option.some.injEq, forall_eq'] at htail
          cases ht
          cases hlast : rest.getLast? with
          | none =>
            rw [hlast] at htail
            exact htail
          | some t =>
            rw [hlast] at htail
            exact htail
        · obtain ⟨hsub, hmax⟩ := hsize hlen hsz
          refine ⟨?_, hmax⟩
          show sub32 c.size taken = (readable pool ({ n with offset := n.offset + taken } :: rest)).length
          rw [hsub, hread, List.length_drop, htake]
    · rw [if_neg hturn]
      rw [not_or, not_not] at hturn
      rw [hturn.1]
      exact ⟨h, fun _ _ => Keeps.refl _ _, rfl, fun _ => ⟨rfl, id⟩⟩

/-- `consume` takes bytes from the front. -/
lemma consume_spec (h : Linked pool p k c) (ho : c.owner = none ∨ c.owner = some p) {len tail_pinned recycle_bulk} :
    let r := consume layout pool c len tail_pinned recycle_bulk
    Works p k pool r.1 r.2 ∧
      (len ≤ (readable pool c.nodes).length →
        readable r.1 r.2.nodes = (readable pool c.nodes).drop len ∧ (Sized pool c → Sized r.1 r.2)) := by
  have hloop := @consumeLoop_spec _ _ pool p k c layout c.nodes len tail_pinned recycle_bulk h
  unfold consume
  generalize consumeLoop layout tail_pinned recycle_bulk c.nodes pool c len = r at hloop
  obtain ⟨pool₁, c₁⟩ := r
  obtain ⟨h₁, hothers, howner, hread⟩ := hloop
  have ho₁ : c₁.owner = none ∨ c₁.owner = some p := by rwa [howner]
  dsimp only
  split
  · rename_i hnil
    refine ⟨⟨⟨h₁.holds, fun t ht => ?_, h₁.taken, h₁.found, fun hne => ?_⟩, hothers, ?_⟩, fun hlen => ?_⟩
    · change c₁.nodes.getLast? = some t at ht
      rw [hnil] at ht
      cases ht
    · show (if c₁.recycled.isNone then none else c₁.owner) = some p
      cases hrec : c₁.recycled with
      | none =>
        rw [ResponseBodyChain.all, hnil, hrec] at hne
        exact absurd rfl hne
      | some r => exact h₁.owner hne
    · show (if c₁.recycled.isNone then none else c₁.owner) = none ∨
        (if c₁.recycled.isNone then none else c₁.owner) = some p
      split
      · exact .inl rfl
      · exact ho₁
    · obtain ⟨hdrop, hsized⟩ := hread hlen
      exact ⟨hdrop, fun hsz => ⟨(hsized hsz).size, (hsized hsz).max⟩⟩
  · exact ⟨⟨h₁, hothers, ho₁⟩, hread⟩

end Consume

end Rut.Pool
