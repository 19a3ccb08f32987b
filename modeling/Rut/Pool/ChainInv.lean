import Rut.Pool.PoolInv
import Rut.Pool.ResponseBodyChain

/-!
# The nodes of a chain

A chain holds the buffers of its nodes, and each of them is blank beyond the dirty bytes that its node accounts for.
Each loop of the chain has one lemma that says what it does to the nodes; it leaves the nodes alone that it does not
work on, and those of the other chains.
-/

namespace Rut.Pool

open Lib.Memory (read write Blank)
open SlicePool

variable {κ : Type} {pool pool' pool₁ pool₂ : SlicePool κ} {k k' : κ} {n : Node} {ns l l' : List Node} {b : Buf}

structure Node.Ok (n : Node) (m : Bytes) : Prop where
  offset : n.offset ≤ n.len
  len : n.len ≤ n.dirty_end
  room : header_size + n.dirty_end ≤ n.buf.capacity
  blank : Blank 0 m (header_size + n.dirty_end)

structure Holds (pool : SlicePool κ) (k : κ) (ns : List Node) : Prop where
  inv : pool.Inv
  nodup : (ns.map Node.buf).Nodup
  held : ∀ b, pool.held b = some (.chain k) ↔ b ∈ ns.map Node.buf
  ok : ∀ n ∈ ns, n.Ok (pool.data n.buf)

structure Keeps (k : κ) (pool pool' : SlicePool κ) : Prop where
  held : ∀ b, pool'.held b = some (.chain k) ↔ pool.held b = some (.chain k)
  data : ∀ b, pool.held b = some (.chain k) → pool'.data b = pool.data b

/-- What an operation of a chain leaves alone: the nodes `ns`, and the buffers of the other chains. -/
structure Spares (k : κ) (ns : List Node) (pool pool' : SlicePool κ) : Prop where
  data : ∀ n ∈ ns, pool'.data n.buf = pool.data n.buf
  others : ∀ k', k' ≠ k → Keeps k' pool pool'

lemma Keeps.refl (k : κ) (pool : SlicePool κ) : Keeps k pool pool := ⟨fun _ => Iff.rfl, fun _ _ => rfl⟩

lemma Keeps.trans (h₁ : Keeps k pool pool₁) (h₂ : Keeps k pool₁ pool₂) : Keeps k pool pool₂ where
  held := fun b => (h₂.held b).trans (h₁.held b)
  data := fun b hb => (h₂.data b ((h₁.held b).mpr hb)).trans (h₁.data b hb)

lemma Spares.refl (k : κ) (ns : List Node) (pool : SlicePool κ) : Spares k ns pool pool :=
  ⟨fun _ _ => rfl, fun _ _ => Keeps.refl _ _⟩

lemma Spares.trans (h₁ : Spares k ns pool pool₁) (h₂ : Spares k ns pool₁ pool₂) : Spares k ns pool pool₂ where
  data := fun n hn => (h₂.data n hn).trans (h₁.data n hn)
  others := fun k' hk' => (h₁.others k' hk').trans (h₂.others k' hk')

lemma Spares.mono (h : Spares k l pool pool') (hsub : ns ⊆ l) : Spares k ns pool pool' :=
  ⟨fun n hn => h.data n (hsub hn), h.others⟩

lemma Holds.keeps (h : Holds pool k ns) (hk : Keeps k pool pool') (hi : pool'.Inv) : Holds pool' k ns where
  inv := hi
  nodup := h.nodup
  held := fun b => (hk.held b).trans (h.held b)
  ok := by
    intro n hn
    rw [hk.data _ ((h.held _).mpr (List.mem_map_of_mem hn))]
    exact h.ok n hn

lemma Holds.perm (h : Holds pool k l) (hp : l.Perm l') : Holds pool k l' where
  inv := h.inv
  nodup := (hp.map _).nodup_iff.mp h.nodup
  held := fun b => (h.held b).trans (hp.map _).mem_iff
  ok := fun n hn => h.ok n (hp.mem_iff.mpr hn)

lemma Holds.held_of_mem (h : Holds pool k ns) (hn : n ∈ ns) : pool.held n.buf = some (.chain k) :=
  (h.held _).mpr (List.mem_map_of_mem hn)

lemma Holds.capacity (h : Holds pool k ns) (hn : n ∈ ns) : payload_capacity pool n = n.buf.capacity - header_size := by
  rw [payload_capacity, h.inv.capacity_of]
  rw [h.held_of_mem hn]
  exact fun hnone => by cases hnone

/-! ## What the operations of a pool do to the nodes -/

lemma SlicePool.Same.keeps (h : Same pool pool') (k : κ) : Keeps k pool pool' where
  held := fun b => by rw [h.held]
  data := fun b hb => h.data b (by rw [hb]; exact fun hnone => by cases hnone)

lemma SlicePool.Lent.keeps {h} (hl : Lent pool b h pool') (hne : h ≠ .chain k) : Keeps k pool pool' where
  held := by
    intro b'
    rw [hl.held, Function.update_apply]
    split
    · rename_i heq
      rw [heq, hl.free]
      exact ⟨fun hh => absurd (Option.some.inj hh) hne, fun hh => by cases hh⟩
    · rfl
  data := fun b' hb' => hl.data b' (by rw [hb']; exact fun hnone => by cases hnone)

lemma SlicePool.Returned.keeps (hr : Returned pool b pool') (hb : pool.held b ≠ some (.chain k)) : Keeps k pool pool' where
  held := by
    intro b'
    rw [hr.held, Function.update_apply]
    split
    · rename_i heq
      rw [heq]
      exact ⟨fun hh => (by cases hh), fun hh => absurd hh hb⟩
    · rfl
  data := by
    intro b' hb'
    refine hr.data b' fun heq => hb ?_
    rw [← heq]
    exact hb'

lemma Holds.same (h : Holds pool k ns) (hs : Same pool pool') : Holds pool' k ns ∧ Spares k ns pool pool' := by
  refine ⟨h.keeps (hs.keeps k) hs.inv, fun n hn => ?_, fun k' _ => hs.keeps k'⟩
  exact (hs.keeps k).data _ (h.held_of_mem hn)

lemma Holds.lent (h : Holds pool k ns) (hl : Lent pool b (.chain k) pool') (hb : n.buf = b)
    (hok : n.Ok (pool'.data b)) : Holds pool' k (n :: ns) ∧ Spares k ns pool pool' := by
  have hout : b ∉ ns.map Node.buf := by
    intro hmem
    rw [← h.held, hl.free] at hmem
    cases hmem
  have hdata : ∀ n ∈ ns, pool'.data n.buf = pool.data n.buf := by
    intro n hn
    refine hl.data _ ?_
    rw [h.held_of_mem hn]
    exact fun hnone => by cases hnone
  subst hb
  refine ⟨⟨hl.inv, List.nodup_cons.mpr ⟨hout, h.nodup⟩, ?_, ?_⟩, hdata, ?_⟩
  · intro b'
    rw [hl.held, Function.update_apply, List.map_cons, List.mem_cons, ← h.held]
    split
    · rename_i heq
      exact ⟨fun _ => .inl heq, fun _ => rfl⟩
    · rename_i hne
      exact ⟨.inr, fun hb => hb.resolve_left hne⟩
  · rintro n' (_ | ⟨_, hn'⟩)
    · exact hok
    · rw [hdata n' hn']
      exact h.ok n' hn'
  · intro k' hk'
    exact hl.keeps fun heq => hk' (Holder.chain.inj heq).symm

lemma Holds.returned (h : Holds pool k (n :: ns)) (hr : Returned pool n.buf pool') :
    Holds pool' k ns ∧ Spares k ns pool pool' := by
  have hnodup := h.nodup
  rw [List.map_cons, List.nodup_cons] at hnodup
  have hdata : ∀ n' ∈ ns, pool'.data n'.buf = pool.data n'.buf :=
    fun n' hn' => hr.data _ fun heq => hnodup.1 (heq ▸ List.mem_map_of_mem hn')
  refine ⟨⟨hr.inv, hnodup.2, ?_, ?_⟩, hdata, ?_⟩
  · intro b'
    have hheld := h.held b'
    rw [List.map_cons, List.mem_cons] at hheld
    rw [hr.held, Function.update_apply]
    split
    · rename_i heq
      subst heq
      exact ⟨fun hh => (by cases hh), fun hmem => absurd hmem hnodup.1⟩
    · rename_i hne
      rw [hheld]
      exact ⟨fun hb => hb.resolve_left hne, .inr⟩
  · intro n' hn'
    rw [hdata n' hn']
    exact h.ok n' (List.mem_cons_of_mem _ hn')
  · intro k' hk'
    refine hr.keeps fun hh => hk' ?_
    rw [h.held_of_mem List.mem_cons_self] at hh
    exact (Holder.chain.inj (Option.some.inj hh)).symm

lemma Holds.put (h : Holds pool k (n :: ns)) (n' : Node) (pos : Nat) (bytes : List UInt8)
    (hbuf : n'.buf = n.buf) (hroom : pos + bytes.length ≤ n.buf.capacity)
    (hok : n'.Ok (write (pool.data n.buf) pos bytes)) :
    Holds (pool.put n.buf pos bytes) k (n' :: ns) ∧ Spares k ns pool (pool.put n.buf pos bytes) := by
  have hnodup := h.nodup
  rw [List.map_cons, List.nodup_cons] at hnodup
  have hheld := h.held_of_mem List.mem_cons_self
  have hother : ∀ b', b' ≠ n.buf → (pool.put n.buf pos bytes).data b' = pool.data b' :=
    fun b' hb' => Function.update_of_ne hb' ..
  have hdata : ∀ n' ∈ ns, (pool.put n.buf pos bytes).data n'.buf = pool.data n'.buf :=
    fun n' hn' => hother _ fun heq => hnodup.1 (heq ▸ List.mem_map_of_mem hn')
  have hself : (pool.put n.buf pos bytes).data n.buf = write (pool.data n.buf) pos bytes := Function.update_self ..
  refine ⟨⟨h.inv.chainPut hheld hroom, ?_, ?_, ?_⟩, hdata, ?_⟩
  · rw [List.map_cons, hbuf]
    exact h.nodup
  · intro b'
    rw [List.map_cons, hbuf]
    exact h.held b'
  · rintro x (_ | ⟨_, hx⟩)
    · rw [hbuf, hself]
      exact hok
    · rw [hdata x hx]
      exact h.ok x (List.mem_cons_of_mem _ hx)
  · intro k' hk'
    refine ⟨fun _ => Iff.rfl, fun b' hb' => hother b' fun heq => hk' ?_⟩
    rw [heq, hheld] at hb'
    exact (Holder.chain.inj (Option.some.inj hb')).symm

/-! ## The loops -/

lemma header_lt_capacity (b : Buf) : header_size < b.capacity := by
  cases b with
  | slice i => exact show header_size < kSliceSize by decide
  | bulk i => exact show header_size < kBulkSliceSize by decide

lemma new_node_spec (h : Holds pool k ns) (bulk : Bool) :
    match new_node pool k bulk with
    | (some n, pool') => Holds pool' k (n :: ns) ∧ Spares k ns pool pool' ∧ n.len = 0 ∧ n.offset = 0
    | (none, pool') => Holds pool' k ns ∧ Spares k ns pool pool' := by
  -- a bulk buffer, with the bytes that are left in it
  have hfirst : Allocates pool (.chain k)
      (if bulk then pool.alloc_response_body_bulk (.chain k) else (none, pool)) := by
    split
    · exact h.inv.alloc_response_body_bulk k
    · exact ⟨h.inv, rfl, fun _ _ => rfl⟩
  unfold new_node
  generalize (if bulk then pool.alloc_response_body_bulk (.chain k) else (none, pool)) = r at hfirst
  obtain ⟨_ | ⟨b, dirty⟩, pool₁⟩ := r
  · obtain ⟨h₁, hspares₁⟩ := h.same hfirst
    have hsecond := h₁.inv.alloc (.chain k)
    dsimp only
    generalize pool₁.alloc (.chain k) = r at hsecond
    obtain ⟨_ | b, pool₂⟩ := r
    · obtain ⟨h₂, hspares₂⟩ := h₁.same hsecond
      exact ⟨h₂, hspares₁.trans hspares₂⟩
    · obtain ⟨hlent, hblank, -⟩ := hsecond
      have hcap := header_lt_capacity b
      obtain ⟨h₂, hspares₂⟩ := h₁.lent (n := { buf := b }) hlent rfl
        ⟨Nat.le_refl _, Nat.le_refl _, Nat.le_of_lt hcap, hblank.mono (Nat.zero_le _)⟩
      exact ⟨h₂, hspares₁.trans hspares₂, rfl, rfl⟩
  · obtain ⟨hlent, hblank, hle⟩ := hfirst
    have hcap := header_lt_capacity b
    obtain ⟨hholds, hspares⟩ := h.lent (n := { buf := b, dirty_end := dirty - header_size }) hlent rfl
      ⟨Nat.le_refl _, Nat.zero_le _, by dsimp only; omega, hblank.mono (by dsimp only; omega)⟩
    exact ⟨hholds, hspares, rfl, rfl⟩

def room (l : List Node) : Nat := (l.map fun n => n.buf.capacity - header_size - n.len).sum

lemma room_cons (n : Node) (l : List Node) : room (n :: l) = n.buf.capacity - header_size - n.len + room l :=
  List.sum_cons

lemma reserve_spec (h : Holds pool k ns) (outgrown : Bool) {fuel missing} (hfuel : missing ≤ fuel) :
    match reserve k outgrown fuel pool missing with
    | (reserved, pool', fresh) =>
      Holds pool' k (fresh ++ ns) ∧ Spares k ns pool pool' ∧ (∀ n ∈ fresh, n.len = 0 ∧ n.offset = 0) ∧
        (reserved = true → missing ≤ room fresh) := by
  induction fuel generalizing pool ns missing with
  | zero =>
    obtain rfl := Nat.le_zero.mp hfuel
    exact ⟨h, Spares.refl _ _ _, fun n hn => absurd hn List.not_mem_nil, fun _ => Nat.zero_le _⟩
  | succ fuel ih =>
    unfold reserve
    by_cases hm : missing = 0
    · rw [if_pos hm]
      exact ⟨h, Spares.refl _ _ _, fun n hn => absurd hn List.not_mem_nil, fun _ => hm ▸ Nat.zero_le _⟩
    rw [if_neg hm]
    have hnew := new_node_spec h (decide (missing > kPayload) || outgrown)
    generalize new_node pool k (decide (missing > kPayload) || outgrown) = r at hnew
    obtain ⟨_ | n, pool₁⟩ := r
    · exact ⟨hnew.1, hnew.2, fun n hn => absurd hn List.not_mem_nil, fun hf => by cases hf⟩
    · obtain ⟨h₁, hspares₁, hlen, hoffset⟩ := hnew
      have hcap := h₁.capacity List.mem_cons_self
      have hlt := header_lt_capacity n.buf
      have hrest := ih h₁ (show missing - payload_capacity pool₁ n ≤ fuel by omega)
      dsimp only
      generalize reserve k outgrown fuel pool₁ (missing - payload_capacity pool₁ n) = r at hrest
      obtain ⟨reserved, pool₂, fresh⟩ := r
      obtain ⟨h₂, hspares₂, hfresh, henough⟩ := hrest
      refine ⟨h₂.perm List.perm_middle, hspares₁.trans (hspares₂.mono (List.subset_cons_self ..)), ?_, ?_⟩
      · rintro x (_ | ⟨_, hx⟩)
        · exact ⟨hlen, hoffset⟩
        · exact hfresh x hx
      · intro hres
        have hle : missing - payload_capacity pool₁ n ≤ room fresh := henough hres
        show missing ≤ room (n :: fresh)
        rw [room_cons, hlen, Nat.sub_zero]
        omega

lemma free_node_spec (layout : Layout) (next : Option Buf) {dirty} (hdirty : n.dirty_end ≤ dirty)
    (h : Holds pool k (n :: ns)) :
    Holds (free_node layout pool n next dirty) k ns ∧ Spares k ns pool (free_node layout pool n next dirty) := by
  have hok := h.ok n List.mem_cons_self
  have hlen := layout.length_eq n next
  have hroom := hok.room
  have hwrite : n.Ok (write (pool.data n.buf) 0 (layout.bytes n next)) :=
    ⟨hok.offset, hok.len, hok.room, hok.blank.write (by omega)⟩
  obtain ⟨h₁, hspares₁⟩ := h.put n 0 (layout.bytes n next) rfl (by omega) hwrite
  have hreturned : Returned (pool.put n.buf 0 (layout.bytes n next)) n.buf (free_node layout pool n next dirty) := by
    refine h₁.inv.free_response_body_written fun _ => ?_
    exact (h₁.ok n List.mem_cons_self).blank.mono (Nat.add_le_add_left hdirty _)
  obtain ⟨h₂, hspares₂⟩ := h₁.returned hreturned
  exact ⟨h₂, hspares₁.trans hspares₂⟩

lemma freeAll_spec (layout : Layout) {dirty} (hdirty : ∀ n rest, n.dirty_end ≤ dirty n rest)
    (h : Holds pool k (l ++ ns)) :
    match freeAll layout dirty pool l with
    | (pool', found) =>
      Holds pool' k ns ∧ Spares k ns pool pool' ∧ found = l.map fun n => (n.buf, some (.chain k)) := by
  induction l generalizing pool with
  | nil => exact ⟨h, Spares.refl _ _ _, rfl⟩
  | cons n rest ih =>
    obtain ⟨h₁, hspares₁⟩ := free_node_spec layout (rest.head?.map Node.buf) (hdirty n rest) h
    have hrest := ih h₁
    have hheld := h.held_of_mem List.mem_cons_self
    unfold freeAll
    generalize freeAll layout dirty (free_node layout pool n (rest.head?.map Node.buf) (dirty n rest)) rest = r at hrest
    obtain ⟨pool₂, found⟩ := r
    obtain ⟨h₂, hspares₂, hfound⟩ := hrest
    refine ⟨h₂, (hspares₁.mono (List.subset_append_right ..)).trans hspares₂, ?_⟩
    show (n.buf, pool.held n.buf) :: found = _
    rw [hheld, hfound, List.map_cons]

def readable (pool : SlicePool κ) (l : List Node) : List UInt8 :=
  l.flatMap fun n => read (pool.data n.buf) (header_size + n.offset) (n.len - n.offset)

lemma readable_cons (pool : SlicePool κ) (n : Node) (l : List Node) :
    readable pool (n :: l) = read (pool.data n.buf) (header_size + n.offset) (n.len - n.offset) ++ readable pool l :=
  List.flatMap_cons

lemma readable_append (pool : SlicePool κ) (l l' : List Node) :
    readable pool (l ++ l') = readable pool l ++ readable pool l' := List.flatMap_append

lemma readable_congr (h : ∀ n ∈ l, pool'.data n.buf = pool.data n.buf) : readable pool' l = readable pool l := by
  refine List.flatMap_congr fun n hn => ?_
  rw [h n hn]

lemma readable_empty (h : ∀ n ∈ l, n.len = 0 ∧ n.offset = 0) : readable pool l = [] := by
  refine List.flatMap_eq_nil_iff.mpr fun n hn => ?_
  rw [(h n hn).1, Nat.zero_sub]
  rfl

lemma read_put {bytes} {m : Bytes} (ho : n.offset ≤ n.len) :
    read (write m (header_size + n.len) bytes) (header_size + n.offset) (n.len + bytes.length - n.offset) =
      read m (header_size + n.offset) (n.len - n.offset) ++ bytes := by
  have hsplit : n.len + bytes.length - n.offset = (n.len - n.offset) + bytes.length := by omega
  have hpos : header_size + n.offset + (n.len - n.offset) = header_size + n.len := by omega
  rw [hsplit, Lib.Memory.read_add, hpos, Lib.Memory.read_write, Lib.Memory.read_write_of_le (by omega)]

structure Node.Grows (n n' : Node) : Prop where
  buf : n'.buf = n.buf
  dirty : n.dirty_end ≤ n'.dirty_end

lemma fill_spec (src : List UInt8) (h : Holds pool k (l ++ ns)) (hempty : ∀ n ∈ l.tail, n.len = 0 ∧ n.offset = 0)
    (hroom : src.length ≤ room l) :
    match fill pool l src with
    | (pool', l') =>
      Holds pool' k (l' ++ ns) ∧ Spares k ns pool pool' ∧ List.Forall₂ Node.Grows l l' ∧
        readable pool' l' = readable pool l ++ src := by
  induction l generalizing pool src ns with
  | nil =>
    obtain rfl := List.eq_nil_of_length_eq_zero (Nat.le_zero.mp hroom)
    exact ⟨h, Spares.refl _ _ _, .nil, (List.append_nil _).symm⟩
  | cons n rest ih =>
    unfold fill
    by_cases hsrc : src = []
    · rw [if_pos hsrc, hsrc]
      exact ⟨h, Spares.refl _ _ _, List.forall₂_same.mpr fun n _ => ⟨rfl, Nat.le_refl _⟩, (List.append_nil _).symm⟩
    rw [if_neg hsrc]
    dsimp only
    have hok := h.ok n List.mem_cons_self
    have hcap := h.capacity (n := n) List.mem_cons_self
    have hoffset := hok.offset
    have hlen := hok.len
    have hdirty := hok.room
    rw [room_cons] at hroom
    generalize ht : min src.length (payload_capacity pool n - n.len) = taken
    have htake : (src.take taken).length = taken := by
      rw [List.length_take]
      omega
    generalize hw : ({ n with len := n.len + taken, dirty_end := max n.dirty_end (n.len + taken) } : Node) = written
    have hbuf : written.buf = n.buf := by rw [← hw]
    -- the bytes of this node
    have hput := h.put written (header_size + n.len) (src.take taken) hbuf (by omega)
      (hw ▸ ⟨by dsimp only; omega, by dsimp only; omega, by dsimp only; omega,
        (hok.blank.mono (by dsimp only; omega)).write (by dsimp only; omega)⟩)
    obtain ⟨h₁, hspares₁⟩ := hput
    have hself : (pool.put n.buf (header_size + n.len) (src.take taken)).data n.buf =
        write (pool.data n.buf) (header_size + n.len) (src.take taken) := Function.update_self ..
    generalize pool.put n.buf (header_size + n.len) (src.take taken) = pool₁ at h₁ hspares₁ hself ⊢
    -- those of the nodes that follow
    have hrest := ih (src.drop taken) (h₁.perm List.perm_middle.symm) (fun x hx => hempty x (List.mem_of_mem_tail hx))
      (by rw [List.length_drop]; omega)
    generalize fill pool₁ rest (src.drop taken) = r at hrest
    obtain ⟨pool₂, rest'⟩ := r
    obtain ⟨h₂, hspares₂, hgrows, hread⟩ := hrest
    have hspares₁' := hspares₁.mono (List.subset_append_right rest ns)
    refine ⟨h₂.perm List.perm_middle, hspares₁'.trans (hspares₂.mono (List.subset_cons_self ..)), ?_, ?_⟩
    · exact .cons ⟨hbuf, hw ▸ Nat.le_max_left ..⟩ hgrows
    · show readable pool₂ (written :: rest') = readable pool (n :: rest) ++ src
      have hdata : pool₂.data n.buf = write (pool.data n.buf) (header_size + n.len) (src.take taken) := by
        rw [← hbuf, hspares₂.data written List.mem_cons_self, hbuf, hself]
      have hnode : read (pool₂.data written.buf) (header_size + written.offset) (written.len - written.offset) =
          read (pool.data n.buf) (header_size + n.offset) (n.len - n.offset) ++ src.take taken := by
        rw [← read_put hoffset, ← hw, hdata, htake]
      have hnil : ∀ pool : SlicePool κ, readable pool rest = [] := fun _ => readable_empty hempty
      rw [readable_cons, readable_cons, hnode, hread, hnil, hnil, List.nil_append, List.append_nil, List.append_assoc,
        List.take_append_drop]

end Rut.Pool
