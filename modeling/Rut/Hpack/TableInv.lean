import Rut.Hpack.Table
import Rut.Lib.BoundedQueue

/-!
# What the dynamic table holds

The dynamic table is a queue of fields bounded by the sum of their sizes. `Rep` says how it holds the queue: the octets
packed at the start of the buffer, the entries where they lie. Evictions and additions are those of the queue, and the
number of entries never comes into it, since an entry counts 32 octets beside its own.
-/

namespace Rut.Hpack

open Lib BoundedQueue

abbrev Field := Str × Str

def Field.bytes (e : Field) : Str := e.1 ++ e.2

def Field.size (e : Field) : Nat := e.1.length + e.2.length + 32

def packed (es : List Field) : Str := es.flatMap Field.bytes

def layout : Nat → List Field → List DynEntry
  | _, [] => []
  | off, e :: es => ⟨off, e.1.length, e.2.length⟩ :: layout (off + e.bytes.length) es

structure Rep (d : DynamicTable) (es : List Field) : Prop where
  buf : d.buf.length = kByteCap
  bytes : d.buf.take d.byteUsed = packed es
  used : d.byteUsed = (packed es).length
  ents : d.ents = layout 0 es
  size : d.tableSize = total Field.size es
  cap : d.tableSize ≤ kHardCap

structure Holds (d : DynamicTable) (es : List Field) : Prop extends Rep d es where
  max : d.tableSize ≤ d.maxSize
  hard : d.maxSize ≤ kHardCap

/-! ## The queue -/

lemma Field.length_bytes (e : Field) : e.bytes.length = e.1.length + e.2.length := List.length_append

lemma packed_cons (e : Field) (es : List Field) : packed (e :: es) = e.bytes ++ packed es := rfl

lemma packed_append (es es' : List Field) : packed (es ++ es') = packed es ++ packed es' := List.flatMap_append

lemma length_layout (off : Nat) (es : List Field) : (layout off es).length = es.length := by
  induction es generalizing off with
  | nil => rfl
  | cons e es ih => rw [layout, List.length_cons, ih, List.length_cons]

lemma layout_append (off : Nat) (es es' : List Field) :
    layout off (es ++ es') = layout off es ++ layout (off + (packed es).length) es' := by
  induction es generalizing off with
  | nil => rfl
  | cons e es ih =>
    rw [List.cons_append, layout, ih, layout, packed_cons, List.length_append, Nat.add_assoc]
    rfl

lemma layout_shift (k off : Nat) (es : List Field) :
    (layout (off + k) es).map (fun e => { e with off := e.off - k }) = layout off es := by
  induction es generalizing off with
  | nil => rfl
  | cons e es ih =>
    rw [layout, List.map_cons, Nat.add_right_comm, ih, layout, Nat.add_sub_cancel]

lemma total_size (es : List Field) : total Field.size es = (packed es).length + 32 * es.length := by
  induction es with
  | nil => rfl
  | cons e es ih =>
    rw [total_cons, ih, packed_cons, List.length_append, Field.length_bytes, Field.size, List.length_cons]
    omega

namespace Rep

variable {d : DynamicTable} {e : Field} {es : List Field}

lemma size_le (R : Rep d es) : (packed es).length + 32 * es.length ≤ kHardCap := by
  have hcap := R.cap
  rwa [R.size, total_size] at hcap

lemma used_le (R : Rep d es) : d.byteUsed ≤ kByteCap := by
  have hle := R.size_le
  rw [R.used]
  exact Nat.le_trans (Nat.le_add_right _ _) hle

lemma length_ents (R : Rep d es) : d.ents.length = es.length := by rw [R.ents, length_layout]

lemma length_le (R : Rep d es) : es.length ≤ kMaxEntries := by
  have hle : (packed es).length + 32 * es.length ≤ 4096 := R.size_le
  have hmax : kMaxEntries = 128 := rfl
  omega

lemma evictOldest_nil (R : Rep d []) : d.evictOldest = d := by
  have hents : d.ents = [] := R.ents
  rw [DynamicTable.evictOldest, hents]

lemma evictOldest (R : Rep d (e :: es)) :
    Rep d.evictOldest es ∧ d.evictOldest.maxSize = d.maxSize ∧ d.evictOldest.hardMax = d.hardMax := by
  have hents : d.ents = ⟨0, e.1.length, e.2.length⟩ :: layout (0 + e.bytes.length) es := R.ents
  have hused := R.used
  have hsize := R.size
  have hle := R.used_le
  have hbuf := R.buf
  have hcap := R.cap
  rw [packed_cons, List.length_append] at hused
  rw [total_cons, Field.size] at hsize
  have hlen := e.length_bytes
  have hmoved : (d.buf.drop e.bytes.length).take (packed es).length = packed es := by
    have h := congrArg (List.drop e.bytes.length) R.bytes
    rwa [packed_cons, List.drop_left, List.drop_take, hused, Nat.add_sub_cancel_left] at h
  have hrest : d.byteUsed - e.bytes.length = (packed es).length := by omega
  unfold DynamicTable.evictOldest
  rw [hents]
  simp only [← hlen, hrest, hmoved]
  refine ⟨{ buf := ?_, bytes := ?_, used := rfl, ents := ?_, size := ?_, cap := ?_ }, trivial, trivial⟩
  · rw [List.length_append, List.length_drop]
    omega
  · exact List.take_left
  · exact layout_shift e.bytes.length 0 es
  · dsimp only
    omega
  · dsimp only
    omega

lemma evictWhile (full : DynamicTable → Bool) (m : Nat) (R : Rep d es)
    (hfull : ∀ {d' es'}, Rep d' es' → d'.maxSize = d.maxSize → (full d' = true ↔ m < total Field.size es')) :
    Rep (d.evictWhile full es.length) (fit Field.size m es) ∧
      (d.evictWhile full es.length).maxSize = d.maxSize ∧ (d.evictWhile full es.length).hardMax = d.hardMax ∧
      full (d.evictWhile full es.length) = false := by
  induction es generalizing d with
  | nil =>
    refine ⟨R, rfl, rfl, Bool.eq_false_of_not_eq_true fun h => ?_⟩
    exact absurd ((hfull R rfl).mp h) (Nat.not_lt_zero m)
  | cons e es ih =>
    rw [List.length_cons, DynamicTable.evictWhile]
    by_cases h : full d = true
    · obtain ⟨R', hmax, hhard⟩ := R.evictOldest
      rw [if_pos h, fit_cons_of_lt ((hfull R rfl).mp h)]
      obtain ⟨R', hmax', hhard', hdone⟩ := ih R' fun R'' h'' => hfull R'' (h''.trans hmax)
      exact ⟨R', hmax'.trans hmax, hhard'.trans hhard, hdone⟩
    · rw [if_neg h, fit_of_le (Nat.not_lt.mp (mt (hfull R rfl).mpr h))]
      exact ⟨R, rfl, rfl, Bool.eq_false_of_not_eq_true h⟩

end Rep

namespace Holds

variable {d : DynamicTable} {es : List Field}

lemma init {buf} (hbuf : buf.length = kByteCap) (m : Nat) : Holds (DynamicTable.init buf m) [] where
  buf := hbuf
  bytes := rfl
  used := rfl
  ents := rfl
  size := rfl
  cap := Nat.zero_le _
  max := Nat.zero_le _
  hard := by
    rw [DynamicTable.init]
    split
    · assumption
    · exact le_rfl

lemma clear (H : Holds d es) : Holds d.clear [] where
  buf := H.buf
  bytes := rfl
  used := rfl
  ents := rfl
  size := rfl
  cap := Nat.zero_le _
  max := Nat.zero_le _
  hard := H.hard

lemma evictOldest (H : Holds d es) : Holds d.evictOldest es.tail := by
  cases es with
  | nil =>
    rw [H.evictOldest_nil]
    exact H
  | cons e es =>
    obtain ⟨R, hmax, hhard⟩ := H.toRep.evictOldest
    have hle := H.max
    rw [H.size, total_cons] at hle
    refine { R with max := ?_, hard := ?_ }
    · rw [R.size, hmax]
      omega
    · rw [hmax]
      exact H.hard

lemma setMaxSize (H : Holds d es) {m} (hm : m ≤ kHardCap) :
    Holds (d.setMaxSize m) (fit Field.size m es) ∧ (d.setMaxSize m).maxSize = m ∧
      (d.setMaxSize m).hardMax = d.hardMax := by
  have R : Rep { d with maxSize := m } es := { H.toRep with }
  obtain ⟨R', hmax, hhard, -⟩ := R.evictWhile (fun d => m < d.tableSize) m fun R' _ => by
    rw [decide_eq_true_iff, R'.size]
  rw [DynamicTable.setMaxSize, H.length_ents]
  refine ⟨{ R' with max := ?_, hard := ?_ }, hmax, hhard⟩
  · rw [R'.size, hmax]
    exact total_fit_le m es
  · rw [hmax]
    exact hm

lemma full_iff {e : Field} {d' es'} (H : Holds d es) (he : e.size ≤ d.maxSize)
    (R : Rep d' es') (hmax : d'.maxSize = d.maxSize) :
    (d'.maxSize < d'.tableSize + e.size || kMaxEntries ≤ d'.ents.length : Bool) = true ↔
      d.maxSize - e.size < total Field.size es' := by
  have hlimit : d.maxSize ≤ kMaxEntries * 32 := H.hard
  have hpos : 32 ≤ e.size := Nat.le_add_left 32 _
  have htotal := total_size es'
  rw [Bool.or_eq_true, decide_eq_true_iff, decide_eq_true_iff, hmax, R.size, R.length_ents]
  omega

lemma add (H : Holds d es) (e : Field) (he : e.size < 2 ^ 32) :
    ∃ d', d.add e.1 e.2 = .ok d' ∧ Holds d' (push Field.size d.maxSize es e) ∧ d'.maxSize = d.maxSize ∧
      d'.hardMax = d.hardMax := by
  have hcost : (e.1.length + e.2.length + 32) % 2 ^ 32 = e.size := Nat.mod_eq_of_lt he
  rw [DynamicTable.add]
  simp only [hcost]
  by_cases hbig : d.maxSize < e.size
  · rw [if_pos hbig, push, if_pos hbig]
    exact ⟨d.clear, rfl, H.clear, rfl, rfl⟩
  rw [if_neg hbig, push, if_neg hbig, H.length_ents]
  obtain ⟨R, hmax, hhard, -⟩ := H.toRep.evictWhile
    (fun d => d.maxSize < d.tableSize + e.size || kMaxEntries ≤ d.ents.length) (d.maxSize - e.size)
    fun R hmax => H.full_iff (Nat.not_lt.mp hbig) R hmax
  generalize d.evictWhile (fun d => d.maxSize < d.tableSize + e.size || kMaxEntries ≤ d.ents.length) es.length = d₁
    at R hmax hhard
  have hfit : total Field.size (fit Field.size (d.maxSize - e.size) es) ≤ d.maxSize - e.size := total_fit_le _ _
  generalize fit Field.size (d.maxSize - e.size) es = es₁ at R hfit
  have hlimit : d.maxSize ≤ 4096 := H.hard
  have hbuf : d₁.buf.length = 4096 := R.buf
  have hused := R.used
  have hsize := R.size
  have htotal := total_size es₁
  have hlen := e.length_bytes
  have hesize : e.size = e.bytes.length + 32 := by rw [hlen, Field.size]
  have hstop : ¬ kByteCap < d₁.byteUsed + e.1.length + e.2.length := by
    have hcap : kByteCap = 4096 := rfl
    omega
  rw [if_neg hstop]
  refine ⟨_, rfl, ⟨⟨?_, ?_, ?_, ?_, ?_, ?_⟩, ?_, ?_⟩, hmax, hhard⟩
  all_goals dsimp only
  · simp only [List.length_append, List.length_take, List.length_drop]
    have hcap : kByteCap = 4096 := rfl
    omega
  · have hpacked : packed (es₁ ++ [e]) = packed es₁ ++ e.1 ++ e.2 := by
      rw [packed_append, List.append_assoc]
      exact congrArg _ (List.append_nil _)
    rw [R.bytes, ← hpacked]
    apply List.take_left'
    rw [hpacked, List.length_append, List.length_append, hused]
  · rw [packed_append, List.length_append, packed_cons, List.length_append, hused]
    change _ = _ + (_ + 0)
    omega
  · have hn : e.1.length % 2 ^ 16 = e.1.length := Nat.mod_eq_of_lt (by omega)
    have hv : e.2.length % 2 ^ 16 = e.2.length := Nat.mod_eq_of_lt (by omega)
    rw [R.ents, layout_append, hn, hv, hused, Nat.zero_add]
    rfl
  · rw [hsize, total_append, total_cons, total_nil]
    rfl
  · have hcap : kHardCap = 4096 := rfl
    omega
  · omega
  · rw [hmax]
    exact H.hard

end Holds

/-! ## Runs of a table -/

inductive TableOp where
  | add (name value : Str)
  | resize (m : Nat)
  | evict
deriving DecidableEq

def TableOp.apply (d : DynamicTable) : TableOp → Outcome DynamicTable
  | add name value => d.add name value
  | resize m => .ok (d.setMaxSize m)
  | evict => .ok d.evictOldest

def runTable (d : DynamicTable) : List TableOp → Outcome DynamicTable
  | [] => .ok d
  | op :: ops => (op.apply d).bind fun d => runTable d ops

/-- Limits are within the hard one, and the size of an added field has 32 bits. -/
def TableOp.Fits : TableOp → Prop
  | add name value => name.length + value.length + 32 < 2 ^ 32
  | resize m => m ≤ kHardCap
  | evict => True

structure WellPacked (d : DynamicTable) : Prop where
  size : d.tableSize = (d.ents.map fun e => e.nlen + e.vlen + 32).sum
  max : d.tableSize ≤ d.maxSize
  used : d.byteUsed = (d.ents.map fun e => e.nlen + e.vlen).sum
  contiguous : ∀ i e, d.ents[i]? = some e → e.off = ((d.ents.take i).map fun e => e.nlen + e.vlen).sum
  within : d.byteUsed ≤ kByteCap ∧ d.buf.length = kByteCap
  count : d.ents.length ≤ kMaxEntries

/-- The condition of the loop of `dyn_add`. -/
def addFull (cost : Nat) (d : DynamicTable) : Bool := d.maxSize < d.tableSize + cost || kMaxEntries ≤ d.ents.length

structure LoopsEnd (d : DynamicTable) : Prop where
  add : ∀ cost, 32 ≤ cost → cost ≤ d.maxSize → addFull cost (d.evictWhile (addFull cost) d.ents.length) = false
  resize : ∀ m ≤ kHardCap, (d.setMaxSize m).tableSize ≤ m
  count : ∀ k cost, 32 ≤ cost → kMaxEntries ≤ (DynamicTable.evictOldest^[k] d).ents.length →
    (DynamicTable.evictOldest^[k] d).maxSize < (DynamicTable.evictOldest^[k] d).tableSize + cost

lemma map_layout {β : Type} (f : Nat → Nat → β) (off : Nat) (es : List Field) :
    (layout off es).map (fun e => f e.nlen e.vlen) = es.map fun e => f e.1.length e.2.length := by
  induction es generalizing off with
  | nil => rfl
  | cons e es ih => rw [layout, List.map_cons, ih, List.map_cons]

lemma length_packed (es : List Field) : (packed es).length = (es.map fun e => e.1.length + e.2.length).sum := by
  induction es with
  | nil => rfl
  | cons e es ih => rw [packed_cons, List.length_append, ih, Field.length_bytes, List.map_cons, List.sum_cons]

lemma layout_off {off i es x} (h : (layout off es)[i]? = some x) : x.off = off + (packed (es.take i)).length := by
  induction es generalizing off i with
  | nil => cases h
  | cons e es ih =>
    cases i with
    | zero =>
      cases h
      rfl
    | succ i =>
      rw [List.take_succ_cons, packed_cons, List.length_append, ← Nat.add_assoc]
      exact ih h

lemma take_layout (off i : Nat) (es : List Field) : (layout off es).take i = layout off (es.take i) := by
  induction es generalizing off i with
  | nil => rw [List.take_nil, layout, List.take_nil]
  | cons e es ih =>
    cases i with
    | zero => rfl
    | succ i => rw [layout, List.take_succ_cons, ih, List.take_succ_cons, layout]

namespace Holds

variable {d : DynamicTable} {es : List Field}

lemma wellPacked (H : Holds d es) : WellPacked d where
  size := by
    rw [H.ents, map_layout (fun n v => n + v + 32), H.size]
    rfl
  max := H.max
  used := by rw [H.ents, map_layout (· + ·), H.used, length_packed]
  contiguous := by
    intro i e h
    rw [H.ents] at h ⊢
    rw [layout_off h, take_layout, map_layout (· + ·), length_packed, Nat.zero_add]
  within := ⟨H.used_le, H.buf⟩
  count := by
    rw [H.length_ents]
    exact H.length_le

lemma iterate_evictOldest (H : Holds d es) (k : Nat) : Holds (DynamicTable.evictOldest^[k] d) (es.drop k) := by
  induction k with
  | zero => exact H
  | succ k ih =>
    rw [Function.iterate_succ_apply', ← List.tail_drop]
    exact ih.evictOldest

lemma loopsEnd (H : Holds d es) : LoopsEnd d where
  add := by
    intro cost hpos hmax
    -- a field of this size stands for the cost
    have hfull {d' : DynamicTable} {es' : List Field} (R : Rep d' es') (h : d'.maxSize = d.maxSize) :
        addFull cost d' = true ↔ d.maxSize - cost < total Field.size es' := by
      have hsize : Field.size (List.replicate (cost - 32) 0, []) = cost := by
        rw [Field.size, List.length_replicate, List.length_nil]
        omega
      have hiff := H.full_iff (e := (List.replicate (cost - 32) 0, [])) (by rwa [hsize]) R h
      rwa [hsize] at hiff
    rw [H.length_ents]
    exact (H.toRep.evictWhile (addFull cost) (d.maxSize - cost) hfull).2.2.2
  resize := by
    intro m hm
    obtain ⟨H', hmax, -⟩ := H.setMaxSize hm
    have hle := H'.max
    rwa [hmax] at hle
  count := by
    intro k cost hpos hcount
    have H' := H.iterate_evictOldest k
    have hlimit : (DynamicTable.evictOldest^[k] d).maxSize ≤ kMaxEntries * 32 := H'.hard
    have hlen := H'.length_ents
    have htotal := total_size (es.drop k)
    have hsize := H'.size
    omega

lemma apply (H : Holds d es) {op : TableOp} (hop : op.Fits) : ∃ d' es', op.apply d = .ok d' ∧ Holds d' es' := by
  cases op with
  | add name value =>
    obtain ⟨d', hd', H', -⟩ := H.add (name, value) hop
    exact ⟨d', _, hd', H'⟩
  | resize m => exact ⟨_, _, rfl, (H.setMaxSize hop).1⟩
  | evict => exact ⟨_, _, rfl, H.evictOldest⟩

lemma run (H : Holds d es) {ops} (hops : ∀ op ∈ ops, op.Fits) : ∃ d' es', runTable d ops = .ok d' ∧ Holds d' es' := by
  induction ops generalizing d es with
  | nil => exact ⟨d, es, rfl, H⟩
  | cons op ops ih =>
    obtain ⟨hop, hops⟩ := List.forall_mem_cons.mp hops
    obtain ⟨d', es', happly, H'⟩ := H.apply hop
    rw [runTable, happly]
    exact ih H' hops

end Holds

lemma add_wraps {buf name} (h : name.length = 2 ^ 32 - 32) : (DynamicTable.init buf kHardCap).add name [] = .fault := by
  have hcost : (2 ^ 32 - 32 + 0 + 32) % 2 ^ 32 = 0 := by decide
  have hstop : kByteCap < 0 + (2 ^ 32 - 32) + 0 := by decide
  rw [DynamicTable.add, h, List.length_nil]
  simp only [hcost, Nat.not_lt_zero, if_false]
  exact if_pos hstop

end Rut.Hpack
