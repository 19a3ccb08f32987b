import Mathlib
import Rut.Lib.Memory

/-!
# The slice pool

Port of `include/rut/runtime/slice_pool.h`. The free stacks are lists with their tops first, a buffer stands for the
pointer to it, and the answers of the system calls come from a stream. Beside the bit that a buffer is in use the model
notes who holds it, and it keeps a record of the contents that `alloc` and `alloc_bulk` hand out. Statistics that
nothing reads are left out.
-/

namespace Rut.Pool

open Lib.Memory (write clear Blank)

def kSliceSize : Nat := 16384
def kMaxCachedSlices : Nat := 256
def kBulkSliceSize : Nat := 256 * 1024
def kMaxBulkSlices : Nat := 4096
def kGrowStep : Nat := 256

abbrev Bytes := Nat → UInt8

inductive Buf where
  | slice (idx : Nat)
  | bulk (idx : Nat)
deriving DecidableEq

def Buf.capacity : Buf → Nat
  | .slice _ => kSliceSize
  | .bulk _ => kBulkSliceSize

/-- Who holds a buffer: an owner that has written up to a bound, one that may have found bytes of others in it, or a
chain. -/
inductive Holder (κ : Type) where
  | owner (written : Nat)
  | overwriter
  | chain (k : κ)
deriving DecidableEq

structure BulkEntry where
  idx : Nat
  deferred : Bool := false
deriving DecidableEq

structure SlicePool (κ : Type) where
  study_bulk_cache_limit : Nat := 64
  study_adaptive_cache : Bool := false
  study_bulk_burst : Bool := false
  study_bulk_borrowed : Nat := 0
  study_body_pool_reuse : Bool := false
  base : Bool := false
  free_stack : List Nat := []
  cached_count : Nat := 0
  cache_limit : Nat := 0
  count : Nat := 0
  max_count : Nat := 0
  bulk_base : Bool := false
  bulk_free : List BulkEntry := []
  bulk_cached_count : Nat := 0
  bulk_max_count : Nat := 0
  bulk_map_failed : Bool := false
  held : Buf → Option (Holder κ) := fun _ => none
  data : Buf → Bytes := fun _ _ => 0
  sys : Nat → Bool := fun _ => true
  issued : List (Buf × Bytes) := []

def putWord (v : Nat) : List UInt8 :=
  [UInt8.ofNat v, UInt8.ofNat (v / 256), UInt8.ofNat (v / 65536), UInt8.ofNat (v / 16777216)]

def getWord (m : Bytes) : Nat :=
  (m 0).toNat + 256 * (m 1).toNat + 65536 * (m 2).toNat + 16777216 * (m 3).toNat

/-- An entry goes into a stack below the `cached` topmost ones, and the lowest of these to the top. -/
def insertBelow {α : Type} (stack : List α) (cached : Nat) (x : α) : List α :=
  match stack[cached - 1]? with
  | some y => if cached = 0 then x :: stack else y :: stack.set (cached - 1) x
  | none => x :: stack

variable {κ : Type}

namespace SlicePool

/-- A pool before `init`, with its settings and the answers that the system calls will give. -/
def fresh (study_bulk_cache_limit : Nat) (study_adaptive_cache study_body_pool_reuse : Bool) (sys : Nat → Bool) :
    SlicePool κ :=
  { study_bulk_cache_limit, study_adaptive_cache, study_body_pool_reuse, sys }

def asked (pool : SlicePool κ) : SlicePool κ := { pool with sys := fun n => pool.sys (n + 1) }

def grow (pool : SlicePool κ) : Bool × SlicePool κ :=
  if pool.count ≥ pool.max_count then (false, pool)
  else
    let step := if (pool.count + kGrowStep) % 2 ^ 32 > pool.max_count then pool.max_count - pool.count else kGrowStep
    -- `mprotect` of the next slices, which fails where nothing is mapped
    if pool.base && pool.sys 0 then
      let stop := (pool.count + step) % 2 ^ 32
      (true, { pool.asked with
        free_stack := (List.range' pool.count (stop - pool.count)).reverse ++ pool.free_stack, count := stop })
    else (false, pool.asked)

def lend (pool : SlicePool κ) (b : Buf) (h : Holder κ) : SlicePool κ :=
  { pool with held := Function.update pool.held b (some h) }

def setData (pool : SlicePool κ) (b : Buf) (bytes : Bytes) : SlicePool κ :=
  { pool with data := Function.update pool.data b bytes }

def put (pool : SlicePool κ) (b : Buf) (pos : Nat) (bytes : List UInt8) : SlicePool κ :=
  pool.setData b (write (pool.data b) pos bytes)

def ownerPut (pool : SlicePool κ) (b : Buf) (pos : Nat) (bytes : List UInt8) : SlicePool κ :=
  match pool.held b with
  | some (.owner written) => (pool.put b pos bytes).lend b (.owner (max written (pos + bytes.length)))
  | some .overwriter => pool.put b pos bytes
  | _ => pool

def record (pool : SlicePool κ) (b : Buf) : SlicePool κ := { pool with issued := (b, pool.data b) :: pool.issued }

def pop (pool : SlicePool κ) (h : Holder κ) : Option Buf × SlicePool κ :=
  match pool.free_stack with
  | idx :: rest =>
    let pool := { pool with free_stack := rest, cached_count := pool.cached_count - 1 }
    (some (.slice idx), (pool.lend (.slice idx) h).record (.slice idx))
  | [] => (none, pool)

def alloc (pool : SlicePool κ) (h : Holder κ) : Option Buf × SlicePool κ :=
  if pool.free_stack = [] then
    match pool.grow with
    | (true, pool) => pool.pop h
    | (false, pool) => (none, pool)
  else pool.pop h

/-- `map_bulk`. -/
def map_bulk (pool : SlicePool κ) : Bool × SlicePool κ :=
  if pool.bulk_map_failed ∨ pool.base = false ∨ pool.bulk_max_count = 0 then (false, pool)
  else if pool.sys 0 then
    (true, { pool.asked with
      bulk_base := true, bulk_cached_count := 0, bulk_free := (List.range pool.bulk_max_count).map fun i => ⟨i, false⟩ })
  else (false, { pool.asked with bulk_map_failed := true })

/-- `clear_bulk_bytes`, and the same of a slice. -/
def clear_bytes (pool : SlicePool κ) (b : Buf) (dirty : Nat) : SlicePool κ :=
  pool.setData b (clear 0 (pool.data b) dirty)

/-- The end of the dirty bytes that a returned body buffer starts with; a malformed one stands for the whole buffer. -/
def deferredDirty (m : Bytes) : Nat :=
  if getWord m < 4 ∨ getWord m > kBulkSliceSize then kBulkSliceSize else getWord m

/-- The topmost free bulk buffer is lent, with the end of its dirty bytes or else cleared. -/
def pop_bulk (pool : SlicePool κ) (h : Holder κ) (takes_dirty : Bool) : Option (Buf × Nat) × SlicePool κ :=
  match pool.bulk_free with
  | entry :: rest =>
    let b := .bulk entry.idx
    let borrowed := pool.study_bulk_borrowed + 1
    let pool := { pool with
      bulk_free := rest, bulk_cached_count := pool.bulk_cached_count - 1, study_bulk_borrowed := borrowed,
      study_bulk_burst := pool.study_bulk_burst || (pool.study_adaptive_cache && decide (128 ≤ borrowed)) }
    let pool := pool.lend b h
    let dirty := if entry.deferred then deferredDirty (pool.data b) else 0
    if takes_dirty then (some (b, dirty), pool) else (some (b, 0), (pool.clear_bytes b dirty).record b)
  | [] => (none, pool)

/-- `alloc_bulk_impl`, for a borrower that takes the end of the dirty bytes, or for one that gets a clear buffer. -/
def alloc_bulk_impl (pool : SlicePool κ) (h : Holder κ) (takes_dirty : Bool) : Option (Buf × Nat) × SlicePool κ :=
  if pool.bulk_max_count = 0 then (none, pool)
  else if pool.bulk_base then pool.pop_bulk h takes_dirty
  else
    match pool.map_bulk with
    | (true, pool) => pool.pop_bulk h takes_dirty
    | (false, pool) => (none, pool)

/-- `alloc_bulk`. -/
def alloc_bulk (pool : SlicePool κ) (h : Holder κ) : Option (Buf × Nat) × SlicePool κ := pool.alloc_bulk_impl h false

/-- `alloc_bulk_for_overwrite`. -/
def alloc_bulk_for_overwrite (pool : SlicePool κ) : Option (Buf × Nat) × SlicePool κ :=
  pool.alloc_bulk_impl .overwriter true

/-- `alloc_response_body_bulk`, with the end of the dirty bytes that the buffer comes with. -/
def alloc_response_body_bulk (pool : SlicePool κ) (h : Holder κ) : Option (Buf × Nat) × SlicePool κ :=
  if pool.study_body_pool_reuse then pool.alloc_bulk_impl h true else pool.alloc_bulk h

/-- `is_bulk`. -/
def is_bulk (pool : SlicePool κ) : Buf → Bool
  | .bulk i => pool.bulk_base && decide (i < pool.bulk_max_count)
  | .slice _ => false

/-- `capacity_of`. -/
def capacity_of (pool : SlicePool κ) (b : Buf) : Nat := if pool.is_bulk b then kBulkSliceSize else kSliceSize

def giveBack (pool : SlicePool κ) (b : Buf) : SlicePool κ := { pool with held := Function.update pool.held b none }

/-- `MADV_DONTNEED`, which clears a buffer, or else the `dirty` first bytes are cleared. -/
def discard (pool : SlicePool κ) (b : Buf) (dirty : Nat) : SlicePool κ :=
  pool.asked.clear_bytes b (if pool.sys 0 then b.capacity else dirty)

def cache_limit_now (pool : SlicePool κ) : Nat :=
  if pool.study_bulk_burst ∧ pool.study_bulk_cache_limit < 128 then 128 else pool.study_bulk_cache_limit

/-- A bulk buffer goes to the resident ones, cleared or else with the end of its dirty bytes in front. -/
def retain_bulk (pool : SlicePool κ) (i dirty : Nat) (defer_body_clear : Bool) : SlicePool κ :=
  let bytes := pool.data (.bulk i)
  let pool := pool.setData (.bulk i)
    (if defer_body_clear then write bytes 0 (putWord (max dirty 4)) else clear 0 bytes dirty)
  { pool with
    bulk_free := ⟨i, defer_body_clear⟩ :: pool.bulk_free, bulk_cached_count := pool.bulk_cached_count + 1 }

def discard_bulk (pool : SlicePool κ) (i dirty : Nat) : SlicePool κ :=
  let pool := pool.discard (.bulk i) dirty
  { pool with bulk_free := insertBelow pool.bulk_free pool.bulk_cached_count ⟨i, false⟩ }

/-- `free_bulk`. -/
def free_bulk (pool : SlicePool κ) (i dirty : Nat) (defer_body_clear : Bool) : SlicePool κ :=
  if i ≥ pool.bulk_max_count ∨ pool.held (.bulk i) = none then pool
  else
    let pool := { pool.giveBack (.bulk i) with study_bulk_borrowed := pool.study_bulk_borrowed - 1 }
    if pool.bulk_cached_count < pool.cache_limit_now then pool.retain_bulk i dirty defer_body_clear
    else pool.discard_bulk i dirty

/-- `free` of a slice. -/
def free_slice (pool : SlicePool κ) (i : Nat) : SlicePool κ :=
  if pool.base = false ∨ pool.count = 0 ∨ i ≥ pool.count ∨ pool.free_stack.length ≥ pool.max_count ∨
      pool.held (.slice i) = none then pool
  else
    let pool := pool.giveBack (.slice i)
    if pool.cached_count < pool.cache_limit then
      let pool := pool.clear_bytes (.slice i) kSliceSize
      { pool with free_stack := i :: pool.free_stack, cached_count := pool.cached_count + 1 }
    else
      let pool := pool.discard (.slice i) kSliceSize
      { pool with free_stack := insertBelow pool.free_stack pool.cached_count i }

/-- `free`; a bulk buffer that is not in the range of the pool is nothing of it. -/
def free (pool : SlicePool κ) : Buf → SlicePool κ
  | .bulk i => if pool.is_bulk (.bulk i) then pool.free_bulk i kBulkSliceSize false else pool
  | .slice i => pool.free_slice i

/-- `free_written`. -/
def free_written (pool : SlicePool κ) (b : Buf) (written : Nat) : SlicePool κ :=
  match b with
  | .bulk i => if pool.is_bulk b then pool.free_bulk i (min written kBulkSliceSize) false else pool.free b
  | .slice _ => pool.free b

/-- `free_bulk_after_overwrite`. -/
def free_bulk_after_overwrite (pool : SlicePool κ) (b : Buf) : SlicePool κ :=
  match b with
  | .bulk i => if pool.is_bulk b then pool.free_bulk i kBulkSliceSize true else pool.free b
  | .slice _ => pool.free b

/-- `free_response_body_written`. -/
def free_response_body_written (pool : SlicePool κ) (b : Buf) (written : Nat) : SlicePool κ :=
  match pool.study_body_pool_reuse, b with
  | true, .bulk i => if pool.is_bulk b then pool.free_bulk i (min written kBulkSliceSize) true else pool.free_written b written
  | _, _ => pool.free_written b written

def destroy (pool : SlicePool κ) : SlicePool κ :=
  { pool with
    bulk_base := false, bulk_free := [], bulk_cached_count := 0, bulk_max_count := 0, bulk_map_failed := false,
    base := false, free_stack := [], cached_count := 0, cache_limit := 0, count := 0, max_count := 0,
    held := fun _ => none, data := fun _ _ => 0 }

/-- The loop of `init` that commits slices. -/
def preallocate : Nat → SlicePool κ → SlicePool κ
  | 0, pool => pool
  | steps + 1, pool =>
    if pool.count < pool.max_count then
      match pool.grow with
      | (true, pool) => preallocate steps pool
      | (false, pool) => pool.destroy
    else pool

/-- `init`, which fails unless the mappings succeed. -/
def init (pool : SlicePool κ) (n prealloc cache_slices bulk_capacity : Nat) : SlicePool κ :=
  let pool := { pool.asked with
    base := pool.sys 0, cache_limit := min (min cache_slices kMaxCachedSlices) n, cached_count := 0, max_count := n,
    count := 0, free_stack := [], bulk_max_count := min bulk_capacity kMaxBulkSlices, study_bulk_burst := false,
    study_bulk_borrowed := 0 }
  if pool.base then preallocate ((min prealloc n + kGrowStep - 1) / kGrowStep) pool else pool

/-- A turn of the loop of `study_trim_bulk_idle_cache`. -/
def trimTurn (pool : SlicePool κ) : SlicePool κ :=
  match pool.bulk_free[pool.bulk_cached_count - 1]? with
  | some entry =>
    let pool := pool.discard (.bulk entry.idx) kBulkSliceSize
    { pool with
      bulk_free := pool.bulk_free.set (pool.bulk_cached_count - 1) ⟨entry.idx, false⟩,
      bulk_cached_count := pool.bulk_cached_count - 1 }
  | none => pool

/-- The loop of `study_trim_bulk_idle_cache`. -/
def trim : Nat → SlicePool κ → SlicePool κ
  | 0, pool => pool
  | n + 1, pool => if pool.bulk_cached_count > pool.study_bulk_cache_limit then trim n pool.trimTurn else pool

/-- `study_trim_bulk_idle_cache`. -/
def study_trim_bulk_idle_cache (pool : SlicePool κ) : SlicePool κ :=
  if pool.study_adaptive_cache = false ∨ pool.study_bulk_borrowed ≠ 0 then pool
  else
    let pool := trim 8 pool
    if pool.bulk_cached_count ≤ pool.study_bulk_cache_limit then { pool with study_bulk_burst := false } else pool

end SlicePool

end Rut.Pool
