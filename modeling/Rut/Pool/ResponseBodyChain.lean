import Rut.Pool.SlicePool

/-!
# The chain of a buffered response body

Port of `include/rut/runtime/response_body_chain.h`. A chain is the list of its nodes from head to tail; the header of a
node lies in the first bytes of its buffer while the node is given back. The bytes of a direct receive come with
`commit`. Beside the source's fields a chain keeps a ledger of the buffers it took from pools and gave back, these with
who held them.
-/

namespace Rut.Pool

open SlicePool

@[irreducible] def add32 (a b : Nat) : Nat := (a + b) % 2 ^ 32
@[irreducible] def sub32 (a b : Nat) : Nat := (a + 2 ^ 32 - b) % 2 ^ 32

def kMaxBody : Nat := 2 ^ 20

/-- `header_size`: a pointer and three numbers. -/
def header_size : Nat := 20

def kPayload : Nat := kSliceSize - header_size

structure Node where
  buf : Buf
  len : Nat := 0
  offset : Nat := 0
  dirty_end : Nat := 0
deriving DecidableEq

/-- How the header of a node, with the node that follows, lies in memory. -/
structure Layout where
  bytes : Node → Option Buf → List UInt8
  length_eq : ∀ n next, (bytes n next).length = header_size

/-- `ResponseBodyChain`, of pools named by `P`. -/
structure ResponseBodyChain (P κ : Type) where
  nodes : List Node := []
  recycled : Option Node := none
  owner : Option P := none
  size : Nat := 0
  tail_dirty_end : Nat := 0
  taken : List (P × Buf) := []
  returned : List ((P × Buf) × Option (Holder κ)) := []

variable {P κ : Type}

/-- `payload_capacity` of a node of the pool. -/
def payload_capacity (pool : SlicePool κ) (n : Node) : Nat := pool.capacity_of n.buf - header_size

def free_node (layout : Layout) (pool : SlicePool κ) (n : Node) (next : Option Buf) (dirty : Nat) : SlicePool κ :=
  (pool.put n.buf 0 (layout.bytes n next)).free_response_body_written n.buf (header_size + dirty)

def freeAll (layout : Layout) (dirty : Node → List Node → Nat) (pool : SlicePool κ) :
    List Node → SlicePool κ × List (Buf × Option (Holder κ))
  | [] => (pool, [])
  | n :: rest =>
    let (pool', found) := freeAll layout dirty (free_node layout pool n (rest.head?.map Node.buf) (dirty n rest)) rest
    (pool', (n.buf, pool.held n.buf) :: found)

/-- A new node in a bulk buffer, if one is wanted and left, or else in a slice. -/
def new_node (pool : SlicePool κ) (k : κ) (bulk : Bool) : Option Node × SlicePool κ :=
  match if bulk then pool.alloc_response_body_bulk (.chain k) else (none, pool) with
  | (some (b, previous_dirty), pool) => (some { buf := b, dirty_end := previous_dirty - header_size }, pool)
  | (none, pool) =>
    match pool.alloc (.chain k) with
    | (some b, pool) => (some { buf := b }, pool)
    | (none, pool) => (none, pool)

/-- The loop of `append` that reserves nodes for the missing bytes. Each node takes one byte at least. -/
def reserve (k : κ) (outgrown : Bool) : Nat → SlicePool κ → Nat → Bool × SlicePool κ × List Node
  | 0, pool, _ => (true, pool, [])
  | fuel + 1, pool, missing =>
    if missing = 0 then (true, pool, [])
    else
      match new_node pool k (decide (missing > kPayload) || outgrown) with
      | (none, pool) => (false, pool, [])
      | (some n, pool) =>
        let (reserved, pool, nodes) := reserve k outgrown fuel pool (missing - payload_capacity pool n)
        (reserved, pool, n :: nodes)

/-- The loop of `append` that copies the bytes to the nodes. -/
def fill (pool : SlicePool κ) : List Node → List UInt8 → SlicePool κ × List Node
  | [], _ => (pool, [])
  | n :: rest, src =>
    if src = [] then (pool, n :: rest)
    else
      let taken := min src.length (payload_capacity pool n - n.len)
      let written := { n with len := n.len + taken, dirty_end := max n.dirty_end (n.len + taken) }
      let (pool, rest) := fill (pool.put n.buf (header_size + n.len) (src.take taken)) rest (src.drop taken)
      (pool, written :: rest)

namespace ResponseBodyChain

/-- `release_node`: the end of the dirty bytes of a node, which for the tail includes those of a direct receive. -/
def nodeDirty (tail_dirty_end : Nat) (n : Node) (rest : List Node) : Nat :=
  let dirty := max n.dirty_end n.len
  if rest = [] ∧ tail_dirty_end > dirty then tail_dirty_end else dirty

def logReturned (c : ResponseBodyChain P κ) (found : List (Buf × Option (Holder κ))) :
    List ((P × Buf) × Option (Holder κ)) :=
  (c.owner.toList.flatMap fun p => found.map fun r => ((p, r.1), r.2)) ++ c.returned

variable [DecidableEq P]

/-- `payload_capacity` as seen from a pool, to which the buffers of another one are slices. -/
def capacity_seen (c : ResponseBodyChain P κ) (p : P) (pool : SlicePool κ) (n : Node) : Nat :=
  if c.owner = some p then payload_capacity pool n else kSliceSize - header_size

/-- `write_avail` of a pool. -/
def write_avail (c : ResponseBodyChain P κ) (p : P) (pool : SlicePool κ) : Nat :=
  c.nodes.getLast?.elim 0 fun t => sub32 (c.capacity_seen p pool t) t.len

def append (layout : Layout) (p : P) (k : κ) (pool : SlicePool κ) (c : ResponseBodyChain P κ) (src : List UInt8)
    (bulk_after : Nat) : Bool × SlicePool κ × ResponseBodyChain P κ :=
  if src.length > sub32 kMaxBody c.size ∨ (c.owner ≠ none ∧ c.owner ≠ some p) then (false, pool, c)
  else if src = [] then (true, pool, c)
  else
    let spare := c.nodes.getLast?.elim 0 fun t => payload_capacity pool t - t.len
    let missing := src.length - spare
    match reserve k (decide (c.size ≥ bulk_after)) missing pool missing with
    | (false, pool, fresh) =>
      let (pool, found) := freeAll layout (fun n _ => n.dirty_end) pool fresh
      let c := { c with taken := fresh.map (fun n : Node => (p, n.buf)) ++ c.taken }
      (false, pool, { c with returned := found.map (fun r : Buf × Option (Holder κ) => ((p, r.1), r.2)) ++ c.returned })
    | (true, pool, fresh) =>
      let (pool, written) := fill pool (c.nodes.getLast?.toList ++ fresh) src
      (true, pool, { c with
        nodes := c.nodes.dropLast ++ written
        tail_dirty_end := if fresh = [] then c.tail_dirty_end else 0
        owner := some p
        size := add32 c.size src.length
        taken := fresh.map (fun n : Node => (p, n.buf)) ++ c.taken })

/-- `reserve_tail`. -/
def reserve_tail (p : P) (k : κ) (pool : SlicePool κ) (c : ResponseBodyChain P κ) (bulk_after : Nat) :
    Bool × SlicePool κ × ResponseBodyChain P κ :=
  if c.nodes.getLast?.any fun t => decide (c.capacity_seen p pool t > t.len) then (true, pool, c)
  else if c.owner ≠ none ∧ c.owner ≠ some p then (false, pool, c)
  else
    match (if c.size ≥ bulk_after then c.recycled else none) with
    | some r => (true, pool, { c with
        nodes := c.nodes ++ [{ r with len := 0, offset := 0 }], recycled := none, tail_dirty_end := 0, owner := some p })
    | none =>
      match new_node pool k (decide (c.size ≥ bulk_after)) with
      | (none, pool) => (false, pool, c)
      | (some n, pool) => (true, pool, { c with
          nodes := c.nodes ++ [n], tail_dirty_end := 0, owner := some p, taken := (p, n.buf) :: c.taken })

omit [DecidableEq P]

/-- `commit` of the bytes that a receive has put at `write_ptr`. -/
def commit (pool : SlicePool κ) (c : ResponseBodyChain P κ) (bytes : List UInt8) : SlicePool κ × ResponseBodyChain P κ :=
  match c.nodes.getLast? with
  | none => (pool, c)
  | some t =>
    let len := t.len + bytes.length
    (pool.put t.buf (header_size + t.len) bytes, { c with
      nodes := c.nodes.dropLast ++ [{ t with len := len, dirty_end := max t.dirty_end len }]
      size := add32 c.size bytes.length })

/-- A receive puts bytes into the tail, and `record_direct_write`. -/
def record_direct_write (pool : SlicePool κ) (c : ResponseBodyChain P κ) (pos : Nat) (bytes : List UInt8) :
    SlicePool κ × ResponseBodyChain P κ :=
  match c.nodes.getLast? with
  | none => (pool, c)
  | some t =>
    let stop := pos + bytes.length
    (pool.put t.buf (header_size + pos) bytes, { c with
      nodes := c.nodes.dropLast ++ [{ t with dirty_end := max t.dirty_end stop }]
      tail_dirty_end := max c.tail_dirty_end stop })

/-- The loop of `consume`. A turn that does not empty the head takes all bytes that were left to take. -/
def consumeLoop (layout : Layout) (tail_pinned recycle_bulk : Bool) :
    List Node → SlicePool κ → ResponseBodyChain P κ → Nat → SlicePool κ × ResponseBodyChain P κ
  | [], pool, c, _ => (pool, { c with nodes := [] })
  | n :: rest, pool, c, len =>
    if len ≠ 0 ∨ n.offset = n.len then
      let taken := min len (n.len - n.offset)
      let n := { n with offset := n.offset + taken }
      let c := { c with size := sub32 c.size taken }
      if n.offset = n.len then
        if rest = [] ∧ tail_pinned then (pool, { c with nodes := [n] })
        else if recycle_bulk ∧ c.recycled.isNone ∧ pool.is_bulk n.buf then
          let n := if rest = [] then { n with dirty_end := max n.dirty_end c.tail_dirty_end } else n
          consumeLoop layout tail_pinned recycle_bulk rest pool { c with recycled := some n } (len - taken)
        else
          let dirty := nodeDirty c.tail_dirty_end n rest
          let c := { c with returned := c.logReturned [(n.buf, pool.held n.buf)] }
          let c := { c with tail_dirty_end := if rest = [] then 0 else c.tail_dirty_end }
          consumeLoop layout tail_pinned recycle_bulk rest
            (free_node layout pool n (rest.head?.map Node.buf) dirty) c (len - taken)
      else (pool, { c with nodes := n :: rest })
    else (pool, { c with nodes := n :: rest })

def consume (layout : Layout) (pool : SlicePool κ) (c : ResponseBodyChain P κ) (len : Nat)
    (tail_pinned recycle_bulk : Bool) : SlicePool κ × ResponseBodyChain P κ :=
  let (pool, c) := consumeLoop layout tail_pinned recycle_bulk c.nodes pool c len
  if c.nodes = [] then
    (pool, { c with owner := if c.recycled.isNone then none else c.owner, tail_dirty_end := 0 })
  else (pool, c)

/-- `release_recycled`. -/
def release_recycled (layout : Layout) (pool : SlicePool κ) (c : ResponseBodyChain P κ) :
    SlicePool κ × ResponseBodyChain P κ :=
  let (pool, found) := freeAll layout (fun n _ => max n.dirty_end n.len) pool c.recycled.toList
  let c := { c with recycled := none, returned := c.logReturned found }
  (pool, { c with owner := if c.nodes = [] then none else c.owner })

def release (layout : Layout) (pool : SlicePool κ) (c : ResponseBodyChain P κ) : SlicePool κ × ResponseBodyChain P κ :=
  let (pool, found) := freeAll layout (nodeDirty c.tail_dirty_end) pool c.nodes
  let c := { c with nodes := [], returned := c.logReturned found }
  let (pool, c) := c.release_recycled layout pool
  (pool, { c with owner := none, size := 0, tail_dirty_end := 0 })

end ResponseBodyChain

end Rut.Pool
