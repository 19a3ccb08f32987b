import Rut.Jit.Ir
import Rut.Route.Art

/-!
# Specialising the adaptive radix trie

Port of `src/jit/art_jit_codegen.cc`. `art_jit_specialize` walks a populated trie and emits a function that
decides `match_canonical_key` for it: edges, keys and terminals become constants, each node a few basic
blocks. The functions here return the builder after the calls of the source. The recursion over the nodes
is bounded by the number of nodes in the pools.
-/

namespace Rut.Jit

open Route

/-- The parts of `EmitCtx` that change what is emitted. -/
structure EmitCtx where
  trie : ArtTrie
  endian : Endian
  methodSlot : Operand
  best : Operand
  returnBest : Nat
  returnInvalid : Nat

def effPtr : Operand := .param 0

def effLen : Operand := .param 1

/-- Load a byte of the path (`emit_load_byte`). -/
def emitLoadByte (b : Builder) (offset : Operand) : Builder × Operand :=
  let (b, gep) := b.build (.gep effPtr offset)
  b.build (.load 8 gep)

/-- Leave to `return_best` unless the condition holds (`emit_check_or_break`). -/
def emitCheckOrBreak (c : EmitCtx) (b : Builder) (cond : Operand) : Builder :=
  let (b, pass) := b.appendBlock
  (b.terminate (.condBr cond pass c.returnBest)).positionAtEnd pass

/-- A route as an `i16`. -/
def routeConst (r : RouteIdx) : Operand := .const 16 r.toNat

/-- Store a route in `best`. -/
def storeBest (c : EmitCtx) (b : Builder) (r : RouteIdx) : Builder := (b.build (.store (routeConst r) c.best)).1

def specificSlots (t : Slot → RouteIdx) : List Slot :=
  (List.finRange kMethodSlots).filter fun s => s ≠ anySlot ∧ t s ≠ kInvalidRoute

def emitTermCase (c : EmitCtx) (t : Slot → RouteIdx) (sw contBb : Nat) (b : Builder) (s : Slot) : Builder :=
  let (b, caseBb) := b.appendBlock
  let b := (b.addCase sw s.val caseBb).positionAtEnd caseBb
  (storeBest c b (t s)).terminate (.br contBb)

/-- Update `best` with the terminal of a node (`emit_terminal_pickup`). -/
def emitTerminalPickup (c : EmitCtx) (b : Builder) (hdr : ArtNodeHeader) : Builder :=
  let t := hdr.routeIdxByMethod
  let specific := specificSlots t
  if specific = [] then if t anySlot = kInvalidRoute then b else storeBest c b (t anySlot)
  else
    let (b, contBb) := b.appendBlock
    let (b, anyBb) := b.appendBlock
    let sw := b.cur
    let b := b.terminate (.switch c.methodSlot anyBb [])
    let b := specific.foldl (emitTermCase c t sw contBb) b
    let b := b.positionAtEnd anyBb
    let b := if t anySlot = kInvalidRoute then b else storeBest c b (t anySlot)
    (b.terminate (.br contBb)).positionAtEnd contBb

def chunkWidth (remaining : Nat) : Nat :=
  if 8 ≤ remaining then 8 else if 4 ≤ remaining then 4 else if 2 ≤ remaining then 2 else 1

/-- Compare `width` bytes of the path at `offset` with a constant. -/
def emitChunk (c : EmitCtx) (b : Builder) (offset width expected : Nat) : Builder :=
  let (b, ptr) := b.build (.gep effPtr (.const 32 offset))
  let (b, actual) := b.build (.load (width * 8) ptr)
  let (b, eq) := b.build (.icmp .eq actual (.const (width * 8) expected))
  emitCheckOrBreak c b eq

/-- Compare the path at `offset` with the rest of an edge, chunk by chunk. -/
def emitEdgeChunks (c : EmitCtx) : Nat → Builder → Nat → Str → Builder
  | 0, b, _, _ => b
  | _ + 1, b, _, [] => b
  | fuel + 1, b, offset, edge@(_ :: _) =>
    let width := chunkWidth edge.length
    let b := emitChunk c b offset width (chunkValue c.endian (edge.take width))
    emitEdgeChunks c fuel b (offset + width) (edge.drop width)

def hasTerminal (hdr : ArtNodeHeader) : Bool :=
  (List.finRange kMethodSlots).any fun s => hdr.routeIdxByMethod s ≠ kInvalidRoute

/-- Go on at `pickup` if the byte at `stop` is a slash, else at `descend`. -/
def emitSlashTest (b : Builder) (stop : Operand) (pickup descend : Nat) : Builder :=
  let (b, byte) := emitLoadByte b stop
  let (b, slash) := b.build (.icmp .eq byte (.const 8 (ch '/').toNat))
  b.terminate (.condBr slash pickup descend)

/-- Update `best` if the path ends at `stop` or goes on with a slash there. -/
def emitSegmentPickup (c : EmitCtx) (b : Builder) (hdr : ArtNodeHeader) (stop : Operand) : Builder :=
  let (b, pickup) := b.appendBlock
  let (b, nextByte) := b.appendBlock
  let (b, descend) := b.appendBlock
  let (b, atEnd) := b.build (.icmp .eq stop effLen)
  let b := b.terminate (.condBr atEnd pickup nextByte)
  let b := emitSlashTest (b.positionAtEnd nextByte) stop pickup descend
  let b := emitTerminalPickup c (b.positionAtEnd pickup) hdr
  (b.terminate (.br descend)).positionAtEnd descend

/-- Emit the block of a child: edge, terminal and its own children (`emit_child_descent`). -/
def emitChildDescent (dispatch : Builder → ArtChildRef → Nat → Option Builder) (c : EmitCtx) (b : Builder)
    (childRef : ArtChildRef) (depth : Nat) : Option Builder :=
  let hdr := c.trie.header childRef
  let stop := Operand.const 32 (depth + hdr.edge.length)
  let (b, fits) := b.build (.icmp .ule stop effLen)
  let b := emitCheckOrBreak c b fits
  let b := emitEdgeChunks c hdr.edge.length b depth hdr.edge
  let b :=
    if c.trie.matchMode = .segmentPrefix ∧ hasTerminal hdr then emitSegmentPickup c b hdr stop
    else emitTerminalPickup c b hdr
  dispatch b childRef (depth + hdr.edge.length)

/-- Append a block for each key and add it to the switch that ends the block `sw`. -/
def appendChildCases (sw : Nat) (b : Builder) (entry : UInt8 × ArtChildRef) : Builder :=
  let (b, child) := b.appendBlock
  b.addCase sw entry.1.toNat child

/-- Emit the children one after the other, the first one at the block `block`. -/
def emitChildren (descend : Builder → ArtChildRef → Option Builder) :
    Builder → Nat → List (UInt8 × ArtChildRef) → Option Builder
  | b, _, [] => some b
  | b, block, (_, ref) :: entries =>
    match descend (b.positionAtEnd block) ref with
    | none => none
    | some b => emitChildren descend b (block + 1) entries

/-- Emit the dispatch on the next byte at a node (`emit_node_dispatch`). -/
def emitNodeDispatch (c : EmitCtx) : Nat → Builder → ArtChildRef → Nat → Option Builder
  | 0, _, _, _ => none
  | fuel + 1, b, nodeRef, depth =>
    let entries := ((c.trie.node nodeRef).map ArtNode.entries).getD []
    if entries = [] then some (b.terminate (.br c.returnBest))
    else
      let (b, hasMore) := b.build (.icmp .ult (.const 32 depth) effLen)
      let b := emitCheckOrBreak c b hasMore
      let (b, nextByte) := emitLoadByte b (.const 32 depth)
      let sw := b.cur
      let b := b.terminate (.switch nextByte c.returnBest [])
      let first := b.blocks.length
      let b := entries.foldl (appendChildCases sw) b
      emitChildren (fun b ref => emitChildDescent (emitNodeDispatch c fuel) c b ref depth) b first entries

/-- Method keys of `emit_method_to_slot`, each with its slot. -/
def kMethodCases : List Nat := [0, 1, 2, 3, 4, 5, 6, 7, 8, 9]

/-- The slot of the method key; unknown keys leave to `return_invalid` (`emit_method_to_slot`). -/
def emitMethodToSlot (b : Builder) (returnInvalid : Nat) (methodKey : Operand) : Builder × Operand :=
  let (b, invalidBb) := b.appendBlock
  let (b, contBb) := b.appendBlock
  let sw := b.cur
  let b := b.terminate (.switch methodKey invalidBb [])
  let (b, incoming) := kMethodCases.foldl (fun (b, incoming) key =>
    let (b, caseBb) := b.appendBlock
    let b := (b.addCase sw key caseBb).positionAtEnd caseBb
    (b.terminate (.br contBb), incoming ++ [(Operand.const 32 key, caseBb)])) (b, [])
  let b := (b.positionAtEnd invalidBb).terminate (.br returnInvalid)
  (b.positionAtEnd contBb).build (.phi incoming)

def nodeCount (t : ArtTrie) : Nat :=
  t.n4Pool.length + t.n16Pool.length + t.n48Pool.length + t.n256Pool.length

/-- The blocks of the emitted function (`art_jit_specialize`). -/
def artJitSpecialize (endian : Endian) (t : ArtTrie) : Option (List Block) :=
  let b : Builder := { blocks := [], cur := 0, nextReg := 0 }
  let (b, entry) := b.appendBlock
  let (b, returnBest) := b.appendBlock
  let (b, returnInvalid) := b.appendBlock
  let b := b.positionAtEnd entry
  let (b, best) := b.build .alloca
  let (b, _) := b.build (.store (routeConst kInvalidRoute) best)
  let (b, methodSlot) := emitMethodToSlot b returnInvalid (.param 2)
  let c : EmitCtx := { trie := t, endian, methodSlot, best, returnBest, returnInvalid }
  let b := emitTerminalPickup c b (t.header t.rootRef)
  match emitNodeDispatch c (nodeCount t) b t.rootRef 0 with
  | none => none
  | some b =>
    let (b, bestVal) := (b.positionAtEnd returnBest).build (.load 16 best)
    let b := (b.terminate (.ret bestVal)).positionAtEnd returnInvalid
    some (b.terminate (.ret (routeConst kInvalidRoute))).blocks

end Rut.Jit
