import Rut.Lib.Loop
import Rut.Lib.Worklist

/-!
# Merges of values

Port of the part of `include/rut/compiler/rir.h` and of `include/rut/compiler/verifier.h` that is about `Phi`
instructions. A function is a graph of blocks; a `Phi` at the head of a block takes the value that is listed for the
block it is entered from. What is listed for a block has to be there at its end on every path.
-/

namespace Rut.Compiler

/-! ## The representation -/

inductive TypeKind where
  | void | bool | i32 | i64 | u32 | u64 | f64 | str
  | byteSize | duration | time | ip | cidr | mediaType | statusCode | method | bytes
  | optional | struct | array
  /-- A number behind the last kind. -/
  | beyond (code : Nat)
deriving DecidableEq

/-- `kind > TypeKind::Array`. -/
def TypeKind.isBeyond : TypeKind → Bool
  | .beyond _ => true
  | _ => false

/-- `const Type*`. Of a struct there is only the address. -/
inductive RirType where
  | null
  | mk (kind : TypeKind) (inner : RirType) (structDef : Option Nat)
deriving DecidableEq

/-- The operations that a `Phi` is checked against (`Opcode`). -/
inductive Opcode where
  | br | jmp | retStatus | retForward | retForwardBundle | retRedirect
  | yieldTimer | yieldHttpGet | yieldHttpPost | yieldForward
  | phi
  /-- Any other operation. -/
  | ordinary (code : Nat)
deriving DecidableEq

def kNoValue : Nat := 0xFFFFFFFF

/-- `Instruction`. The first two operands are those that a `Phi` has. -/
structure Instruction where
  op : Opcode
  result : Nat := kNoValue
  operandCount : Nat := 0
  operands : Fin 2 → Nat := fun _ => kNoValue
  blockTargets : Fin 2 → Nat := fun _ => 0

def Instruction.isYield (i : Instruction) : Bool :=
  i.op = .yieldHttpGet || i.op = .yieldHttpPost || i.op = .yieldForward || i.op = .yieldTimer

def Instruction.isTerminator (i : Instruction) : Bool :=
  i.op = .br || i.op = .jmp || i.op = .retStatus || i.op = .retForward || i.op = .retForwardBundle ||
    i.op = .retRedirect || i.isYield

def Instruction.successors (i : Instruction) : List Nat :=
  if i.op = .br then [i.blockTargets 0, i.blockTargets 1] else if i.op = .jmp then [i.blockTargets 0] else []

structure Block where
  insts : List Instruction

def Block.terminator (b : Block) : Option Instruction := b.insts.getLast?.filter Instruction.isTerminator

structure Value where
  type : RirType
  defBlock : Nat
  defInst : Nat

/-- `Function`. The table of the values may be missing. -/
structure Function where
  blocks : List Block
  values : Option (List Value)
  yieldCount : Nat

def Function.terminator (fn : Function) (id : Nat) : Option Instruction := fn.blocks[id]?.bind Block.terminator

/-! ## The checks -/

def kMaxBlocks : Nat := 4096

open Rut.Lib (Worklist)

def followTargets (fn : Function) (definition : Nat) : List Nat → Worklist Nat → Option (Worklist Nat)
  | [], w => some w
  | next :: nexts, w =>
    if fn.blocks.length ≤ next then none else followTargets fn definition nexts (w.visit definition next)

/-- A round of the loop of `verify_phi_dominates`. -/
def dominatesStep (fn : Function) (definition edge : Nat) (w : Worklist Nat) : Worklist Nat ⊕ Bool :=
  match w.pending with
  | [] => .inr true
  | id :: rest =>
    if id = edge then .inr false
    else
      match fn.terminator id with
      | none => .inr false
      | some term =>
        match followTargets fn definition term.successors ⟨w.visited, rest⟩ with
        | none => .inr false
        | some w => .inl w

/-- `verify_phi_dominates`. Every block is popped at most once. -/
def verifyPhiDominates (fn : Function) (definition edge : Nat) : Bool :=
  if fn.blocks.length ≤ definition ∨ fn.blocks.length ≤ edge then false
  else if definition = edge ∨ definition = 0 then true
  else if fn.blocks.length > kMaxBlocks then false
  else (Rut.Lib.loop (dominatesStep fn definition edge) (fn.blocks.length + 1) ⟨{0}, [0]⟩).getD false

def verifyPhiTypesEqual : RirType → RirType → Nat → Bool
  | .mk kind inner structDef, .mk kind' inner' structDef', depth =>
    if depth > 64 ∨ kind ≠ kind' ∨ kind = .void ∨ kind.isBeyond then false
    else if kind = .optional ∨ kind = .array then verifyPhiTypesEqual inner inner' (depth + 1)
    else if kind = .struct then structDef.isSome && structDef = structDef'
    else inner = .null && inner' = .null && structDef.isNone && structDef'.isNone
  | _, _, _ => false

/-- The loop over the blocks that go to the one of the `Phi`: each has to be listed. -/
def phiPredecessors (fn : Function) (target first second : Nat) : List Nat → Nat → Option Nat
  | [], count => some count
  | id :: ids, count =>
    match fn.terminator id with
    | none => none
    | some term =>
      if target ∉ term.successors then phiPredecessors fn target first second ids count
      else if id ≠ first ∧ id ≠ second then none
      else phiPredecessors fn target first second ids (count + 1)

/-- The operand is of the type of the result, and it is there at the end of the block that it is listed for. -/
def phiOperandOk (fn : Function) (values : List Value) (inst : Instruction) (result : Value) (i : Fin 2) : Bool :=
  let id := inst.operands i
  if id = kNoValue ∨ id = inst.result then false
  else
    match values[id]? with
    | none => false
    | some value =>
      if verifyPhiTypesEqual result.type value.type 0 = false then false
      else
        match fn.blocks[value.defBlock]? with
        | none => false
        | some definition =>
          match definition.insts[value.defInst]? with
          | none => false
          | some inst' =>
            inst'.result = id && verifyPhiDominates fn value.defBlock (inst.blockTargets i)

/-- `verify_phi` of the instruction `inst`, which is the one of the index `ii` in the block `bi`. -/
def verifyPhiAt (fn : Function) (values : List Value) (block : Block) (inst : Instruction) (bi ii : Nat) : Bool :=
  if inst.result = kNoValue then false
  else
    match values[inst.result]? with
    | none => false
    | some result =>
      let first := inst.blockTargets 0
      let second := inst.blockTargets 1
      if (block.insts.take ii).any fun i => i.op ≠ .phi then false
      else if result.defBlock ≠ bi ∨ result.defInst ≠ ii then false
      else if first = second ∨ fn.blocks.length ≤ first ∨ fn.blocks.length ≤ second ∨ first = bi ∨ second = bi then false
      else if phiPredecessors fn bi first second (List.range fn.blocks.length) 0 ≠ some 2 then false
      else phiOperandOk fn values inst result 0 && phiOperandOk fn values inst result 1

def verifyPhi (fn : Function) (bi ii : Nat) : Bool :=
  match fn.blocks[bi]?, fn.values with
  | some block, some values =>
    match block.insts[ii]? with
    | some inst => if fn.yieldCount ≠ 0 ∨ inst.operandCount ≠ 2 then false else verifyPhiAt fn values block inst bi ii
    | none => false
  | _, _ => false

end Rut.Compiler
