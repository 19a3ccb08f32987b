import Rut.Common.Types
import Rut.Lib.Loop

/-!
# Intermediate representation

The part of the LLVM intermediate representation that `src/jit/art_jit_codegen.cc` emits, the builder calls that emit
it, and its meaning. A function has the parameters `(ptr canon_ptr, i32 canon_len, i8 method)`. Pointers are offsets
from `canon_ptr` or the one stack slot. A load beyond the path, a read of an undefined register or a missing block gets
the machine stuck.
-/

namespace Rut.Jit

inductive Operand where
  | const (width value : Nat)
  | param (i : Nat)
  | reg (r : Nat)
deriving DecidableEq

/-- Unsigned comparisons (`LLVMIntEQ`, `LLVMIntULT`, `LLVMIntULE`). -/
inductive IntPredicate where
  | eq
  | ult
  | ule
deriving DecidableEq

inductive Instr where
  | alloca
  | store (value ptr : Operand)
  | load (width : Nat) (ptr : Operand)
  | gep (ptr offset : Operand)
  | icmp (pred : IntPredicate) (a b : Operand)
  | phi (incoming : List (Operand × Nat))
deriving DecidableEq

inductive Terminator where
  | br (target : Nat)
  | condBr (cond : Operand) (onTrue onFalse : Nat)
  | switch (value : Operand) (default : Nat) (cases : List (Nat × Nat))
  | ret (value : Operand)
deriving DecidableEq

structure Block where
  instrs : List (Nat × Instr) := []
  term : Option Terminator := none
deriving DecidableEq

structure Builder where
  blocks : List Block
  cur : Nat
  nextReg : Nat
deriving DecidableEq

namespace Builder

/-- `LLVMAppendBasicBlockInContext`. -/
def appendBlock (b : Builder) : Builder × Nat :=
  ({ b with blocks := b.blocks ++ [{}] }, b.blocks.length)

/-- `LLVMPositionBuilderAtEnd`. -/
def positionAtEnd (b : Builder) (block : Nat) : Builder := { b with cur := block }

/-- Append an instruction to the current block (`LLVMBuildLoad2` and so on). -/
def build (b : Builder) (i : Instr) : Builder × Operand :=
  ({ b with
      blocks := b.blocks.modify b.cur fun blk => { blk with instrs := blk.instrs ++ [(b.nextReg, i)] }
      nextReg := b.nextReg + 1 },
    .reg b.nextReg)

/-- End the current block (`LLVMBuildBr`, `LLVMBuildCondBr`, `LLVMBuildSwitch`, `LLVMBuildRet`). -/
def terminate (b : Builder) (t : Terminator) : Builder :=
  { b with blocks := b.blocks.modify b.cur fun blk => { blk with term := some t } }

end Builder

def Terminator.addCase (value target : Nat) : Terminator → Terminator
  | .switch v d cases => .switch v d (cases ++ [(value, target)])
  | t => t

/-- Add a case to the switch that ends a block (`LLVMAddCase`). -/
def Builder.addCase (b : Builder) (sw value target : Nat) : Builder :=
  { b with
    blocks := b.blocks.modify sw fun blk => { blk with term := blk.term.map (Terminator.addCase value target) } }

/-! ## Meaning -/

inductive Endian where
  | little
  | big
deriving DecidableEq

/-- Position of the byte `j` of `width` in an integer. -/
def Endian.shift (e : Endian) (width j : Nat) : Nat :=
  match e with
  | .little => j * 8
  | .big => (width - 1 - j) * 8

def chunkValue (e : Endian) (bytes : Str) : Nat :=
  bytes.zipIdx.foldl (fun acc (b, j) => acc ||| b.toNat <<< e.shift bytes.length j) 0

inductive Value where
  | int (n : Nat)
  | path (offset : Int)
  | slot
deriving DecidableEq

structure Args where
  endian : Endian
  path : Str
  method : UInt8

structure Machine where
  block : Nat
  pc : Nat
  prev : Nat
  env : Nat → Option Value
  cell : Option Nat

def Operand.eval (args : Args) (env : Nat → Option Value) : Operand → Option Value
  | .const width value => some (.int (value % 2 ^ width))
  | .param 0 => some (.path 0)
  | .param 1 => some (.int (args.path.length % 2 ^ 32))
  | .param 2 => some (.int args.method.toNat)
  | .param _ => none
  | .reg r => env r

def IntPredicate.holds : IntPredicate → Nat → Nat → Bool
  | .eq, a, b => a == b
  | .ult, a, b => a < b
  | .ule, a, b => a ≤ b

/-- An `i32` index is signed. -/
def signExtend (n : Nat) : Int := if n < 2 ^ 31 then n else n - 2 ^ 32

/-- Bytes of the path from an offset on, absent if one of them is outside of it. -/
def Args.bytesAt (args : Args) (offset : Int) (count : Nat) : Option Str :=
  if 0 ≤ offset ∧ offset + count ≤ args.path.length then
    some ((args.path.drop offset.toNat).take count)
  else none

def Machine.result (m : Machine) (r : Nat) (v : Value) : Machine :=
  { m with pc := m.pc + 1, env := Function.update m.env r (some v) }

/-- Execute an instruction with the result register `r`. -/
def Instr.exec (args : Args) (m : Machine) (r : Nat) : Instr → Option Machine
  | .alloca => some { m.result r .slot with cell := none }
  | .store value ptr =>
    match value.eval args m.env, ptr.eval args m.env with
    | some (.int n), some .slot => some { m with pc := m.pc + 1, cell := some n }
    | _, _ => none
  | .load width ptr =>
    match ptr.eval args m.env with
    | some .slot => m.cell.map fun n => m.result r (.int n)
    | some (.path offset) =>
      (args.bytesAt offset (width / 8)).map fun bytes => m.result r (.int (chunkValue args.endian bytes))
    | _ => none
  | .gep ptr offset =>
    match ptr.eval args m.env, offset.eval args m.env with
    | some (.path o), some (.int n) => some (m.result r (.path (o + signExtend n)))
    | _, _ => none
  | .icmp pred a b =>
    match a.eval args m.env, b.eval args m.env with
    | some (.int x), some (.int y) => some (m.result r (.int (pred.holds x y).toNat))
    | _, _ => none
  | .phi incoming =>
    match incoming.find? fun p => p.2 == m.prev with
    | some (v, _) => (v.eval args m.env).map fun x => m.result r x
    | none => none

def Machine.goto (m : Machine) (target : Nat) : Machine :=
  { m with block := target, pc := 0, prev := m.block }

def switchTarget (n default : Nat) (cases : List (Nat × Nat)) : Nat :=
  ((cases.find? fun c => c.1 == n).map Prod.snd).getD default

def Terminator.exec (args : Args) (m : Machine) : Terminator → Machine ⊕ Option Nat
  | .br target => .inl (m.goto target)
  | .condBr cond onTrue onFalse =>
    match cond.eval args m.env with
    | some (.int n) => .inl (m.goto (if n = 1 then onTrue else onFalse))
    | _ => .inr none
  | .switch value default cases =>
    match value.eval args m.env with
    | some (.int n) => .inl (m.goto (switchTarget n default cases))
    | _ => .inr none
  | .ret value =>
    match value.eval args m.env with
    | some (.int n) => .inr (some n)
    | _ => .inr none

def irStep (blocks : List Block) (args : Args) (m : Machine) : Machine ⊕ Option Nat :=
  match blocks[m.block]? with
  | none => .inr none
  | some blk =>
    match blk.instrs[m.pc]? with
    | some (r, i) =>
      match i.exec args m r with
      | some m' => .inl m'
      | none => .inr none
    | none =>
      match blk.term with
      | some t => t.exec args m
      | none => .inr none

def Machine.start : Machine := { block := 0, pc := 0, prev := 0, env := fun _ => none, cell := none }

/-- A call of the function returns `n`: it never gets stuck. -/
def Returns (blocks : List Block) (args : Args) (n : Nat) : Prop :=
  Lib.LoopsTo (irStep blocks args) .start (some n)

end Rut.Jit
