import Rut.Lib.Ebpf

/-!
# The programs of the packet handoff

Port of `include/rut/common/ebpf_handoff_bytecode.h`, for the two programs that the packet handoff runs: the verdict on
each packet, and the commit of a command. The builder appends instructions and patches the jumps once their targets are
known. The parser and the verdict of `emit_handoff_bytecode`, which `emit_packet_handoff_bytecode` clears, are left out.
-/

namespace Rut.Ebpf

open Lib.Ebpf

def kHandoffOwned : Nat := 0x80000000
def kHandoffPending : Nat := 0x40000000
def kHandoffBudgetMask : Nat := 0x3fffffff
def kMapLookupHelper : Int := 1

/-- `static_cast<i32>` of a word. -/
def i32 (n : Nat) : Int := (BitVec.ofNat 32 n).toInt

def instruction (code dst src : Nat) (offset immediate : Int) : Instruction := ⟨code, dst + 16 * src, offset, immediate⟩

/-- The code emitted so far (`Builder`). -/
abbrev Build := StateM (List Instruction)

namespace Build

def count : Build Nat := fun code => (code.length, code)

/-- `add`, which returns the index of the instruction. -/
def add (op dst src : Nat) (off immediate : Int) : Build Nat :=
  fun code => (code.length, code ++ [instruction op dst src off immediate])

def jump (source target : Nat) : Build Unit :=
  fun code => ((), code.modify source fun i => { i with offset := (target : Int) - source - 1 })

def land (sources : List Nat) : Build Unit := do
  let target ← count
  sources.forM fun source => jump source target

def map (dst : Nat) : Build Nat := do
  let index ← add 0x18 dst 1 0 0
  let _ ← add 0 0 0 0 0
  return index

def stackKey : Build Unit := do
  let _ ← add 0xbf 2 10 0 0
  let _ ← add 0x07 2 0 0 (-8)

def stateLookup : Build Nat := do
  let _ ← add 0xbf 6 1 0 0
  let _ ← add 0x85 0 0 0 46
  let _ ← add 0x7b 10 0 (-8) 0
  let index ← map 1
  stackKey
  let _ ← add 0x85 0 0 0 kMapLookupHelper
  return index

end Build

open Build

/-- The commit program of `emit_handoff_bytecode`, with the slots of its command map and its state map. -/
def emitCommit : Build (Nat × Nat) := do
  let _ ← add 0x62 10 0 (-8) 0
  let commandMap ← map 1
  stackKey
  let _ ← add 0x85 0 0 0 kMapLookupHelper
  let noCommand ← add 0x15 0 0 0 0
  let _ ← add 0xbf 6 0 0 0
  let stateMap ← map 1
  let _ ← add 0xbf 2 6 0 0
  let _ ← add 0x85 0 0 0 kMapLookupHelper
  let noState ← add 0x15 0 0 0 0
  let _ ← add 0xbf 7 0 0 0
  let _ ← add 0x61 1 7 12 0
  let stateFailed ← add 0x55 1 0 0 0
  let _ ← add 0x79 0 6 8 0
  let _ ← add 0xbf 8 0 0 0
  let publishLimit ← add 0x15 0 0 0 (-1)
  let _ ← add 0x79 3 6 16 0
  let _ ← add 0xdb 7 3 0 0xf1
  let mismatch ← add 0x5d 0 8 0 0
  let _ ← add 0xb7 0 0 0 1
  let _ ← add 0x95 0 0 0 0
  land [publishLimit]
  let _ ← add 0x61 3 6 16 0
  let emptyLimit ← add 0x15 3 0 0 0
  let _ ← add 0xc3 7 3 24 0xe1
  let _ ← add 0xb7 0 0 0 1
  let _ ← add 0x95 0 0 0 0
  land [emptyLimit, noCommand, noState, stateFailed, mismatch]
  let _ ← add 0xb7 0 0 0 0
  let _ ← add 0x95 0 0 0 0
  return (commandMap, stateMap)

/-- One attempt of the verdict to exchange the control word, with the slots of its jumps on success and on overflow. -/
def emitAttempt : Build (Nat × Nat) := do
  let _ ← add 0x79 0 7 0 0
  let _ ← add 0xbf 8 0 0 0
  let _ ← add 0xbf 1 0 0 0
  let _ ← add 0x77 1 0 0 32
  let _ ← add 0x57 1 0 0 kHandoffBudgetMask
  let pass ← add 0x15 1 0 0 0
  let crossing ← add 0x2d 9 1 0 0
  let _ ← add 0xbf 2 9 0 0
  let _ ← add 0x67 2 0 0 32
  let _ ← add 0xbf 3 8 0 0
  let _ ← add 0x1f 3 2 0 0
  let toCas ← add 0x05 0 0 0 0
  land [crossing]
  -- the part of the body that userspace must still send
  let _ ← add 0x63 7 1 28 0
  let _ ← add 0xbc 3 8 0 0
  let _ ← add 0xb4 2 0 0 (i32 kHandoffOwned)
  let _ ← add 0x57 2 0 0 (i32 (0xffffffff - kHandoffBudgetMask))
  let _ ← add 0x67 2 0 0 32
  let _ ← add 0x4f 3 2 0 0
  let _ ← add 0xb7 1 0 0 0
  let increment ← add 0x05 0 0 0 0
  land [pass]
  let _ ← add 0xbf 3 8 0 0
  land [increment]
  let _ ← add 0x0f 3 9 0 0
  let _ ← add 0xbf 2 3 0 0
  let _ ← add 0x77 2 0 0 32
  let _ ← add 0x57 2 0 0 kHandoffBudgetMask
  let overflow ← add 0x55 2 0 0 0
  land [toCas]
  let _ ← add 0xdb 7 3 0 0xf1
  let committed ← add 0x1d 0 8 0 0
  return (committed, overflow)

/-- The verdict program of `emit_packet_handoff_bytecode`, with the slots of its state map, target map and ring map. -/
def emitVerdict : Build (Nat × Nat × Nat) := do
  let stateMap ← stateLookup
  let missing ← add 0x15 0 0 0 0
  let _ ← add 0xbf 7 0 0 0
  let _ ← add 0x61 1 7 12 0
  let alreadyFailed ← add 0x55 1 0 0 0
  let _ ← add 0x61 9 6 0 0
  let attempts ← (List.range 4).mapM fun _ => emitAttempt
  land (attempts.map Prod.snd)
  let _ ← add 0x62 7 0 12 1
  let _ ← add 0xb7 0 0 0 0
  let failed ← add 0x05 0 0 0 0
  land (attempts.map Prod.fst)
  let passed ← add 0x15 1 0 0 0
  let _ ← add 0xbf 1 6 0 0
  let targetMap ← map 2
  let _ ← add 0xbf 3 7 0 0
  let _ ← add 0x07 3 0 0 16
  let _ ← add 0xb7 4 0 0 0
  let _ ← add 0x85 0 0 0 72
  let redirected ← add 0x55 0 0 0 0
  let _ ← add 0x62 7 0 12 1
  land [redirected]
  let redirectFinished ← add 0x05 0 0 0 0
  land [passed]
  let _ ← add 0xb7 0 0 0 1
  land [failed]
  let notifyFailure ← count
  let _ ← add 0x61 1 7 12 0
  let failureNotify ← add 0x55 1 0 0 0
  jump redirectFinished notifyFailure
  let _ ← add 0xbf 1 8 0 0
  let _ ← add 0x77 1 0 0 32
  let _ ← add 0x57 1 0 0 kHandoffBudgetMask
  let noTransition ← add 0x15 1 0 0 0
  let _ ← add 0x79 1 7 0 0
  let _ ← add 0x77 1 0 0 32
  let _ ← add 0x57 1 0 0 kHandoffBudgetMask
  let stillActive ← add 0x55 1 0 0 0
  land [failureNotify]
  -- the verdict is kept across the call
  let _ ← add 0xbf 9 0 0 0
  let _ ← add 0x79 1 10 (-8) 0
  let _ ← add 0x7b 10 1 (-32) 0
  let _ ← add 0x79 1 7 32 0
  let _ ← add 0x7b 10 1 (-24) 0
  let ringMap ← map 1
  let _ ← add 0xbf 2 10 0 0
  let _ ← add 0x07 2 0 0 (-32)
  let _ ← add 0xb7 3 0 0 16
  let _ ← add 0xb7 4 0 0 0
  let _ ← add 0x85 0 0 0 130
  let notified ← add 0x15 0 0 0 0
  let _ ← add 0x62 7 0 12 1
  land [notified]
  let _ ← add 0xbf 0 9 0 0
  land [noTransition, stillActive]
  let _ ← add 0x95 0 0 0 0
  land [missing, alreadyFailed]
  let _ ← add 0xb7 0 0 0 0
  let _ ← add 0x95 0 0 0 0
  return (stateMap, targetMap, ringMap)

/-- What the packet handoff runs (`HandoffCode`). -/
structure HandoffCode where
  verdict : List Instruction
  commit : List Instruction
  verdictStateMap : Nat
  verdictTargetMap : Nat
  verdictRingMap : Nat
  commitCommandMap : Nat
  commitStateMap : Nat
deriving DecidableEq

def emitPacketHandoffBytecode : HandoffCode :=
  let ((stateMap, targetMap, ringMap), verdict) := emitVerdict []
  let ((commandMap, commitStateMap), commit) := emitCommit []
  ⟨verdict, commit, stateMap, targetMap, ringMap, commandMap, commitStateMap⟩

end Rut.Ebpf
