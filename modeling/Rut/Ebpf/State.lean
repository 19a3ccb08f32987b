import Rut.Lib.Ebpf

/-!
# The entry of a source socket

The entry that the verdict on the packets of a socket and the commits of its owner share, what the two programs can
address, and the arithmetic of the control word: two bits for the phase, 30 bits for the budget of bytes that may still be
redirected, and the low word, which counts the bytes that were passed.
-/

namespace Rut.Ebpf

open Lib.Ebpf

/-- The entry of a source socket (`HandoffState`). -/
structure HandoffState where
  control : BitVec 64 := 0
  frame : BitVec 32 := 0
  failed : BitVec 32 := 0
  targetCookie : BitVec 64 := 0
  passLimit : BitVec 32 := 0
  tailBody : BitVec 32 := 0
  connectionId : BitVec 32 := 0
  generation : BitVec 32 := 0
deriving DecidableEq

/-- A command to the commit program (`HandoffCommand`). -/
structure HandoffCommand where
  sourceCookie : BitVec 64
  expected : BitVec 64
  desired : BitVec 64
deriving DecidableEq

/-- What the programs can address: the packet, the command, the entry, and maps. Only the entry is written. -/
inductive Region where
  | skb (len : BitVec 32)
  | command (c : HandoffCommand)
  | state
  | map (fd : Int)
deriving DecidableEq

namespace HandoffState

def load (s : HandoffState) (off : Int) (size : Size) : Option (BitVec 64) :=
  match size, off with
  | .dword, 0 => some s.control
  | .word, 8 => some (s.frame.setWidth 64)
  | .word, 12 => some (s.failed.setWidth 64)
  | .dword, 16 => some s.targetCookie
  | .word, 24 => some (s.passLimit.setWidth 64)
  | .word, 28 => some (s.tailBody.setWidth 64)
  | .dword, 32 => some (s.generation ++ s.connectionId)
  | _, _ => none

def store (s : HandoffState) (off : Int) (size : Size) (w : BitVec 64) : Option HandoffState :=
  match size, off with
  | .dword, 0 => some { s with control := w }
  | .word, 8 => some { s with frame := w.setWidth 32 }
  | .word, 12 => some { s with failed := w.setWidth 32 }
  | .word, 24 => some { s with passLimit := w.setWidth 32 }
  | .word, 28 => some { s with tailBody := w.setWidth 32 }
  | _, _ => none

end HandoffState

def space : Space Region HandoffState where
  fixed r off size :=
    match r, size, off with
    | .skb len, .word, 0 => some (len.setWidth 64)
    | .command c, .dword, 0 => some c.sourceCookie
    | .command c, .dword, 8 => some c.expected
    | .command c, .dword, 16 => some c.desired
    | .command c, .word, 16 => some (low c.desired)
    | _, _, _ => none
  load s r off size :=
    match r with
    | .state => s.load off size
    | _ => none
  store s r off size w :=
    match r with
    | .state => s.store off size w
    | _ => none
  map fd := .ptr (.map fd) 0
  arity helper :=
    match helper with
    | 1 => some 2
    | 46 => some 1
    | 72 => some 4
    | 130 => some 4
    | _ => none

def entry (context : Val Region) : Thread Region where
  pc := 0
  regs k := if k = 1 then some context else if k = 10 then some (.frame 0) else none
  stack := []

/-! ## The control word -/

/-- Bytes that may still be redirected (`handoff_budget`). -/
def budget (control : BitVec 64) : Nat := control.toNat / 2 ^ 32 % 2 ^ 30

def passedBytes (control : BitVec 64) : Nat := control.toNat % 2 ^ 32

def budgetBits (control : BitVec 64) : BitVec 64 := (control >>> 32) &&& 0x3fffffff

lemma budgetBits_toNat (c : BitVec 64) : (budgetBits c).toNat = budget c := by
  rw [budgetBits, BitVec.toNat_and, BitVec.toNat_ushiftRight, Nat.shiftRight_eq_div_pow, budget]
  exact Nat.and_two_pow_sub_one_eq_mod _ 30

lemma budgetBits_eq_zero {c} : budgetBits c = 0 ↔ budget c = 0 := by
  rw [← budgetBits_toNat, BitVec.toNat_eq]
  rfl

lemma tailBody_toNat (c : BitVec 64) : ((budgetBits c).setWidth 32).toNat = budget c := by
  have hlt : budget c < 2 ^ 30 := Nat.mod_lt _ (by decide)
  rw [BitVec.toNat_setWidth, budgetBits_toNat]
  omega

section words
variable {c : BitVec 64} {len : BitVec 32}

def redirectedWord (c : BitVec 64) (len : BitVec 32) : BitVec 64 := c - (len.setWidth 64 <<< 32)

def passedWord (c : BitVec 64) (len : BitVec 32) : BitVec 64 := c + len.setWidth 64

def crossingWord (c : BitVec 64) (len : BitVec 32) : BitVec 64 :=
  (low c ||| ((low (imm (-0x80000000)) &&& imm (-0x40000000)) <<< 32)) + len.setWidth 64

lemma redirectedWord_toNat (h : len.toNat ≤ budget c) :
    (redirectedWord c len).toNat + len.toNat * 2 ^ 32 = c.toNat := by
  rw [budget] at h
  simp only [redirectedWord, BitVec.toNat_sub, BitVec.toNat_shiftLeft, BitVec.toNat_setWidth, Nat.shiftLeft_eq]
  omega

lemma redirectedWord_budget (h : len.toNat ≤ budget c) :
    budget (redirectedWord c len) + len.toNat = budget c ∧ passedBytes (redirectedWord c len) = passedBytes c := by
  have hword := redirectedWord_toNat h
  rw [budget] at h
  rw [budget, budget, passedBytes, passedBytes]
  omega

lemma passedWord_spec (len : BitVec 32) (h : budget c = 0) :
    (budgetBits (passedWord c len) = 0 ↔ passedBytes c + len.toNat < 2 ^ 32) ∧
    (passedBytes c + len.toNat < 2 ^ 32 → (passedWord c len).toNat = c.toNat + len.toNat ∧
      budget (passedWord c len) = 0 ∧ passedBytes (passedWord c len) = passedBytes c + len.toNat) := by
  have hword : (passedWord c len).toNat = (c.toNat + len.toNat) % 2 ^ 64 := by
    simp only [passedWord, BitVec.toNat_add, BitVec.toNat_setWidth]
    omega
  rw [budgetBits_eq_zero]
  rw [budget] at h
  rw [budget, passedBytes, passedBytes, hword]
  omega

lemma ownedBits : (low (imm (-0x80000000)) &&& imm (-0x40000000)) <<< 32 = 0x8000000000000000#64 := by decide

lemma crossingWord_toNat (c : BitVec 64) (len : BitVec 32) :
    (crossingWord c len).toNat = 2 ^ 63 + passedBytes c + len.toNat := by
  have hlow : (low c).toNat = passedBytes c := by
    rw [low, BitVec.toNat_setWidth, BitVec.toNat_setWidth, passedBytes]
    omega
  have hp : passedBytes c < 2 ^ 32 := Nat.mod_lt _ (by decide)
  have hor : (low c ||| 0x8000000000000000#64).toNat = 2 ^ 63 + passedBytes c := by
    have hsum := Nat.two_pow_add_eq_or_of_lt (hp.trans (by decide : 2 ^ 32 < 2 ^ 63)) 1
    rw [Nat.mul_one] at hsum
    rw [BitVec.toNat_or, hlow, hsum, Nat.lor_comm]
    rfl
  rw [crossingWord, ownedBits, BitVec.toNat_add, hor, BitVec.toNat_setWidth]
  omega

lemma crossingWord_spec (c : BitVec 64) (len : BitVec 32) :
    (budgetBits (crossingWord c len) = 0 ↔ passedBytes c + len.toNat < 2 ^ 32) ∧ (passedBytes c + len.toNat < 2 ^ 32 →
      budget (crossingWord c len) = 0 ∧ passedBytes (crossingWord c len) = passedBytes c + len.toNat) := by
  have hp : passedBytes c < 2 ^ 32 := Nat.mod_lt _ (by decide)
  have hword := crossingWord_toNat c len
  rw [budgetBits_eq_zero, budget]
  generalize crossingWord c len = v at hword
  rw [passedBytes.eq_def v, hword]
  omega

end words

end Rut.Ebpf
