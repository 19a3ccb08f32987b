import Rut.Ebpf.Bytecode
import Rut.Ebpf.State

/-!
# The verdict on a packet

What the verdict program of the packet handoff does. The program is cut at the instructions that use the entry, call a
helper or end. What lies between two cuts uses registers only, so that it does not matter what others do meanwhile, and
the program is a machine that moves from one cut to another.
-/

namespace Rut.Ebpf

open Lib.Ebpf

/-! ## The code -/

structure Fds where
  state : Int
  target : Int
  ring : Int
  command : Int
deriving DecidableEq

def prologue (fds : Fds) : List (Option Op) :=
  [some (.alu true .mov 6 (.reg 1)), some (.call 46), some (.store .dword 10 (.reg 0) (-8)), some (.map 1 fds.state), none,
    some (.alu true .mov 2 (.reg 10)), some (.alu true .add 2 (.imm (-8))), some (.call 1), some (.branch .eq 0 (.imm 0) 157),
    some (.alu true .mov 7 (.reg 0)), some (.load .word 1 7 12), some (.branch .ne 1 (.imm 0) 154), some (.load .word 9 6 0)]

/-- An attempt to exchange the control word, and where it goes on overflow and on success. -/
def attempt (overflow committed : Int) : List (Option Op) :=
  [some (.load .dword 0 7 0), some (.alu true .mov 8 (.reg 0)), some (.alu true .mov 1 (.reg 0)),
    some (.alu true .rsh 1 (.imm 32)), some (.alu true .and 1 (.imm 0x3fffffff)), some (.branch .eq 1 (.imm 0) 14),
    some (.branch .gt 9 (.reg 1) 5), some (.alu true .mov 2 (.reg 9)), some (.alu true .lsh 2 (.imm 32)),
    some (.alu true .mov 3 (.reg 8)), some (.alu true .sub 3 (.reg 2)), some (.jump 14), some (.store .word 7 (.reg 1) 28),
    some (.alu false .mov 3 (.reg 8)), some (.alu false .mov 2 (.imm (-0x80000000))),
    some (.alu true .and 2 (.imm (-0x40000000))), some (.alu true .lsh 2 (.imm 32)), some (.alu true .or 3 (.reg 2)),
    some (.alu true .mov 1 (.imm 0)), some (.jump 1), some (.alu true .mov 3 (.reg 8)), some (.alu true .add 3 (.reg 9)),
    some (.alu true .mov 2 (.reg 3)), some (.alu true .rsh 2 (.imm 32)), some (.alu true .and 2 (.imm 0x3fffffff)),
    some (.branch .ne 2 (.imm 0) overflow), some (.cmpxchg .dword 7 3 0), some (.branch .eq 0 (.reg 8) committed)]

def epilogue (fds : Fds) : List (Option Op) :=
  [some (.store .word 7 (.imm 1) 12), some (.alu true .mov 0 (.imm 0)), some (.jump 12), some (.branch .eq 1 (.imm 0) 10),
    some (.alu true .mov 1 (.reg 6)), some (.map 2 fds.target), none, some (.alu true .mov 3 (.reg 7)),
    some (.alu true .add 3 (.imm 16)), some (.alu true .mov 4 (.imm 0)), some (.call 72), some (.branch .ne 0 (.imm 0) 1),
    some (.store .word 7 (.imm 1) 12), some (.jump 1), some (.alu true .mov 0 (.imm 1)), some (.load .word 1 7 12),
    some (.branch .ne 1 (.imm 0) 8), some (.alu true .mov 1 (.reg 8)), some (.alu true .rsh 1 (.imm 32)),
    some (.alu true .and 1 (.imm 0x3fffffff)), some (.branch .eq 1 (.imm 0) 19), some (.load .dword 1 7 0),
    some (.alu true .rsh 1 (.imm 32)), some (.alu true .and 1 (.imm 0x3fffffff)), some (.branch .ne 1 (.imm 0) 15),
    some (.alu true .mov 9 (.reg 0)), some (.load .dword 1 10 (-8)), some (.store .dword 10 (.reg 1) (-32)),
    some (.load .dword 1 7 32), some (.store .dword 10 (.reg 1) (-24)), some (.map 1 fds.ring), none,
    some (.alu true .mov 2 (.reg 10)), some (.alu true .add 2 (.imm (-32))), some (.alu true .mov 3 (.imm 16)),
    some (.alu true .mov 4 (.imm 0)), some (.call 130), some (.branch .eq 0 (.imm 0) 1), some (.store .word 7 (.imm 1) 12),
    some (.alu true .mov 0 (.reg 9)), some .exit, some (.alu true .mov 0 (.imm 0)), some .exit]

def ops (fds : Fds) : List (Option Op) :=
  prologue fds ++ attempt 86 87 ++ attempt 58 59 ++ attempt 30 31 ++ attempt 2 3 ++ epilogue fds

def verdictCode : List (Option Op) := emitPacketHandoffBytecode.verdict.map Instruction.decode

lemma verdictCode_eq : verdictCode = ops ⟨0, 0, 0, 0⟩ := by decide +kernel

/-! ## The cuts -/

inductive Place where
  | cookie
  | lookup
  | failed
  | control (k : Nat)
  | tail (k : Nat) (c : BitVec 64)
  | exchange (k : Nat) (c v redirects : BitVec 64)
  | overflow (c : BitVec 64)
  | redirect (c : BitVec 64)
  | dropped (c : BitVec 64)
  | settled (c w : BitVec 64)
  | left (w : BitVec 64)
  | ids (w : BitVec 64)
  | notify (w : BitVec 64)
  | unnotified (w : BitVec 64)
  | exit (w : BitVec 64)
deriving DecidableEq

namespace Place

def pc : Place → Nat → Prop
  | cookie, n => n = 1
  | lookup, n => n = 7
  | failed, n => n = 10
  | control k, n => k < 4 ∧ n = 13 + 28 * k
  | tail k _, n => k < 4 ∧ n = 25 + 28 * k
  | exchange k _ _ _, n => k < 4 ∧ n = 39 + 28 * k
  | overflow _, n => n = 125
  | redirect _, n => n = 135
  | dropped _, n => n = 137
  | settled _ _, n => n = 140
  | left _, n => n = 146
  | ids _, n => n = 153
  | notify _, n => n = 161
  | unnotified _, n => n = 163
  | exit _, n => n = 165 ∨ n = 167

section registers
variable (fds : Fds) (len : BitVec 32)

def begun : List (Nat × Val Region) := [(6, .ptr (.skb len) 0), (10, .frame 0)]

def found : List (Nat × Val Region) := (7, .ptr .state 0) :: begun len

def live : List (Nat × Val Region) := (9, .num (len.setWidth 64)) :: found len

def registers : Place → List (Nat × Val Region)
  | cookie => (1, .ptr (.skb len) 0) :: begun len
  | lookup => (1, .ptr (.map fds.state) 0) :: (2, .frame (-8)) :: begun len
  | failed => found len
  | control _ => live len
  | tail _ c => (0, .num c) :: (8, .num c) :: (1, .num (budgetBits c)) :: live len
  | exchange _ c v redirects => (0, .num c) :: (8, .num c) :: (3, .num v) :: (1, .num redirects) :: live len
  | overflow c => (8, .num c) :: live len
  | redirect c => (1, .ptr (.skb len) 0) :: (2, .ptr (.map fds.target) 0) :: (3, .ptr .state 16) :: (4, .num 0) ::
      (8, .num c) :: live len
  | dropped c => (0, .num 0) :: (8, .num c) :: live len
  | settled c w => (0, .num w) :: (8, .num c) :: live len
  | left w => (0, .num w) :: found len
  | ids w => (9, .num w) :: found len
  | notify w => (1, .ptr (.map fds.ring) 0) :: (2, .frame (-32)) :: (3, .num 16) :: (4, .num 0) :: (9, .num w) :: found len
  | unnotified w => (9, .num w) :: found len
  | exit w => [(0, .num w)]

end registers

def keepsCookie : Place → Prop
  | cookie | ids _ | notify _ | unnotified _ | exit _ => False
  | _ => True

end Place

def Place.cut (fds : Fds) (len : BitVec 32) (p : Place) : Cut Region where
  pc := p.pc
  registers := p.registers fds len
  stack stack := p.keepsCookie → ∃ cookie rest, stack = (-8, .dword, cookie) :: rest

abbrev At (fds : Fds) (len : BitVec 32) (p : Place) (t : Thread Region) : Prop := (p.cut fds len).At t

abbrev Toward (fds : Fds) (len : BitVec 32) (p : Place) (t : Thread Region) : Prop :=
  (p.cut fds len).Toward space (ops fds) t

namespace Place

section moves
variable (len : BitVec 32)

/-- A packet is passed with a new control word, unless the low word overflows. -/
def passing (k : Nat) (c v : BitVec 64) : Place := if budgetBits v = 0 then exchange k c v 0 else overflow c

def chosen (k : Nat) (c : BitVec 64) : Place :=
  if budgetBits c = 0 then passing k c (passedWord c len)
  else if len.toNat ≤ budget c then exchange k c (redirectedWord c len) (budgetBits c)
  else tail k c

def move : Place → HandoffState → Option (Place × HandoffState)
  | failed, s => some (if s.failed = 0 then control 0 else exit 0, s)
  | control k, s => some (chosen len k s.control, s)
  | tail k c, s => some (passing k c (crossingWord c len), { s with tailBody := (budgetBits c).setWidth 32 })
  | exchange k c v redirects, s =>
    if s.control = c then some (if redirects = 0 then settled c 1 else redirect c, { s with control := v })
    -- a packet that has lost every attempt marks the entry as failed
    else some (if k < 3 then control (k + 1) else overflow c, s)
  | overflow c, s => some (settled c 0, { s with failed := 1 })
  | dropped c, s => some (settled c 0, { s with failed := 1 })
  | settled c w, s => some (if s.failed ≠ 0 then ids w else if budgetBits c = 0 then exit w else left w, s)
  | left w, s => some (if budgetBits s.control = 0 then ids w else exit w, s)
  | ids w, s => some (notify w, s)
  | unnotified w, s => some (exit w, { s with failed := 1 })
  | _, _ => none

def helper : Place → Option Int
  | cookie => some 46
  | lookup => some 1
  | redirect _ => some 72
  | notify _ => some 130
  | _ => none

def answer : Place → Val Region → Option Place
  | cookie, .num _ => some lookup
  | lookup, v => if v = .num 0 then some (exit 0) else if v = .ptr .state 0 then some failed else none
  | redirect c, .num r => some (if r = 0 then dropped c else settled c r)
  | notify w, .num q => some (if q = 0 then exit w else unnotified w)
  | _, _ => none

end moves

end Place

/-! ## The program moves between the cuts -/

lemma setWidth_eq_zero {n : BitVec 32} : n.setWidth 64 = 0 ↔ n = 0 := by
  rw [BitVec.toNat_eq, BitVec.toNat_eq, BitVec.toNat_setWidth]
  change n.toNat % 2 ^ 64 = 0 ↔ n.toNat = 0
  omega

lemma budgetBits_lt {c} {len : BitVec 32} : budgetBits c < len.setWidth 64 ↔ ¬ len.toNat ≤ budget c := by
  rw [BitVec.lt_def, budgetBits_toNat, BitVec.toNat_setWidth]
  omega

section simulation
variable {fds : Fds} {len : BitVec 32} {p p' : Place} {t : Thread Region} {s s' : HandoffState} {c v w : BitVec 64} {k : Nat}

lemma entry_toward (fds : Fds) (len : BitVec 32) : Toward fds len .cookie (entry (.ptr (.skb len) 0)) :=
  ⟨_, ⟨1, rfl⟩, rfl, ⟨rfl, rfl, rfl, trivial⟩, False.elim⟩

lemma At.cookie (h : At fds len .cookie t) (s : HandoffState) :
    step space (ops fds) t s = .call 46 ∧ ∀ cookie, Toward fds len .lookup (t.resume (.num cookie)) := by
  apply h.elim
  rintro _ rfl regs stack -
  refine ⟨rfl, fun cookie => ?_⟩
  apply Cut.Toward.slides 4 rfl
  exact ⟨_, .refl _, rfl, ⟨rfl, rfl, rfl, rfl, trivial⟩, fun _ => ⟨_, _, rfl⟩⟩

lemma At.lookup (h : At fds len .lookup t) (s : HandoffState) :
    step space (ops fds) t s = .call 1 ∧ Toward fds len (.exit 0) (t.resume (.num 0)) ∧
      Toward fds len .failed (t.resume (.ptr .state 0)) := by
  apply h.elim
  rintro _ rfl regs _ hstack
  obtain ⟨cookie, rest, rfl⟩ := hstack trivial
  exact ⟨rfl, ⟨_, ⟨2, rfl⟩, .inr rfl, ⟨rfl, trivial⟩, False.elim⟩,
    ⟨_, ⟨2, rfl⟩, rfl, ⟨rfl, rfl, rfl, trivial⟩, fun _ => ⟨cookie, rest, rfl⟩⟩⟩

lemma At.failed (h : At fds len .failed t) (s : HandoffState) : ∃ t', step space (ops fds) t s = .next t' s ∧
      Toward fds len (if s.failed = 0 then .control 0 else .exit 0) t' := by
  apply h.elim
  rintro _ rfl regs _ hstack
  obtain ⟨cookie, rest, rfl⟩ := hstack trivial
  refine ⟨_, rfl, ?_⟩
  split_ifs with hfailed
  · apply Cut.Toward.branch false rfl rfl rfl
    · exact bne_eq_false_iff_eq.2 (setWidth_eq_zero.2 hfailed)
    · exact ⟨_, ⟨1, rfl⟩, ⟨by decide, rfl⟩, ⟨rfl, rfl, rfl, rfl, trivial⟩, fun _ => ⟨cookie, rest, rfl⟩⟩
  · apply Cut.Toward.branch true rfl rfl rfl
    · exact bne_iff_ne.2 fun hzero => hfailed (setWidth_eq_zero.1 hzero)
    · exact ⟨_, ⟨1, rfl⟩, .inr rfl, ⟨rfl, trivial⟩, False.elim⟩

lemma toward_passing {cookie rest} (hk : k < 4) (hpc : t.pc = 38 + 28 * k)
    (hregs : Holds t.regs ((2, .num (budgetBits v)) :: Place.registers fds len (.exchange k c v 0)))
    (hstack : t.stack = (-8, .dword, cookie) :: rest) : Toward fds len (.passing k c v) t := by
  have hknown := known_eq hregs
  obtain ⟨pc, regs, stack⟩ := t
  dsimp only at hpc hknown hstack
  rw [hpc, hstack, ← hknown]
  rw [Place.passing]
  interval_cases k
  all_goals
    split_ifs with hzero
    · apply Cut.Toward.branch false rfl rfl rfl
      · exact bne_eq_false_iff_eq.2 hzero
      · exact ⟨_, .refl _, ⟨by decide, rfl⟩, ⟨rfl, rfl, rfl, rfl, rfl, rfl, rfl, rfl, trivial⟩, fun _ => ⟨cookie, rest, rfl⟩⟩
    · apply Cut.Toward.branch true rfl rfl rfl
      · exact bne_iff_ne.2 hzero
      · exact ⟨_, .refl _, rfl, ⟨rfl, rfl, rfl, rfl, rfl, trivial⟩, fun _ => ⟨cookie, rest, rfl⟩⟩

lemma At.control (h : At fds len (.control k) t) (s : HandoffState) :
    ∃ t', step space (ops fds) t s = .next t' s ∧ Toward fds len (.chosen len k s.control) t' := by
  apply h.elim
  rintro _ ⟨hk, rfl⟩ regs _ hstack
  obtain ⟨cookie, rest, rfl⟩ := hstack trivial
  rw [Place.chosen]
  interval_cases k
  all_goals
    refine ⟨_, rfl, ?_⟩
    apply Cut.Toward.slides 4 rfl
    split_ifs with hzero hfits
    · apply Cut.Toward.branch true rfl rfl rfl
      · exact beq_iff_eq.2 hzero
      · apply Cut.Toward.slides 5 rfl
        exact toward_passing (by decide) rfl
          ⟨rfl, rfl, rfl, rfl, congrArg (fun w => some (Val.num w)) hzero, rfl, rfl, rfl, rfl, trivial⟩ rfl
    · apply Cut.Toward.branch false rfl rfl rfl
      · exact beq_eq_false_iff_ne.2 hzero
      · apply Cut.Toward.branch false rfl rfl rfl
        · exact decide_eq_false fun hlt => budgetBits_lt.1 hlt hfits
        · exact ⟨_, ⟨5, rfl⟩, ⟨by decide, rfl⟩, ⟨rfl, rfl, rfl, rfl, rfl, rfl, rfl, rfl, trivial⟩, fun _ => ⟨cookie, rest, rfl⟩⟩
    · apply Cut.Toward.branch false rfl rfl rfl
      · exact beq_eq_false_iff_ne.2 hzero
      · apply Cut.Toward.branch true rfl rfl rfl
        · exact decide_eq_true (budgetBits_lt.2 hfits)
        · exact ⟨_, .refl _, ⟨by decide, rfl⟩, ⟨rfl, rfl, rfl, rfl, rfl, rfl, rfl, trivial⟩, fun _ => ⟨cookie, rest, rfl⟩⟩

lemma At.tail (h : At fds len (.tail k c) t) (s : HandoffState) :
    ∃ t', step space (ops fds) t s = .next t' { s with tailBody := (budgetBits c).setWidth 32 } ∧
      Toward fds len (.passing k c (crossingWord c len)) t' := by
  apply h.elim
  rintro _ ⟨hk, rfl⟩ regs _ hstack
  obtain ⟨cookie, rest, rfl⟩ := hstack trivial
  interval_cases k
  all_goals
    refine ⟨_, rfl, ?_⟩
    apply Cut.Toward.slides 11 rfl
    exact toward_passing (by decide) rfl ⟨rfl, rfl, rfl, rfl, rfl, rfl, rfl, rfl, rfl, trivial⟩ rfl

lemma At.exchange {redirects} (h : At fds len (.exchange k c v redirects) t) (s : HandoffState) :
    ∃ t', step space (ops fds) t s = .next t' (if s.control = c then { s with control := v } else s) ∧
      Toward fds len (if s.control = c then if redirects = 0 then .settled c 1 else .redirect c
        else if k < 3 then .control (k + 1) else .overflow c) t' := by
  apply h.elim
  rintro _ ⟨hk, rfl⟩ regs _ hstack
  obtain ⟨cookie, rest, rfl⟩ := hstack trivial
  interval_cases k
  all_goals
    refine ⟨_, rfl, ?_⟩
    by_cases hcontrol : s.control = c
    · rw [if_pos hcontrol]
      apply Cut.Toward.branch true rfl rfl rfl
      · exact beq_iff_eq.2 hcontrol
      · by_cases hzero : redirects = 0
        · rw [if_pos hzero]
          apply Cut.Toward.branch true rfl rfl rfl
          · exact beq_iff_eq.2 hzero
          · exact ⟨_, ⟨1, rfl⟩, rfl, ⟨rfl, rfl, rfl, rfl, rfl, rfl, trivial⟩, fun _ => ⟨cookie, rest, rfl⟩⟩
        · rw [if_neg hzero]
          apply Cut.Toward.branch false rfl rfl rfl
          · exact beq_eq_false_iff_ne.2 hzero
          · exact ⟨_, ⟨5, rfl⟩, rfl, ⟨rfl, rfl, rfl, rfl, rfl, rfl, rfl, rfl, rfl, trivial⟩, fun _ => ⟨cookie, rest, rfl⟩⟩
    · rw [if_neg hcontrol]
      apply Cut.Toward.branch false rfl rfl rfl
      · exact beq_eq_false_iff_ne.2 hcontrol
      · first
        | exact ⟨_, .refl _, ⟨by decide, rfl⟩, ⟨rfl, rfl, rfl, rfl, trivial⟩, fun _ => ⟨cookie, rest, rfl⟩⟩
        | exact ⟨_, .refl _, rfl, ⟨rfl, rfl, rfl, rfl, rfl, trivial⟩, fun _ => ⟨cookie, rest, rfl⟩⟩

lemma At.overflow (h : At fds len (.overflow c) t) (s : HandoffState) :
    ∃ t', step space (ops fds) t s = .next t' { s with failed := 1 } ∧ Toward fds len (.settled c 0) t' := by
  apply h.elim
  rintro _ rfl regs _ hstack
  obtain ⟨cookie, rest, rfl⟩ := hstack trivial
  exact ⟨_, rfl, _, ⟨2, rfl⟩, rfl, ⟨rfl, rfl, rfl, rfl, rfl, rfl, trivial⟩, fun _ => ⟨cookie, rest, rfl⟩⟩

lemma At.redirect (h : At fds len (.redirect c) t) (s : HandoffState) : step space (ops fds) t s = .call 72 ∧
      ∀ r, Toward fds len (if r = 0 then .dropped c else .settled c r) (t.resume (.num r)) := by
  apply h.elim
  rintro _ rfl regs _ hstack
  obtain ⟨cookie, rest, rfl⟩ := hstack trivial
  refine ⟨rfl, fun r => ?_⟩
  split_ifs with hzero
  · apply Cut.Toward.branch false rfl rfl rfl
    · exact bne_eq_false_iff_eq.2 hzero
    · exact ⟨_, .refl _, rfl, ⟨congrArg (fun w => some (Val.num w)) hzero, rfl, rfl, rfl, rfl, rfl, trivial⟩,
        fun _ => ⟨cookie, rest, rfl⟩⟩
  · apply Cut.Toward.branch true rfl rfl rfl
    · exact bne_iff_ne.2 hzero
    · exact ⟨_, ⟨1, rfl⟩, rfl, ⟨rfl, rfl, rfl, rfl, rfl, rfl, trivial⟩, fun _ => ⟨cookie, rest, rfl⟩⟩

lemma At.dropped (h : At fds len (.dropped c) t) (s : HandoffState) :
    ∃ t', step space (ops fds) t s = .next t' { s with failed := 1 } ∧ Toward fds len (.settled c 0) t' := by
  apply h.elim
  rintro _ rfl regs _ hstack
  obtain ⟨cookie, rest, rfl⟩ := hstack trivial
  exact ⟨_, rfl, _, ⟨1, rfl⟩, rfl, ⟨rfl, rfl, rfl, rfl, rfl, rfl, trivial⟩, fun _ => ⟨cookie, rest, rfl⟩⟩

lemma At.settled (h : At fds len (.settled c w) t) (s : HandoffState) : ∃ t', step space (ops fds) t s = .next t' s ∧
      Toward fds len (if s.failed ≠ 0 then .ids w else if budgetBits c = 0 then .exit w else .left w) t' := by
  apply h.elim
  rintro _ rfl regs _ hstack
  obtain ⟨cookie, rest, rfl⟩ := hstack trivial
  refine ⟨_, rfl, ?_⟩
  by_cases hfailed : s.failed = 0
  · rw [if_neg (not_not.2 hfailed)]
    apply Cut.Toward.branch false rfl rfl rfl
    · exact bne_eq_false_iff_eq.2 (setWidth_eq_zero.2 hfailed)
    · apply Cut.Toward.slides 3 rfl
      by_cases hzero : budgetBits c = 0
      · rw [if_pos hzero]
        apply Cut.Toward.branch true rfl rfl rfl
        · exact beq_iff_eq.2 hzero
        · exact ⟨_, .refl _, .inl rfl, ⟨rfl, trivial⟩, False.elim⟩
      · rw [if_neg hzero]
        apply Cut.Toward.branch false rfl rfl rfl
        · exact beq_eq_false_iff_ne.2 hzero
        · exact ⟨_, .refl _, rfl, ⟨rfl, rfl, rfl, rfl, trivial⟩, fun _ => ⟨cookie, rest, rfl⟩⟩
  · rw [if_pos hfailed]
    apply Cut.Toward.branch true rfl rfl rfl
    · exact bne_iff_ne.2 fun hzero => hfailed (setWidth_eq_zero.1 hzero)
    · exact ⟨_, ⟨3, rfl⟩, rfl, ⟨rfl, rfl, rfl, rfl, trivial⟩, False.elim⟩

lemma At.left (h : At fds len (.left w) t) (s : HandoffState) : ∃ t', step space (ops fds) t s = .next t' s ∧
      Toward fds len (if budgetBits s.control = 0 then .ids w else .exit w) t' := by
  apply h.elim
  rintro _ rfl regs _ hstack
  obtain ⟨cookie, rest, rfl⟩ := hstack trivial
  refine ⟨_, rfl, ?_⟩
  apply Cut.Toward.slides 2 rfl
  by_cases hzero : budgetBits s.control = 0
  · rw [if_pos hzero]
    apply Cut.Toward.branch false rfl rfl rfl
    · exact bne_eq_false_iff_eq.2 hzero
    · exact ⟨_, ⟨3, rfl⟩, rfl, ⟨rfl, rfl, rfl, rfl, trivial⟩, False.elim⟩
  · rw [if_neg hzero]
    apply Cut.Toward.branch true rfl rfl rfl
    · exact bne_iff_ne.2 hzero
    · exact ⟨_, .refl _, .inl rfl, ⟨rfl, trivial⟩, False.elim⟩

lemma At.ids (h : At fds len (.ids w) t) (s : HandoffState) :
    ∃ t', step space (ops fds) t s = .next t' s ∧ Toward fds len (.notify w) t' := by
  apply h.elim
  rintro _ rfl regs stack -
  refine ⟨_, rfl, ?_⟩
  apply Cut.Toward.slides 6 rfl
  exact ⟨_, .refl _, rfl, ⟨rfl, rfl, rfl, rfl, rfl, rfl, rfl, rfl, trivial⟩, False.elim⟩

lemma At.notify (h : At fds len (.notify w) t) (s : HandoffState) : step space (ops fds) t s = .call 130 ∧
      ∀ q, Toward fds len (if q = 0 then .exit w else .unnotified w) (t.resume (.num q)) := by
  apply h.elim
  rintro _ rfl regs stack -
  refine ⟨rfl, fun q => ?_⟩
  split_ifs with hzero
  · apply Cut.Toward.branch true rfl rfl rfl
    · exact beq_iff_eq.2 hzero
    · exact ⟨_, ⟨1, rfl⟩, .inl rfl, ⟨rfl, trivial⟩, False.elim⟩
  · apply Cut.Toward.branch false rfl rfl rfl
    · exact beq_eq_false_iff_ne.2 hzero
    · exact ⟨_, .refl _, rfl, ⟨rfl, rfl, rfl, rfl, trivial⟩, False.elim⟩

lemma At.unnotified (h : At fds len (.unnotified w) t) (s : HandoffState) :
    ∃ t', step space (ops fds) t s = .next t' { s with failed := 1 } ∧ Toward fds len (.exit w) t' := by
  apply h.elim
  rintro _ rfl regs stack -
  exact ⟨_, rfl, _, ⟨1, rfl⟩, .inl rfl, ⟨rfl, trivial⟩, False.elim⟩

lemma At.exit (h : At fds len (.exit w) t) (s : HandoffState) : step space (ops fds) t s = .exit w ∧ t.pc < 168 := by
  apply h.elim
  rintro n hn regs stack -
  obtain rfl | rfl := hn
  · exact ⟨rfl, (by decide : 165 < 168)⟩
  · exact ⟨rfl, (by decide : 167 < 168)⟩

lemma At.move (h : At fds len p t) (hmove : p.move len s = some (p', s')) :
    ∃ t', step space (ops fds) t s = .next t' s' ∧ Toward fds len p' t' := by
  cases p with
  | cookie | lookup | redirect _ | notify _ | exit _ => cases hmove
  | failed => cases hmove; exact h.failed s
  | control k => cases hmove; exact h.control s
  | tail k c => cases hmove; exact h.tail s
  | exchange k c v redirects =>
    have hex := h.exchange s
    rw [Place.move] at hmove
    by_cases hcontrol : s.control = c
    · rw [if_pos hcontrol] at hmove hex
      rw [if_pos hcontrol] at hex
      cases hmove
      exact hex
    · rw [if_neg hcontrol] at hmove hex
      rw [if_neg hcontrol] at hex
      cases hmove
      exact hex
  | overflow c => cases hmove; exact h.overflow s
  | dropped c => cases hmove; exact h.dropped s
  | settled c w => cases hmove; exact h.settled s
  | left w => cases hmove; exact h.left s
  | ids w => cases hmove; exact h.ids s
  | unnotified w => cases hmove; exact h.unnotified s

lemma At.call {f} (h : At fds len p t) (hhelper : p.helper = some f) (s : HandoffState) :
    step space (ops fds) t s = .call f := by
  cases p with
  | cookie => cases hhelper; exact (h.cookie s).1
  | lookup => cases hhelper; exact (h.lookup s).1
  | redirect c => cases hhelper; exact (h.redirect s).1
  | notify w => cases hhelper; exact (h.notify s).1
  | _ => cases hhelper

lemma At.answer {v} (h : At fds len p t) (hanswer : p.answer v = some p') : Toward fds len p' (t.resume v) := by
  cases p with
  | cookie =>
    cases v with
    | num cookie => cases hanswer; exact (h.cookie {}).2 cookie
    | _ => cases hanswer
  | lookup =>
    rw [Place.answer] at hanswer
    split_ifs at hanswer with hnull hstate
    · cases hanswer
      rw [hnull]
      exact (h.lookup {}).2.1
    · cases hanswer
      rw [hstate]
      exact (h.lookup {}).2.2
  | redirect c =>
    cases v with
    | num r => cases hanswer; exact (h.redirect {}).2 r
    | _ => cases hanswer
  | notify w =>
    cases v with
    | num q => cases hanswer; exact (h.notify {}).2 q
    | _ => cases hanswer
  | _ => cases hanswer

end simulation

end Rut.Ebpf
