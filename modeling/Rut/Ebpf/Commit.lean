import Rut.Ebpf.Verdict

/-!
# A commit

Port of `EbpfHandoffKernel::commit` of `include/rut/runtime/ebpf_handoff.h`, which gives an entry a new budget: it reads
the entry, and has the commit program exchange the control word if it is still the one that was read. The commit program
is cut like the verdict program.
-/

namespace Rut.Ebpf

open Lib.Ebpf

/-! ## The programs as they are loaded -/

def patch (slot : Nat) (fd : Int) (code : List Instruction) : List Instruction :=
  code.modify slot fun i => { i with immediate := fd }

/-- The file descriptors of the maps are written into the programs (`init`). -/
def HandoffCode.relocate (code : HandoffCode) (fds : Fds) : HandoffCode :=
  { code with
    verdict := patch code.verdictRingMap fds.ring
      (patch code.verdictTargetMap fds.target (patch code.verdictStateMap fds.state code.verdict))
    commit := patch code.commitCommandMap fds.command (patch code.commitStateMap fds.state code.commit) }

lemma patch_other {slot slot'} (h : slot ≠ slot') (fd : Int) (code : List Instruction) :
    (patch slot fd code)[slot']? = code[slot']? := by
  rw [patch, List.getElem?_modify_ne _ _ h]

lemma decode_patch {slot dst code off fd₀}
    (h : code[slot]? = some (instruction 0x18 dst 1 off fd₀)) (hdst : dst < 16) (fd : Int) :
    (patch slot fd code).map Instruction.decode = (code.map Instruction.decode).set slot (some (.map dst fd)) := by
  have hreg : (dst + 16 * 1) % 16 = dst ∧ (dst + 16 * 1) / 16 = 1 := by omega
  have hlt : slot < (code.map Instruction.decode).length := by
    rw [List.length_map]
    exact (List.getElem?_eq_some_iff.1 h).1
  apply List.ext_getElem?
  intro n
  by_cases hn : slot = n
  · subst hn
    rw [patch, List.getElem?_map, List.getElem?_modify_eq, h, List.getElem?_set_self hlt]
    simp [Instruction.decode, instruction, Instruction.src, Instruction.dst, hreg]
  · rw [List.getElem?_map, patch_other hn, List.getElem?_set_ne hn, List.getElem?_map]

lemma emitted_slots :
    (emitPacketHandoffBytecode.verdictStateMap = 3 ∧ emitPacketHandoffBytecode.verdictTargetMap = 130 ∧
      emitPacketHandoffBytecode.verdictRingMap = 155) ∧
    (emitPacketHandoffBytecode.verdict[3]? = some (instruction 0x18 1 1 0 0) ∧
      emitPacketHandoffBytecode.verdict[130]? = some (instruction 0x18 2 1 0 0) ∧
      emitPacketHandoffBytecode.verdict[155]? = some (instruction 0x18 1 1 0 0)) ∧
    (emitPacketHandoffBytecode.commitCommandMap = 1 ∧ emitPacketHandoffBytecode.commitStateMap = 8) ∧
    emitPacketHandoffBytecode.commit[1]? = some (instruction 0x18 1 1 0 0) ∧
      emitPacketHandoffBytecode.commit[8]? = some (instruction 0x18 1 1 0 0) := by
  decide +kernel

lemma relocate_verdict (fds : Fds) :
    (emitPacketHandoffBytecode.relocate fds).verdict.map Instruction.decode = ops fds := by
  obtain ⟨hslots, ⟨hstate, htarget, hring⟩, -⟩ := emitted_slots
  have htarget' := (patch_other (by decide : 3 ≠ 130) fds.state _).trans htarget
  have hring' := (patch_other (by decide : 3 ≠ 155) fds.state _).trans hring
  have hring'' := (patch_other (by decide : 130 ≠ 155) fds.target _).trans hring'
  have hcode := verdictCode_eq
  rw [verdictCode] at hcode
  dsimp only [HandoffCode.relocate]
  rw [hslots.1, hslots.2.1, hslots.2.2, decode_patch hring'' (by decide), decode_patch htarget' (by decide),
    decode_patch hstate (by decide), hcode]
  rfl

def commitOps (fds : Fds) : List (Option Op) :=
  [some (.store .word 10 (.imm 0) (-8)), some (.map 1 fds.command), none, some (.alu true .mov 2 (.reg 10)),
    some (.alu true .add 2 (.imm (-8))), some (.call 1), some (.branch .eq 0 (.imm 0) 22), some (.alu true .mov 6 (.reg 0)),
    some (.map 1 fds.state), none, some (.alu true .mov 2 (.reg 6)), some (.call 1), some (.branch .eq 0 (.imm 0) 16),
    some (.alu true .mov 7 (.reg 0)), some (.load .word 1 7 12), some (.branch .ne 1 (.imm 0) 13),
    some (.load .dword 0 6 8), some (.alu true .mov 8 (.reg 0)), some (.branch .eq 0 (.imm (-1)) 5),
    some (.load .dword 3 6 16), some (.cmpxchg .dword 7 3 0), some (.branch .ne 0 (.reg 8) 7), some (.alu true .mov 0 (.imm 1)),
    some .exit, some (.load .word 3 6 16), some (.branch .eq 3 (.imm 0) 3), some (.xchg .word 7 3 24),
    some (.alu true .mov 0 (.imm 1)), some .exit, some (.alu true .mov 0 (.imm 0)), some .exit]

lemma commitCode_eq : emitPacketHandoffBytecode.commit.map Instruction.decode = commitOps ⟨0, 0, 0, 0⟩ := by decide +kernel

lemma relocate_commit (fds : Fds) :
    (emitPacketHandoffBytecode.relocate fds).commit.map Instruction.decode = commitOps fds := by
  obtain ⟨-, -, hslots, hcommand, hstate⟩ := emitted_slots
  have hcommand' := (patch_other (by decide : 8 ≠ 1) fds.state _).trans hcommand
  dsimp only [HandoffCode.relocate]
  rw [hslots.1, hslots.2, decode_patch hcommand' (by decide), decode_patch hstate (by decide), commitCode_eq]
  rfl

/-! ## The cuts of the commit program -/

inductive CommitPlace where
  | command
  | entry
  | failed
  | exchange
  | limit
  | exit (w : BitVec 64)
deriving DecidableEq

namespace CommitPlace

def pc : CommitPlace → Nat → Prop
  | command, n => n = 5
  | entry, n => n = 11
  | failed, n => n = 14
  | exchange, n => n = 20
  | limit, n => n = 26
  | exit _, n => n = 23 ∨ n = 28 ∨ n = 30

def registers (fds : Fds) (cmd : HandoffCommand) : CommitPlace → List (Nat × Val Region)
  | command => [(1, .ptr (.map fds.command) 0), (2, .frame (-8))]
  | entry => [(1, .ptr (.map fds.state) 0), (2, .ptr (.command cmd) 0), (6, .ptr (.command cmd) 0)]
  | failed => [(6, .ptr (.command cmd) 0), (7, .ptr .state 0)]
  | exchange => [(0, .num cmd.expected), (8, .num cmd.expected), (3, .num cmd.desired), (7, .ptr .state 0)]
  | limit => [(3, .num (low cmd.desired)), (7, .ptr .state 0)]
  | exit w => [(0, .num w)]

def cut (fds : Fds) (cmd : HandoffCommand) (p : CommitPlace) : Cut Region where
  pc := p.pc
  registers := p.registers fds cmd
  stack _ := True

abbrev Toward (fds : Fds) (cmd : HandoffCommand) (p : CommitPlace) (t : Thread Region) : Prop :=
  (p.cut fds cmd).Toward space (commitOps fds) t

/-- What the command asks for: a new limit where it expects all ones, else an exchange. -/
def chosen (cmd : HandoffCommand) : CommitPlace :=
  if cmd.expected ≠ imm (-1) then exchange else if low cmd.desired = 0 then exit 0 else limit

def move (cmd : HandoffCommand) : CommitPlace → HandoffState → Option (CommitPlace × HandoffState)
  | failed, s => some (if s.failed = 0 then chosen cmd else exit 0, s)
  | exchange, s =>
    if s.control = cmd.expected then some (exit 1, { s with control := cmd.desired }) else some (exit 0, s)
  | limit, s => some (exit 1, { s with passLimit := (low cmd.desired).setWidth 32 })
  | _, _ => none

def answer (cmd : HandoffCommand) : CommitPlace → Val Region → Option CommitPlace
  | command, v => if v = .num 0 then some (exit 0) else if v = .ptr (.command cmd) 0 then some entry else none
  | entry, v => if v = .num 0 then some (exit 0) else if v = .ptr .state 0 then some failed else none
  | _, _ => none

section simulation
variable {fds : Fds} {cmd : HandoffCommand} {p p' : CommitPlace} {t : Thread Region} {s s' : HandoffState} {v : Val Region}
  {w : BitVec 64}

lemma entry_toward (fds : Fds) (cmd : HandoffCommand) (context : Val Region) :
    Toward fds cmd command (Ebpf.entry context) :=
  ⟨_, ⟨4, rfl⟩, rfl, ⟨rfl, rfl, trivial⟩, trivial⟩

lemma at_call (h : (p.cut fds cmd).At t) (hp : p = command ∨ p = entry) (s : HandoffState) :
    step space (commitOps fds) t s = .call 1 := by
  apply h.elim
  rintro n hn regs stack -
  obtain rfl | rfl := hp
  · obtain rfl := hn
    rfl
  · obtain rfl := hn
    rfl

lemma at_answer (h : (p.cut fds cmd).At t) (hanswer : p.answer cmd v = some p') : Toward fds cmd p' (t.resume v) := by
  apply h.elim
  rintro n hn regs stack -
  cases p with
  | command =>
    obtain rfl := hn
    rw [answer] at hanswer
    split_ifs at hanswer with hnull hcommand
    · cases hanswer
      rw [hnull]
      exact ⟨_, ⟨2, rfl⟩, .inr (.inr rfl), ⟨rfl, trivial⟩, trivial⟩
    · cases hanswer
      rw [hcommand]
      exact ⟨_, ⟨4, rfl⟩, rfl, ⟨rfl, rfl, rfl, trivial⟩, trivial⟩
  | entry =>
    obtain rfl := hn
    rw [answer] at hanswer
    split_ifs at hanswer with hnull hstate
    · cases hanswer
      rw [hnull]
      exact ⟨_, ⟨2, rfl⟩, .inr (.inr rfl), ⟨rfl, trivial⟩, trivial⟩
    · cases hanswer
      rw [hstate]
      exact ⟨_, ⟨2, rfl⟩, rfl, ⟨rfl, rfl, trivial⟩, trivial⟩
  | _ => cases hanswer

lemma at_failed (h : (failed.cut fds cmd).At t) (s : HandoffState) : ∃ t', step space (commitOps fds) t s = .next t' s ∧
      Toward fds cmd (if s.failed = 0 then chosen cmd else exit 0) t' := by
  apply h.elim
  rintro _ rfl regs stack -
  refine ⟨_, rfl, ?_⟩
  by_cases hfailed : s.failed = 0
  · rw [if_pos hfailed, chosen]
    apply Cut.Toward.branch false rfl rfl rfl
    · exact bne_eq_false_iff_eq.2 (setWidth_eq_zero.2 hfailed)
    · apply Cut.Toward.slides 2 rfl
      by_cases hlimit : cmd.expected = imm (-1)
      · rw [if_neg (not_not.2 hlimit)]
        apply Cut.Toward.branch true rfl rfl rfl
        · exact beq_iff_eq.2 hlimit
        · apply Cut.Toward.slides 1 rfl
          by_cases hempty : low cmd.desired = 0
          · rw [if_pos hempty]
            apply Cut.Toward.branch true rfl rfl rfl
            · exact beq_iff_eq.2 hempty
            · exact ⟨_, ⟨1, rfl⟩, .inr (.inr rfl), ⟨rfl, trivial⟩, trivial⟩
          · rw [if_neg hempty]
            apply Cut.Toward.branch false rfl rfl rfl
            · exact beq_eq_false_iff_ne.2 hempty
            · exact ⟨_, .refl _, rfl, ⟨rfl, rfl, trivial⟩, trivial⟩
      · rw [if_pos hlimit]
        apply Cut.Toward.branch false rfl rfl rfl
        · exact beq_eq_false_iff_ne.2 hlimit
        · exact ⟨_, ⟨1, rfl⟩, rfl, ⟨rfl, rfl, rfl, rfl, trivial⟩, trivial⟩
  · rw [if_neg hfailed]
    apply Cut.Toward.branch true rfl rfl rfl
    · exact bne_iff_ne.2 fun hzero => hfailed (setWidth_eq_zero.1 hzero)
    · exact ⟨_, ⟨1, rfl⟩, .inr (.inr rfl), ⟨rfl, trivial⟩, trivial⟩

lemma at_exchange (h : (exchange.cut fds cmd).At t) (s : HandoffState) : ∃ t', step space (commitOps fds) t s =
        .next t' (if s.control = cmd.expected then { s with control := cmd.desired } else s) ∧
      Toward fds cmd (exit (if s.control = cmd.expected then 1 else 0)) t' := by
  apply h.elim
  rintro _ rfl regs stack -
  refine ⟨_, rfl, ?_⟩
  by_cases hcontrol : s.control = cmd.expected
  · rw [if_pos hcontrol]
    apply Cut.Toward.branch false rfl rfl rfl
    · exact bne_eq_false_iff_eq.2 hcontrol
    · exact ⟨_, ⟨1, rfl⟩, .inl rfl, ⟨rfl, trivial⟩, trivial⟩
  · rw [if_neg hcontrol]
    apply Cut.Toward.branch true rfl rfl rfl
    · exact bne_iff_ne.2 hcontrol
    · exact ⟨_, ⟨1, rfl⟩, .inr (.inr rfl), ⟨rfl, trivial⟩, trivial⟩

lemma at_limit (h : (limit.cut fds cmd).At t) (s : HandoffState) :
    ∃ t', step space (commitOps fds) t s = .next t' { s with passLimit := (low cmd.desired).setWidth 32 } ∧
      Toward fds cmd (exit 1) t' := by
  apply h.elim
  rintro _ rfl regs stack -
  exact ⟨_, rfl, _, ⟨1, rfl⟩, .inr (.inl rfl), ⟨rfl, trivial⟩, trivial⟩

lemma at_exit (h : ((exit w).cut fds cmd).At t) (s : HandoffState) : step space (commitOps fds) t s = .exit w := by
  apply h.elim
  rintro n hn regs stack -
  obtain rfl | rfl | rfl := hn <;> rfl

lemma at_move (h : (p.cut fds cmd).At t) (hmove : p.move cmd s = some (p', s')) :
    ∃ t', step space (commitOps fds) t s = .next t' s' ∧ Toward fds cmd p' t' := by
  cases p with
  | command | entry | exit _ => cases hmove
  | failed => cases hmove; exact at_failed h s
  | exchange =>
    have hex := at_exchange h s
    rw [move] at hmove
    by_cases hcontrol : s.control = cmd.expected
    · rw [if_pos hcontrol] at hmove hex
      rw [if_pos hcontrol] at hex
      cases hmove
      exact hex
    · rw [if_neg hcontrol] at hmove hex
      rw [if_neg hcontrol] at hex
      cases hmove
      exact hex
  | limit => cases hmove; exact at_limit h s

end simulation

end CommitPlace

/-! ## The call -/

inductive Result where
  | committed
  | retry
  | error
deriving DecidableEq

/-- The command of `EbpfHandoffKernel::commit` for the entry it has read, once `remaining` is found to be a budget. -/
def commitCommand (sourceCookie : BitVec 64) (copiedAndSent remaining : BitVec 32) (state : HandoffState) :
    Except Result HandoffCommand :=
  let phase := (state.control >>> 32).setWidth 32
  if state.failed ≠ 0 then .error .error
  else if phase ≠ 0 ∧ phase ≠ BitVec.ofNat 32 kHandoffOwned ∨ state.control.setWidth 32 ≠ copiedAndSent then .error .retry
  else .ok ⟨sourceCookie, state.control,
    ((BitVec.ofNat 32 kHandoffOwned ||| remaining).setWidth 64 <<< 32) ||| copiedAndSent.setWidth 64⟩

lemma commitCommand_error {sourceCookie copiedAndSent remaining state result} (h : commitCommand sourceCookie copiedAndSent remaining state = .error result) :
    result ≠ .committed := by
  simp only [commitCommand] at h
  split_ifs at h
  · cases h
    decide
  · cases h
    decide

def validRemaining (remaining : BitVec 32) : Prop := remaining ≠ 0 ∧ remaining.toNat ≤ kHandoffBudgetMask

instance (remaining : BitVec 32) : Decidable (validRemaining remaining) := inferInstanceAs (Decidable (_ ∧ _))

/-- What a command of a commit says: a word without a budget, for one with the new budget and the same low word. -/
structure Offers (copiedAndSent remaining : BitVec 32) (cmd : HandoffCommand) : Prop where
  expected : budget cmd.expected = 0
  copied : passedBytes cmd.expected = copiedAndSent.toNat
  desired : budget cmd.desired = remaining.toNat
  kept : passedBytes cmd.desired = copiedAndSent.toNat

lemma offered_toNat (copiedAndSent : BitVec 32) {remaining} (h : validRemaining remaining) :
    (((BitVec.ofNat 32 kHandoffOwned ||| remaining).setWidth 64 <<< 32) ||| copiedAndSent.setWidth 64).toNat =
      (2 ^ 31 + remaining.toNat) * 2 ^ 32 + copiedAndSent.toNat := by
  have hle : remaining.toNat ≤ 2 ^ 30 - 1 := h.2
  have hcopied := copiedAndSent.isLt
  have hor : (BitVec.ofNat 32 kHandoffOwned ||| remaining).toNat = 2 ^ 31 + remaining.toNat := by
    exact (Nat.two_pow_add_eq_or_of_lt (by omega : remaining.toNat < 2 ^ 31) 1).symm
  have hshift : ((BitVec.ofNat 32 kHandoffOwned ||| remaining).setWidth 64 <<< 32).toNat =
      2 ^ 32 * (2 ^ 31 + remaining.toNat) := by
    rw [BitVec.toNat_shiftLeft, BitVec.toNat_setWidth, hor, Nat.shiftLeft_eq]
    omega
  have hlow : (copiedAndSent.setWidth 64).toNat = copiedAndSent.toNat := by
    rw [BitVec.toNat_setWidth]
    omega
  rw [BitVec.toNat_or, hshift, hlow, ← Nat.two_pow_add_eq_or_of_lt hcopied]
  omega

lemma commitCommand_offers {sourceCookie copiedAndSent remaining state cmd} (hvalid : validRemaining remaining)
    (h : commitCommand sourceCookie copiedAndSent remaining state = .ok cmd) :
    Offers copiedAndSent remaining cmd ∧ cmd.expected ≠ imm (-1) := by
  simp only [commitCommand] at h
  split_ifs at h with hfailed hphase
  obtain rfl := Except.ok.inj h
  obtain ⟨hphase, hlow⟩ := not_or.1 hphase
  have hle : remaining.toNat ≤ 2 ^ 30 - 1 := hvalid.2
  have hword : ((state.control >>> 32).setWidth 32).toNat = state.control.toNat / 2 ^ 32 := by
    rw [BitVec.toNat_setWidth, BitVec.toNat_ushiftRight, Nat.shiftRight_eq_div_pow]
    omega
  have hphase' : state.control.toNat / 2 ^ 32 = 0 ∨ state.control.toNat / 2 ^ 32 = 2 ^ 31 := by
    rw [not_and_or, not_not, not_not] at hphase
    rw [← hword]
    obtain hzero | howned := hphase
    · exact .inl (congrArg BitVec.toNat hzero)
    · exact .inr (congrArg BitVec.toNat howned)
  have hlow' : state.control.toNat % 2 ^ 32 = copiedAndSent.toNat := by
    rw [← not_not.1 hlow, BitVec.toNat_setWidth]
  have hbudget : budget state.control = 0 := by
    rw [budget]
    omega
  have hoffered := offered_toNat copiedAndSent hvalid
  refine ⟨⟨hbudget, hlow', ?_, ?_⟩, ?_⟩
  · rw [budget, hoffered]
    omega
  · rw [passedBytes, hoffered]
    omega
  · intro hones
    change state.control = _ at hones
    rw [hones] at hbudget
    exact absurd hbudget (by decide)

end Rut.Ebpf
