import Mathlib

/-!
# eBPF programs

The instructions of eBPF that small socket programs are made of, and what they do. Registers hold numbers of 64 bits or
addresses into regions; a register that was not written, and one that a call has clobbered, holds nothing, and reading it
is a fault. Memory is a parameter, so that a program can run next to others that write the same memory. A call of a
helper stops the program until it is resumed with a result.
-/

namespace Rut.Lib.Ebpf

structure Instruction where
  code : Nat
  registers : Nat
  offset : Int
  immediate : Int
deriving DecidableEq

/-! ## Decoding -/

inductive AluOp where
  | add
  | sub
  | or
  | and
  | lsh
  | rsh
  | mov
deriving DecidableEq

inductive Cond where
  | eq
  | gt
  | ge
  | set
  | ne
  | le
deriving DecidableEq

inductive Operand where
  | imm (n : Int)
  | reg (r : Nat)
deriving DecidableEq

inductive Size where
  | word
  | dword
deriving DecidableEq

inductive Op where
  /-- Arithmetic on 64 bits, or on 32 bits with the rest cleared. -/
  | alu (wide : Bool) (op : AluOp) (dst : Nat) (src : Operand)
  | jump (off : Int)
  | branch (c : Cond) (dst : Nat) (src : Operand) (off : Int)
  /-- The address of a map, which takes two slots. -/
  | map (dst : Nat) (fd : Int)
  | load (size : Size) (dst src : Nat) (off : Int)
  | store (size : Size) (dst : Nat) (src : Operand) (off : Int)
  /-- Compare with `r0` and exchange; `r0` gets the old value. -/
  | cmpxchg (size : Size) (dst src : Nat) (off : Int)
  | xchg (size : Size) (dst src : Nat) (off : Int)
  | call (helper : Int)
  | exit
deriving DecidableEq

namespace Instruction

variable (i : Instruction)

def dst : Nat := i.registers % 16

def src : Nat := i.registers / 16

def operand : Operand := if i.code / 8 % 2 = 0 then .imm i.immediate else .reg i.src

def size : Option Size :=
  match i.code / 8 % 4 with
  | 0 => some .word
  | 3 => some .dword
  | _ => none

def aluOp : Option AluOp :=
  match i.code / 16 with
  | 0x0 => some .add
  | 0x1 => some .sub
  | 0x4 => some .or
  | 0x5 => some .and
  | 0x6 => some .lsh
  | 0x7 => some .rsh
  | 0xb => some .mov
  | _ => none

def decodeJump : Option Op :=
  match i.code / 16 with
  | 0x0 => some (.jump i.offset)
  | 0x1 => some (.branch .eq i.dst i.operand i.offset)
  | 0x2 => some (.branch .gt i.dst i.operand i.offset)
  | 0x3 => some (.branch .ge i.dst i.operand i.offset)
  | 0x4 => some (.branch .set i.dst i.operand i.offset)
  | 0x5 => some (.branch .ne i.dst i.operand i.offset)
  | 0x8 => some (.call i.immediate)
  | 0x9 => some .exit
  | 0xb => some (.branch .le i.dst i.operand i.offset)
  | _ => none

/-- The mode of an access: plain, or atomic with the operation in the immediate value. -/
def decodeStore (size : Size) : Option Op :=
  match i.code / 32, i.immediate with
  | 3, _ => some (.store size i.dst (.reg i.src) i.offset)
  | 6, 0xf1 => some (.cmpxchg size i.dst i.src i.offset)
  | 6, 0xe1 => some (.xchg size i.dst i.src i.offset)
  | _, _ => none

def decode : Option Op :=
  match i.code % 8 with
  | 0 => if i.code = 0x18 ∧ i.src = 1 then some (.map i.dst i.immediate) else none
  | 1 => if i.code / 32 = 3 then i.size.map fun size => .load size i.dst i.src i.offset else none
  | 2 => if i.code / 32 = 3 then i.size.map fun size => .store size i.dst (.imm i.immediate) i.offset else none
  | 3 => i.size.bind i.decodeStore
  | 4 => i.aluOp.map fun op => .alu false op i.dst i.operand
  | 5 => i.decodeJump
  | 7 => i.aluOp.map fun op => .alu true op i.dst i.operand
  | _ => none

end Instruction

/-! ## Running -/

/-- What a register holds: a number, an address in the stack frame, or an address in a region of the memory. -/
inductive Val (ρ : Type) where
  | num (w : BitVec 64)
  | frame (off : Int)
  | ptr (region : ρ) (off : Int)
deriving DecidableEq

/-- The memory a program can address, regions that never change, the address of a map, and the number of arguments of
each helper. -/
structure Space (ρ μ : Type) where
  fixed : ρ → Int → Size → Option (BitVec 64)
  load : μ → ρ → Int → Size → Option (BitVec 64)
  store : μ → ρ → Int → Size → BitVec 64 → Option μ
  map : Int → Val ρ
  arity : Int → Option Nat

structure Thread (ρ : Type) where
  pc : Nat
  regs : Nat → Option (Val ρ)
  stack : List (Int × Size × BitVec 64)

inductive Outcome (ρ μ : Type) where
  | next (t : Thread ρ) (m : μ)
  | call (helper : Int)
  | exit (result : BitVec 64)
  | fault

section step
variable {ρ μ : Type}

def imm (n : Int) : BitVec 64 := BitVec.ofInt 64 n

def low (w : BitVec 64) : BitVec 64 := (w.setWidth 32).setWidth 64

def Size.bytes : Size → Int
  | .word => 4
  | .dword => 8

def Size.cut : Size → BitVec 64 → BitVec 64
  | .word, w => low w
  | .dword, w => w

def AluOp.eval (op : AluOp) (a b : BitVec 64) : BitVec 64 :=
  match op with
  | .add => a + b
  | .sub => a - b
  | .or => a ||| b
  | .and => a &&& b
  | .lsh => a <<< (b.toNat % 64)
  | .rsh => a >>> (b.toNat % 64)
  | .mov => b

def Cond.eval (c : Cond) (a b : BitVec 64) : Bool :=
  match c with
  | .eq => a == b
  | .gt => b < a
  | .ge => b ≤ a
  | .set => a &&& b != 0
  | .ne => a != b
  | .le => a ≤ b

/-- Arithmetic on 64 bits. Addresses can be copied, and moved by numbers. -/
def alu (op : AluOp) (a : Option (Val ρ)) (b : Val ρ) : Option (Val ρ) :=
  match op, a, b with
  | .mov, _, v => some v
  | op, some (.num a), .num b => some (.num (op.eval a b))
  | .add, some (.ptr r off), .num b => some (.ptr r (off + b.toInt))
  | .add, some (.frame off), .num b => some (.frame (off + b.toInt))
  | _, _, _ => none

def alu32 (op : AluOp) (a : Option (Val ρ)) (b : Val ρ) : Option (Val ρ) :=
  match op, a, b with
  | .mov, _, .num b => some (.num (low b))
  | op, some (.num a), .num b => some (.num (low (op.eval (low a) (low b))))
  | _, _, _ => none

def compare (c : Cond) (a b : Val ρ) : Option Bool :=
  match c, a, b with
  | c, .num a, .num b => some (c.eval a b)
  | .eq, _, .num b => if b = 0 then some false else none
  | .ne, _, .num b => if b = 0 then some true else none
  | _, _, _ => none

namespace Thread

variable (t : Thread ρ)

def set (r : Nat) (v : Val ρ) : Thread ρ := { t with regs := fun k => if k = r then some v else t.regs k }

def goto (off : Int) : Thread ρ := { t with pc := (t.pc + 1 + off).toNat }

def operand : Operand → Option (Val ρ)
  | .imm n => some (.num (imm n))
  | .reg r => t.regs r

def peek (off : Int) (size : Size) : Option (BitVec 64) :=
  (t.stack.find? fun slot => slot.1 = off && slot.2.1 = size).map fun slot => slot.2.2

def poke (off : Int) (size : Size) (w : BitVec 64) : Thread ρ :=
  { t with
    stack := (off, size, size.cut w) ::
      t.stack.filter fun slot => slot.1 + slot.2.1.bytes ≤ off || off + size.bytes ≤ slot.1 }

def resume (result : Val ρ) : Thread ρ :=
  { t with pc := t.pc + 1, regs := fun k => if k = 0 then some result else if k ≤ 5 then none else t.regs k }

end Thread

variable (space : Space ρ μ)

/-- What an operation does that uses registers, the frame and the fixed regions only. -/
def quiet (op : Op) (t : Thread ρ) : Option (Thread ρ) :=
  match op with
  | .alu wide op dst src =>
    ((t.operand src).bind (if wide then alu op (t.regs dst) else alu32 op (t.regs dst))).map fun v => (t.set dst v).goto 0
  | .jump off => some (t.goto off)
  | .branch c dst src off =>
    ((t.regs dst).bind fun a => (t.operand src).bind fun b => compare c a b).map
      fun taken => t.goto (if taken then off else 0)
  | .map dst fd => some ((t.set dst (space.map fd)).goto 1)
  | .load size dst src off =>
    match t.regs src with
    | some (.frame o) => (t.peek (o + off) size).map fun w => (t.set dst (.num w)).goto 0
    | some (.ptr r o) => (space.fixed r (o + off) size).map fun w => (t.set dst (.num w)).goto 0
    | _ => none
  | .store size dst src off =>
    match t.regs dst, t.operand src with
    | some (.frame o), some (.num w) => some ((t.poke (o + off) size w).goto 0)
    | _, _ => none
  | _ => none

def loud (op : Op) (t : Thread ρ) (m : μ) : Outcome ρ μ :=
  match op with
  | .load size dst src off =>
    match t.regs src with
    | some (.ptr r o) =>
      match space.load m r (o + off) size with
      | some w => .next ((t.set dst (.num w)).goto 0) m
      | none => .fault
    | _ => .fault
  | .store size dst src off =>
    match t.regs dst, t.operand src with
    | some (.ptr r o), some (.num w) =>
      match space.store m r (o + off) size w with
      | some m => .next (t.goto 0) m
      | none => .fault
    | _, _ => .fault
  | .cmpxchg size dst src off =>
    match t.regs dst, t.regs 0, t.regs src with
    | some (.ptr r o), some (.num expected), some (.num w) =>
      match space.load m r (o + off) size, space.store m r (o + off) size w with
      | some old, some m' => .next ((t.set 0 (.num old)).goto 0) (if old = expected then m' else m)
      | _, _ => .fault
    | _, _, _ => .fault
  | .xchg size dst src off =>
    match t.regs dst, t.regs src with
    | some (.ptr r o), some (.num w) =>
      match space.load m r (o + off) size, space.store m r (o + off) size w with
      | some old, some m' => .next ((t.set src (.num old)).goto 0) m'
      | _, _ => .fault
    | _, _ => .fault
  | .call helper =>
    match space.arity helper with
    | none => .fault
    | some n => if (List.range n).all fun k => (t.regs (k + 1)).isSome then .call helper else .fault
  | .exit =>
    match t.regs 0 with
    | some (.num w) => .exit w
    | _ => .fault
  | _ => .fault

variable (code : List (Option Op))

def slide (t : Thread ρ) : Option (Thread ρ) := (code.getD t.pc none).bind fun op => quiet space op t

def step (t : Thread ρ) (m : μ) : Outcome ρ μ :=
  match slide space code t with
  | some t' => .next t' m
  | none =>
    match code.getD t.pc none with
    | none => .fault
    | some op => loud space op t m

/-- A run of a program alone, where each helper gives the result the oracle has for it: the result, the place of the exit,
the memory, and the helpers called. -/
def run (oracle : Int → Val ρ) : Nat → Thread ρ → μ → List Int → Option (BitVec 64 × Nat × μ × List Int)
  | 0, _, _, _ => none
  | turns + 1, t, m, calls =>
    match step space code t m with
    | .next t' m' => run oracle turns t' m' calls
    | .call helper => run oracle turns (t.resume (oracle helper)) m (calls ++ [helper])
    | .exit w => some (w, t.pc, m, calls)
    | .fault => none

/-! ## Quiet runs -/

def slides : Nat → Thread ρ → Option (Thread ρ)
  | 0, t => some t
  | n + 1, t => (slide space code t).bind (slides n)

/-- The thread gets there by quiet instructions, whatever others do to the memory. -/
def Slides (t t' : Thread ρ) : Prop := ∃ n, slides space code n t = some t'

variable {space code} {t t' t'' : Thread ρ} {n k : Nat}

lemma slides_succ : slides space code (n + 1) t = some t' ↔
    ∃ t₁, slide space code t = some t₁ ∧ slides space code n t₁ = some t' := by
  rw [slides, Option.bind_eq_some_iff]

lemma slides_add (n k : Nat) (t : Thread ρ) :
    slides space code (n + k) t = (slides space code n t).bind (slides space code k) := by
  induction n generalizing t with
  | zero => rw [Nat.zero_add, slides, Option.bind_some]
  | succ n ih =>
    rw [Nat.add_right_comm, slides, slides, Option.bind_assoc]
    congr 1
    funext t
    exact ih t

lemma Slides.refl (t : Thread ρ) : Slides space code t t := ⟨0, rfl⟩

lemma Slides.trans (h : Slides space code t t') (h' : Slides space code t' t'') : Slides space code t t'' := by
  obtain ⟨n, hn⟩ := h
  obtain ⟨k, hk⟩ := h'
  exact ⟨n + k, by rw [slides_add, hn, Option.bind_some, hk]⟩

lemma Slides.cases (h : Slides space code t t') :
    t = t' ∨ ∃ t₁, slide space code t = some t₁ ∧ Slides space code t₁ t' := by
  obtain ⟨n, hn⟩ := h
  cases n with
  | zero => exact .inl (Option.some.inj hn)
  | succ n =>
    obtain ⟨t₁, ht₁, hrest⟩ := slides_succ.1 hn
    exact .inr ⟨t₁, ht₁, n, hrest⟩

lemma step_slide (h : slide space code t = some t') (m : μ) : step space code t m = .next t' m := by
  rw [step, h]

lemma slides_branch {cond d src off a b taken}
    (hop : code.getD t.pc none = some (.branch cond d src off)) (ha : t.regs d = some (.num a))
    (hb : t.operand src = some (.num b)) (hc : cond.eval a b = taken) :
    Slides space code t (t.goto (if taken then off else 0)) := by
  have hcompare : Ebpf.compare (ρ := ρ) cond (.num a) (.num b) = some taken := by rw [← hc]; cases cond <;> rfl
  refine ⟨1, ?_⟩
  rw [slides, slide, hop, Option.bind_some, quiet, ha, hb, Option.bind_some, Option.bind_some, hcompare]
  rfl

def Holds (regs : Nat → Option (Val ρ)) : List (Nat × Val ρ) → Prop
  | [] => True
  | (r, v) :: l => regs r = some v ∧ Holds regs l

def known (l : List (Nat × Val ρ)) (regs : Nat → Option (Val ρ)) (k : Nat) : Option (Val ρ) :=
  match l with
  | [] => regs k
  | (r, v) :: l => if k = r then some v else known l regs k

lemma known_eq {l : List (Nat × Val ρ)} {regs} (h : Holds regs l) : known l regs = regs := by
  induction l with
  | nil => rfl
  | cons x l ih =>
    funext k
    obtain ⟨hx, hl⟩ := h
    rw [known, ih hl]
    split_ifs with hk
    · rw [hk, hx]
    · rfl

/-! ## Cuts

A program is cut at some of its instructions. A thread between two cuts is on its way to the next. -/

structure Cut (ρ : Type) where
  pc : Nat → Prop
  registers : List (Nat × Val ρ)
  stack : List (Int × Size × BitVec 64) → Prop

namespace Cut

variable {cut : Cut ρ}

structure At (cut : Cut ρ) (t : Thread ρ) : Prop where
  pc : cut.pc t.pc
  registers : Holds t.regs cut.registers
  stack : cut.stack t.stack

variable (space code) in
def Toward (cut : Cut ρ) (t : Thread ρ) : Prop := ∃ t', Slides space code t t' ∧ cut.At t'

lemma At.elim {P : Thread ρ → Prop} (h : cut.At t)
    (hP : ∀ n, cut.pc n → ∀ regs stack, cut.stack stack → P ⟨n, known cut.registers regs, stack⟩) : P t := by
  have hthread := hP t.pc h.pc t.regs t.stack h.stack
  rwa [known_eq h.registers] at hthread

lemma Toward.branch {cond d src off a b} (taken : Bool)
    (hop : code.getD t.pc none = some (.branch cond d src off)) (ha : t.regs d = some (.num a))
    (hb : t.operand src = some (.num b)) (hc : cond.eval a b = taken)
    (h : cut.Toward space code (t.goto (if taken then off else 0))) : cut.Toward space code t := by
  obtain ⟨t', hslides, hat⟩ := h
  exact ⟨t', (slides_branch hop ha hb hc).trans hslides, hat⟩

lemma Toward.slides (n : Nat) (hslides : slides space code n t = some t') (h : cut.Toward space code t') :
    cut.Toward space code t := by
  obtain ⟨t'', hrest, hat⟩ := h
  exact ⟨t'', .trans ⟨n, hslides⟩ hrest, hat⟩

lemma Toward.cases (h : cut.Toward space code t) :
    cut.At t ∨ ∃ t₁, slide space code t = some t₁ ∧ cut.Toward space code t₁ := by
  obtain ⟨t', hslides, hat⟩ := h
  obtain rfl | ⟨t₁, hslide, hrest⟩ := hslides.cases
  · exact .inl hat
  · exact .inr ⟨t₁, hslide, t', hrest, hat⟩

end Cut

/-! ## Runs alone -/

section run
variable {oracle : Int → Val ρ} {m m' m'' : μ} {calls calls' calls'' : List Int}

variable (space code oracle) in
def Passes (t : Thread ρ) (m : μ) (calls : List Int) (t' : Thread ρ) (m' : μ) (calls' : List Int) : Prop :=
  ∃ n, ∀ turns, run space code oracle (n + turns) t m calls = run space code oracle turns t' m' calls'

lemma Passes.trans (h : Passes space code oracle t m calls t' m' calls')
    (h' : Passes space code oracle t' m' calls' t'' m'' calls'') :
    Passes space code oracle t m calls t'' m'' calls'' := by
  obtain ⟨n, hn⟩ := h
  obtain ⟨k, hk⟩ := h'
  exact ⟨n + k, fun turns => by rw [Nat.add_assoc, hn, hk]⟩

lemma Slides.passes (h : Slides space code t t') (m : μ) (calls : List Int) :
    Passes space code oracle t m calls t' m calls := by
  obtain ⟨n, hn⟩ := h
  refine ⟨n, fun turns => ?_⟩
  induction n generalizing t with
  | zero =>
    cases hn
    rw [Nat.zero_add]
  | succ n ih =>
    obtain ⟨t₁, ht₁, hrest⟩ := slides_succ.1 hn
    rw [Nat.add_right_comm, run, step_slide ht₁]
    exact ih hrest

lemma passes_next (h : step space code t m = .next t' m') (calls : List Int) :
    Passes space code oracle t m calls t' m' calls :=
  ⟨1, fun turns => by rw [Nat.add_comm, run, h]⟩

lemma passes_call {helper : Int} (h : step space code t m = .call helper) (calls : List Int) :
    Passes space code oracle t m calls (t.resume (oracle helper)) m (calls ++ [helper]) :=
  ⟨1, fun turns => by rw [Nat.add_comm, run, h]⟩

lemma Passes.exit {w} (h : Passes space code oracle t m calls t' m' calls') (hexit : step space code t' m' = .exit w) :
    ∃ turns, run space code oracle turns t m calls = some (w, t'.pc, m', calls') := by
  obtain ⟨n, hn⟩ := h
  exact ⟨n + 1, by rw [hn, run, hexit]⟩

end run

end step

end Rut.Lib.Ebpf
