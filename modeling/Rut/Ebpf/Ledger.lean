import Rut.Ebpf.Commit

/-!
# The ledger of a handoff

The verdicts on the packets of a source socket, one after the other, and the commits of its owner, one after the other, on
the same entry, where the instructions of the two programs interleave in any order. Every redirection and every
notification succeeds. What is passed, redirected and committed is recorded when the control word is exchanged.
-/

set_option linter.all false
namespace Rut.Ebpf

open Lib.Ebpf

/-! ## The system -/

structure Maps extends Fds where
  differ : state ≠ command

inductive Event where
  | packet (before : BitVec 64) (len : BitVec 32) (redirects : Bool)
  | commit (before : BitVec 64) (copiedAndSent remaining : BitVec 32)
deriving DecidableEq

structure Run where
  len : BitVec 32
  thread : Thread Region
  exchanged : List Event := []
  redirections : Nat := 0

structure Given where
  len : BitVec 32
  exchanged : List Event
  redirections : Nat
  verdict : BitVec 64
deriving DecidableEq

/-- A commit in execution: it has read the control word, or the program runs, and has exchanged the word or not. -/
inductive Call where
  | inspected (copiedAndSent remaining : BitVec 32) (control : BitVec 64)
  | running (copiedAndSent remaining : BitVec 32) (cmd : HandoffCommand) (thread : Thread Region) (exchanged : Bool)

structure Report where
  copiedAndSent : BitVec 32
  remaining : BitVec 32
  result : Result
deriving DecidableEq

/-- The entry, what runs on it, and what has happened, the latest first. -/
structure System where
  state : HandoffState
  run : Option Run := none
  call : Option Call := none
  history : List Event := []
  given : List Given := []
  reports : List Report := []

inductive Act where
  /-- A packet arrives. -/
  | arrive (len : BitVec 32)
  /-- One instruction of the verdict. -/
  | verdict
  /-- A helper of the verdict returns. -/
  | answer (v : Val Region)
  /-- A commit reads the control word. -/
  | inspect (copiedAndSent remaining : BitVec 32)
  /-- It reads whether the entry has failed, and sends its command. -/
  | send
  /-- It cannot reach the maps. -/
  | abandon
  /-- One instruction of the commit program. -/
  | commit
  /-- A lookup of the commit program returns. -/
  | lookup (found : Bool)
deriving DecidableEq

/-- The results of the helpers of the verdict. The socket cookie is any number; a lookup finds the entry or not. -/
def gives (helper : Int) : Val Region → Bool
  | .num w => helper = 46 || helper = 1 && w = 0 || helper = 72 && w ≠ 0 || helper = 130 && w = 0
  | v => helper = 1 && v = .ptr .state 0

def exchanges (code : List (Option Op)) (t : Thread Region) (s : HandoffState) : Bool :=
  match code.getD t.pc none, t.regs 0 with
  | some (.cmpxchg _ _ _ _), some (.num expected) => expected = s.control
  | _, _ => false

namespace System

/-- The entry as it is enrolled (`enroll`). -/
def enrolled (targetCookie : BitVec 64) (connectionId generation : BitVec 32) : System where
  state := { targetCookie, connectionId, generation }

section turns
variable (code : List (Option Op)) (maps : Maps) (source : BitVec 64)

/-- One instruction of a verdict. A packet whose redirection the program has decided on has a number other than zero in
the register that is tested behind the exchange. -/
def stepVerdict (sys : System) (r : Run) : Option System :=
  match step space code r.thread sys.state with
  | .next t s =>
    let event : List Event :=
      if exchanges code r.thread sys.state then
        [.packet sys.state.control r.len (r.thread.regs 1 ≠ some (.num 0))]
      else []
    some { sys with
      state := s
      run := some { r with thread := t, exchanged := event ++ r.exchanged }
      history := event ++ sys.history }
  | .exit w => some { sys with run := none, given := ⟨r.len, r.exchanged, r.redirections, w⟩ :: sys.given }
  | _ => none

def stepAnswer (sys : System) (r : Run) (v : Val Region) : Option System :=
  match step space code r.thread sys.state with
  | .call helper =>
    if gives helper v then
      some { sys with
        run := some { r with
          thread := r.thread.resume v
          redirections := if helper = 72 then r.redirections + 1 else r.redirections } }
    else none
  | _ => none

def stepSend (sys : System) (copiedAndSent remaining : BitVec 32) (control : BitVec 64) : System :=
  match commitCommand source copiedAndSent remaining { sys.state with control } with
  | .error result => { sys with call := none, reports := ⟨copiedAndSent, remaining, result⟩ :: sys.reports }
  | .ok cmd => { sys with call := some (.running copiedAndSent remaining cmd (entry (.ptr (.skb 64) 0)) false) }

def stepCommit (sys : System) (copiedAndSent remaining : BitVec 32) (cmd : HandoffCommand) (t : Thread Region)
    (exchanged : Bool) : Option System :=
  match step space code t sys.state with
  | .next t' s =>
    if exchanges code t sys.state then
      some { sys with
        state := s
        call := some (.running copiedAndSent remaining cmd t' true)
        history := .commit sys.state.control copiedAndSent remaining :: sys.history }
    else some { sys with state := s, call := some (.running copiedAndSent remaining cmd t' exchanged) }
  | .exit w =>
    some { sys with
      call := none
      reports := ⟨copiedAndSent, remaining, if low w = 0 then .retry else .committed⟩ :: sys.reports }
  | _ => none

/-- A lookup of the commit program returns what the map holds, or nothing. -/
def stepLookup (sys : System) (copiedAndSent remaining : BitVec 32) (cmd : HandoffCommand) (t : Thread Region)
    (exchanged found : Bool) : Option System :=
  match step space code t sys.state, t.regs 1 with
  | .call 1, some (.ptr (.map fd) 0) =>
    let v : Val Region :=
      if found ∧ fd = maps.command then .ptr (.command cmd) 0 else if found ∧ fd = maps.state then .ptr .state 0 else .num 0
    some { sys with call := some (.running copiedAndSent remaining cmd (t.resume v) exchanged) }
  | _, _ => none

def step (verdict commit : List (Option Op)) (sys : System) : Act → Option System
  | .arrive len => if sys.run.isSome then none else some { sys with run := some ⟨len, entry (.ptr (.skb len) 0), [], 0⟩ }
  | .verdict => sys.run.bind (stepVerdict verdict sys)
  | .answer v => sys.run.bind fun r => stepAnswer verdict sys r v
  | .inspect copiedAndSent remaining =>
    if sys.call.isSome then none
    else if validRemaining remaining then
      some { sys with call := some (.inspected copiedAndSent remaining sys.state.control) }
    else some { sys with reports := ⟨copiedAndSent, remaining, .error⟩ :: sys.reports }
  | .send =>
    match sys.call with
    | some (.inspected copiedAndSent remaining control) => some (stepSend source sys copiedAndSent remaining control)
    | _ => none
  | .abandon =>
    match sys.call with
    | some (.inspected copiedAndSent remaining _) =>
      some { sys with call := none, reports := ⟨copiedAndSent, remaining, .error⟩ :: sys.reports }
    | _ => none
  | .commit =>
    match sys.call with
    | some (.running copiedAndSent remaining cmd t exchanged) =>
      stepCommit commit sys copiedAndSent remaining cmd t exchanged
    | _ => none
  | .lookup found =>
    match sys.call with
    | some (.running copiedAndSent remaining cmd t exchanged) =>
      stepLookup commit maps sys copiedAndSent remaining cmd t exchanged found
    | _ => none

end turns

variable (maps : Maps) (source : BitVec 64)

def verdictProgram : List (Option Op) := (emitPacketHandoffBytecode.relocate maps.toFds).verdict.map Instruction.decode

def commitProgram : List (Option Op) := (emitPacketHandoffBytecode.relocate maps.toFds).commit.map Instruction.decode

def exec (sys : System) (acts : List Act) : Option System :=
  acts.foldlM (step maps source (verdictProgram maps) (commitProgram maps)) sys

end System

/-! ## What the history says -/

def Event.passes : Event → Nat
  | .packet _ len false => len.toNat
  | _ => 0

def passed (history : List Event) : Nat := (history.map Event.passes).sum

/-- What has happened since the last commit: the bytes redirected, whether a packet has crossed the end of the budget, and
the redirections after that. -/
structure Account where
  remaining : Nat
  redirected : Nat := 0
  crossed : Bool := false
  late : Nat := 0
deriving DecidableEq

/-- A packet is put down. It crosses the end of the budget where it is passed although a budget is left. -/
def Account.book (a : Account) (before : BitVec 64) (len : BitVec 32) (redirects : Bool) : Account :=
  if redirects then { a with redirected := a.redirected + len.toNat, late := if a.crossed then a.late + 1 else a.late }
  else if budget before ≠ 0 then { a with crossed := true }
  else a

def account : List Event → Option Account
  | [] => none
  | .commit _ _ remaining :: _ => some ⟨remaining.toNat, 0, false, 0⟩
  | .packet before len redirects :: history => (account history).map fun a => a.book before len redirects

def commits (history : List Event) : List (BitVec 32 × BitVec 32) :=
  history.filterMap fun
    | .commit _ copiedAndSent remaining => some (copiedAndSent, remaining)
    | .packet _ _ _ => none

def packets (history : List Event) : List Event :=
  history.filter fun
    | .commit _ _ _ => false
    | .packet _ _ _ => true

/-- What becomes of a packet: it is dropped, passed without a redirection, or redirected once. -/
def Settled (len : BitVec 32) (exchanged : List Event) (redirections : Nat) (w : BitVec 64) : Prop :=
  exchanged = [] ∧ redirections = 0 ∧ w = 0 ∨
    (∃ before, exchanged = [.packet before len false]) ∧ redirections = 0 ∧ w = 1 ∨
    (∃ before, exchanged = [.packet before len true]) ∧ redirections = 1 ∧ w ≠ 0

def Call.pending : Call → List (BitVec 32 × BitVec 32)
  | .running copiedAndSent remaining _ _ true => [(copiedAndSent, remaining)]
  | _ => []

def committed (reports : List Report) : List (BitVec 32 × BitVec 32) :=
  (reports.filter fun report => report.result = .committed).map fun report => (report.copiedAndSent, report.remaining)

structure Balance (s : HandoffState) (history : List Event) : Prop where
  low : passedBytes s.control = passed history
  commits : ∀ later earlier before copiedAndSent remaining,
    history = later ++ .commit before copiedAndSent remaining :: earlier →
      passed earlier = copiedAndSent.toNat ∧ budget before = 0
  idle : account history = none → budget s.control = 0
  current : ∀ a, account history = some a → a.crossed = false → a.redirected + budget s.control = a.remaining
  crossed : ∀ a, account history = some a → a.crossed = true →
    budget s.control = 0 ∧ a.redirected + s.tailBody.toNat = a.remaining
  late : ∀ a, account history = some a → a.late = 0

section balance
variable {s : HandoffState} {history : List Event} {len : BitVec 32}

lemma commits_packet {before redirects} (h : ∀ later earlier before copiedAndSent remaining,
      history = later ++ .commit before copiedAndSent remaining :: earlier →
        passed earlier = copiedAndSent.toNat ∧ budget before = 0)
    (later earlier : List Event) (before' : BitVec 64) (copiedAndSent remaining : BitVec 32)
    (heq : .packet before len redirects :: history = later ++ .commit before' copiedAndSent remaining :: earlier) :
    passed earlier = copiedAndSent.toNat ∧ budget before' = 0 := by
  cases later with
  | nil => cases heq
  | cons e later => exact h later earlier before' copiedAndSent remaining (List.cons.inj heq).2

lemma Balance.pass (h : Balance s history) (hbudget : budget s.control = 0)
    (hfits : passedBytes s.control + len.toNat < 2 ^ 32) :
    Balance { s with control := passedWord s.control len } (.packet s.control len false :: history) := by
  obtain ⟨-, hzero, hlow⟩ := (passedWord_spec len hbudget).2 hfits
  have haccount : ∀ a, account (.packet s.control len false :: history) = some a → account history = some a := by
    intro a ha
    rw [account, Option.map_eq_some_iff] at ha
    obtain ⟨b, hb, rfl⟩ := ha
    rw [hb, Account.book, if_neg Bool.false_ne_true, if_neg (not_not.2 hbudget)]
  refine ⟨?_, commits_packet h.commits, fun _ => hzero, ?_, ?_, fun a ha => h.late a (haccount a ha)⟩
  · rw [hlow, h.low, passed, passed, List.map_cons, List.sum_cons, Nat.add_comm]
    rfl
  · intro a ha hcrossed
    rw [hzero, ← hbudget]
    exact h.current a (haccount a ha) hcrossed
  · intro a ha hcrossed
    exact ⟨hzero, (h.crossed a (haccount a ha) hcrossed).2⟩

lemma Balance.live (h : Balance s history) (hbudget : budget s.control ≠ 0) :
    ∃ a, account history = some a ∧ a.crossed = false ∧ a.redirected + budget s.control = a.remaining := by
  cases ha : account history with
  | none => exact absurd (h.idle ha) hbudget
  | some a =>
    cases hcrossed : a.crossed with
    | true => exact absurd (h.crossed a ha hcrossed).1 hbudget
    | false => exact ⟨a, rfl, hcrossed, h.current a ha hcrossed⟩

lemma Balance.redirect (h : Balance s history) (hbudget : budget s.control ≠ 0) (hlen : len.toNat ≤ budget s.control) :
    Balance { s with control := redirectedWord s.control len } (.packet s.control len true :: history) := by
  obtain ⟨hleft, hlow⟩ := redirectedWord_budget hlen
  obtain ⟨a, ha, hcrossed, hopen⟩ := h.live hbudget
  have haccount : account (.packet s.control len true :: history) =
      some { a with redirected := a.redirected + len.toNat } := by
    rw [account, ha, Option.map_some, Account.book, if_pos rfl, hcrossed]
    rfl
  refine ⟨?_, commits_packet h.commits, ?_, ?_, ?_, ?_⟩
  · rw [hlow, h.low, passed, passed, List.map_cons, List.sum_cons]
    exact (Nat.zero_add _).symm
  · intro hnone
    rw [haccount] at hnone
    cases hnone
  · intro b hb _
    rw [haccount] at hb
    obtain rfl := Option.some.inj hb
    dsimp only
    omega
  · intro b hb htrue
    rw [haccount] at hb
    obtain rfl := Option.some.inj hb
    exact absurd (hcrossed.symm.trans htrue) Bool.false_ne_true
  · intro b hb
    rw [haccount] at hb
    obtain rfl := Option.some.inj hb
    exact h.late a ha

lemma Balance.cross (h : Balance s history) (hbudget : budget s.control ≠ 0)
    (hfits : passedBytes s.control + len.toNat < 2 ^ 32) (htail : s.tailBody.toNat = budget s.control) :
    Balance { s with control := crossingWord s.control len } (.packet s.control len false :: history) := by
  obtain ⟨hzero, hlow⟩ := (crossingWord_spec s.control len).2 hfits
  obtain ⟨a, ha, hcrossed, hopen⟩ := h.live hbudget
  have haccount : account (.packet s.control len false :: history) = some { a with crossed := true } := by
    rw [account, ha, Option.map_some, Account.book, if_neg Bool.false_ne_true, if_pos hbudget]
  refine ⟨?_, commits_packet h.commits, fun _ => hzero, ?_, ?_, ?_⟩
  · rw [hlow, h.low, passed, passed, List.map_cons, List.sum_cons, Nat.add_comm]
    rfl
  · intro b hb hfalse
    rw [haccount] at hb
    obtain rfl := Option.some.inj hb
    cases hfalse
  · intro b hb _
    rw [haccount] at hb
    obtain rfl := Option.some.inj hb
    refine ⟨hzero, ?_⟩
    rw [← htail] at hopen
    exact hopen
  · intro b hb
    rw [haccount] at hb
    obtain rfl := Option.some.inj hb
    exact h.late a ha

lemma Balance.commit {copiedAndSent remaining cmd} (h : Balance s history)
    (hoffers : Offers copiedAndSent remaining cmd) (hcontrol : s.control = cmd.expected) :
    Balance { s with control := cmd.desired } (.commit s.control copiedAndSent remaining :: history) := by
  have hpassed : passed history = copiedAndSent.toNat := by
    rw [← h.low, hcontrol]
    exact hoffers.copied
  refine ⟨?_, ?_, ?_, ?_, ?_, ?_⟩
  · rw [hoffers.kept, passed, List.map_cons, List.sum_cons, ← hpassed]
    exact (Nat.zero_add _).symm
  · intro later earlier before copied rest heq
    cases later with
    | nil =>
      cases heq
      exact ⟨hpassed, hcontrol ▸ hoffers.expected⟩
    | cons e later => exact h.commits later earlier before copied rest (List.cons.inj heq).2
  · intro hnone
    cases hnone
  · intro a ha _
    obtain rfl := Option.some.inj ha
    exact (Nat.zero_add _).trans hoffers.desired
  · intro a ha htrue
    obtain rfl := Option.some.inj ha
    cases htrue
  · intro a ha
    obtain rfl := Option.some.inj ha
    rfl

lemma Balance.tail (h : Balance s history) (hbudget : budget s.control ≠ 0) (n : BitVec 32) :
    Balance { s with tailBody := n } history :=
  ⟨h.low, h.commits, h.idle, h.current, fun a ha hcrossed => absurd (h.crossed a ha hcrossed).1 hbudget, h.late⟩

lemma Balance.fail (h : Balance s history) (n : BitVec 32) : Balance { s with failed := n } history :=
  ⟨h.low, h.commits, h.idle, h.current, h.crossed, h.late⟩

end balance

/-! ## What holds of a verdict at a place -/

namespace Place

/-- What a packet does to the control word, by what was read of it. A crossing packet has written down what is left, and
nothing changes a control word with a budget but the packet itself. -/
def Exchange (s : HandoffState) (len : BitVec 32) (c v redirects : BitVec 64) : Prop :=
  budget c = 0 ∧ v = passedWord c len ∧ redirects = 0 ∧ passedBytes c + len.toNat < 2 ^ 32 ∨
    budget c ≠ 0 ∧ v = redirectedWord c len ∧ redirects = budgetBits c ∧ len.toNat ≤ budget c ∨
    budget c ≠ 0 ∧ v = crossingWord c len ∧ redirects = 0 ∧ passedBytes c + len.toNat < 2 ^ 32 ∧ s.control = c ∧
      s.tailBody.toNat = budget c

/-- What holds of a verdict at a place: what it has read, and what it has done. -/
def Sound (s : HandoffState) (len : BitVec 32) (exchanged : List Event) (redirections : Nat) : Place → Prop
  | cookie | lookup | failed | control _ | overflow _ => exchanged = [] ∧ redirections = 0
  | tail _ c => (exchanged = [] ∧ redirections = 0) ∧ budget c ≠ 0 ∧ s.control = c
  | exchange _ c v redirects => (exchanged = [] ∧ redirections = 0) ∧ Exchange s len c v redirects
  | redirect _ => (∃ before, exchanged = [.packet before len true]) ∧ redirections = 0
  -- redirections succeed
  | dropped _ => False
  | settled _ w | left w | ids w | notify w | unnotified w | exit w => Settled len exchanged redirections w

def event (s : HandoffState) (len : BitVec 32) : Place → List Event
  | exchange _ c _ redirects => if s.control = c then [.packet s.control len (redirects ≠ 0)] else []
  | _ => []

section moves
variable {s s' : HandoffState} {len : BitVec 32} {exchanged history : List Event} {redirections k : Nat} {c v : BitVec 64}
  {p p' : Place}

lemma sound_passing (hfresh : exchanged = [] ∧ redirections = 0)
    (h : budgetBits v = 0 → Exchange s len c v 0) : (passing k c v).Sound s len exchanged redirections := by
  rw [passing]
  split_ifs with hzero
  · exact ⟨hfresh, h hzero⟩
  · exact hfresh

lemma sound_chosen (hfresh : exchanged = [] ∧ redirections = 0) :
    (chosen len k s.control).Sound s len exchanged redirections := by
  rw [chosen]
  split_ifs with hzero hlen
  · have hbudget := budgetBits_eq_zero.1 hzero
    apply sound_passing hfresh
    intro hfits
    exact .inl ⟨hbudget, rfl, rfl, (passedWord_spec len hbudget).1.1 hfits⟩
  · have hbudget : budget s.control ≠ 0 := fun h => hzero (budgetBits_eq_zero.2 h)
    exact ⟨hfresh, .inr (.inl ⟨hbudget, rfl, rfl, hlen⟩)⟩
  · exact ⟨hfresh, fun h => hzero (budgetBits_eq_zero.2 h), rfl⟩

lemma sound_exchange {redirects} (hb : Balance s history) (hfresh : exchanged = [] ∧ redirections = 0)
    (h : Exchange s len c v redirects) (hcontrol : s.control = c) :
    (if redirects = 0 then settled c 1 else redirect c).Sound { s with control := v } len
        (.packet s.control len (redirects ≠ 0) :: exchanged) redirections ∧
      Balance { s with control := v } (.packet s.control len (redirects ≠ 0) :: history) := by
  obtain ⟨rfl, rfl⟩ := hfresh
  subst hcontrol
  obtain ⟨hbudget, rfl, rfl, hfits⟩ | ⟨hbudget, rfl, rfl, hlen⟩ | ⟨hbudget, rfl, rfl, hfits, -, htail⟩ := h
  · exact ⟨.inr (.inl ⟨⟨_, rfl⟩, rfl, rfl⟩), hb.pass hbudget hfits⟩
  · have hbits : budgetBits s.control ≠ 0 := fun h => hbudget (budgetBits_eq_zero.1 h)
    rw [if_neg hbits, decide_eq_true hbits]
    exact ⟨⟨⟨_, rfl⟩, rfl⟩, hb.redirect hbudget hlen⟩
  · exact ⟨.inr (.inl ⟨⟨_, rfl⟩, rfl, rfl⟩), hb.cross hbudget hfits htail⟩

lemma Sound.move (h : p.Sound s len exchanged redirections) (hb : Balance s history)
    (hmove : p.move len s = some (p', s')) :
    p'.Sound s' len (p.event s len ++ exchanged) redirections ∧ Balance s' (p.event s len ++ history) := by
  cases p with
  | cookie | lookup | redirect _ | notify _ | exit _ => cases hmove
  | failed =>
    cases hmove
    refine ⟨?_, hb⟩
    split_ifs with hfailed
    · exact h
    · exact .inl ⟨h.1, h.2, rfl⟩
  | control k =>
    cases hmove
    exact ⟨sound_chosen h, hb⟩
  | tail k c =>
    cases hmove
    obtain ⟨hfresh, hbudget, hcontrol⟩ := h
    refine ⟨sound_passing hfresh fun hfits => .inr (.inr ⟨hbudget, rfl, rfl, ?_, hcontrol, tailBody_toNat c⟩), ?_⟩
    · exact (crossingWord_spec c len).1.1 hfits
    · exact hb.tail (hcontrol ▸ hbudget) _
  | exchange k c v redirects =>
    rw [Place.move] at hmove
    rw [event]
    by_cases hcontrol : s.control = c
    · rw [if_pos hcontrol] at hmove ⊢
      cases hmove
      exact sound_exchange hb h.1 h.2 hcontrol
    · rw [if_neg hcontrol] at hmove ⊢
      cases hmove
      refine ⟨?_, hb⟩
      split_ifs
      · exact h.1
      · exact h.1
  | overflow c =>
    cases hmove
    exact ⟨.inl ⟨h.1, h.2, rfl⟩, hb.fail 1⟩
  | dropped c => exact h.elim
  | settled c w =>
    cases hmove
    refine ⟨?_, hb⟩
    split_ifs
    · exact h
    · exact h
    · exact h
  | left w =>
    cases hmove
    refine ⟨?_, hb⟩
    split_ifs
    · exact h
    · exact h
  | ids w =>
    cases hmove
    exact ⟨h, hb⟩
  | unnotified w =>
    cases hmove
    exact ⟨h, hb.fail 1⟩

lemma Sound.answer {f v} (h : p.Sound s len exchanged redirections) (hhelper : p.helper = some f) (hgives : gives f v) :
    ∃ p', p.answer v = some p' ∧ p'.Sound s len exchanged (if f = 72 then redirections + 1 else redirections) := by
  cases p with
  | cookie =>
    cases hhelper
    cases v with
    | num w => exact ⟨_, rfl, h⟩
    | frame off => cases hgives
    | ptr r off => cases hgives
  | lookup =>
    cases hhelper
    have hv : v = .num 0 ∨ v = .ptr .state 0 := by
      cases v with
      | num w =>
        simp [gives] at hgives
        exact .inl (congrArg Val.num hgives)
      | frame off => cases hgives
      | ptr r off =>
        simp [gives] at hgives
        obtain ⟨rfl, rfl⟩ := hgives
        exact .inr rfl
    obtain rfl | rfl := hv
    · exact ⟨_, rfl, .inl ⟨h.1, h.2, rfl⟩⟩
    · exact ⟨_, rfl, h⟩
  | redirect c =>
    cases hhelper
    cases v with
    | num w =>
      have hw : w ≠ 0 := by simpa [gives] using hgives
      refine ⟨_, rfl, ?_⟩
      rw [if_neg hw, h.2]
      exact .inr (.inr ⟨h.1, rfl, hw⟩)
    | frame off => cases hgives
    | ptr r off => cases hgives
  | notify w =>
    cases hhelper
    cases v with
    | num q =>
      have hq : q = 0 := by simpa [gives] using hgives
      refine ⟨_, rfl, ?_⟩
      rw [if_pos hq]
      exact h
    | frame off => cases hgives
    | ptr r off => cases hgives
  | _ => cases hhelper

lemma Sound.commit (h : p.Sound s len exchanged redirections) (hcontrol : budget s.control = 0)
    (w : BitVec 64) : p.Sound { s with control := w } len exchanged redirections := by
  cases p with
  | tail k c => exact absurd (h.2.2 ▸ hcontrol) h.2.1
  | exchange k c v redirects =>
    obtain ⟨hfresh, hpass | hredirect | ⟨hbudget, -, -, -, heq, -⟩⟩ := h
    · exact ⟨hfresh, .inl hpass⟩
    · exact ⟨hfresh, .inr (.inl hredirect)⟩
    · exact absurd (heq ▸ hcontrol) hbudget
  | _ => exact h

end moves

end Place

/-! ## What holds of every execution -/

section exchanges
variable {fds : Fds} {len : BitVec 32} {t t' : Thread Region} {p : Place} {cmd : HandoffCommand} {q : CommitPlace}

lemma slide_exchanges {code} (h : slide space code t = some t') (s : HandoffState) : exchanges code t s = false := by
  rw [slide] at h
  rw [exchanges]
  cases hop : code.getD t.pc none with
  | none => rfl
  | some op =>
    rw [hop, Option.bind_some] at h
    cases op with
    | cmpxchg size dst src off => cases h
    | _ => rfl

open Place in
lemma At.event (h : At fds len p t) (s : HandoffState) :
    (if exchanges (ops fds) t s then [Event.packet s.control len (t.regs 1 ≠ some (.num 0))] else []) = p.event s len := by
  apply h.elim
  rintro n hn regs stack -
  cases p with
  | exchange k c v redirects =>
    have hexchanges : exchanges (ops fds) ⟨n, known (cut fds len (.exchange k c v redirects)).registers regs, stack⟩ s =
        decide (c = s.control) := by
      obtain ⟨hk, rfl⟩ := hn
      interval_cases k <;> rfl
    have hredirects : (known (cut fds len (.exchange k c v redirects)).registers regs 1 ≠ some (.num 0)) ↔ redirects ≠ 0 :=
      not_congr ⟨fun h => Val.num.inj (Option.some.inj h), fun h => congrArg (fun w => some (Val.num w)) h⟩
    rw [Place.event]
    by_cases hcontrol : s.control = c
    · rw [if_pos hcontrol, if_pos (hexchanges.trans (decide_eq_true hcontrol.symm))]
      exact congrArg (fun b => [Event.packet s.control len b]) (decide_eq_decide.2 hredirects)
    · rw [if_neg hcontrol, if_neg]
      exact fun htrue => hcontrol (of_decide_eq_true (hexchanges.symm.trans htrue)).symm
  | control k =>
    obtain ⟨hk, rfl⟩ := hn
    interval_cases k <;> rfl
  | tail k c =>
    obtain ⟨hk, rfl⟩ := hn
    interval_cases k <;> rfl
  | exit w => obtain rfl | rfl := hn <;> rfl
  | _ =>
    obtain rfl := hn
    rfl

lemma CommitPlace.at_exchanges (h : (q.cut fds cmd).At t) (s : HandoffState) :
    exchanges (commitOps fds) t s = (decide (q = .exchange) && decide (s.control = cmd.expected)) := by
  apply h.elim
  rintro n hn regs stack -
  cases q with
  | exchange =>
    obtain rfl := hn
    exact decide_eq_decide.2 eq_comm
  | exit w => obtain rfl | rfl | rfl := hn <;> rfl
  | _ =>
    obtain rfl := hn
    rfl

end exchanges

/-- What holds of a commit program at a place: whether it has exchanged the control word. -/
def CommitPlace.Sound (exchanged : Bool) : CommitPlace → Prop
  | command | entry | failed | exchange => exchanged = false
  | limit => False
  | exit w => w = if exchanged then 1 else 0

def Call.Sound (fds : Fds) : Call → Prop
  | inspected _ remaining _ => validRemaining remaining
  | running copiedAndSent remaining cmd t exchanged =>
    (Offers copiedAndSent remaining cmd ∧ cmd.expected ≠ imm (-1)) ∧
      ∃ p, CommitPlace.Toward fds cmd p t ∧ p.Sound exchanged

structure Inv (maps : Maps) (sys : System) : Prop where
  run : ∀ r, sys.run = some r →
    ∃ p, Toward maps.toFds r.len p r.thread ∧ p.Sound sys.state r.len r.exchanged r.redirections
  call : ∀ call, sys.call = some call → call.Sound maps.toFds
  balance : Balance sys.state sys.history
  given : ∀ g ∈ sys.given, Settled g.len g.exchanged g.redirections g.verdict
  packets : packets sys.history = sys.run.elim [] Run.exchanged ++ sys.given.flatMap Given.exchanged
  commits : commits sys.history = sys.call.elim [] Call.pending ++ committed sys.reports

section steps
variable {maps : Maps} {source : BitVec 64} {sys sys' : System} {len : BitVec 32} {p : Place} {t t' : Thread Region}
  {s s' : HandoffState} {history : List Event} {w : BitVec 64}

lemma Place.kinds (p : Place) (len : BitVec 32) (s : HandoffState) :
    (∃ q, p.move len s = some q) ∨ (∃ f, p.helper = some f) ∨ ∃ w, p = .exit w := by
  cases p with
  | cookie | lookup | redirect _ | notify _ => exact .inr (.inl ⟨_, rfl⟩)
  | exit w => exact .inr (.inr ⟨w, rfl⟩)
  | exchange k c v redirects =>
    rw [Place.move]
    by_cases hcontrol : s.control = c
    · rw [if_pos hcontrol]
      exact .inl ⟨_, rfl⟩
    · rw [if_neg hcontrol]
      exact .inl ⟨_, rfl⟩
  | _ => exact .inl ⟨_, rfl⟩

inductive Turn (fds : Fds) (len : BitVec 32) (p : Place) (t : Thread Region) (s : HandoffState) : Prop
  | quiet (t' : Thread Region) (hstep : step space (ops fds) t s = .next t' s) (htoward : Toward fds len p t')
      (hnone : exchanges (ops fds) t s = false)
  | move (p' : Place) (s' : HandoffState) (t' : Thread Region) (hat : At fds len p t) (hmove : p.move len s = some (p', s'))
      (hstep : step space (ops fds) t s = .next t' s') (htoward : Toward fds len p' t')
  | call (f : Int) (hat : At fds len p t) (hhelper : p.helper = some f) (hstep : step space (ops fds) t s = .call f)
  | exit (w : BitVec 64) (hp : p = .exit w) (hstep : step space (ops fds) t s = .exit w)

lemma Place.turn {fds} (htoward : Toward fds len p t) (s : HandoffState) : Turn fds len p t s := by
  obtain hat | ⟨t₁, hslide, htoward'⟩ := htoward.cases
  · obtain ⟨⟨p', s'⟩, hmove⟩ | ⟨f, hhelper⟩ | ⟨w, rfl⟩ := p.kinds len s
    · obtain ⟨t', hstep, htoward'⟩ := At.move hat hmove
      exact .move p' s' t' hat hmove hstep htoward'
    · exact .call f hat hhelper (At.call hat hhelper s)
    · exact .exit w rfl (At.exit hat s).1
  · exact .quiet t₁ (step_slide hslide s) htoward' (slide_exchanges hslide s)

inductive CommitTurn (fds : Fds) (cmd : HandoffCommand) (p : CommitPlace) (t : Thread Region) (s : HandoffState) : Prop
  | quiet (t' : Thread Region) (hstep : step space (commitOps fds) t s = .next t' s)
      (htoward : CommitPlace.Toward fds cmd p t') (hnone : exchanges (commitOps fds) t s = false)
  | move (p' : CommitPlace) (s' : HandoffState) (t' : Thread Region) (hat : (p.cut fds cmd).At t)
      (hmove : p.move cmd s = some (p', s')) (hstep : step space (commitOps fds) t s = .next t' s')
      (htoward : CommitPlace.Toward fds cmd p' t')
  | call (hat : (p.cut fds cmd).At t) (hp : p = .command ∨ p = .entry) (hstep : step space (commitOps fds) t s = .call 1)
  | exit (w : BitVec 64) (hp : p = .exit w) (hstep : step space (commitOps fds) t s = .exit w)

lemma CommitPlace.turn {fds cmd p} (htoward : CommitPlace.Toward fds cmd p t)
    (s : HandoffState) : CommitTurn fds cmd p t s := by
  obtain hat | ⟨t₁, hslide, htoward'⟩ := htoward.cases
  · have hmoves : ∀ p' s', p.move cmd s = some (p', s') → CommitTurn fds cmd p t s := by
      intro p' s' hmove
      obtain ⟨t', hstep, htoward'⟩ := at_move hat hmove
      exact .move p' s' t' hat hmove hstep htoward'
    cases p with
    | command => exact .call hat (.inl rfl) (at_call hat (.inl rfl) s)
    | entry => exact .call hat (.inr rfl) (at_call hat (.inr rfl) s)
    | failed => exact hmoves _ _ rfl
    | exchange =>
      by_cases hcontrol : s.control = cmd.expected
      · exact hmoves _ _ (if_pos hcontrol)
      · exact hmoves _ _ (if_neg hcontrol)
    | limit => exact hmoves _ _ rfl
    | exit w => exact .exit w rfl (at_exit hat s)
  · exact .quiet t₁ (step_slide hslide s) htoward' (slide_exchanges hslide s)

lemma packets_append (event history : List Event) : packets (event ++ history) = packets event ++ packets history :=
  List.filter_append ..

lemma commits_append (event history : List Event) : commits (event ++ history) = commits event ++ commits history :=
  List.filterMap_append ..

lemma packets_event (p : Place) (s : HandoffState) (len : BitVec 32) : packets (p.event s len) = p.event s len := by
  cases p with
  | exchange k c v redirects =>
    rw [Place.event]
    split_ifs
    · rfl
    · rfl
  | _ => rfl

lemma commits_event (p : Place) (s : HandoffState) (len : BitVec 32) : commits (p.event s len) = [] := by
  cases p with
  | exchange k c v redirects =>
    rw [Place.event]
    split_ifs
    · rfl
    · rfl
  | _ => rfl

lemma Inv.verdict {r} (h : Inv maps sys) (hrun : sys.run = some r)
    (hstep : System.stepVerdict (ops maps.toFds) sys r = some sys') : Inv maps sys' := by
  obtain ⟨p, htoward, hsound⟩ := h.run r hrun
  rw [System.stepVerdict] at hstep
  have hpackets := h.packets
  rw [hrun] at hpackets
  cases Place.turn htoward sys.state with
  | quiet t' hnext htoward' hnone =>
    rw [hnext, hnone] at hstep
    obtain rfl := Option.some.inj hstep
    refine ⟨?_, h.call, h.balance, h.given, hpackets, h.commits⟩
    rintro _ ⟨⟩
    exact ⟨p, htoward', hsound⟩
  | move p' s' t' hat hmove hnext htoward' =>
    rw [hnext] at hstep
    rw [At.event hat] at hstep
    obtain rfl := Option.some.inj hstep
    obtain ⟨hsound', hb'⟩ := hsound.move h.balance hmove
    refine ⟨?_, h.call, hb', h.given, ?_, ?_⟩
    · rintro _ ⟨⟩
      exact ⟨p', htoward', hsound'⟩
    · rw [packets_append, packets_event, hpackets]
      exact (List.append_assoc _ _ _).symm
    · rw [commits_append, commits_event, h.commits]
      rfl
  | call f hat hhelper hcall =>
    rw [hcall] at hstep
    cases hstep
  | exit w hp hexit =>
    rw [hexit] at hstep
    obtain rfl := Option.some.inj hstep
    subst hp
    refine ⟨?_, h.call, h.balance, ?_, hpackets, h.commits⟩
    · rintro _ ⟨⟩
    · intro g hg
      obtain rfl | hg := List.mem_cons.1 hg
      · exact hsound
      · exact h.given g hg

lemma Inv.answer {r v} (h : Inv maps sys) (hrun : sys.run = some r)
    (hstep : System.stepAnswer (ops maps.toFds) sys r v = some sys') : Inv maps sys' := by
  obtain ⟨p, htoward, hsound⟩ := h.run r hrun
  rw [System.stepAnswer] at hstep
  have hpackets := h.packets
  rw [hrun] at hpackets
  cases Place.turn htoward sys.state with
  | quiet t' hnext => rw [hnext] at hstep; cases hstep
  | move p' s' t' hat hmove hnext => rw [hnext] at hstep; cases hstep
  | exit w hp hexit => rw [hexit] at hstep; cases hstep
  | call f hat hhelper hcall =>
    rw [hcall] at hstep
    obtain ⟨hgives, hstep⟩ := Option.ite_none_right_eq_some.1 hstep
    obtain rfl := Option.some.inj hstep
    obtain ⟨p', hanswer, hsound'⟩ := hsound.answer hhelper hgives
    refine ⟨?_, h.call, h.balance, h.given, hpackets, h.commits⟩
    rintro _ ⟨⟩
    exact ⟨p', At.answer hat hanswer, hsound'⟩

section commit
variable {copiedAndSent remaining : BitVec 32} {cmd : HandoffCommand} {taken : Bool}

lemma Inv.withCall {call} (h : Inv maps sys) (hcall : sys.call = none ∨ ∃ old, sys.call = some old ∧ old.pending = [])
    (hsound : call.Sound maps.toFds) (hpending : call.pending = []) : Inv maps { sys with call := some call } := by
  refine ⟨h.run, ?_, h.balance, h.given, h.packets, ?_⟩
  · rintro _ ⟨⟩
    exact hsound
  · have hcommits := h.commits
    obtain hnone | ⟨old, hsome, hold⟩ := hcall
    · rw [hnone] at hcommits
      exact hcommits.trans (congrArg (· ++ _) hpending.symm)
    · rw [hsome] at hcommits
      exact hcommits.trans (congrArg (· ++ _) (hold.trans hpending.symm))

lemma Inv.withReport {call result} (h : Inv maps sys) (hcall : sys.call = some call)
    (hpending : call.pending = []) (hresult : result ≠ .committed) :
    Inv maps { sys with call := none, reports := ⟨copiedAndSent, remaining, result⟩ :: sys.reports } := by
  have hcommits := h.commits
  rw [hcall] at hcommits
  refine ⟨h.run, ?_, h.balance, h.given, h.packets, ?_⟩
  · rintro _ ⟨⟩
  · rw [committed, List.filter_cons_of_neg (by simpa using hresult)]
    exact hcommits.trans (congrArg (· ++ _) hpending)

lemma Inv.send {control} (h : Inv maps sys) (hcall : sys.call = some (.inspected copiedAndSent remaining control)) :
    Inv maps (System.stepSend source sys copiedAndSent remaining control) := by
  have hvalid : validRemaining remaining := h.call _ hcall
  rw [System.stepSend]
  cases hcommand : commitCommand source copiedAndSent remaining { sys.state with control } with
  | error result => exact h.withReport hcall rfl (commitCommand_error hcommand)
  | ok cmd =>
    apply h.withCall (.inr ⟨_, hcall, rfl⟩) _ rfl
    exact ⟨commitCommand_offers hvalid hcommand, .command, CommitPlace.entry_toward _ _ _, rfl⟩

lemma Inv.commit (h : Inv maps sys) (hcall : sys.call = some (.running copiedAndSent remaining cmd t taken))
    (hstep : System.stepCommit (commitOps maps.toFds) sys copiedAndSent remaining cmd t taken = some sys') :
    Inv maps sys' := by
  obtain ⟨⟨hoffers, hexpected⟩, p, htoward, hsound⟩ := h.call _ hcall
  rw [System.stepCommit] at hstep
  have hcommits := h.commits
  rw [hcall] at hcommits
  cases CommitPlace.turn htoward sys.state with
  | quiet t' hnext htoward' hnone =>
    rw [hnext, hnone] at hstep
    obtain rfl := Option.some.inj hstep
    refine ⟨h.run, ?_, h.balance, h.given, h.packets, ?_⟩
    · rintro _ ⟨⟩
      exact ⟨⟨hoffers, hexpected⟩, p, htoward', hsound⟩
    · cases taken <;> exact hcommits
  | move p' s' t' hat hmove hnext htoward' =>
    have hexchanges := CommitPlace.at_exchanges hat sys.state
    rw [hnext] at hstep
    dsimp only at hstep
    cases p with
    | command | entry | exit _ => cases hmove
    | limit => exact hsound.elim
    | failed =>
      obtain rfl : taken = false := hsound
      cases hmove
      rw [hexchanges] at hstep
      obtain rfl := Option.some.inj hstep
      refine ⟨h.run, ?_, h.balance, h.given, h.packets, hcommits⟩
      rintro _ ⟨⟩
      refine ⟨⟨hoffers, hexpected⟩, _, htoward', ?_⟩
      rw [CommitPlace.chosen, if_pos hexpected]
      split_ifs
      · rfl
      · rfl
    | exchange =>
      obtain rfl : taken = false := hsound
      rw [CommitPlace.move] at hmove
      by_cases hcontrol : sys.state.control = cmd.expected
      · rw [if_pos hcontrol] at hmove
        cases hmove
        rw [if_pos (hexchanges.trans (decide_eq_true hcontrol))] at hstep
        obtain rfl := Option.some.inj hstep
        have hbudget : budget sys.state.control = 0 := hcontrol ▸ hoffers.expected
        refine ⟨?_, ?_, h.balance.commit hoffers hcontrol, h.given, h.packets, ?_⟩
        · intro r hrun
          obtain ⟨p, htoward, hsound⟩ := h.run r hrun
          exact ⟨p, htoward, hsound.commit hbudget _⟩
        · rintro _ ⟨⟩
          exact ⟨⟨hoffers, hexpected⟩, _, htoward', rfl⟩
        · exact congrArg (List.cons _) hcommits
      · rw [if_neg hcontrol] at hmove
        cases hmove
        rw [if_neg fun htrue => hcontrol (of_decide_eq_true (hexchanges.symm.trans htrue))] at hstep
        obtain rfl := Option.some.inj hstep
        refine ⟨h.run, ?_, h.balance, h.given, h.packets, hcommits⟩
        rintro _ ⟨⟩
        exact ⟨⟨hoffers, hexpected⟩, _, htoward', rfl⟩
  | call hat hp hcalls =>
    rw [hcalls] at hstep
    cases hstep
  | exit w hp hexit =>
    rw [hexit] at hstep
    obtain rfl := Option.some.inj hstep
    subst hp
    obtain rfl : w = if taken then 1 else 0 := hsound
    refine ⟨h.run, ?_, h.balance, h.given, h.packets, ?_⟩
    · rintro _ ⟨⟩
    · cases taken with
      | true => exact hcommits
      | false => exact hcommits

lemma Inv.lookup {found} (h : Inv maps sys) (hcall : sys.call = some (.running copiedAndSent remaining cmd t taken))
    (hstep : System.stepLookup (commitOps maps.toFds) maps sys copiedAndSent remaining cmd t taken found = some sys') :
    Inv maps sys' := by
  obtain ⟨⟨hoffers, hexpected⟩, p, htoward, hsound⟩ := h.call _ hcall
  rw [System.stepLookup] at hstep
  cases CommitPlace.turn htoward sys.state with
  | quiet t' hnext => rw [hnext] at hstep; cases hstep
  | move p' s' t' hat hmove hnext => rw [hnext] at hstep; cases hstep
  | exit w hp hexit => rw [hexit] at hstep; cases hstep
  | call hat hp hcalls =>
    rw [hcalls] at hstep
    -- the register of the map tells which lookup it is
    have hreg := hat.registers
    obtain rfl | rfl := hp
    · rw [hreg.1] at hstep
      obtain rfl := Option.some.inj hstep
      obtain rfl : taken = false := hsound
      apply h.withCall (.inr ⟨_, hcall, rfl⟩) _ rfl
      cases found with
      | true =>
        exact ⟨⟨hoffers, hexpected⟩, .entry, CommitPlace.at_answer hat (by simp [CommitPlace.answer]), rfl⟩
      | false =>
        exact ⟨⟨hoffers, hexpected⟩, .exit 0, CommitPlace.at_answer hat (by simp [CommitPlace.answer]), rfl⟩
    · rw [hreg.1] at hstep
      obtain rfl := Option.some.inj hstep
      obtain rfl : taken = false := hsound
      apply h.withCall (.inr ⟨_, hcall, rfl⟩) _ rfl
      rw [if_neg fun hfound => maps.differ hfound.2]
      cases found with
      | true =>
        exact ⟨⟨hoffers, hexpected⟩, .failed, CommitPlace.at_answer hat (by simp [CommitPlace.answer]), rfl⟩
      | false =>
        exact ⟨⟨hoffers, hexpected⟩, .exit 0, CommitPlace.at_answer hat (by simp [CommitPlace.answer]), rfl⟩

end commit

lemma Inv.step {act} (h : Inv maps sys)
    (hstep : sys.step maps source (ops maps.toFds) (commitOps maps.toFds) act = some sys') : Inv maps sys' := by
  cases act with
  | arrive len =>
    obtain ⟨hidle, hstep⟩ := Option.ite_none_left_eq_some.1 hstep
    obtain rfl := Option.some.inj hstep
    have hnone : sys.run = none := Option.not_isSome_iff_eq_none.1 hidle
    have hpackets := h.packets
    rw [hnone] at hpackets
    refine ⟨?_, h.call, h.balance, h.given, hpackets, h.commits⟩
    rintro _ ⟨⟩
    exact ⟨.cookie, entry_toward _ len, rfl, rfl⟩
  | verdict =>
    obtain ⟨r, hrun, hstep⟩ := Option.bind_eq_some_iff.1 hstep
    exact h.verdict hrun hstep
  | answer v =>
    obtain ⟨r, hrun, hstep⟩ := Option.bind_eq_some_iff.1 hstep
    exact h.answer hrun hstep
  | inspect copiedAndSent remaining =>
    obtain ⟨hidle, hstep⟩ := Option.ite_none_left_eq_some.1 hstep
    have hnone : sys.call = none := Option.not_isSome_iff_eq_none.1 hidle
    split_ifs at hstep with hvalid
    · obtain rfl := Option.some.inj hstep
      exact h.withCall (.inl hnone) hvalid rfl
    · obtain rfl := Option.some.inj hstep
      exact ⟨h.run, h.call, h.balance, h.given, h.packets, h.commits⟩
  | send =>
    rw [System.step] at hstep
    split at hstep
    · rename_i hcall
      obtain rfl := Option.some.inj hstep
      exact h.send hcall
    · cases hstep
  | abandon =>
    rw [System.step] at hstep
    split at hstep
    · rename_i hcall
      obtain rfl := Option.some.inj hstep
      exact h.withReport hcall rfl (by decide)
    · cases hstep
  | commit =>
    rw [System.step] at hstep
    split at hstep
    · rename_i hcall
      exact h.commit hcall hstep
    · cases hstep
  | lookup found =>
    rw [System.step] at hstep
    split at hstep
    · rename_i hcall
      exact h.lookup hcall hstep
    · cases hstep

lemma exec_eq {acts} : sys.exec maps source acts =
    acts.foldlM (System.step maps source (ops maps.toFds) (commitOps maps.toFds)) sys := by
  rw [System.exec, System.verdictProgram, System.commitProgram, relocate_verdict, relocate_commit]

lemma Inv.exec {acts} (h : Inv maps sys) (hexec : sys.exec maps source acts = some sys') : Inv maps sys' := by
  induction acts generalizing sys with
  | nil =>
    cases hexec
    exact h
  | cons act acts ih =>
    rw [exec_eq, List.foldlM_cons] at hexec
    obtain ⟨sys₁, hstep, hrest⟩ := Option.bind_eq_some_iff.1 hexec
    rw [← exec_eq] at hrest
    exact ih (h.step hstep) hrest

lemma Inv.enrolled (maps : Maps) (targetCookie : BitVec 64) (connectionId generation : BitVec 32) :
    Inv maps (.enrolled targetCookie connectionId generation) := by
  refine ⟨?_, ?_, ⟨rfl, ?_, fun _ => (by decide : budget 0 = 0), ?_, ?_, ?_⟩, ?_, rfl, rfl⟩
  · rintro _ ⟨⟩
  · rintro _ ⟨⟩
  · intro later earlier _ _ _ heq
    cases later <;> cases heq
  · rintro _ ⟨⟩
  · rintro _ ⟨⟩
  · rintro _ ⟨⟩
  · intro g hg
    cases hg

end steps

/-- The byte ledger of the entry of a source socket. The low word counts the bytes passed; a commit takes effect when as
many bytes have been passed as it says, and no budget is left; from then on what was redirected and the budget, or the
tail once a packet has crossed its end, make up what it has offered, and behind the tail nothing is redirected. Every
verdict is on record: a pass without a redirection, one redirection, or a drop; and so is every commit that was
reported. -/
structure Ledger (sys : System) : Prop where
  passed : passedBytes sys.state.control = passed sys.history
  committed : ∀ later earlier before copiedAndSent remaining,
    sys.history = later ++ .commit before copiedAndSent remaining :: earlier →
      Ebpf.passed earlier = copiedAndSent.toNat ∧ budget before = 0
  offered : ∀ a, account sys.history = some a →
    (a.crossed = false → a.redirected + budget sys.state.control = a.remaining) ∧
    (a.crossed = true → a.redirected + sys.state.tailBody.toNat = a.remaining) ∧ a.late = 0
  given : ∀ g ∈ sys.given, Settled g.len g.exchanged g.redirections g.verdict
  packets : packets sys.history = sys.run.elim [] Run.exchanged ++ sys.given.flatMap Given.exchanged
  reports : commits sys.history = sys.call.elim [] Call.pending ++ Ebpf.committed sys.reports

/-- The ledger holds after every execution of verdicts and commits. -/
theorem ledger_holds {maps : Maps} {source targetCookie : BitVec 64} {connectionId generation : BitVec 32}
    {acts : List Act} {sys : System}
    (h : (System.enrolled targetCookie connectionId generation).exec maps source acts = some sys) : Ledger sys := by
  have hinv := (Inv.enrolled maps targetCookie connectionId generation).exec h
  have hb := hinv.balance
  refine ⟨hb.low, hb.commits, fun a ha => ⟨hb.current a ha, ?_, hb.late a ha⟩, hinv.given, hinv.packets, hinv.commits⟩
  intro hcrossed
  exact (hb.crossed a ha hcrossed).2

/-- A packet of 12 bytes arrives; while its verdict looks for the entry, a commit offers 10 bytes; the packet crosses the end
of that budget. -/
def crossingActs : List Act :=
  [[.arrive 12, .verdict, .answer (.num 7), .verdict, .inspect 0 10, .send], List.replicate 3 .verdict,
    List.replicate 4 .commit, [.lookup true, .answer (.ptr .state 0)], List.replicate 4 .commit, [.lookup true],
    List.replicate 12 .commit, List.replicate 27 .verdict].flatten

theorem crossing_ledger : ∃ sys, (System.enrolled 9 1 1).exec ⟨⟨3, 4, 5, 6⟩, by decide⟩ 7 crossingActs = some sys ∧
    (sys.state.control, sys.state.tailBody) = (0x800000000000000c, 10) ∧ Ledger sys := by
  have hexec : ((System.enrolled 9 1 1).exec ⟨⟨3, 4, 5, 6⟩, by decide⟩ 7 crossingActs).map
      (fun sys => (sys.state.control, sys.state.tailBody)) = some (0x800000000000000c, 10) := by
    rw [exec_eq]
    decide
  obtain ⟨sys, hsys, hstate⟩ := Option.map_eq_some_iff.1 hexec
  exact ⟨sys, hsys, hstate, ledger_holds hsys⟩

end Rut.Ebpf
