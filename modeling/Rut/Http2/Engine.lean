import Rut.Http2.Conn
import Rut.Lib.Trace

/-!
# Runs of the engine

A run of a connection is a sequence of calls of `process`, turn by turn, with whatever the serving layer does to the
connection between them. A run ends with the first connection error. What a step writes and which frame it hands to
`handle_frame` is computed from the state it is taken in, so that the claims about runs can speak of them.
-/

namespace Rut.Http2

variable {σ L : Type} {cb : Callbacks σ} {serve : Conn σ → L → Conn σ → Prop}

/-- The engine between two calls of `process`, or in the frame loop of one. -/
inductive Engine (σ : Type) where
  | idle (conn : Conn σ)
  | busy (cap : Option Nat) (progress : Progress σ)

def Engine.conn : Engine σ → Conn σ
  | .idle c => c
  | .busy _ p => p.conn

/-- What happens next: a call of `process`, a turn of its loop, or an action of the serving layer. -/
inductive EngineAct (L : Type) where
  | call (cap : Option Nat) (input : Str)
  | turn
  | serve (act : L)

inductive EngineStep (cb : Callbacks σ) (serve : Conn σ → L → Conn σ → Prop) :
    Engine σ → EngineAct L → Engine σ → Prop where
  | call {cap : Option Nat} {c : Conn σ} {input : Str} {p : Progress σ} (h : startProcess cap c input = .inl p) :
      EngineStep cb serve (.idle c) (.call cap input) (.busy cap p)
  | wait {cap : Option Nat} {c : Conn σ} {input : Str} {p : Progress σ} (h : startProcess cap c input = .inr p)
      (hopen : p.status = .open) : EngineStep cb serve (.idle c) (.call cap input) (.idle p.conn)
  | turn {cap : Option Nat} {p p' : Progress σ} (h : processStep cb cap p = .inl p') :
      EngineStep cb serve (.busy cap p) .turn (.busy cap p')
  | return {cap : Option Nat} {p p' : Progress σ} (h : processStep cb cap p = .inr p') (hopen : p'.status = .open) :
      EngineStep cb serve (.busy cap p) .turn (.idle p'.conn)
  | serve {c c' : Conn σ} {l : L} (h : serve c l c') : EngineStep cb serve (.idle c) (.serve l) (.idle c')

abbrev Entry (σ L : Type) := Engine σ × EngineAct L

abbrev EngineRun (cb : Callbacks σ) (serve : Conn σ → L → Conn σ → Prop) (c : Conn σ) (t : List (Entry σ L))
    (s : Engine σ) : Prop :=
  Lib.Trace (EngineStep cb serve) (.idle c) t s

/-- A frame on its way to `handle_frame`, with the connection and the room it finds. -/
structure Handled (σ : Type) where
  conn : Conn σ
  fits : Room
  header : FrameHeader
  payload : Str

/-- What `handle_frame` does with it. -/
def Handled.reply (cb : Callbacks σ) (x : Handled σ) : Reply σ := handleFrame cb x.fits x.conn x.header x.payload

def turnFrame (cap : Option Nat) (p : Progress σ) : Option (Handled σ) :=
  let p := p.flush cap
  match nextTurn (room cap (outLen p.out)) p.conn p.rest with
  | .handle h payload _ => some ⟨p.conn, room cap (outLen p.out), h, payload⟩
  | _ => none

def handled : Entry σ L → Option (Handled σ)
  | (.busy cap p, .turn) => turnFrame cap p
  | _ => none

def written (cb : Callbacks σ) : Entry σ L → List OutFrame
  | (.busy cap p, .turn) =>
    (flushCredits (room cap (outLen p.out)) p.conn).2 ++ (turnFrame cap p).elim [] fun x => (x.reply cb).out
  | (.idle c, .call cap input) => (startProcess cap c input).elim (·.out) (·.out)
  | _ => []

lemma nextTurn_handle {fits} {c : Conn σ} {input h payload rest} (ht : nextTurn fits c input = .handle h payload rest) :
    parseFrameHeader input = some h ∧ payload.length = h.length ∧ waits fits c h = false ∧
      ((c.client || c.grpcActive) = true → fits 0 26 = true) := by
  unfold nextTurn at ht
  cases hp : parseFrameHeader input with
  | none =>
    rw [hp] at ht
    cases ht
  | some h' =>
    rw [hp] at ht
    dsimp only at ht
    split_ifs at ht with h₁ h₂ h₃ h₄ h₅
    cases ht
    refine ⟨rfl, ?_, by simpa using h₅, ?_⟩
    · rw [List.length_take, List.length_drop]
      omega
    · intro hroom
      by_contra hfits
      exact h₃ (by rw [hroom, Bool.eq_false_of_not_eq_true hfits]; rfl)

@[simp] lemma flush_rest (cap : Option Nat) (p : Progress σ) : (p.flush cap).rest = p.rest := rfl

lemma turnFrame_wait {cap} {p : Progress σ}
    (h : nextTurn (room cap (outLen (p.flush cap).out)) (p.flush cap).conn p.rest = .wait) :
    turnFrame cap p = none := by
  dsimp only [turnFrame, flush_rest]
  rw [h]

lemma turnFrame_handle {cap} {p : Progress σ} {hd payload rest}
    (h : nextTurn (room cap (outLen (p.flush cap).out)) (p.flush cap).conn p.rest = .handle hd payload rest) :
    turnFrame cap p = some ⟨(p.flush cap).conn, room cap (outLen (p.flush cap).out), hd, payload⟩ := by
  dsimp only [turnFrame, flush_rest]
  rw [h]

lemma processStep_cases {cap p r} (h : processStep cb cap p = r) (hopen : ∀ q, r = .inr q → q.status = .open) :
    (nextTurn (room cap (outLen (p.flush cap).out)) (p.flush cap).conn p.rest = .wait ∧ r = .inr (p.flush cap)) ∨
    ∃ hd payload rest,
      nextTurn (room cap (outLen (p.flush cap).out)) (p.flush cap).conn p.rest = .handle hd payload rest ∧
      (handleFrame cb (room cap (outLen (p.flush cap).out)) (p.flush cap).conn hd payload).verdict = .ok ∧
      r = .inl ((p.flush cap).handle cb cap hd payload rest).1 := by
  unfold processStep at h
  dsimp only at h
  cases ht : nextTurn (room cap (outLen (p.flush cap).out)) (p.flush cap).conn (p.flush cap).rest with
  | wait =>
    rw [ht] at h
    exact .inl ⟨ht, h.symm⟩
  | close e =>
    rw [ht] at h
    subst h
    cases e with
    | none => cases hopen _ rfl
    | some e => cases hopen _ rfl
  | handle hd payload rest =>
    rw [ht, Progress.turn] at h
    refine .inr ⟨hd, payload, rest, ht, ?_⟩
    cases hr : (p.flush cap).handle cb cap hd payload rest with
    | mk q v =>
      rw [hr] at h
      have hv : (handleFrame cb (room cap (outLen (p.flush cap).out)) (p.flush cap).conn hd payload).verdict = v :=
        congrArg Prod.snd hr
      cases v with
      | ok => exact ⟨hv, h.symm⟩
      | error e =>
        subst h
        cases hopen _ rfl
      | fault =>
        subst h
        cases hopen _ rfl

lemma turn_cases {cap p s a} (h : EngineStep cb serve (.busy cap p) a s) : a = .turn ∧
    ((turnFrame cap p = none ∧ s.conn = (p.flush cap).conn) ∨
    ∃ x, turnFrame cap p = some x ∧ x.conn = (p.flush cap).conn ∧ x.payload.length = x.header.length ∧
      (x.reply cb).verdict = .ok ∧ s.conn = (x.reply cb).conn) := by
  suffices hturn : ∀ r, processStep cb cap p = r → (∀ q, r = .inr q → q.status = .open) →
      (turnFrame cap p = none ∧ r.elim (·.conn) (·.conn) = (p.flush cap).conn) ∨
      ∃ x, turnFrame cap p = some x ∧ x.conn = (p.flush cap).conn ∧ x.payload.length = x.header.length ∧
        (x.reply cb).verdict = .ok ∧ r.elim (·.conn) (·.conn) = (x.reply cb).conn by
    cases h with
    | turn h => exact ⟨rfl, hturn _ h fun q hq => by cases hq⟩
    | «return» h hopen => exact ⟨rfl, hturn _ h fun q hq => by cases hq; exact hopen⟩
  intro r hr hopen
  obtain ⟨ht, rfl⟩ | ⟨hd, payload, rest, ht, hv, rfl⟩ := processStep_cases hr hopen
  · exact .inl ⟨turnFrame_wait ht, rfl⟩
  · exact .inr ⟨_, turnFrame_handle ht, rfl, (nextTurn_handle ht).2.1, hv, rfl⟩

lemma startProcess_greets {cap} {c : Conn σ} {input r}
    (h : startProcess cap c input = r) (hopen : ∀ q, r = .inr q → q.status = .open) :
    (∃ seen sent, r.elim (·.conn) (·.conn) = { c with prefaceSeen := seen, ourSettingsSent := sent }) ∧
      ∀ f ∈ r.elim (·.out) (·.out), ∃ payload, f = .settings payload := by
  unfold startProcess at h
  split_ifs at h with hseen
  · subst h
    exact ⟨⟨c.prefaceSeen, c.ourSettingsSent, rfl⟩, fun f hf => absurd hf List.not_mem_nil⟩
  · cases hm : matchClientPreface input with
    | error =>
      rw [hm] at h
      subst h
      cases hopen _ rfl
    | incomplete =>
      rw [hm] at h
      subst h
      exact ⟨⟨c.prefaceSeen, c.ourSettingsSent, rfl⟩, fun f hf => absurd hf List.not_mem_nil⟩
    | complete =>
      rw [hm] at h
      subst h
      dsimp only [Sum.elim_inl, greet]
      split_ifs
      · exact ⟨⟨true, true, rfl⟩, fun f hf => ⟨_, List.mem_singleton.mp hf⟩⟩
      · exact ⟨⟨true, c.ourSettingsSent, rfl⟩, fun f hf => absurd hf List.not_mem_nil⟩

/-- Between two calls of `process`, the next call is greeted or the serving layer acts. -/
lemma idle_cases {c s a} (h : EngineStep cb serve (.idle c) a s) : (∃ cap input seen sent, a = .call cap input ∧
      s.conn = { c with prefaceSeen := seen, ourSettingsSent := sent } ∧
      ∀ f ∈ written cb ((.idle c, a) : Entry σ L), ∃ payload, f = .settings payload) ∨
    ∃ l, a = .serve l ∧ serve c l s.conn := by
  cases h with
  | call h =>
    obtain ⟨⟨seen, sent, hconn⟩, hout⟩ := startProcess_greets h (fun q hq => by cases hq)
    refine .inl ⟨_, _, seen, sent, rfl, hconn, ?_⟩
    rw [written, h]
    exact hout
  | wait h hopen =>
    obtain ⟨⟨seen, sent, hconn⟩, hout⟩ := startProcess_greets h (fun q hq => by cases hq; exact hopen)
    refine .inl ⟨_, _, seen, sent, rfl, hconn, ?_⟩
    rw [written, h]
    exact hout
  | serve h => exact .inr ⟨_, rfl, h⟩

/-! ## Calls of `process` are runs -/

lemma processStep_written {cap p r} (h : processStep cb cap p = r) (hopen : ∀ q, r = .inr q → q.status = .open) :
    r.elim (·.out) (·.out) = p.out ++ written cb ((.busy cap p, .turn) : Entry σ L) := by
  rw [written, ← List.append_assoc]
  obtain ⟨ht, rfl⟩ | ⟨hd, payload, rest, ht, -, rfl⟩ := processStep_cases h hopen
  · rw [turnFrame_wait ht]
    exact (List.append_nil _).symm
  · rw [turnFrame_handle ht]
    rfl

/-- The turns of the frame loop from a state, at most `fuel` of them. -/
def turnTrace (cb : Callbacks σ) (L : Type) (cap : Option Nat) : Nat → Progress σ → List (Entry σ L)
  | 0, _ => []
  | fuel + 1, p => (.busy cap p, .turn) :: (processStep cb cap p).elim (turnTrace cb L cap fuel) fun _ => []

/-- The steps of a call of `process`. -/
def processTrace (cb : Callbacks σ) (L : Type) (cap : Option Nat) (c : Conn σ) (input : Str) : List (Entry σ L) :=
  (.idle c, .call cap input) ::
    (startProcess cap c input).elim (fun p => turnTrace cb L cap (p.rest.length + 1) p) fun _ => []

lemma turnTrace_run (serve : Conn σ → L → Conn σ → Prop) {cap fuel p q}
    (h : Lib.loop (processStep cb cap) fuel p = some q) (hopen : q.status = .open) :
    Lib.Trace (EngineStep cb serve) (.busy cap p) (turnTrace cb L cap fuel p) (.idle q.conn) ∧
      p.out ++ (turnTrace cb L cap fuel p).flatMap (written cb) = q.out := by
  induction fuel generalizing p with
  | zero => cases h
  | succ fuel ih =>
    rw [Lib.loop] at h
    rw [turnTrace, List.flatMap_cons, ← List.append_assoc]
    cases hp : processStep cb cap p with
    | inl p' =>
      rw [hp] at h
      obtain ⟨ht, hout⟩ := ih h
      rw [← processStep_written hp fun q hq => by cases hq]
      exact ⟨(Lib.Trace.single (.turn hp)).trans ht, hout⟩
    | inr q' =>
      rw [hp] at h
      cases h
      rw [← processStep_written hp fun q hq => by cases hq; exact hopen]
      exact ⟨.single (.return hp hopen), List.append_nil _⟩

/-- A call of `process` that reports no connection error is a run of the engine, and its output is what the run
writes. -/
theorem process_run (serve : Conn σ → L → Conn σ → Prop) {cap : Option Nat} {c : Conn σ} {input : Str}
    {p : Progress σ} (h : process cb cap c input = some p) (hopen : p.status = .open) :
    EngineRun cb serve c (processTrace cb L cap c input) (.idle p.conn) ∧
      (processTrace cb L cap c input).flatMap (written cb) = p.out := by
  unfold process at h
  unfold processTrace
  rw [List.flatMap_cons, written]
  cases hs : startProcess cap c input with
  | inl p₀ =>
    rw [hs] at h
    obtain ⟨ht, hout⟩ := turnTrace_run serve h hopen
    exact ⟨(Lib.Trace.single (.call hs)).trans ht, hout⟩
  | inr p₀ =>
    rw [hs] at h
    cases h
    exact ⟨.single (.wait hs hopen), List.append_nil _⟩

end Rut.Http2
