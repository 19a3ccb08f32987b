import Rut.Ws.Simulation

/-!
# Segmentation and drains

A direction of a tunnel receives its stream in pieces and is inspected now and then, each time with an empty output that
is drained before the next call. What the handler is called with, what is written and how the run ends do not depend on
the pieces nor on the moments of the calls.
-/

set_option linter.all false
namespace Rut.Ws

open Lib (Memory.read Memory.write)
open Incremental

variable {D : Type} {t : Tunnel D} {st : WsInspector D} {e e' : Engine D} {m : Assembly} {msg : Buffer}
  {before p : Str} {as : List Frame} {ws : List Event} {all : Str}

structure Splits (t : Tunnel D) (all : Str) (fs : List Frame) (rest : Str) : Prop where
  eq : all = wires fs ++ rest
  wellFormed : ∀ f ∈ fs, f.WellFormed t.masked false

lemma inspected_wire {f} {s r : Str} (h : inspected t m s = .done f r) :
    f.WellFormed t.masked false ∧ s = f.wire ++ r := by
  refine readFrame_iff.mp ?_
  obtain ⟨hd, r', hparse, h⟩ := Reader.bind_eq_done.mp h
  split_ifs at h
  · cases h
  · exact Reader.bind_eq_done.mpr ⟨hd, r', hparse, h⟩

lemma Splits.read {f} {s r : Str} (hs : Splits t all as s) (h : inspected t m s = .done f r) :
    Splits t all (as ++ [f]) r := by
  obtain ⟨hf, rfl⟩ := inspected_wire h
  refine ⟨?_, fun g hg => ?_⟩
  · rw [hs.eq, wires_append, wires_singleton, List.append_assoc]
  · rcases List.mem_append.mp hg with hg | hg
    · exact hs.wellFormed g hg
    · rw [List.mem_singleton.mp hg]
      exact hf

/-- How far a call has come on the stream `all`, of which `rest` is still buffered. -/
inductive Reached (t : Tunnel D) (all : Str) (as : List Frame) (ws : List Event) (rest : Str) (st : WsInspector D)
    (msg : Buffer) : WsInspectStatus → Prop where
  | ok (m : Assembly) (before : Str) (ht : Tracks t st msg m before)
      (hres : (inspection t).Resumes {} all m (before ++ rest) as ws) (hs : Splits t all as (before ++ rest)) :
      Reached t all as ws rest st msg .ok
  | close (hend : (inspection t).Ended {} all as ws .close) (hs : Splits t all as rest) : Reached t all as ws rest st msg .close
  | error (r : Str) (hend : (inspection t).Ended {} all as ws .error) (hs : Splits t all as r) :
      Reached t all as ws rest st msg .error

lemma Does.trans {e'' ws'} (h : Does t e e' ws) (h' : Does t e' e'' ws') : Does t e e'' (ws ++ ws') := by
  obtain ⟨gs, hout, hwf, hgs⟩ := h.out
  obtain ⟨gs', hout', hwf', hgs'⟩ := h'.out
  refine ⟨?_, ⟨gs ++ gs', ?_, fun g hg => ?_, ?_⟩, h'.room ∘ h.room⟩
  · rw [h'.calls, h.calls, List.filterMap_append, List.append_assoc]
  · rw [hout', hout, wires_append, List.append_assoc]
  · rcases List.mem_append.mp hg with hg | hg
    · exact hwf g hg
    · exact hwf' g hg
  · rw [List.map_append, hgs, hgs', List.filterMap_append]

lemma inspectLoop_sim {fuel consumed} (ht : Tracks t e.st e.msg m before) (hcap : e.out.bytes.length ≤ t.out_cap)
    (hres : (inspection t).Resumes {} all m (before ++ p) as ws) (hs : Splits t all as (before ++ p)) (hfuel : p.length < fuel) :
    let r := inspectLoop t fuel e p consumed
    ∃ n as' ws', r.2.1 = consumed + n ∧ Does t e r.2.2 ws' ∧
      Reached t all (as ++ as') (ws ++ ws') (p.drop n) r.2.2.st r.2.2.msg r.1 ∧
      (∀ i, t.msg_cap ≤ i → r.2.2.msg i = e.msg i) ∧
      (r.1 ≠ .error → (p.drop n).length < p.length ∨ (n = 0 ∧ r.1 = .ok ∧ ws' = [] ∧
        (e.out.bytes = [] → ¬ frameBuffered t e.st p ∧ inspected t m (before ++ p) = .stall ()))) := by
  induction fuel generalizing e m before p as ws consumed with
  | zero => exact absurd hfuel (Nat.not_lt_zero _)
  | succ fuel ih =>
    obtain ⟨hsim, hmsg⟩ := turn_sim ht hcap p
    unfold inspectLoop
    generalize turn t e p = r at hsim hmsg
    obtain ⟨flow, n, e'⟩ := r
    dsimp only at hsim hmsg
    cases hsim with
    | stops hflow hdoes hn ht' hwait =>
      subst hflow
      have hsplit : before ++ p = before ++ p.take n ++ p.drop n := by rw [List.append_assoc, List.take_append_drop]
      refine ⟨n, [], [], rfl, hdoes, ?_, hmsg, fun _ => ?_⟩
      · rw [List.append_nil, List.append_nil]
        exact .ok m _ ht' (hsplit ▸ hres) (hsplit ▸ hs)
      · rcases Nat.eq_zero_or_pos n with hzero | hpos
        · exact .inr ⟨hzero, rfl, rfl, hwait⟩
        · refine .inl ?_
          rw [List.length_drop]
          omega
    | fails hflow hdoes hread =>
      subst hflow
      refine ⟨n, [], [], rfl, hdoes, ?_, hmsg, fun hne => absurd rfl hne⟩
      rw [List.append_nil, List.append_nil]
      exact .error _ (hres.fail hread) hs
    | reads f r hread hdoes hflow hn ht' =>
      have hs' := hs.read hread
      generalize hact : inspects t m f = act at hdoes hflow ht'
      obtain ⟨w, next⟩ := act
      rcases next with m' | status
      · -- the machine goes on with the next frame
        have hnext : flow = .next := hflow
        subst hnext
        obtain ⟨rfl, hlt⟩ := hn nofun
        obtain ⟨n', as', ws', hcount, hdoes', hreached, hmsg', -⟩ := @ih e' m' [] (p.drop n) _ _ (consumed + n) (ht' m' rfl)
          (hdoes.room hcap) (hres.step hread hact) hs' (by omega)
        refine ⟨n + n', [f] ++ as', w ++ ws', by rw [← Nat.add_assoc]; exact hcount, hdoes.trans hdoes', ?_, ?_, ?_⟩
        · rw [← List.append_assoc, ← List.append_assoc, ← List.drop_drop]
          exact hreached
        · exact fun i hi => (hmsg' i hi).trans (hmsg i hi)
        · intro _
          refine .inl (Nat.lt_of_le_of_lt ?_ hlt)
          rw [← List.drop_drop, List.length_drop]
          exact Nat.sub_le ..
      · have hend := hres.last hread hact
        cases status with
        | ok => exact absurd hflow id
        | close =>
          have hclose : flow = .close := hflow
          subst hclose
          obtain ⟨rfl, hlt⟩ := hn nofun
          exact ⟨n, [f], w, rfl, hdoes, .close hend hs', hmsg, fun _ => .inl hlt⟩
        | error =>
          have herror : flow = .error := hflow
          subst herror
          exact ⟨n, [f], w, rfl, hdoes, .error r hend hs', hmsg, fun hne => absurd rfl hne⟩

/-! ## Runs -/

/-- A direction of a tunnel: what is buffered of its stream and what came of it. The stream and the output so far are
kept beside these. -/
structure Leg (D : Type) where
  st : WsInspector D := {}
  msg : Buffer
  drawn : Nat := 0
  buffered : Str := []
  received : Str := []
  sent : Str := []
  calls : List (WsOpcode × Str) := []
  status : WsInspectStatus := .ok

inductive Act where
  | recv (chunk : Str)
  | inspect
deriving DecidableEq

namespace Leg

/-- A call of `ws_inspect` with what is buffered. -/
def call (t : Tunnel D) (l : Leg D) : WsInspectStatus × Nat × Engine D := ws_inspect t l.st l.msg l.drawn l.buffered

def step (t : Tunnel D) (l : Leg D) : Act → Leg D
  | .recv chunk => { l with buffered := l.buffered ++ chunk, received := l.received ++ chunk }
  | .inspect =>
    if l.status = .ok then
      let r := l.call t
      { l with
        st := r.2.2.st, msg := r.2.2.msg, drawn := r.2.2.out.drawn, buffered := l.buffered.drop r.2.1,
        sent := l.sent ++ r.2.2.out.bytes, calls := l.calls ++ r.2.2.calls, status := r.1 }
    else l

/-- A run from the beginning of the stream, with a message buffer of any contents. -/
def run (t : Tunnel D) (msg : Buffer) (acts : List Act) : Leg D := acts.foldl (step t) { msg := msg }

def Idle (t : Tunnel D) (l : Leg D) : Prop := (l.call t).2.1 = 0 ∧ (l.call t).2.2.out.bytes = []

def Complete (t : Tunnel D) (l : Leg D) : Prop := l.status ≠ .ok ∨ ((l.call t).1 = .ok ∧ l.Idle t)

end Leg

lemma Reached.feed {rest status} (h : Reached t all as ws rest st msg status) (c : Str) :
    Reached t (all ++ c) as ws (rest ++ c) st msg status := by
  have hsplit : ∀ {r}, Splits t all as r → Splits t (all ++ c) as (r ++ c) := by
    intro r hs
    refine ⟨?_, hs.wellFormed⟩
    rw [hs.eq, List.append_assoc]
  cases h with
  | ok m before ht hres hs =>
    refine .ok m before ht ?_ ?_
    · rw [← List.append_assoc]
      exact hres.feed c
    · rw [← List.append_assoc]
      exact hsplit hs
  | close hend hs => exact .close (hend.feed c) (hsplit hs)
  | error r hend hs => exact .error (r ++ c) (hend.feed c) (hsplit hs)

def Tunnel.Accepted (t : Tunnel D) : Prop :=
  t.close_policies.length ≤ kWsMaxClosePolicies ∧ t.forward_texts.length ≤ kWsMaxForwardTexts

def framesIn (masked : Bool) : Nat → Str → Option (List (WsOpcode × Str))
  | _, [] => some []
  | 0, _ :: _ => none
  | fuel + 1, b :: s =>
    match readFrame masked false (b :: s) with
    | .done f r => (framesIn masked fuel r).map ((f.opcode, f.payload) :: ·)
    | _ => none

def written (masked : Bool) (s : Str) : Option (List (WsOpcode × Str)) := framesIn masked s.length s

lemma framesIn_wires {masked gs} (hwf : ∀ g ∈ gs, g.WellFormed masked false) {fuel} (hfuel : (wires gs).length ≤ fuel) :
    framesIn masked fuel (wires gs) = some (gs.map fun g => (g.opcode, g.payload)) := by
  induction gs generalizing fuel with
  | nil => cases fuel <;> rfl
  | cons g gs ih =>
    have hcons : wires (g :: gs) = g.wire ++ wires gs := rfl
    have hread := readFrame_iff.mpr ⟨hwf g (List.mem_cons_self ..), hcons⟩
    have hlen : (wires (g :: gs)).length = g.wire.length + (wires gs).length := by rw [hcons, List.length_append]
    obtain ⟨b, s, hbs⟩ : ∃ b s, g.wire = b :: s := ⟨_, _, rfl⟩
    rw [hbs, List.length_cons] at hlen
    obtain ⟨fuel, rfl⟩ : ∃ k, fuel = k + 1 := ⟨fuel - 1, by omega⟩
    rw [hcons, hbs, List.cons_append] at hread ⊢
    rw [framesIn, hread]
    dsimp only
    rw [ih (fun x hx => hwf x (List.mem_cons_of_mem _ hx)) (by omega), Option.map_some, List.map_cons]

structure RunSim (t : Tunnel D) (msg : Buffer) (l : Leg D) (as : List Frame) (ws : List Event) : Prop where
  reached : Reached t l.received as ws l.buffered l.st l.msg l.status
  calls : l.calls = ws.filterMap Event.call?
  sent : ∃ gs, l.sent = wires gs ∧ (∀ g ∈ gs, g.WellFormed t.masked false) ∧
    gs.map (fun g => (g.opcode, g.payload)) = ws.filterMap Event.frame?
  outside : ∀ i, t.msg_cap ≤ i → l.msg i = msg i

lemma call_sim (hacc : t.Accepted) {l : Leg D} (hr : Reached t l.received as ws l.buffered l.st l.msg .ok) :
    ∃ as' ws', Does t ⟨l.st, l.msg, ⟨[], l.drawn⟩, []⟩ (l.call t).2.2 ws' ∧
      Reached t l.received (as ++ as') (ws ++ ws') (l.buffered.drop (l.call t).2.1) (l.call t).2.2.st (l.call t).2.2.msg
        (l.call t).1 ∧ (∀ i, t.msg_cap ≤ i → (l.call t).2.2.msg i = l.msg i) ∧
      ((l.call t).1 ≠ .error → (l.buffered.drop (l.call t).2.1).length < l.buffered.length ∨
        (l.Idle t ∧ (l.call t).1 = .ok ∧ ¬ frameBuffered t l.st l.buffered ∧
          (inspection t).Answers {} l.received as ws none)) := by
  cases hr with
  | ok m before ht hres hs =>
    have hcall : l.call t = inspectLoop t (l.buffered.length + 2) ⟨l.st, l.msg, ⟨[], l.drawn⟩, []⟩ l.buffered 0 := by
      exact if_neg (by rintro (h | h) <;> [exact Nat.not_lt.mpr hacc.1 h; exact Nat.not_lt.mpr hacc.2 h])
    obtain ⟨n, as', ws', hn, hdoes, hreached, hmsg, hidle⟩ := @inspectLoop_sim D t ⟨l.st, l.msg, ⟨[], l.drawn⟩, []⟩ m
      before l.buffered as ws l.received (l.buffered.length + 2) 0 ht (Nat.zero_le _) hres hs (by omega)
    rw [← hcall] at hn hdoes hreached hmsg hidle
    rw [Nat.zero_add] at hn
    rw [← hn] at hreached hidle
    refine ⟨as', ws', hdoes, hreached, hmsg, fun hne => (hidle hne).imp_right ?_⟩
    rintro ⟨hzero, hok, rfl, hwait⟩
    obtain ⟨hno, hstall⟩ := hwait rfl
    obtain ⟨gs, hout, -, hgs⟩ := hdoes.out
    cases List.map_eq_nil_iff.mp hgs
    exact ⟨⟨hzero, hout⟩, hok, hno, hres.wait hstall⟩

namespace RunSim

variable {l : Leg D}

lemma init (t : Tunnel D) (msg : Buffer) : RunSim t msg { msg := msg } [] [] where
  reached := .ok {} [] (tracks_idle (framed_whole rfl rfl) rfl rfl rfl rfl rfl rfl) (.refl ..) ⟨rfl, nofun⟩
  calls := rfl
  sent := ⟨[], rfl, nofun, rfl⟩
  outside := fun _ _ => rfl

lemma step (hacc : t.Accepted) (h : RunSim t msg l as ws) (a : Act) :
    ∃ as' ws', RunSim t msg (l.step t a) (as ++ as') (ws ++ ws') := by
  cases a with
  | recv c =>
    refine ⟨[], [], ?_⟩
    rw [List.append_nil, List.append_nil]
    exact ⟨h.reached.feed c, h.calls, h.sent, h.outside⟩
  | inspect =>
    unfold Leg.step
    by_cases hok : l.status = .ok
    · rw [if_pos hok]
      obtain ⟨as', ws', hdoes, hreached, hmsg, -⟩ := call_sim hacc (hok ▸ h.reached)
      refine ⟨as', ws', hreached, ?_, ?_, fun i hi => (hmsg i hi).trans (h.outside i hi)⟩
      · rw [List.filterMap_append, ← h.calls]
        exact congrArg (l.calls ++ ·) hdoes.calls
      · obtain ⟨gs, hsent, hwf, hgs⟩ := h.sent
        obtain ⟨gs', hout, hwf', hgs'⟩ := hdoes.out
        refine ⟨gs ++ gs', ?_, fun g hg => (List.mem_append.mp hg).elim (hwf g) (hwf' g), ?_⟩
        · rw [wires_append, ← hsent]
          exact congrArg (l.sent ++ ·) hout
        · rw [List.map_append, hgs, hgs', List.filterMap_append]
    · rw [if_neg hok]
      exact ⟨[], [], by rwa [List.append_nil, List.append_nil]⟩

lemma written_eq (h : RunSim t msg l as ws) : written t.masked l.sent = some (ws.filterMap Event.frame?) := by
  obtain ⟨gs, hsent, hwf, hgs⟩ := h.sent
  rw [written, hsent, framesIn_wires hwf (Nat.le_refl _), hgs]

lemma answers (hacc : t.Accepted) (h : RunSim t msg l as ws) (hc : l.Complete t) :
    (inspection t).Answers {} l.received as ws (if l.status = .ok then none else some l.status) := by
  by_cases hok : l.status = .ok
  · obtain ⟨hcall, hzero, -⟩ := hc.resolve_left (not_not_intro hok)
    obtain ⟨-, -, -, -, -, hidle⟩ := call_sim hacc (hok ▸ h.reached)
    rw [hcall, hzero] at hidle
    rw [if_pos hok]
    exact ((hidle nofun).resolve_left (Nat.lt_irrefl _)).2.2.2
  · rw [if_neg hok]
    have hend : ∀ {v : WsInspectStatus}, (inspection t).Ended {} l.received as ws v →
        (inspection t).Answers {} l.received as ws (some v) := by
      intro v hv
      have hans := hv.answers []
      rwa [List.append_nil] at hans
    have hr := h.reached
    cases hstatus : l.status with
    | ok => exact absurd hstatus hok
    | close =>
      rw [hstatus] at hr
      cases hr with
      | close hv _ => exact hend hv
    | error =>
      rw [hstatus] at hr
      cases hr with
      | error _ hv _ => exact hend hv

end RunSim

namespace Leg

lemma run_concat (t : Tunnel D) (msg : Buffer) (acts : List Act) (a : Act) :
    run t msg (acts ++ [a]) = (run t msg acts).step t a := List.foldl_concat ..

lemma run_sim (hacc : t.Accepted) (msg : Buffer) (acts : List Act) : ∃ as ws, RunSim t msg (run t msg acts) as ws := by
  induction acts using List.reverseRecOn with
  | nil => exact ⟨[], [], .init t msg⟩
  | append_singleton acts a ih =>
    obtain ⟨as, ws, h⟩ := ih
    obtain ⟨as', ws', h'⟩ := h.step hacc a
    exact ⟨as ++ as', ws ++ ws', run_concat t msg acts a ▸ h'⟩

lemma call_of_not_accepted (hacc : ¬ t.Accepted) (l : Leg D) : l.call t = (.error, 0, ⟨l.st, l.msg, ⟨[], l.drawn⟩, []⟩) := by
  refine if_pos ?_
  by_contra h
  exact hacc ⟨Nat.not_lt.mp fun hlt => h (.inl hlt), Nat.not_lt.mp fun hlt => h (.inr hlt)⟩

lemma run_of_not_accepted (hacc : ¬ t.Accepted) (msg : Buffer) (acts : List Act) :
    ((run t msg acts).status = .ok ∧ RunSim t msg (run t msg acts) [] []) ∨
      ((run t msg acts).status = .error ∧ (run t msg acts).calls = [] ∧ (run t msg acts).sent = [] ∧
        ∀ i, t.msg_cap ≤ i → (run t msg acts).msg i = msg i) := by
  induction acts using List.reverseRecOn with
  | nil => exact .inl ⟨rfl, .init t msg⟩
  | append_singleton acts a ih =>
    rw [run_concat]
    cases a with
    | recv c => exact ih.imp_left fun ⟨hok, h⟩ => ⟨hok, h.reached.feed c, h.calls, h.sent, h.outside⟩
    | inspect =>
      unfold step
      rcases ih with ⟨hok, h⟩ | hfail
      · rw [if_pos hok, call_of_not_accepted hacc]
        refine .inr ⟨rfl, ?_, ?_, h.outside⟩
        · rw [h.calls]
          rfl
        · obtain ⟨gs, hsent, -, hgs⟩ := h.sent
          cases List.map_eq_nil_iff.mp hgs
          rw [hsent]
          rfl
      · rw [if_neg (by rw [hfail.1]; exact nofun)]
        exact .inr hfail

lemma Complete.not_accepted (hacc : ¬ t.Accepted) {msg acts} (hc : (run t msg acts).Complete t) :
    (run t msg acts).status = .error ∧ (run t msg acts).calls = [] ∧ (run t msg acts).sent = [] := by
  rcases run_of_not_accepted hacc msg acts with ⟨hok, -⟩ | ⟨hfail, hcalls, hsent, -⟩
  · obtain ⟨hcall, -⟩ := hc.resolve_left (not_not_intro hok)
    rw [call_of_not_accepted hacc] at hcall
    cases hcall
  · exact ⟨hfail, hcalls, hsent⟩

lemma call_progress (msg : Buffer) (acts : List Act) :
    let l := run t msg acts
    l.status = .ok → (l.call t).1 ≠ .error → (l.buffered.drop (l.call t).2.1).length < l.buffered.length ∨
      (l.Idle t ∧ (l.call t).1 = .ok ∧ ¬ frameBuffered t l.st l.buffered) := by
  intro l hok hne
  by_cases hacc : t.Accepted
  · obtain ⟨as, ws, h⟩ := run_sim hacc msg acts
    obtain ⟨-, -, -, -, -, hidle⟩ := call_sim hacc (hok ▸ h.reached)
    exact (hidle hne).imp_right fun ⟨hi, hcall, hno, _⟩ => ⟨hi, hcall, hno⟩
  · rw [call_of_not_accepted hacc] at hne
    exact absurd rfl hne

lemma complete_of_calls (msg : Buffer) (acts : List Act) : ∃ n, (run t msg (acts ++ List.replicate n .inspect)).Complete t := by
  generalize hk : (run t msg acts).buffered.length = k
  induction k using Nat.strong_induction_on generalizing acts with
  | _ k ih =>
    by_cases hc : (run t msg acts).Complete t
    · exact ⟨0, by rwa [List.replicate_zero, List.append_nil]⟩
    have hok : (run t msg acts).status = .ok := by
      by_contra hne
      exact hc (.inl hne)
    have hstep : run t msg (acts ++ [.inspect]) = (run t msg acts).step t .inspect := run_concat ..
    by_cases hfail : ((run t msg acts).call t).1 = .error
    · refine ⟨1, .inl ?_⟩
      show (run t msg (acts ++ [.inspect])).status ≠ .ok
      rw [hstep, step, if_pos hok]
      dsimp only
      rw [hfail]
      exact nofun
    · rcases call_progress msg acts hok hfail with hlt | ⟨hidle, hcall, -⟩
      · have hbuf : (run t msg (acts ++ [.inspect])).buffered =
            (run t msg acts).buffered.drop ((run t msg acts).call t).2.1 := by
          rw [hstep, step, if_pos hok]
        obtain ⟨n, hn⟩ := ih _ (hk ▸ hlt) (acts ++ [.inspect]) (by rw [hbuf])
        refine ⟨n + 1, ?_⟩
        rwa [List.append_assoc] at hn
      · exact absurd (.inr ⟨hcall, hidle⟩) hc

end Leg

/-- Segmentation and drains: the calls of the handler, the frames that are written and the end of a run are the same for
all runs on a stream that have come as far as they can; a call that takes nothing and writes nothing has failed or has no
whole frame; and every run comes as far as it can by calls. -/
theorem inspect_invariant (t : Tunnel D) :
    (∀ msg msg' acts acts', (Leg.run t msg acts).received = (Leg.run t msg' acts').received →
      (Leg.run t msg acts).Complete t → (Leg.run t msg' acts').Complete t →
      (Leg.run t msg acts).calls = (Leg.run t msg' acts').calls ∧
      (∃ frames, written t.masked (Leg.run t msg acts).sent = some frames ∧
        written t.masked (Leg.run t msg' acts').sent = some frames) ∧
      (Leg.run t msg acts).status = (Leg.run t msg' acts').status) ∧
    (∀ msg acts, (Leg.run t msg acts).status = .ok → (Leg.run t msg acts).Idle t →
      ((Leg.run t msg acts).call t).1 = .error ∨
        ¬ frameBuffered t (Leg.run t msg acts).st (Leg.run t msg acts).buffered) ∧
    ∀ msg acts, ∃ n, (Leg.run t msg (acts ++ List.replicate n .inspect)).Complete t := by
  refine ⟨?_, ?_, Leg.complete_of_calls⟩
  · intro msg msg' acts acts' hsame hc hc'
    by_cases hacc : t.Accepted
    · obtain ⟨as, ws, h⟩ := Leg.run_sim hacc msg acts
      obtain ⟨as', ws', h'⟩ := Leg.run_sim hacc msg' acts'
      have hans := h.answers hacc hc
      rw [hsame] at hans
      obtain ⟨rfl, rfl, hstatus⟩ := hans.unique (h'.answers hacc hc')
      refine ⟨h.calls.trans h'.calls.symm, ⟨_, h.written_eq, h'.written_eq⟩, ?_⟩
      split_ifs at hstatus with hok hok' hok'
      · rw [hok, hok']
      · exact Option.some.inj hstatus
    · obtain ⟨hfail, hcalls, hsent⟩ := hc.not_accepted hacc
      obtain ⟨hfail', hcalls', hsent'⟩ := hc'.not_accepted hacc
      exact ⟨hcalls.trans hcalls'.symm, ⟨[], by rw [hsent]; rfl, by rw [hsent']; rfl⟩, hfail.trans hfail'.symm⟩
  · intro msg acts hok hidle
    by_cases hfail : ((Leg.run t msg acts).call t).1 = .error
    · exact .inl hfail
    · have hprogress := Leg.call_progress msg acts hok hfail
      rw [hidle.1, List.drop_zero] at hprogress
      exact .inr (hprogress.resolve_left (Nat.lt_irrefl _)).2.2

def relay : Tunnel Unit where
  out_cap := 64
  msg_cap := 16
  out_cap_lt := by decide
  msg_cap_lt := by decide
  handler := fun _ _ _ => (.forward, {})
  keys := fun _ => .zero
  json := ⟨fun _ _ => none, fun _ _ => none, fun _ _ => none, nofun, nofun, nofun⟩
  deflate := ⟨fun _ _ => none, fun _ _ _ _ _ => none, fun _ _ _ => none⟩

/-- A text in two frames with a Ping between them, at once or cut within the first payload and the second header. -/
theorem relay_invariant :
    (Leg.run relay (fun _ => 0)
      [.recv [0x01, 0x02, 0x68, 0x69, 0x89, 0x00, 0x80, 0x01, 0x21], .inspect, .inspect]).calls = [(.text, [0x68, 0x69, 0x21])] ∧
    (Leg.run relay (fun _ => 7)
      [.recv [0x01, 0x02, 0x68], .inspect, .recv [0x69, 0x89, 0x00], .inspect, .inspect, .recv [0x80], .inspect,
        .recv [0x01, 0x21], .inspect]).calls = [(.text, [0x68, 0x69, 0x21])] := by
  have hfirst : (Leg.run relay (fun _ => 0)
      [.recv [0x01, 0x02, 0x68, 0x69, 0x89, 0x00, 0x80, 0x01, 0x21], .inspect, .inspect]).calls =
        [(.text, [0x68, 0x69, 0x21])] := by decide +kernel
  refine ⟨hfirst, ?_⟩
  rw [← hfirst]
  refine ((inspect_invariant relay).1 _ _ _ _ ?_ (.inr ?_) (.inr ?_)).1
  · decide +kernel
  · unfold Leg.Idle
    decide +kernel
  · unfold Leg.Idle
    decide +kernel

/-- A continuation frame with nothing to continue: the call fails with the whole frame before it and all the room, and
neither takes nor writes anything. -/
theorem stray_continuation_idle :
    let l := Leg.run relay (fun _ => 0) [.recv [0x80, 0x00]]
    l.status = .ok ∧ l.Idle relay ∧ frameBuffered relay l.st l.buffered ∧
      (∀ h r, l.st.header relay l.buffered = .done h r → needed relay l.st h (l.st.frameTotal h) ≤ relay.out_cap) ∧
      (l.call relay).1 = .error := by
  intro l
  have hheader : l.st.header relay l.buffered = .done ⟨true, false, .continuation, .zero, 0, 2, false⟩ [] := by decide +kernel
  refine ⟨rfl, ?_, ⟨_, _, hheader, by decide +kernel⟩, ?_, by decide +kernel⟩
  · unfold Leg.Idle
    decide +kernel
  · intro h r hh
    cases hh
    decide +kernel

end Rut.Ws
