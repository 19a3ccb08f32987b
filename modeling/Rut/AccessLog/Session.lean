import Rut.AccessLog.Ring
import Rut.Lib.Trace

/-!
# A live access log session

Port of `SourceLiveAccessLogSession` (`src/runtime/access_log_live_writer.cc`) and of its producers
(`src/runtime/access_log_live_producer.cc`) as one transition system: each producer publishes and notifies; the writer
polls, drains the events and serves the rings in rounds; `finish` sets the stop flag, signals and joins. The steps are
the loads and stores of the shared state and the system calls, whose failures are the steps named `fail` and those whose
flag says so. An event is a level: it stays until it is read.

Formatting is a parameter: `line` gives the bytes of an entry, none where the source refuses it. `logs` and `written`
record what was published and what was committed.
-/

namespace Rut.AccessLog

open Lib

/-- Reasons for a failed session (`SourceLiveAccessLogFatalKind`). -/
inductive FatalKind where
  | notify
  | poll
  | write
  | protocol
  | ringFull
deriving DecidableEq

/-- A producer in `publish`: between two publications, with the pending entries it has loaded, with its entry stored, and
with its entry published. -/
inductive Producer (α : Type*) where
  | idle
  | loaded (a : α) (pending : UInt64)
  | stored (a : α)
  | notifying

def Producer.isIdle {α : Type*} : Producer α → Bool
  | .idle => true
  | _ => false

/-- The writer thread in `writer_run` and `service_round`. -/
inductive Writer (n : Nat) where
  | top
  | polled (data stop : Bool)
  | draining (stop : Bool)
  | visiting (start : Fin (n + 1)) (offset : Nat) (progressed : Bool)
  | copying (start : Fin (n + 1)) (offset : Nat) (position : UInt64)
  | writing (start : Fin (n + 1)) (offset : Nat) (position : UInt64) (rest : Str)
  | stopCheck
  | exited
deriving DecidableEq

def Writer.between {n : Nat} : Writer n → Bool
  | .copying .. | .writing .. => false
  | _ => true

inductive FinishStatus where
  | success
  | fatal
deriving DecidableEq

/-- The caller of `finish`. -/
inductive Finisher where
  | running
  | finishing
  | flagged
  | joining
  | finished (status : FinishStatus)
deriving DecidableEq

/-- A session with `n + 1` rings. -/
structure Session (n : Nat) (α : Type*) where
  rings : Fin (n + 1) → Ring α
  producers : Fin (n + 1) → Producer α := fun _ => .idle
  nextRing : Fin (n + 1) := 0
  dataEvent : Bool := false
  stopEvent : Bool := false
  stopRequested : Bool := false
  fatal : Option FatalKind := none
  writer : Writer n := .top
  finisher : Finisher := .running
  output : Str := []
  logs : Fin (n + 1) → List α
  written : List (Fin (n + 1) × α) := []

inductive Action (n : Nat) (α : Type*) where
  | load (i : Fin (n + 1)) (a : α)
  | store (i : Fin (n + 1))
  | publish (i : Fin (n + 1))
  | notify (i : Fin (n + 1)) (ok : Bool)
  | poll
  | drain
  | peek
  | copy
  | write (count : Nat)
  | commit
  | endRound
  | checkStop
  | fail (kind : FatalKind)
  | finish
  | setStop
  | signalStop (ok : Bool)
  | join (ok : Bool)

namespace Session

variable {n : Nat} {α : Type*} {s s' : Session n α} {line : α → Str}

def ringAt (start : Fin (n + 1)) (offset : Nat) : Fin (n + 1) := start + Fin.ofNat (n + 1) offset

/-- The first failure is kept (`publish_fatal`). -/
def publishFatal (s : Session n α) (kind : FatalKind) : Session n α := { s with fatal := s.fatal.or (some kind) }

def setRing (s : Session n α) (i : Fin (n + 1)) (r : Ring α) : Session n α :=
  { s with rings := Function.update s.rings i r }

def setProducer (s : Session n α) (i : Fin (n + 1)) (p : Producer α) : Session n α :=
  { s with producers := Function.update s.producers i p }

@[simp] lemma setRing_self (s : Session n α) (i : Fin (n + 1)) (r : Ring α) : (s.setRing i r).rings i = r :=
  Function.update_self ..

lemma setRing_of_ne {i j : Fin (n + 1)} (h : j ≠ i) (s : Session n α) (r : Ring α) :
    (s.setRing i r).rings j = s.rings j := Function.update_of_ne h ..

@[simp] lemma setProducer_self (s : Session n α) (i : Fin (n + 1)) (p : Producer α) :
    (s.setProducer i p).producers i = p := Function.update_self ..

lemma setProducer_of_ne {i j : Fin (n + 1)} (h : j ≠ i) (s : Session n α) (p : Producer α) :
    (s.setProducer i p).producers j = s.producers j := Function.update_of_ne h ..

/-- The steps of `SourceLiveAccessLogProducer::publish` with `try_publish` and `notify`. -/
def producerStep (s : Session n α) (i : Fin (n + 1)) (a : Action n α) : Option (Session n α) :=
  match a, s.producers i with
  | .load _ a, .idle =>
    if s.finisher = .running ∧ s.fatal = none then some (s.setProducer i (.loaded a (s.rings i).pending)) else none
  | .store _, .loaded a pending =>
    match Ring.publishStatus pending with
    | .published => some ((s.setRing i ((s.rings i).storeEntry a)).setProducer i (.stored a))
    | .full => some ((s.setProducer i .idle).publishFatal .ringFull)
    | .invalidState => some ((s.setProducer i .idle).publishFatal .protocol)
  | .publish _, .stored a =>
    some { (s.setRing i (s.rings i).advance).setProducer i .notifying with
      logs := Function.update s.logs i (s.logs i ++ [a]) }
  | .notify _ ok, .notifying =>
    if s.fatal ≠ none then some (s.setProducer i .idle)
    else if ok then some { s.setProducer i .idle with dataEvent := true }
    else some ((s.setProducer i .idle).publishFatal .notify)
  | _, _ => none

/-- The loop of `writer_run` around the rounds. -/
def writerStep (s : Session n α) (a : Action n α) : Option (Session n α) :=
  match a, s.writer with
  | .poll, .top =>
    if s.dataEvent ∨ s.stopEvent then some { s with writer := .polled s.dataEvent s.stopEvent } else none
  | .drain, .polled data stop =>
    if data ∧ s.dataEvent then some { s with dataEvent := false } else some { s with writer := .draining stop }
  | .drain, .draining stop =>
    if stop ∧ s.stopEvent then some { s with stopEvent := false }
    else some { s with writer := .visiting s.nextRing 0 false }
  | .endRound, .visiting start offset progressed =>
    if offset ≤ n then none
    else some { s with
      nextRing := start + 1
      writer := if progressed then .visiting (start + 1) 0 false else .stopCheck }
  | .checkStop, .stopCheck => some { s with writer := if s.stopRequested then .exited else .top }
  | .fail kind, w => if w = .exited then none else some ({ s with writer := .exited }.publishFatal kind)
  | _, _ => none

/-- One visit of a ring in `service_round`, with `write_record`. -/
def visitStep (line : α → Str) (s : Session n α) (a : Action n α) : Option (Session n α) :=
  match a, s.writer with
  | .peek, .visiting start offset progressed =>
    if offset ≤ n then
      match (s.rings (ringAt start offset)).peek with
      | none => some { s with writer := .visiting start (offset + 1) progressed }
      | some position => some { s with writer := .copying start offset position }
    else none
  | .copy, .copying start offset position =>
    let bytes := line ((s.rings (ringAt start offset)).entries (slot position))
    if bytes = [] then some ({ s with writer := .exited }.publishFatal .protocol)
    else some { s with writer := .writing start offset position bytes }
  | .write count, .writing start offset position rest =>
    if 0 < count ∧ count ≤ rest.length then
      some { s with
        output := s.output ++ rest.take count
        writer := .writing start offset position (rest.drop count) }
    else none
  | .commit, .writing start offset position [] =>
    let i := ringAt start offset
    match (s.rings i).commit position with
    | none => some ({ s with writer := .exited }.publishFatal .protocol)
    | some r =>
      some { s.setRing i r with
        writer := .visiting start (offset + 1) true
        written := s.written ++ [(i, (s.rings i).entries (slot position))] }
  | _, _ => none

/-- The steps of `finish`. It is called when no producer is active. -/
def finishStep (s : Session n α) (a : Action n α) : Option (Session n α) :=
  match a, s.finisher with
  | .finish, .running =>
    if ∀ i, (s.producers i).isIdle = true then some { s with finisher := .finishing } else none
  | .setStop, .finishing => some { s with stopRequested := true, finisher := .flagged }
  | .signalStop ok, .flagged =>
    if ok then some { s with stopEvent := true, finisher := .joining }
    else some ({ s with dataEvent := true, finisher := .joining }.publishFatal .notify)
  | .join ok, .joining =>
    if s.writer = .exited then
      let s := if ok then s else s.publishFatal .protocol
      some { s with finisher := .finished (if s.fatal = none then .success else .fatal) }
    else none
  | _, _ => none

def step (line : α → Str) (s : Session n α) (a : Action n α) : Option (Session n α) :=
  match a with
  | .load i _ | .store i | .publish i | .notify i _ => s.producerStep i a
  | .poll | .drain | .endRound | .checkStop | .fail _ => s.writerStep a
  | .peek | .copy | .write _ | .commit => s.visitStep line a
  | .finish | .setStop | .signalStop _ | .join _ => s.finishStep a

def Step (line : α → Str) (s : Session n α) (a : Action n α) (s' : Session n α) : Prop := s.step line a = some s'

/-- A session that `start` has just set up: the rings hold entries that are still pending. -/
structure Started (s : Session n α) : Prop where
  rings : ∀ i, (s.rings i).Holds (s.logs i)
  producers : ∀ i, s.producers i = .idle
  stopRequested : s.stopRequested = false
  fatal : s.fatal = none
  writer : s.writer = .top
  finisher : s.finisher = .running
  output : s.output = []
  written : s.written = []

def writtenOf (s : Session n α) (i : Fin (n + 1)) : List α := (s.written.filter fun x => x.1 = i).map Prod.snd

/-- Every published entry is written and committed, once and in the order of its ring. -/
structure Drained (line : α → Str) (s : Session n α) : Prop where
  written : ∀ i, s.writtenOf i = s.logs i
  output : s.output = s.written.flatMap fun x => line x.2
  committed : ∀ i, (s.rings i).committedPos = (s.rings i).publishedPos

end Session

end Rut.AccessLog
