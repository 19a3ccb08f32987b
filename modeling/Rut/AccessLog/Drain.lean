import Rut.AccessLog.Session

/-!
# What a finished session has written

In every run the written lines are those of the committed entries, and the entries of a ring are committed in the order
in which they were published. What a session that finishes successfully has left in its rings depends on where the writer
stands when the stop flag is set: its last round may have passed a ring that was filled since.
-/

namespace Rut.AccessLog.Session

open Lib

variable {n : Nat} {α : Type*} {s s' : Session n α} {line : α → Str} {q : Fin (n + 1) → List α}

def lines (line : α → Str) (s : Session n α) : Str := s.written.flatMap fun x => line x.2

def ProducerOk (r : Ring α) (q : List α) : Producer α → Prop
  | .idle => True
  | .loaded _ pending => q.length ≤ pending.toNat
  | .stored a => q.length < kCapacity ∧ r.entries (slot r.publishedPos) = a
  | .notifying => True

def WriterOk (line : α → Str) (s : Session n α) (q : Fin (n + 1) → List α) : Prop :=
  match s.writer with
  | .copying start offset position =>
    s.output = s.lines line ∧ position = (s.rings (ringAt start offset)).committedPos ∧ q (ringAt start offset) ≠ []
  | .writing start offset position rest =>
    position = (s.rings (ringAt start offset)).committedPos ∧
      ∃ a t done, q (ringAt start offset) = a :: t ∧ done ++ rest = line a ∧ s.output = s.lines line ++ done
  | .exited => s.fatal = none → s.output = s.lines line
  | _ => s.output = s.lines line

structure Inv (line : α → Str) (s : Session n α) (q : Fin (n + 1) → List α) : Prop where
  logs : ∀ i, s.logs i = s.writtenOf i ++ q i
  rings : ∀ i, (s.rings i).Holds (q i)
  producers : ∀ i, ProducerOk (s.rings i) (q i) (s.producers i)
  writer : WriterOk line s q

lemma Inv.congr (h : Inv line s q) (hrings : s'.rings = s.rings) (hlogs : s'.logs = s.logs)
    (hwritten : s'.written = s.written) (hp : ∀ i, ProducerOk (s.rings i) (q i) (s'.producers i))
    (hw : WriterOk line s' q) : Inv line s' q := by
  refine ⟨fun i => ?_, fun i => ?_, fun i => ?_, hw⟩
  · rw [hlogs, writtenOf, hwritten]
    exact h.logs i
  · rw [hrings]
    exact h.rings i
  · rw [hrings]
    exact hp i

lemma WriterOk.congr (h : WriterOk line s q) (hw : s'.writer = s.writer) (ho : s'.output = s.output)
    (hwritten : s'.written = s.written) (hf : s'.fatal = none → s.fatal = none)
    (hr : ∀ i, (s'.rings i).committedPos = (s.rings i).committedPos) : WriterOk line s' q := by
  unfold WriterOk at h ⊢
  rw [hw, ho, lines, hwritten]
  cases hs : s.writer with
  | copying start offset position =>
    rw [hs] at h
    simp only at h ⊢
    rw [hr]
    exact h
  | writing start offset position rest =>
    rw [hs] at h
    simp only at h ⊢
    rw [hr]
    exact h
  | exited =>
    rw [hs] at h
    exact fun hn => h (hf hn)
  | top => rw [hs] at h; exact h
  | polled data stop => rw [hs] at h; exact h
  | draining stop => rw [hs] at h; exact h
  | visiting start offset progressed => rw [hs] at h; exact h
  | stopCheck => rw [hs] at h; exact h

lemma Inv.producer {i p} (h : Inv line s q) (hp : ProducerOk (s.rings i) (q i) p)
    (hs : s'.rings = s.rings ∧ s'.logs = s.logs ∧ s'.written = s.written ∧ s'.writer = s.writer ∧
      s'.output = s.output ∧ s'.producers = (s.setProducer i p).producers ∧ (s'.fatal = none → s.fatal = none)) :
    Inv line s' q := by
  obtain ⟨hrings, hlogs, hwritten, hw, ho, hprod, hf⟩ := hs
  refine h.congr hrings hlogs hwritten (fun j => ?_) (h.writer.congr hw ho hwritten hf fun j => by rw [hrings])
  rw [hprod]
  by_cases hj : j = i
  · subst hj
    rw [setProducer_self]
    exact hp
  · rw [setProducer_of_ne hj]
    exact h.producers j

lemma publishFatal_fatal (s : Session n α) (k : FatalKind) : (s.publishFatal k).fatal ≠ none := by
  cases hf : s.fatal <;> simp [publishFatal, hf]

lemma Inv.store {i a} (h : Inv line s q) (hroom : (q i).length < kCapacity) :
    Inv line ((s.setRing i ((s.rings i).storeEntry a)).setProducer i (.stored a)) q := by
  have hring : ∀ j, ((s.setRing i ((s.rings i).storeEntry a)).setProducer i (.stored a)).rings j =
      if j = i then (s.rings i).storeEntry a else s.rings j := fun j => Function.update_apply ..
  refine ⟨h.logs, fun j => ?_, fun j => ?_, h.writer.congr rfl rfl rfl id fun j => ?_⟩
  · rw [hring]
    split_ifs with hj
    · exact hj ▸ (h.rings i).storeEntry hroom a
    · exact h.rings j
  · rw [hring]
    split_ifs with hj
    · subst hj
      rw [setProducer_self]
      exact ⟨hroom, Function.update_self ..⟩
    · rw [setProducer_of_ne hj]
      exact h.producers j
  · rw [hring]
    split_ifs with hj
    · rw [hj]
      rfl
    · rfl

lemma WriterOk.append {q'} (h : WriterOk line s q) (hq : ∀ i, q i <+: q' i) : WriterOk line s q' := by
  unfold WriterOk at h ⊢
  cases hs : s.writer with
  | copying start offset position =>
    rw [hs] at h
    exact ⟨h.1, h.2.1, fun hnil => h.2.2 (List.prefix_nil.mp (hnil ▸ hq _))⟩
  | writing start offset position rest =>
    rw [hs] at h
    obtain ⟨hpos, a, t, done, hqa, hl, ho⟩ := h
    obtain ⟨u, hu⟩ := hq (ringAt start offset)
    rw [hqa] at hu
    exact ⟨hpos, a, t ++ u, done, hu.symm, hl, ho⟩
  | exited => rw [hs] at h; exact h
  | top => rw [hs] at h; exact h
  | polled data stop => rw [hs] at h; exact h
  | draining stop => rw [hs] at h; exact h
  | visiting start offset progressed => rw [hs] at h; exact h
  | stopCheck => rw [hs] at h; exact h

lemma Inv.publish {i a} (h : Inv line s q) (hp : s.producers i = .stored a) :
    Inv line { (s.setRing i (s.rings i).advance).setProducer i .notifying with
      logs := Function.update s.logs i (s.logs i ++ [a]) } (Function.update q i (q i ++ [a])) := by
  have hstored := h.producers i
  rw [hp] at hstored
  have hring : ∀ j, (s.setRing i (s.rings i).advance).rings j = if j = i then (s.rings i).advance else s.rings j :=
    fun j => Function.update_apply ..
  have hkept : WriterOk line { (s.setRing i (s.rings i).advance).setProducer i .notifying with
      logs := Function.update s.logs i (s.logs i ++ [a]) } q := by
    refine h.writer.congr rfl rfl rfl id fun j => ?_
    change ((s.setRing i (s.rings i).advance).rings j).committedPos = _
    rw [hring]
    split_ifs with hj
    · rw [hj]
      rfl
    · rfl
  refine ⟨fun j => ?_, fun j => ?_, fun j => ?_, hkept.append fun j => ?_⟩
  · change Function.update s.logs i (s.logs i ++ [a]) j = s.writtenOf j ++ _
    rw [Function.update_apply, Function.update_apply]
    split_ifs with hj
    · rw [hj, h.logs i, List.append_assoc]
    · exact h.logs j
  · change ((s.setRing i (s.rings i).advance).rings j).Holds _
    rw [hring, Function.update_apply]
    split_ifs with hj
    · exact (h.rings i).advance hstored.1 hstored.2
    · exact h.rings j
  · change ProducerOk ((s.setRing i (s.rings i).advance).rings j) _
      (((s.setRing i (s.rings i).advance).setProducer i .notifying).producers j)
    by_cases hj : j = i
    · subst hj
      rw [setProducer_self]
      trivial
    · rw [setProducer_of_ne hj, setRing_of_ne hj, Function.update_of_ne hj]
      exact h.producers j
  · rw [Function.update_apply]
    split_ifs with hj
    · rw [hj]
      exact List.prefix_append ..
    · exact List.prefix_rfl

lemma Inv.producerStep {i a} (h : Inv line s q) (hs : s.producerStep i a = some s') : ∃ q', Inv line s' q' := by
  have hi := h.producers i
  unfold Session.producerStep at hs
  split at hs
  · -- load
    split_ifs at hs
    cases hs
    refine ⟨q, h.producer (i := i) (p := .loaded _ (s.rings i).pending) ?_ ⟨rfl, rfl, rfl, rfl, rfl, rfl, id⟩⟩
    exact (h.rings i).pending_toNat.ge
  · -- store
    rename_i a pending hp
    rw [hp] at hi
    split at hs
    · rename_i hst
      cases hs
      exact ⟨q, h.store (lt_of_le_of_lt hi (Ring.room_of_publishStatus hst))⟩
    · cases hs
      exact ⟨q, h.producer (i := i) (p := .idle) trivial
        ⟨rfl, rfl, rfl, rfl, rfl, rfl, fun hn => absurd hn (publishFatal_fatal _ _)⟩⟩
    · cases hs
      exact ⟨q, h.producer (i := i) (p := .idle) trivial
        ⟨rfl, rfl, rfl, rfl, rfl, rfl, fun hn => absurd hn (publishFatal_fatal _ _)⟩⟩
  · -- publish
    rename_i a hp
    cases hs
    exact ⟨_, h.publish hp⟩
  · -- notify
    split_ifs at hs with hf hok
    · cases hs
      exact ⟨q, h.producer (i := i) (p := .idle) trivial ⟨rfl, rfl, rfl, rfl, rfl, rfl, id⟩⟩
    · cases hs
      exact ⟨q, h.producer (i := i) (p := .idle) trivial ⟨rfl, rfl, rfl, rfl, rfl, rfl, id⟩⟩
    · cases hs
      exact ⟨q, h.producer (i := i) (p := .idle) trivial
        ⟨rfl, rfl, rfl, rfl, rfl, rfl, fun hn => absurd hn (publishFatal_fatal _ _)⟩⟩
  · cases hs

lemma Inv.moved (h : Inv line s q) (ho : s.output = s.lines line)
    (hs : s'.rings = s.rings ∧ s'.logs = s.logs ∧ s'.written = s.written ∧ s'.output = s.output ∧
      s'.producers = s.producers) (hw : s'.writer.between = true) : Inv line s' q := by
  obtain ⟨hrings, hlogs, hwritten, hout, hprod⟩ := hs
  have hlines : s'.output = s'.lines line := by rw [hout, ho, lines, lines, hwritten]
  refine h.congr hrings hlogs hwritten (fun j => hprod ▸ h.producers j) ?_
  unfold WriterOk
  cases hs' : s'.writer with
  | copying start offset position => rw [hs'] at hw; cases hw
  | writing start offset position rest => rw [hs'] at hw; cases hw
  | exited => exact fun _ => hlines
  | top => exact hlines
  | polled data stop => exact hlines
  | draining stop => exact hlines
  | visiting start offset progressed => exact hlines
  | stopCheck => exact hlines

lemma Inv.failed (h : Inv line s q) (k : FatalKind) : Inv line ({ s with writer := .exited }.publishFatal k) q := by
  refine h.congr rfl rfl rfl h.producers ?_
  exact fun hn => absurd hn (publishFatal_fatal _ _)

lemma Inv.writerStep {a} (h : Inv line s q) (hs : s.writerStep a = some s') : Inv line s' q := by
  have hw := h.writer
  unfold WriterOk at hw
  unfold Session.writerStep at hs
  split at hs
  · -- poll
    rename_i hp
    rw [hp] at hw
    split_ifs at hs
    cases hs
    exact h.moved hw ⟨rfl, rfl, rfl, rfl, rfl⟩ rfl
  · -- drain the data event
    rename_i data stop hp
    rw [hp] at hw
    split_ifs at hs
    · cases hs
      exact h.congr rfl rfl rfl h.producers (h.writer.congr rfl rfl rfl id fun _ => rfl)
    · cases hs
      exact h.moved hw ⟨rfl, rfl, rfl, rfl, rfl⟩ rfl
  · -- drain the stop event
    rename_i stop hp
    rw [hp] at hw
    split_ifs at hs
    · cases hs
      exact h.congr rfl rfl rfl h.producers (h.writer.congr rfl rfl rfl id fun _ => rfl)
    · cases hs
      exact h.moved hw ⟨rfl, rfl, rfl, rfl, rfl⟩ rfl
  · -- end of a round
    rename_i start offset progressed hp
    rw [hp] at hw
    split_ifs at hs with hle hpr
    · cases hs
      exact h.moved hw ⟨rfl, rfl, rfl, rfl, rfl⟩ rfl
    · cases hs
      exact h.moved hw ⟨rfl, rfl, rfl, rfl, rfl⟩ rfl
  · -- the stop check
    rename_i hp
    rw [hp] at hw
    cases hs
    refine h.moved hw ⟨rfl, rfl, rfl, rfl, rfl⟩ ?_
    split_ifs <;> rfl
  · -- a failure
    split_ifs at hs
    cases hs
    exact h.failed _
  · cases hs

lemma writtenOf_append {i j : Fin (n + 1)} {a : α} {w} : ((w ++ [(i, a)]).filter fun x => x.1 = j).map Prod.snd =
      (w.filter fun x => x.1 = j).map Prod.snd ++ if j = i then [a] else [] := by
  by_cases hj : j = i
  · simp [hj]
  · simp [hj, Ne.symm hj]

lemma Inv.committed {start offset position} (h : Inv line s q) (hp : s.writer = .writing start offset position []) :
    ∃ r, (s.rings (ringAt start offset)).commit position = some r ∧
      ∃ q', Inv line { s.setRing (ringAt start offset) r with
        writer := .visiting start (offset + 1) true
        written := s.written ++ [(ringAt start offset, (s.rings (ringAt start offset)).entries (slot position))] } q' := by
  have hw := h.writer
  rw [WriterOk, hp] at hw
  obtain ⟨rfl, a, t, done, hq, hl, ho⟩ := hw
  rw [List.append_nil] at hl
  generalize ringAt start offset = i at hq
  have hi := h.rings i
  rw [hq] at hi
  obtain ⟨hcommit, hrest⟩ := hi.commit
  have hhead := hi.head
  refine ⟨_, hcommit, Function.update q i t, ⟨fun j => ?_, fun j => ?_, fun j => ?_, ?_⟩⟩
  · change s.logs j = ((s.written ++ [(i, (s.rings i).entries _)]).filter fun x => decide (x.1 = j)).map Prod.snd ++ _
    rw [writtenOf_append, Function.update_apply, hhead, h.logs j]
    split_ifs with hj
    · rw [hj, hq, List.append_assoc]
      rfl
    · rw [List.append_nil]
      rfl
  · rw [Function.update_apply]
    split_ifs with hj
    · rw [hj, setRing_self]
      exact hrest
    · rw [setRing_of_ne hj]
      exact h.rings j
  · rw [Function.update_apply]
    change ProducerOk ((s.setRing i _).rings j) _ (s.producers j)
    have hj' := h.producers j
    split_ifs with hj
    · subst hj
      rw [setRing_self]
      rw [hq] at hj'
      cases hpr : s.producers j with
      | idle => trivial
      | notifying => trivial
      | loaded b pending =>
        rw [hpr] at hj'
        exact (Nat.le_succ _).trans hj'
      | stored b =>
        rw [hpr] at hj'
        exact ⟨(Nat.lt_succ_self _).trans hj'.1, hj'.2⟩
    · rw [setRing_of_ne hj]
      exact hj'
  · change s.output = (s.written ++ [(i, (s.rings i).entries _)]).flatMap fun x => line x.2
    rw [List.flatMap_append, hhead, ho, hl, lines]
    simp

lemma Inv.visitStep {a} (h : Inv line s q) (hs : s.visitStep line a = some s') : ∃ q', Inv line s' q' := by
  have hw := h.writer
  unfold Session.visitStep at hs
  split at hs
  · -- peek
    rename_i start offset progressed hp
    rw [WriterOk, hp] at hw
    split_ifs at hs
    split at hs
    · cases hs
      exact ⟨q, h.moved hw ⟨rfl, rfl, rfl, rfl, rfl⟩
        rfl⟩
    · rename_i position hpeek
      cases hs
      refine ⟨q, h.congr rfl rfl rfl h.producers ⟨hw, ?_⟩⟩
      cases hq : q (ringAt start offset) with
      | nil =>
        have hi := h.rings (ringAt start offset)
        rw [hq] at hi
        rw [hi.peek_nil] at hpeek
        cases hpeek
      | cons a t =>
        have hi := h.rings (ringAt start offset)
        rw [hq] at hi
        rw [hi.peek_cons] at hpeek
        exact ⟨(Option.some.inj hpeek).symm, List.cons_ne_nil _ _⟩
  · -- copy
    rename_i start offset position hp
    rw [WriterOk, hp] at hw
    obtain ⟨ho, rfl, hne⟩ := hw
    obtain ⟨a, t, hq⟩ := List.exists_cons_of_ne_nil hne
    have hi := h.rings (ringAt start offset)
    rw [hq] at hi
    dsimp only at hs
    split_ifs at hs
    · cases hs
      exact ⟨q, h.failed _⟩
    · cases hs
      refine ⟨q, h.congr rfl rfl rfl h.producers ⟨rfl, a, t, [], hq, ?_, ?_⟩⟩
      · rw [List.nil_append, hi.head]
      · rw [List.append_nil]
        exact ho
  · -- write
    rename_i count start offset position rest hp
    rw [WriterOk, hp] at hw
    obtain ⟨hpos, a, t, done, hq, hl, ho⟩ := hw
    split_ifs at hs
    cases hs
    refine ⟨q, h.congr rfl rfl rfl h.producers ⟨hpos, a, t, done ++ rest.take count, hq, ?_, ?_⟩⟩
    · rw [List.append_assoc, List.take_append_drop]
      exact hl
    · change s.output ++ rest.take count = s.lines line ++ (done ++ rest.take count)
      rw [← List.append_assoc, ← ho]
  · -- commit
    rename_i start offset position hp
    obtain ⟨r, hcommit, hinv⟩ := h.committed hp
    dsimp only at hs
    rw [hcommit] at hs
    cases hs
    exact hinv
  · cases hs

lemma Inv.finishStep {a} (h : Inv line s q) (hs : s.finishStep a = some s') : Inv line s' q := by
  have hkeep : ∀ t : Session n α, t.rings = s.rings → t.logs = s.logs → t.written = s.written → t.writer = s.writer →
      t.output = s.output → t.producers = s.producers → (t.fatal = none → s.fatal = none) → Inv line t q :=
    fun t hr hl hwr hw ho hp hf =>
      h.congr hr hl hwr (fun j => hp ▸ h.producers j) (h.writer.congr hw ho hwr hf fun j => by rw [hr])
  unfold Session.finishStep at hs
  split at hs
  · split_ifs at hs
    cases hs
    exact hkeep _ rfl rfl rfl rfl rfl rfl id
  · cases hs
    exact hkeep _ rfl rfl rfl rfl rfl rfl id
  · split_ifs at hs
    · cases hs
      exact hkeep _ rfl rfl rfl rfl rfl rfl id
    · cases hs
      exact hkeep _ rfl rfl rfl rfl rfl rfl fun hn => absurd hn (publishFatal_fatal _ _)
  · split_ifs at hs with hw hok
    · cases hs
      exact hkeep _ rfl rfl rfl rfl rfl rfl id
    · cases hs
      exact hkeep _ rfl rfl rfl rfl rfl rfl fun hn => absurd hn (publishFatal_fatal _ _)
  · cases hs

lemma Inv.step {a} (h : Inv line s q) (hs : s.step line a = some s') : ∃ q', Inv line s' q' := by
  cases a with
  | load i a => exact h.producerStep hs
  | store i => exact h.producerStep hs
  | publish i => exact h.producerStep hs
  | notify i ok => exact h.producerStep hs
  | poll => exact ⟨q, h.writerStep hs⟩
  | drain => exact ⟨q, h.writerStep hs⟩
  | endRound => exact ⟨q, h.writerStep hs⟩
  | checkStop => exact ⟨q, h.writerStep hs⟩
  | fail kind => exact ⟨q, h.writerStep (a := .fail kind) hs⟩
  | peek => exact h.visitStep hs
  | copy => exact h.visitStep hs
  | write count => exact h.visitStep hs
  | commit => exact h.visitStep hs
  | finish => exact ⟨q, h.finishStep hs⟩
  | setStop => exact ⟨q, h.finishStep hs⟩
  | signalStop ok => exact ⟨q, h.finishStep hs⟩
  | join ok => exact ⟨q, h.finishStep hs⟩

/-! ## The end of a session -/

/-- The writer will look at every ring that holds entries before it checks the stop flag: it has a whole round before it,
or an entry in hand, or an entry in a ring that the round still visits, or there are no entries left. -/
def Covered (s : Session n α) : Prop :=
  match s.writer with
  | .visiting start offset false =>
    (∃ k, offset ≤ k ∧ k ≤ n ∧ (s.rings (ringAt start k)).pending ≠ 0) ∨ ∀ i, (s.rings i).pending = 0
  | .stopCheck => ∀ i, (s.rings i).pending = 0
  | .exited => s.fatal = none → ∀ i, (s.rings i).pending = 0
  | _ => True

/-- Once the flag is set nobody publishes, and the writer does not miss a ring. -/
structure Ending (s : Session n α) : Prop where
  quiet : s.finisher ≠ .running → ∀ i, s.producers i = .idle
  covered : s.stopRequested = true → s.Covered
  called : s.stopRequested = true → s.finisher ≠ .running
  flagged : s.finisher = .running ∨ s.finisher = .finishing ∨ s.stopRequested = true
  success : s.finisher = .finished .success → s.fatal = none ∧ s.writer = .exited

lemma exists_ringAt (start i : Fin (n + 1)) : ∃ k ≤ n, ringAt start k = i := by
  refine ⟨(i - start).val, Nat.le_of_lt_succ (i - start).isLt, ?_⟩
  rw [ringAt, Fin.ofNat_val_eq_self]
  exact add_sub_cancel start i

lemma covered_round (start : Fin (n + 1)) :
    (∃ k, 0 ≤ k ∧ k ≤ n ∧ (s.rings (ringAt start k)).pending ≠ 0) ∨ ∀ i, (s.rings i).pending = 0 := by
  by_cases hall : ∀ i, (s.rings i).pending = 0
  · exact .inr hall
  · obtain ⟨i, hi⟩ := not_forall.mp hall
    obtain ⟨k, hk, rfl⟩ := exists_ringAt start i
    exact .inl ⟨k, Nat.zero_le k, hk, hi⟩

lemma Covered.congr (h : s.Covered) (hw : s'.writer = s.writer) (hr : s'.rings = s.rings)
    (hf : s'.fatal = none → s.fatal = none) : s'.Covered := by
  unfold Covered at h ⊢
  rw [hw, hr]
  cases hs : s.writer with
  | visiting start offset progressed =>
    cases progressed with
    | false => rw [hs] at h; exact h
    | true => trivial
  | exited => rw [hs] at h; exact fun hn => h (hf hn)
  | top => trivial
  | polled data stop => trivial
  | draining stop => trivial
  | copying start offset position => trivial
  | writing start offset position rest => trivial
  | stopCheck => rw [hs] at h; exact h

/-- Before `finish` is called nothing is asked of the end. -/
lemma Ending.of_running (hf : s.finisher = .running) (hr : s.stopRequested = false) : Ending s where
  quiet hn := absurd hf hn
  covered hs := absurd (hr.symm.trans hs) Bool.false_ne_true
  called hs := absurd (hr.symm.trans hs) Bool.false_ne_true
  flagged := .inl hf
  success hs := by rw [hf] at hs; cases hs

lemma Ending.stop_of_running (h : Ending s) (hf : s.finisher = .running) : s.stopRequested = false :=
  Bool.eq_false_iff.mpr fun hr => h.called hr hf

lemma producerStep_frame {i a} (hs : s.producerStep i a = some s') :
    s'.finisher = s.finisher ∧ s'.stopRequested = s.stopRequested ∧ (s.producers i = .idle → s.finisher = .running) := by
  unfold Session.producerStep at hs
  split at hs
  · split_ifs at hs with hrun
    cases hs
    exact ⟨rfl, rfl, fun _ => hrun.1⟩
  · rename_i hp
    split at hs
    all_goals
      cases hs
      exact ⟨rfl, rfl, fun hidle => by rw [hp] at hidle; cases hidle⟩
  · rename_i hp
    cases hs
    exact ⟨rfl, rfl, fun hidle => by rw [hp] at hidle; cases hidle⟩
  · rename_i hp
    split_ifs at hs
    all_goals
      cases hs
      exact ⟨rfl, rfl, fun hidle => by rw [hp] at hidle; cases hidle⟩
  · cases hs

/-- The producers are done before `finish` is called. -/
lemma Ending.producerStep {i a} (h : Ending s) (hs : s.producerStep i a = some s') : Ending s' := by
  obtain ⟨hfin, hstop, hrun⟩ := producerStep_frame hs
  have hrunning : s.finisher = .running := by
    by_contra hn
    exact hn (hrun (h.quiet hn i))
  exact .of_running (hfin.trans hrunning) (hstop.trans (h.stop_of_running hrunning))

lemma Ending.writer (h : Ending s) (hne : s.writer ≠ .exited)
    (hs : s'.finisher = s.finisher ∧ s'.stopRequested = s.stopRequested ∧ s'.producers = s.producers)
    (hc : s.stopRequested = true → s.Covered → s'.Covered) : Ending s' := by
  obtain ⟨hfin, hstop, hprod⟩ := hs
  refine ⟨fun hn i => ?_, fun hr => ?_, fun hr => ?_, ?_, fun hsucc => ?_⟩
  · rw [hprod]
    exact h.quiet (hfin ▸ hn) i
  · rw [hstop] at hr
    exact hc hr (h.covered hr)
  · rw [hfin]
    exact h.called (hstop ▸ hr)
  · rw [hfin, hstop]
    exact h.flagged
  · rw [hfin] at hsucc
    exact absurd (h.success hsucc).2 hne

lemma Ending.writerStep {a} (h : Ending s) (hs : s.writerStep a = some s') : Ending s' := by
  unfold Session.writerStep at hs
  split at hs
  · rename_i hp
    split_ifs at hs
    cases hs
    exact h.writer (by rw [hp]; exact nofun) ⟨rfl, rfl, rfl⟩ fun _ _ => trivial
  · rename_i data stop hp
    split_ifs at hs
    · cases hs
      exact h.writer (by rw [hp]; exact nofun) ⟨rfl, rfl, rfl⟩ fun _ hc => hc.congr rfl rfl id
    · cases hs
      exact h.writer (by rw [hp]; exact nofun) ⟨rfl, rfl, rfl⟩ fun _ _ => trivial
  · rename_i stop hp
    split_ifs at hs
    · cases hs
      exact h.writer (by rw [hp]; exact nofun) ⟨rfl, rfl, rfl⟩ fun _ hc => hc.congr rfl rfl id
    · cases hs
      exact h.writer (by rw [hp]; exact nofun) ⟨rfl, rfl, rfl⟩ fun _ _ => covered_round s.nextRing
  · -- a round ends: without progress it has found every ring empty that it still had to visit
    rename_i start offset progressed hp
    split_ifs at hs with hle hpr
    · cases hs
      exact h.writer (by rw [hp]; exact nofun) ⟨rfl, rfl, rfl⟩ fun _ _ => covered_round (start + 1)
    · cases hs
      refine h.writer (by rw [hp]; exact nofun) ⟨rfl, rfl, rfl⟩ fun _ hc => ?_
      rw [Covered, hp, Bool.eq_false_iff.mpr hpr] at hc
      rcases hc with ⟨k, hk, hkn, -⟩ | hall
      · omega
      · exact hall
  · -- the stop check
    rename_i hp
    cases hs
    refine h.writer (by rw [hp]; exact nofun) ⟨rfl, rfl, rfl⟩ fun hr hc => ?_
    rw [Covered, hp] at hc
    simp only [hr, if_true]
    exact fun _ => hc
  · -- a failure
    split_ifs at hs with hp
    cases hs
    exact h.writer hp ⟨rfl, rfl, rfl⟩ fun _ _ hn => absurd hn (publishFatal_fatal _ _)
  · cases hs

lemma Ending.visitStep {a} (h : Ending s) (hinv : Inv line s q) (hs : s.visitStep line a = some s') : Ending s' := by
  unfold Session.visitStep at hs
  split at hs
  · -- a ring that is found empty is not one of those that hold an entry
    rename_i start offset progressed hp
    split_ifs at hs
    split at hs
    · rename_i hpeek
      cases hs
      refine h.writer (by rw [hp]; exact nofun) ⟨rfl, rfl, rfl⟩ fun _ hc => ?_
      cases progressed with
      | true => trivial
      | false =>
        rw [Covered, hp] at hc
        have hempty := (hinv.rings (ringAt start offset)).pending_of_peek hpeek
        refine hc.imp_left ?_
        rintro ⟨k, hk, hkn, hne⟩
        refine ⟨k, ?_, hkn, hne⟩
        by_contra hlt
        obtain rfl : k = offset := by omega
        exact hne hempty
    · cases hs
      exact h.writer (by rw [hp]; exact nofun) ⟨rfl, rfl, rfl⟩ fun _ _ => trivial
  · rename_i start offset position hp
    dsimp only at hs
    split_ifs at hs
    · cases hs
      exact h.writer (by rw [hp]; exact nofun) ⟨rfl, rfl, rfl⟩ fun _ _ hn => absurd hn (publishFatal_fatal _ _)
    · cases hs
      exact h.writer (by rw [hp]; exact nofun) ⟨rfl, rfl, rfl⟩ fun _ _ => trivial
  · rename_i count start offset position rest hp
    split_ifs at hs
    cases hs
    exact h.writer (by rw [hp]; exact nofun) ⟨rfl, rfl, rfl⟩ fun _ _ => trivial
  · rename_i start offset position hp
    dsimp only at hs
    split at hs
    · cases hs
      exact h.writer (by rw [hp]; exact nofun) ⟨rfl, rfl, rfl⟩ fun _ _ hn => absurd hn (publishFatal_fatal _ _)
    · cases hs
      exact h.writer (by rw [hp]; exact nofun) ⟨rfl, rfl, rfl⟩ fun _ _ => trivial
  · cases hs

/-- The steps of `finish`, if the flag is set where the writer will still look at every ring. -/
lemma Ending.finishStep {a} (h : Ending s) (hok : a = .setStop → s.Covered)
    (hs : s.finishStep a = some s') : Ending s' := by
  unfold Session.finishStep at hs
  split at hs
  · rename_i hf
    split_ifs at hs with hidle
    cases hs
    have hr := h.stop_of_running hf
    refine ⟨fun _ i => ?_, fun hc => ?_, fun _ => nofun, .inr (.inl rfl), nofun⟩
    · have := hidle i
      cases hp : s.producers i <;> rw [hp] at this <;> first | rfl | cases this
    · exact absurd (hr.symm.trans hc) Bool.false_ne_true
  · rename_i hf
    cases hs
    have hcov := hok rfl
    exact ⟨fun _ => h.quiet (by rw [hf]; exact nofun), fun _ => hcov.congr rfl rfl id, fun _ => nofun, .inr (.inr rfl), nofun⟩
  · -- the signal changes the events only
    rename_i ok hf
    have hr : s.stopRequested = true := by
      rcases h.flagged with hn | hn | hn
      · rw [hf] at hn
        cases hn
      · rw [hf] at hn
        cases hn
      · exact hn
    have hquiet := h.quiet (by rw [hf]; exact nofun)
    split_ifs at hs
    · cases hs
      exact ⟨fun _ => hquiet, fun _ => (h.covered hr).congr rfl rfl id, fun _ => nofun, .inr (.inr hr), nofun⟩
    · cases hs
      exact ⟨fun _ => hquiet, fun _ => (h.covered hr).congr rfl rfl fun hn => absurd hn (publishFatal_fatal _ _),
        fun _ => nofun, .inr (.inr hr), nofun⟩
  · -- the join
    rename_i ok hf
    have hr : s.stopRequested = true := by
      rcases h.flagged with hn | hn | hn
      · rw [hf] at hn
        cases hn
      · rw [hf] at hn
        cases hn
      · exact hn
    have hquiet := h.quiet (by rw [hf]; exact nofun)
    split_ifs at hs with hw hok
    · cases hs
      refine ⟨fun _ => hquiet, fun _ => (h.covered hr).congr rfl rfl id, fun _ => nofun, .inr (.inr hr), fun hsucc => ?_⟩
      refine ⟨?_, hw⟩
      by_contra hne
      simp only [Finisher.finished.injEq, if_neg hne] at hsucc
      cases hsucc
    · cases hs
      refine ⟨fun _ => hquiet, fun _ => (h.covered hr).congr rfl rfl fun hn => absurd hn (publishFatal_fatal _ _),
        fun _ => nofun, .inr (.inr hr), fun hsucc => ?_⟩
      simp only [Finisher.finished.injEq, if_neg (publishFatal_fatal s .protocol)] at hsucc
      cases hsucc
  · cases hs

lemma Ending.step {a} (h : Ending s) (hinv : Inv line s q) (hok : a = .setStop → s.Covered)
    (hs : s.step line a = some s') : Ending s' := by
  cases a with
  | load i a => exact h.producerStep hs
  | store i => exact h.producerStep hs
  | publish i => exact h.producerStep hs
  | notify i ok => exact h.producerStep hs
  | poll => exact h.writerStep hs
  | drain => exact h.writerStep hs
  | endRound => exact h.writerStep hs
  | checkStop => exact h.writerStep hs
  | fail kind => exact h.writerStep (a := .fail kind) hs
  | peek => exact h.visitStep hinv hs
  | copy => exact h.visitStep hinv hs
  | write count => exact h.visitStep hinv hs
  | commit => exact h.visitStep hinv hs
  | finish => exact h.finishStep (a := .finish) nofun hs
  | setStop => exact h.finishStep hok hs
  | signalStop ok => exact h.finishStep (a := .signalStop ok) nofun hs
  | join ok => exact h.finishStep (a := .join ok) nofun hs

lemma Started.inv (h : Started s) : Inv line s s.logs := by
  refine ⟨fun i => ?_, h.rings, fun i => ?_, ?_⟩
  · rw [writtenOf, h.written]
    rfl
  · rw [h.producers i]
    trivial
  · rw [WriterOk, h.writer]
    simp only [lines, h.output, h.written, List.flatMap_nil]

/-- In every run, what a session that finished successfully has written is every entry, each once and in the order of its
ring, provided that the stop flag was set in a state where the writer still looks at every ring that holds entries. -/
theorem finish_drains {s₀ : Session n α} {t : List (Session n α × Action n α)} (h : Trace (Step line) s₀ t s)
    (h₀ : s₀.Started) (hok : ∀ e ∈ t, e.2 = .setStop → e.1.Covered) (hs : s.finisher = .finished .success) :
    Drained line s := by
  have hreach : (∃ q, Inv line s q) ∧ Ending s := by
    refine h.inv (I := fun s => (∃ q, Inv line s q) ∧ Ending s) hok ?_ ?_
    · exact ⟨⟨_, h₀.inv⟩, .of_running h₀.finisher h₀.stopRequested⟩
    · rintro s a s' hcov ⟨⟨q, hinv⟩, hend⟩ hstep
      exact ⟨hinv.step hstep, hend.step hinv hcov hstep⟩
  obtain ⟨⟨q, hinv⟩, hend⟩ := hreach
  obtain ⟨hfatal, hexit⟩ := hend.success hs
  have hcov := hend.covered (by
    rcases hend.flagged with hn | hn | hn
    · rw [hs] at hn
      cases hn
    · rw [hs] at hn
      cases hn
    · exact hn)
  rw [Covered, hexit] at hcov
  have hw := hinv.writer
  rw [WriterOk, hexit] at hw
  have hempty : ∀ i, q i = [] := fun i => (hinv.rings i).pending_eq_zero.mp (hcov hfatal i)
  refine ⟨fun i => ?_, hw hfatal, fun i => ?_⟩
  · rw [hinv.logs i, hempty i, List.append_nil]
  · have := (hinv.rings i).published
    rw [hempty i] at this
    rw [this]
    exact (UInt64.add_zero _).symm

/-! ## One ring -/

/-- The line of an entry with the size of its request (`format_access_log_downstream_request_bytes_line`). -/
def requestBytesLine (reqSize : Nat) : Str := (Nat.toDigits 10 reqSize).map ch ++ [ch '\n']

def oneRing : Session 0 Nat where
  rings _ := ⟨0, 0, fun _ => 0⟩
  logs _ := []

lemma oneRing_started : oneRing.Started where
  rings _ := ⟨Nat.zero_le _, rfl, fun _ hi => absurd hi (Nat.not_lt_zero _)⟩
  producers _ := rfl
  stopRequested := rfl
  fatal := rfl
  writer := rfl
  finisher := rfl
  output := rfl
  written := rfl

/-- A request is published and `finish` is called before the writer has woken up. -/
def publishedEarly : List (Action 0 Nat) := [.load 0 7, .store 0, .publish 0, .notify 0 true, .finish]

def drainedLate : List (Action 0 Nat) :=
  [.signalStop true, .poll, .drain, .drain, .drain, .drain, .peek, .copy, .write 2, .commit, .endRound, .peek, .endRound,
    .checkStop, .join true]

/-- The flag is set while the writer sleeps: the entry is written. -/
theorem sleeping_writer_drains :
    ∃ t s, Trace (Step requestBytesLine) oneRing t s ∧ s.finisher = .finished .success ∧
      Drained requestBytesLine s ∧ s.output = [ch '7', ch '\n'] := by
  have hlabels : ∀ l ∈ [publishedEarly, drainedLate], Action.setStop ∉ l := by
    simp [publishedEarly, drainedLate]
  obtain ⟨s₁, h₁, hw⟩ : ∃ s₁, publishedEarly.foldlM (Session.step requestBytesLine) oneRing = some s₁ ∧ s₁.writer = .top :=
    ⟨_, rfl, rfl⟩
  obtain ⟨s₂, h₂⟩ : ∃ s₂, s₁.step requestBytesLine .setStop = some s₂ := by
    cases h₁
    exact ⟨_, rfl⟩
  obtain ⟨s₃, h₃, hs, ho⟩ : ∃ s₃, drainedLate.foldlM (Session.step requestBytesLine) s₂ = some s₃ ∧
      s₃.finisher = .finished .success ∧ s₃.output = [ch '7', ch '\n'] := by
    cases h₁
    cases h₂
    exact ⟨_, rfl, rfl, rfl⟩
  obtain ⟨t₁, ht₁, hl₁⟩ := Trace.of_foldlM h₁
  obtain ⟨t₂, ht₂, hl₂⟩ := Trace.of_foldlM h₃
  have hrun : Trace (Step requestBytesLine) oneRing (t₁ ++ [(s₁, .setStop)] ++ t₂) s₃ :=
    (ht₁.trans (.single h₂)).trans ht₂
  refine ⟨_, s₃, hrun, hs, finish_drains hrun oneRing_started (fun e he hstop => ?_) hs, ho⟩
  rcases List.mem_append.mp he with he | he
  · rcases List.mem_append.mp he with he | he
    · refine absurd ?_ (hlabels publishedEarly (by simp))
      rw [← hl₁, ← hstop]
      exact List.mem_map_of_mem he
    · rw [List.mem_singleton.mp he, Covered, hw]
      trivial
  · refine absurd ?_ (hlabels drainedLate (by simp))
    rw [← hl₂, ← hstop]
    exact List.mem_map_of_mem he

/-- The writer has found the ring empty and is about to check the flag; then a request is published and `finish` sets the
flag. -/
def publishedLate : List (Action 0 Nat) :=
  [.load 0 7, .store 0, .publish 0, .notify 0 true, .poll, .drain, .drain, .drain, .peek, .copy, .write 2, .commit, .endRound,
    .peek, .endRound, .load 0 8, .store 0, .publish 0, .notify 0 true, .finish, .setStop, .checkStop, .signalStop true,
    .join true]

/-- The entry that was published behind the last look at the ring is lost, and `finish` reports success. -/
theorem late_entry_lost :
    ∃ t s, oneRing.Started ∧ Trace (Step requestBytesLine) oneRing t s ∧ s.finisher = .finished .success ∧
      s.logs 0 = [7, 8] ∧ s.writtenOf 0 = [7] ∧ s.output = [ch '7', ch '\n'] ∧ ¬ Drained requestBytesLine s := by
  obtain ⟨s, h, hs, hlogs, hwritten, ho⟩ :
      ∃ s, publishedLate.foldlM (Session.step requestBytesLine) oneRing = some s ∧ s.finisher = .finished .success ∧
        s.logs 0 = [7, 8] ∧ s.writtenOf 0 = [7] ∧ s.output = [ch '7', ch '\n'] := ⟨_, rfl, rfl, rfl, rfl, rfl⟩
  obtain ⟨t, ht, -⟩ := Trace.of_foldlM h
  refine ⟨t, s, oneRing_started, ht, hs, hlogs, hwritten, ho, fun hd => ?_⟩
  have := hd.written 0
  rw [hlogs, hwritten] at this
  cases this

end Rut.AccessLog.Session
