import Rut.Http2.Engine
import Rut.Http2.Moves

/-!
# Segmentation of the input

`Http2Conn::process` may be called with the input in any pieces, as long as what it leaves is presented again: the
frame loop stops in front of a frame, with all credits flushed, so a later call takes up where the last one ended.
-/

set_option linter.all false
namespace Rut.Http2

open Lib

variable {σ : Type} {cb : Callbacks σ} {cap : Option Nat}

namespace Progress

def extend (p : Progress σ) (b : Str) : Progress σ := { p with rest := p.rest ++ b }

def after (p : Progress σ) (out : List OutFrame) (events : List Event) : Progress σ :=
  { p with out := out ++ p.out, events := events ++ p.events }

end Progress

/-! ## One turn -/

lemma room_none (used : Nat) : room none used = fun _ _ => true := rfl

lemma nextTurn_rest {fits} {c : Conn σ} {rest payload rest' h}
    (ht : nextTurn fits c rest = .handle h payload rest') : rest'.length < rest.length ∧ rest' <:+ rest := by
  unfold nextTurn at ht
  split at ht
  · cases ht
  · split_ifs at ht
    cases ht
    refine ⟨?_, List.drop_suffix _ _⟩
    rw [List.length_drop]
    simp only [kFrameHeaderSize] at *
    omega

lemma parseFrameHeader_append {rest h} (hp : parseFrameHeader rest = some h) (b : Str) :
    parseFrameHeader (rest ++ b) = some h := by
  unfold parseFrameHeader at hp ⊢
  rcases ite_eq_iff.mp hp with ⟨-, hp⟩ | ⟨hlen, hp⟩
  · cases hp
  have h9 : 9 ≤ rest.length := Nat.not_lt.mp hlen
  rw [← hp, if_neg (by rw [List.length_append]; omega), List.take_append_of_le_length (by omega),
    List.drop_append_of_le_length (by omega), List.drop_append_of_le_length (by omega),
    List.drop_append_of_le_length (by omega), List.take_append_of_le_length (by simp; omega),
    List.take_append_of_le_length (by simp; omega), List.take_append_of_le_length (by simp; omega)]

lemma nextTurn_append {fits} {c : Conn σ} {rest} (b : Str) (h : nextTurn fits c rest ≠ .wait) :
    nextTurn fits c (rest ++ b) =
      match nextTurn fits c rest with
      | .handle h payload rest' => .handle h payload (rest' ++ b)
      | t => t := by
  unfold nextTurn at h ⊢
  cases hp : parseFrameHeader rest with
  | none =>
    rw [hp] at h
    exact absurd rfl h
  | some hd =>
    rw [hp] at h
    rw [parseFrameHeader_append hp]
    dsimp only at h ⊢
    by_cases hsize : c.ourSettings.maxFrameSize < hd.length
    · rw [if_pos hsize, if_pos hsize]
    · rw [if_neg hsize] at h ⊢
      by_cases hlen : rest.length < kFrameHeaderSize + hd.length
      · rw [if_pos hlen] at h
        exact absurd rfl h
      · have hlen' : ¬ (rest ++ b).length < kFrameHeaderSize + hd.length := by simp; omega
        have hdrop : (rest ++ b).drop kFrameHeaderSize = rest.drop kFrameHeaderSize ++ b :=
          List.drop_append_of_le_length (by omega)
        rw [if_neg hlen', hdrop, List.take_append_of_le_length (by rw [List.length_drop]; omega),
          List.drop_append_of_le_length (by omega)]
        split_ifs <;> rfl

/-! ## Flushed credits -/

def Flushed (c : Conn σ) : Prop := c.connRecvCredit = 0 ∧ ∀ s ∈ c.streams, s.recvCredit = 0

lemma flushStreams_flushed {fits w ss} (h : ∀ s ∈ ss, s.recvCredit = 0) : flushStreams fits w ss = (ss, []) := by
  induction ss generalizing w with
  | nil => rfl
  | cons s ss ih =>
    have hs : flushStream fits w s = (s, []) := by simp [flushStream, h s (by simp)]
    rw [flushStreams, hs]
    dsimp only
    rw [ih fun t ht => h t (by simp [ht])]
    rfl

lemma Flushed.flushCredits {c : Conn σ} (h : Flushed c) (fits : Room) : flushCredits fits c = (c, []) := by
  have hc : flushConn fits c = (c, []) := by simp [flushConn, h.1]
  rw [Http2.flushCredits, hc]
  dsimp only
  rw [flushStreams_flushed h.2]
  rfl

lemma flushStreams_credit (w : Nat) (ss : List Stream) :
    ∀ s ∈ (flushStreams (fun _ _ => true) w ss).1, s.recvCredit = 0 := by
  induction ss generalizing w with
  | nil => simp [flushStreams]
  | cons s ss ih =>
    rw [flushStreams]
    intro t ht
    rcases List.mem_cons.mp ht with rfl | ht
    · unfold flushStream
      by_cases h : s.recvCredit = 0
      · simp [h]
      · simp only [ne_eq, h, not_false_eq_true, and_true, if_true]
        split_ifs <;> rfl
    · exact ih _ t ht

lemma flushCredits_flushed (c : Conn σ) : Flushed (flushCredits (fun _ _ => true) c).1 := by
  refine ⟨?_, flushStreams_credit _ _⟩
  rw [flushCredits]
  unfold flushConn
  split_ifs with h
  · rfl
  · simpa using h

lemma flush_flush (p : Progress σ) : (p.flush none).flush none = p.flush none := by
  have h := (flushCredits_flushed p.conn).flushCredits (fun _ _ => true)
  rw [Progress.flush, Progress.flush, room_none, room_none]
  dsimp only
  rw [h, List.append_nil]

/-! ## The loop on longer input -/

lemma processStep_inl {p q} (h : processStep cb cap p = .inl q) :
    ∃ hd payload rest, nextTurn (room cap (outLen (p.flush cap).out)) (p.flush cap).conn p.rest = .handle hd payload rest ∧
      q = ((p.flush cap).handle cb cap hd payload rest).1 ∧
      (handleFrame cb (room cap (outLen (p.flush cap).out)) (p.flush cap).conn hd payload).verdict = .ok := by
  obtain ⟨-, hq⟩ | ⟨hd, payload, rest, ht, hv, hq⟩ := processStep_cases h fun q hq => by cases hq
  · cases hq
  · exact ⟨hd, payload, rest, ht, Sum.inl.inj hq, hv⟩

lemma processStep_status {p q} (h : processStep cb cap p = .inl q) : q.status = p.status := by
  obtain ⟨hd, payload, rest, -, rfl, -⟩ := processStep_inl h
  rfl

lemma processStep_rest {p q} (h : processStep cb cap p = .inl q) :
    q.rest.length < p.rest.length ∧ q.rest <:+ p.rest := by
  obtain ⟨hd, payload, rest, ht, rfl, -⟩ := processStep_inl h
  exact nextTurn_rest ht

@[simp] lemma extend_flush (p : Progress σ) (b : Str) : (p.extend b).flush cap = (p.flush cap).extend b := rfl

def Progress.next (cap : Option Nat) (p : Progress σ) : Turn :=
  nextTurn (room cap (outLen (p.flush cap).out)) (p.flush cap).conn p.rest

lemma processStep_eq (p : Progress σ) : processStep cb cap p = (p.flush cap).turn cb cap (p.next cap) := rfl

lemma processStep_wait (cb : Callbacks σ) {p} (b : Str) (hw : p.next none = .wait) :
    processStep cb none p = .inr (p.flush none) ∧
    processStep cb none (p.extend b) = processStep cb none ((p.flush none).extend b) := by
  constructor
  · rw [processStep_eq, hw]
    rfl
  · have hnext : (p.extend b).next none = ((p.flush none).extend b).next none := by
      simp only [Progress.next, extend_flush, flush_flush]
      rfl
    rw [processStep_eq, processStep_eq, extend_flush, extend_flush, flush_flush, hnext]

lemma processStep_extend (cb : Callbacks σ) {p} (b : Str) (hw : p.next none ≠ .wait) :
    processStep cb none (p.extend b) = Sum.map (·.extend b) (·.extend b) (processStep cb none p) := by
  have hnext : (p.extend b).next none = match p.next none with
      | .handle h payload rest' => .handle h payload (rest' ++ b)
      | t => t := nextTurn_append b hw
  rw [processStep_eq, processStep_eq, hnext]
  cases ht : p.next none with
  | wait => exact absurd ht hw
  | close e => cases e <;> rfl
  | handle hd payload rest =>
    simp only [Progress.turn, Progress.handle, extend_flush]
    dsimp only [Progress.extend]
    cases (handleFrame cb (room none (outLen (p.flush none).out)) (p.flush none).conn hd payload).verdict <;> rfl

lemma processStep_inr_status {p q} (h : processStep cb cap p = .inr q) (hw : p.next cap ≠ .wait) :
    q.status ≠ .open := by
  intro hopen
  obtain ⟨ht, -⟩ | ⟨_, _, _, -, -, hq⟩ := processStep_cases h (by rintro _ ⟨⟩; exact hopen)
  · exact hw ht
  · cases hq

lemma loopsTo_extend {p q} (b : Str) (hp : p.status = .open) (h : LoopsTo (processStep cb none) p q) :
    (q.status = .open → ∀ r, LoopsTo (processStep cb none) (p.extend b) r ↔
      LoopsTo (processStep cb none) (q.extend b) r) ∧
    (q.status ≠ .open → LoopsTo (processStep cb none) (p.extend b) (q.extend b)) := by
  refine LoopsTo.induct (P := fun p => p.status = .open →
    (q.status = .open → ∀ r, LoopsTo (processStep cb none) (p.extend b) r ↔
      LoopsTo (processStep cb none) (q.extend b) r) ∧
    (q.status ≠ .open → LoopsTo (processStep cb none) (p.extend b) (q.extend b))) ?_ ?_ h hp
  · intro p hstep hp
    by_cases hw : p.next none = .wait
    · obtain ⟨hflush, hcongr⟩ := processStep_wait cb b hw
      rw [hflush] at hstep
      cases hstep
      exact ⟨fun _ r => loopsTo_congr hcongr r, fun hq => absurd hp hq⟩
    · have hext := processStep_extend cb b hw
      rw [hstep] at hext
      exact ⟨fun hq => absurd hq (processStep_inr_status hstep hw), fun _ => (loopsTo_leave hext).mpr rfl⟩
  · intro p p' hstep _ ih hp
    have hw : p.next none ≠ .wait := by
      intro hw
      rw [(processStep_wait cb b hw).1] at hstep
      cases hstep
    have hext := processStep_extend cb b hw
    rw [hstep] at hext
    obtain ⟨h₁, h₂⟩ := ih ((processStep_status hstep).trans hp)
    exact ⟨fun hq r => (loopsTo_step hext).trans (h₁ hq r), fun hq => (loopsTo_step hext).mpr (h₂ hq)⟩

/-! ## What was written before -/

lemma processStep_after (cb : Callbacks σ) (p : Progress σ) (out : List OutFrame) (events : List Event) :
    processStep cb none (p.after out events) =
      Sum.map (·.after out events) (·.after out events) (processStep cb none p) := by
  have hflush : (p.after out events).flush none = (p.flush none).after out events := by
    simp [Progress.flush, Progress.after, room_none]
  have hnext : (p.after out events).next none = p.next none := by
    rfl
  rw [processStep_eq, processStep_eq, hnext, hflush]
  cases p.next none with
  | wait => rfl
  | close e => cases e <;> simp [Progress.turn, Progress.after, Progress.goaway, room_none]
  | handle hd payload rest =>
    simp only [Progress.turn, Progress.handle, Progress.after, room_none]
    cases (handleFrame cb (fun _ _ => true) (p.flush none).conn hd payload).verdict <;>
      simp [Progress.settle, Progress.goaway, room_none]

lemma loopsTo_after {p q} (out : List OutFrame) (events : List Event) (h : LoopsTo (processStep cb none) p q) :
    LoopsTo (processStep cb none) (p.after out events) (q.after out events) := by
  refine LoopsTo.induct
    (P := fun p => LoopsTo (processStep cb none) (p.after out events) (q.after out events)) ?_ ?_ h
  · intro p hstep
    have hafter := processStep_after cb p out events
    rw [hstep] at hafter
    exact (loopsTo_leave hafter).mpr rfl
  · intro p p' hstep _ ih
    have hafter := processStep_after cb p out events
    rw [hstep] at hafter
    exact (loopsTo_step hafter).mpr ih

/-! ## Calls -/

lemma processStep_inr_rest {p q} (h : processStep cb cap p = .inr q) : q.rest <:+ p.rest := by
  rw [processStep_eq] at h
  cases ht : p.next cap with
  | wait =>
    rw [ht] at h
    cases h
    exact List.suffix_rfl
  | close e =>
    rw [ht] at h
    cases e <;> cases h <;> exact List.suffix_rfl
  | handle hd payload rest =>
    have hrest := (nextTurn_rest ht).2
    rw [ht, Progress.turn, Progress.handle] at h
    cases hv : (handleFrame cb (room cap (outLen (p.flush cap).out)) (p.flush cap).conn hd payload).verdict with
    | ok =>
      simp only [hv] at h
      cases h
    | error e =>
      simp only [hv] at h
      cases h
      exact hrest
    | fault =>
      simp only [hv] at h
      cases h
      exact hrest

lemma frameLoop_total (cb : Callbacks σ) (cap : Option Nat) (p : Progress σ) :
    ∃ q, frameLoop cb cap p = some q ∧ q.rest <:+ p.rest :=
  loop_total (fun q => q.rest <:+ p.rest) (fun q => q.rest <:+ p.rest) (fun q => q.rest.length)
    (fun hq h => ⟨(processStep_rest h).2.trans hq, (processStep_rest h).1⟩)
    (fun hq h => (processStep_inr_rest h).trans hq) List.suffix_rfl (Nat.lt_succ_self _)

lemma frameLoop_iff {p q} : frameLoop cb cap p = some q ↔ LoopsTo (processStep cb cap) p q := by
  constructor
  · exact fun h => ⟨_, h⟩
  · intro h
    obtain ⟨q', hq', -⟩ := frameLoop_total cb cap p
    rw [hq', h.unique ⟨_, hq'⟩]

lemma greet_spec (cap : Option Nat) (c : Conn σ) (rest : Str) :
    (greet cap c rest).rest = rest ∧ (greet cap c rest).status = .open ∧ (greet cap c rest).conn.prefaceSeen = true ∧
    (greet cap c rest).events = [] := by
  unfold greet
  split_ifs <;> exact ⟨rfl, rfl, rfl, rfl⟩

lemma greet_extend (cap : Option Nat) (c : Conn σ) (rest b : Str) :
    greet cap c (rest ++ b) = (greet cap c rest).extend b := by
  unfold greet
  split_ifs <;> rfl

lemma process_total (cb : Callbacks σ) (cap : Option Nat) (c : Conn σ) (input : Str) :
    ∃ p, process cb cap c input = some p ∧ p.rest <:+ input := by
  unfold process startProcess
  split_ifs
  · exact frameLoop_total cb cap { conn := c, rest := input }
  · cases matchClientPreface input with
    | error => exact ⟨_, rfl, List.suffix_rfl⟩
    | incomplete => exact ⟨_, rfl, List.suffix_rfl⟩
    | complete =>
      obtain ⟨q, hq, hrest⟩ := frameLoop_total cb cap (greet cap c (input.drop kClientPreface.length))
      rw [(greet_spec _ _ _).1] at hrest
      exact ⟨q, hq, hrest.trans (List.drop_suffix _ _)⟩

lemma matchClientPreface_append {input} (b : Str) (h : matchClientPreface input ≠ .incomplete) :
    matchClientPreface (input ++ b) = matchClientPreface input := by
  unfold matchClientPreface at h ⊢
  by_cases hpre : input.take kClientPreface.length = kClientPreface.take input.length
  · by_cases hlen : input.length < kClientPreface.length
    · rw [if_neg (not_not.mpr hpre), if_pos hlen] at h
      exact absurd rfl h
    · have hle : kClientPreface.length ≤ input.length := Nat.not_lt.mp hlen
      have hpre' : (input ++ b).take kClientPreface.length = kClientPreface.take (input ++ b).length := by
        rw [List.take_append_of_le_length hle, hpre, List.take_of_length_le hle,
          List.take_of_length_le (by rw [List.length_append]; omega)]
      rw [if_neg (not_not.mpr hpre), if_neg hlen, if_neg (not_not.mpr hpre'),
        if_neg (by rw [List.length_append]; omega)]
  · have hpre' : (input ++ b).take kClientPreface.length ≠ kClientPreface.take (input ++ b).length := by
      intro heq
      apply hpre
      have htake := congrArg (List.take input.length) heq
      rw [List.take_take, List.take_take, List.length_append, Nat.min_eq_left (Nat.le_add_right _ _), Nat.min_comm,
        ← List.take_take, List.take_left] at htake
      exact htake
    rw [if_pos hpre, if_pos hpre']

/-! ## The preface is seen once -/

lemma invoke_prefaceSeen (call : Call) (c : Conn σ) : (cb.invoke call c).conn.prefaceSeen = c.prefaceSeen := by
  unfold Callbacks.invoke
  split <;> rfl

lemma Moves.prefaceSeen {c c'} (h : Moves cb c c') : c'.prefaceSeen = c.prefaceSeen := by
  induction h with
  | refl => rfl
  | tail _ hmove ih =>
    rw [← ih]
    cases hmove with
    | call call => exact invoke_prefaceSeen call _
    | alloc hid halloc =>
      obtain ⟨ss, rfl, -⟩ := allocStream_spec halloc
      rfl
    | assembly hsame => rw [hsame]
    | close i => rfl
    | endRemote i h => rfl
    | gotHeaders i b => rfl
    | full hid h => rfl
    | pending p => rfl
    | peerGoaway last => rfl

lemma holdData_prefaceSeen (c : Conn σ) (i n : Nat) : (c.holdData i n).prefaceSeen = c.prefaceSeen := by
  unfold Conn.holdData
  split <;> rfl

lemma endData_prefaceSeen (c : Conn σ) (i : Nat) (e : Bool) : (c.endData i e).prefaceSeen = c.prefaceSeen := by
  unfold Conn.endData
  split <;> rfl

lemma settleData_prefaceSeen {fits} (c : Conn σ) (h : FrameHeader) (p : Str) (i : Nat) :
    (settleData fits c h p i).conn.prefaceSeen = c.prefaceSeen := by
  rw [← endData_prefaceSeen c i (h.has kEndStream)]
  unfold settleData
  dsimp only
  generalize c.endData i (h.has kEndStream) = c
  split <;> rfl

lemma handleData_prefaceSeen {fits} (c : Conn σ) (h : FrameHeader) (payload : Str) :
    (handleData cb fits c h payload).conn.prefaceSeen = c.prefaceSeen := by
  unfold handleData
  split
  · rfl
  · dsimp only
    split
    · rfl
    · split
      · rfl
      · split
        · rfl
        · split
          · rfl
          · split
            · exact (Moves.resetKnownStream _ _ _).prefaceSeen
            · exact (settleData_prefaceSeen _ _ _ _).trans ((invoke_prefaceSeen _ _).trans (holdData_prefaceSeen _ _ _))

/-- Callbacks and frames leave `preface_seen` alone. -/
lemma handleFrame_prefaceSeen (cb : Callbacks σ) (fits : Room) (c : Conn σ) (h : FrameHeader) (payload : Str) :
    (handleFrame cb fits c h payload).conn.prefaceSeen = c.prefaceSeen := by
  by_cases hflow : h.type.isFlow
  · unfold handleFrame
    split
    · rfl
    · cases ht : h.type with
      | settings =>
        dsimp only [handleSettings]
        split
        · rfl
        · split
          · rfl
          · split
            · rfl
            · split <;> rfl
      | data => exact handleData_prefaceSeen c h payload
      | windowUpdate =>
        dsimp only [handleWindowUpdate]
        split
        · rfl
        · split
          · split <;> rfl
          · split
            · rfl
            · split
              · exact (Moves.resetKnownStream _ _ _).prefaceSeen
              · split
                · exact (Moves.resetKnownStream _ _ _).prefaceSeen
                · rfl
      | _ => simp [ht, FrameType.isFlow] at hflow
  · exact (handleFrame_moves payload (by simpa using hflow)).prefaceSeen

lemma flush_prefaceSeen (cap : Option Nat) (p : Progress σ) : (p.flush cap).conn.prefaceSeen = p.conn.prefaceSeen := by
  simp only [Progress.flush, flushCredits, flushConn]
  split_ifs <;> rfl

lemma loopsTo_prefaceSeen {p q} (h : LoopsTo (processStep cb cap) p q) (hp : p.conn.prefaceSeen = true) :
    q.conn.prefaceSeen = true := by
  refine LoopsTo.induct (P := fun p => p.conn.prefaceSeen = true → q.conn.prefaceSeen = true) ?_ ?_ h hp
  · intro p hstep hp
    rw [← flush_prefaceSeen cap] at hp
    rw [processStep_eq] at hstep
    cases ht : p.next cap with
    | wait =>
      rw [ht] at hstep
      cases hstep
      exact hp
    | close e =>
      rw [ht] at hstep
      cases e <;> cases hstep <;> exact hp
    | handle hd payload rest =>
      rw [ht, Progress.turn, Progress.handle] at hstep
      have hseen := (handleFrame_prefaceSeen cb (room cap (outLen (p.flush cap).out)) (p.flush cap).conn hd payload).trans hp
      cases hv : (handleFrame cb (room cap (outLen (p.flush cap).out)) (p.flush cap).conn hd payload).verdict <;>
        simp only [hv] at hstep <;> cases hstep <;> exact hseen
  · intro p p' hstep _ ih hp
    obtain ⟨hd, payload, rest, -, rfl, -⟩ := processStep_inl hstep
    refine ih ?_
    rw [← flush_prefaceSeen cap] at hp
    exact (handleFrame_prefaceSeen _ _ _ _ _).trans hp

/-! ## Feeding a stream in pieces -/

/-- A caller: it presents what the engine has left before the new input, until the connection ends. -/
def Progress.feed (cb : Callbacks σ) (cap : Option Nat) (p : Progress σ) (chunk : Str) : Option (Progress σ) :=
  if p.status = .open then (process cb cap p.conn (p.rest ++ chunk)).map (·.after p.out p.events)
  else some (p.extend chunk)

def feedAll (cb : Callbacks σ) (p : Progress σ) (segs : List (Str × Option Nat)) : Option (Progress σ) :=
  segs.foldlM (fun p seg => p.feed cb seg.2 seg.1) p

/-- The output capacity makes no test for room fail: the call does what it does without a capacity. -/
def Ample (cb : Callbacks σ) (cap : Option Nat) (c : Conn σ) (input : Str) : Prop :=
  process cb cap c input = process cb none c input

def AmpleAll (cb : Callbacks σ) (p : Progress σ) : List (Str × Option Nat) → Prop
  | [] => True
  | seg :: segs =>
    (p.status = .open → Ample cb seg.2 p.conn (p.rest ++ seg.1)) ∧
      ∀ q, p.feed cb seg.2 seg.1 = some q → AmpleAll cb q segs

lemma process_seen {c} (hc : c.prefaceSeen = true) (input : Str) :
    process cb cap c input = frameLoop cb cap { conn := c, rest := input } := by
  rw [process, startProcess, if_pos hc]

lemma frameLoop_feed {p q} (hp : p.status = .open) (hseen : p.conn.prefaceSeen = true)
    (h : frameLoop cb none p = some q) (b : Str) : q.feed cb none b = frameLoop cb none (p.extend b) := by
  have hloop := frameLoop_iff.mp h
  obtain ⟨hopen, hclosed⟩ := loopsTo_extend b hp hloop
  unfold Progress.feed
  split_ifs with hq
  · rw [process_seen (loopsTo_prefaceSeen hloop hseen)]
    obtain ⟨r, hr, -⟩ := frameLoop_total cb none { conn := q.conn, rest := q.rest ++ b }
    have hafter := loopsTo_after q.out q.events (frameLoop_iff.mp hr)
    have hstart : ({ conn := q.conn, rest := q.rest ++ b } : Progress σ).after q.out q.events = q.extend b := by
      simp [Progress.after, Progress.extend, hq]
    rw [hstart] at hafter
    rw [hr, frameLoop_iff.mpr ((hopen hq _).mpr hafter)]
    rfl
  · exact (frameLoop_iff.mpr (hclosed hq)).symm

lemma process_feed {c a p} (h : process cb none c a = some p) (b : Str) :
    p.feed cb none b = process cb none c (a ++ b) := by
  by_cases hseen : c.prefaceSeen
  · rw [process_seen hseen] at h ⊢
    exact frameLoop_feed rfl hseen h b
  · unfold process startProcess at h ⊢
    rw [if_neg hseen] at h ⊢
    cases hm : matchClientPreface a with
    | error =>
      rw [hm] at h
      rw [matchClientPreface_append b (by simp [hm]), hm]
      cases h
      rfl
    | incomplete =>
      rw [hm] at h
      cases h
      have hone : (process cb none c (a ++ b)).map (·.after [] []) = process cb none c (a ++ b) := by
        cases process cb none c (a ++ b) <;> rfl
      rw [Progress.feed, if_pos rfl, hone, process, startProcess, if_neg hseen]
    | complete =>
      rw [hm] at h
      rw [matchClientPreface_append b (by simp [hm]), hm]
      have hlen : kClientPreface.length ≤ a.length := by
        unfold matchClientPreface at hm
        split_ifs at hm with h₁ h₂
        exact Nat.not_lt.mp h₂
      obtain ⟨-, hopen, hgreet, -⟩ := greet_spec none c (a.drop kClientPreface.length)
      rw [List.drop_append_of_le_length hlen, greet_extend]
      exact frameLoop_feed hopen hgreet h b

lemma feedAll_process {c a p segs} (h : process cb none c a = some p) (hample : AmpleAll cb p segs) :
    feedAll cb p segs = process cb none c (a ++ segs.flatMap Prod.fst) := by
  induction segs generalizing a p with
  | nil =>
    rw [List.flatMap_nil, List.append_nil, h]
    rfl
  | cons seg segs ih =>
    obtain ⟨hfirst, hrest⟩ := hample
    have hfeed : p.feed cb seg.2 seg.1 = process cb none c (a ++ seg.1) := by
      rw [← process_feed h]
      unfold Progress.feed
      split_ifs with hopen
      · rw [hfirst hopen]
      · rfl
    obtain ⟨q, hq, -⟩ := process_total cb none c (a ++ seg.1)
    rw [hq] at hfeed
    rw [feedAll, List.foldlM_cons, hfeed, List.flatMap_cons, ← List.append_assoc]
    exact ih hq (hrest q hfeed)

/-- Segmentation invariance: calls with ample room on the pieces of a stream do what one such call on the whole
stream does, callbacks, written frames, state and verdict alike; and every call ends with a consumed prefix. -/
theorem process_segmentation (cb : Callbacks σ) (c : Conn σ) :
    (∀ (seg : Str × Option Nat) (segs : List (Str × Option Nat)) (cap : Option Nat),
      AmpleAll cb { conn := c, rest := [] } (seg :: segs) → Ample cb cap c ((seg :: segs).flatMap Prod.fst) →
      feedAll cb { conn := c, rest := [] } (seg :: segs) = process cb cap c ((seg :: segs).flatMap Prod.fst)) ∧
    ∀ (cap : Option Nat) (input : Str), ∃ (p : Progress σ) (consumed : Nat),
      process cb cap c input = some p ∧ consumed ≤ input.length ∧ p.rest = input.drop consumed := by
  constructor
  · rintro seg segs cap ⟨hfirst, hrest⟩ hwhole
    obtain ⟨p, hp, -⟩ := process_total cb none c seg.1
    have hfeed : ({ conn := c, rest := [] } : Progress σ).feed cb seg.2 seg.1 = some p := by
      rw [Progress.feed, if_pos rfl, hfirst rfl, List.nil_append, hp]
      rfl
    rw [feedAll, List.foldlM_cons, hfeed, hwhole, List.flatMap_cons]
    exact feedAll_process hp (hrest p hfeed)
  · intro cap input
    obtain ⟨p, hp, hsuffix⟩ := process_total cb cap c input
    refine ⟨p, input.length - p.rest.length, hp, Nat.sub_le _ _, ?_⟩
    exact List.suffix_iff_eq_drop.mp hsuffix

def pingStream : Str := kClientPreface ++ FrameHeader.bytes ⟨8, .ping, 0, 0⟩ ++ [1, 2, 3, 4, 5, 6, 7, 8]

theorem pingStream_segmentation :
    feedAll (fun _ => none) { conn := Conn.init [] [] (), rest := [] }
        [(pingStream.take 30, some 100), (pingStream.drop 30, some 100)] =
      process (fun _ => none) (some 100) (Conn.init [] [] ()) pingStream := by
  refine (process_segmentation (fun _ => none) (Conn.init [] [] ())).1 _ _ (some 100) ⟨fun _ => rfl, ?_⟩ rfl
  intro q hq
  cases hq
  exact ⟨fun _ => rfl, fun _ _ => trivial⟩

end Rut.Http2
