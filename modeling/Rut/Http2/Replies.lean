import Rut.Http2.Engine

/-!
# What the engine answers

The frames `handle_frame` writes, by the type of the frame it handles: SETTINGS and PING are acknowledged, DATA is
answered with WINDOW_UPDATE frames, and everything else resets a stream if it is answered at all.
-/

namespace Rut.Http2

variable {σ : Type} {cb : Callbacks σ} {fits : Room} {c : Conn σ}

def Reply.Resets (r : Reply σ) : Prop := ∀ f ∈ r.out, ∃ id code, f = .rstStream id code

namespace Reply.Resets

lemma of_nil {r : Reply σ} (h : r.out = []) : r.Resets := fun f hf => by
  rw [h] at hf
  cases hf

lemma single {r : Reply σ} (id code : Nat) (h : r.out = [.rstStream id code]) : r.Resets := fun f hf => by
  rw [h] at hf
  exact ⟨id, code, List.mem_singleton.mp hf⟩

lemma invoke (call : Call) (c : Conn σ) : (cb.invoke call c).Resets := by
  refine of_nil ?_
  unfold Callbacks.invoke
  cases cb call <;> rfl

lemma andThen {r : Reply σ} {f} (hr : r.Resets) (hf : ∀ c, (f c).Resets) : (r.andThen f).Resets := by
  intro g hg
  rcases List.mem_append.mp hg with hg | hg
  · exact hr g hg
  · exact hf _ g hg

lemma decodeBlock {f} (hf : ∀ c fields, (f c fields).Resets) : (decodeBlock c f).Resets := by
  unfold Http2.decodeBlock
  split
  · exact of_nil rfl
  · exact of_nil rfl
  · exact hf _ _

lemma resetKnownStream (c : Conn σ) (id : Nat) (e : Http2Error) : (resetKnownStream cb fits c id e).Resets := by
  unfold Http2.resetKnownStream
  split_ifs
  · cases c.findStream id with
    | none => exact single id e.code rfl
    | some i => exact single id e.code rfl
  · exact of_nil rfl

lemma deliverHeaders (c : Conn σ) (id : Nat) (endStream refuse : Bool) (fields : List (Str × Str)) :
    (deliverHeaders cb fits c id endStream refuse fields).Resets := by
  unfold Http2.deliverHeaders
  split
  · dsimp only
    split
    · exact single id _ rfl
    · exact of_nil rfl
  · split
    · cases checkResponse fields endStream with
      | none => exact of_nil rfl
      | some informational => exact invoke _ _
    · exact invoke _ _

lemma finishHeaders (c : Conn σ) (id : Nat) (endStream refuse : Bool) :
    (finishHeaders cb fits c id endStream refuse).Resets :=
  decodeBlock fun _ _ => deliverHeaders _ _ _ _ _

lemma endTrailers (c : Conn σ) (id : Nat) (slot : Option Nat) (endStream bad : Bool) :
    (endTrailers cb fits c id slot endStream bad).Resets := by
  unfold Http2.endTrailers
  cases slot with
  | none => exact resetKnownStream _ _ _
  | some i =>
    dsimp only
    split_ifs
    · exact invoke _ _
    · exact of_nil rfl
    · exact resetKnownStream _ _ _

lemma discardHeaders {f : Conn σ → Bool → Reply σ} (hf : ∀ c bad, (f c bad).Resets) :
    (discardHeaders cb c fun r bad => r.andThen fun c => f c bad).Resets := by
  refine decodeBlock fun c fields => andThen ?_ fun c => hf c _
  unfold deliverTrailers
  split
  · exact invoke _ _
  · exact of_nil rfl

lemma handleKnownHeaders (c : Conn σ) (h : FrameHeader) (p : Str) (i : Nat) (newStream : Bool) :
    (handleKnownHeaders cb fits c h p i newStream).Resets := by
  unfold Http2.handleKnownHeaders
  dsimp only
  split
  · cases c.appendFragment p with
    | none => exact of_nil rfl
    | some c₁ =>
      dsimp only
      split
      · exact discardHeaders fun _ _ => endTrailers _ _ _ _ _
      · exact of_nil rfl
  · cases (c.setGotHeaders i true).appendFragment p with
    | none => exact of_nil rfl
    | some c₁ =>
      dsimp only
      split
      · exact finishHeaders _ _ _ _
      · exact of_nil rfl

lemma handleStaleHeaders (c : Conn σ) (h : FrameHeader) (p : Str) : (handleStaleHeaders cb fits c h p).Resets := by
  unfold Http2.handleStaleHeaders
  split
  · exact of_nil rfl
  · cases c.appendFragment p with
    | none => exact of_nil rfl
    | some c₁ =>
      dsimp only
      split
      · exact decodeBlock fun _ _ => resetKnownStream _ _ _
      · exact of_nil rfl

lemma handleHeaders (c : Conn σ) (h : FrameHeader) (payload : Str) : (handleHeaders cb fits c h payload).Resets := by
  unfold Http2.handleHeaders
  split
  · exact of_nil rfl
  · cases stripPadding h payload true with
    | none => exact of_nil rfl
    | some p =>
      cases c.findStream h.streamId with
      | some i => exact handleKnownHeaders _ _ _ _ _
      | none =>
        dsimp only
        split
        · exact handleStaleHeaders _ _ _
        · split
          · exact of_nil rfl
          · cases c.allocStream h.streamId with
            | some r => exact handleKnownHeaders _ _ _ _ _
            | none =>
              split_ifs
              · exact single h.streamId _ rfl
              · exact of_nil rfl

lemma handleContinuation (c : Conn σ) (h : FrameHeader) (payload : Str) :
    (handleContinuation cb fits c h payload).Resets := by
  unfold Http2.handleContinuation
  split
  · exact of_nil rfl
  · cases c.appendFragment payload with
    | none => exact of_nil rfl
    | some c₁ =>
      dsimp only
      split
      · split
        · exact discardHeaders fun _ _ => endTrailers _ _ _ _ _
        · exact finishHeaders _ _ _ _
      · exact of_nil rfl

lemma handleWindowUpdate (c : Conn σ) (h : FrameHeader) (payload : Str) :
    (handleWindowUpdate cb fits c h payload).Resets := by
  unfold Http2.handleWindowUpdate
  split
  · exact of_nil rfl
  · dsimp only
    split
    · split
      · exact of_nil rfl
      · exact of_nil rfl
    · cases c.findStream h.streamId with
      | none => exact of_nil rfl
      | some i =>
        dsimp only
        split_ifs
        · exact resetKnownStream _ _ _
        · exact resetKnownStream _ _ _
        · exact of_nil rfl

end Reply.Resets

def FrameType.isAnswered (t : FrameType) : Bool := t == .settings || t == .ping || t == .data

lemma handleFrame_resets {h} (payload : Str) (ht : h.type.isAnswered = false) :
    (handleFrame cb fits c h payload).Resets := by
  unfold handleFrame
  split
  · exact .of_nil rfl
  · cases htype : h.type with
    | headers => exact .handleHeaders c h payload
    | continuation => exact .handleContinuation c h payload
    | windowUpdate => exact .handleWindowUpdate c h payload
    | rstStream =>
      dsimp only [handleRstStream]
      split
      · exact .of_nil rfl
      · exact .invoke _ _
    | goaway =>
      dsimp only [handleGoaway]
      split_ifs <;> exact .of_nil rfl
    | pushPromise => exact .of_nil rfl
    | priority => exact .of_nil rfl
    | unknown n => exact .of_nil rfl
    | settings =>
      rw [htype] at ht
      cases ht
    | ping =>
      rw [htype] at ht
      cases ht
    | data =>
      rw [htype] at ht
      cases ht

lemma handleSettings_out {h payload} (hok : (handleSettings fits c h payload).verdict = .ok) :
    (handleSettings fits c h payload).out =
      if h.has kAck = true then [] else if fits 0 kFrameHeaderSize = true then [.settingsAck] else [] := by
  unfold handleSettings at hok ⊢
  by_cases hid : h.streamId ≠ 0
  · rw [if_pos hid] at hok
    cases hok
  rw [if_neg hid] at hok ⊢
  by_cases hack : h.has kAck = true
  · rw [if_pos hack, if_pos hack]
  rw [if_neg hack] at hok ⊢
  cases hparse : parseSettings payload c.peerSettings with
  | error e =>
    rw [hparse] at hok
    cases hok
  | ok settings =>
    rw [hparse] at hok
    dsimp only at hok ⊢
    split_ifs at hok ⊢ <;> rfl

lemma handlePing_out {h payload} (hok : (handlePing fits c h payload).verdict = .ok) :
    h.length = 8 ∧ (handlePing fits c h payload).out =
      if h.has kAck = true then [] else if fits 0 (kFrameHeaderSize + 8) = true then [.pingAck payload] else [] := by
  unfold handlePing at hok ⊢
  by_cases hbad : h.streamId ≠ 0 ∨ h.length ≠ 8
  · rw [if_pos hbad] at hok
    cases hok
  rw [if_neg hbad]
  rw [not_or, not_not, not_not] at hbad
  refine ⟨hbad.2, ?_⟩
  by_cases hack : h.has kAck = true
  · simp [hack]
  · simp [hack]

end Rut.Http2
