import Rut.Http2.Engine

/-!
# What leaves the fields of the engine alone

The decoder and the fields of header assembly are written by the HEADERS and CONTINUATION cases of `handle_frame` only.
-/

namespace Rut.Http2

variable {σ : Type} {cb : Callbacks σ} {fits : Room} {c c' : Conn σ}

def Conn.Keeps (c c' : Conn σ) : Prop := c.keepEngine c' = c'

namespace Conn.Keeps

lemma refl (c : Conn σ) : c.Keeps c := rfl

lemma trans {c₁ c₂ c₃ : Conn σ} (h : c₁.Keeps c₂) (h' : c₂.Keeps c₃) : c₁.Keeps c₃ := by
  rw [← h', ← h]
  rfl

lemma invoke (call : Call) (c : Conn σ) : c.Keeps (cb.invoke call c).conn := by
  unfold Callbacks.invoke
  cases cb call with
  | none => exact refl c
  | some f => rfl

lemma clearPending (c : Conn σ) (id : Nat) : c.Keeps (c.clearPendingUpload id) := by
  unfold Conn.clearPendingUpload
  split
  · rfl
  · exact refl c

lemma closeAt (c : Conn σ) (slot : Option Nat) : c.Keeps (slot.elim c (c.setState · .closed)) := by
  cases slot with
  | none => exact refl c
  | some i => rfl

lemma resetKnownStream (c : Conn σ) (id : Nat) (e : Http2Error) : c.Keeps (resetKnownStream cb fits c id e).conn := by
  unfold Http2.resetKnownStream
  split
  · cases c.findStream id with
    | none => exact clearPending c id
    | some i =>
      have hclosed : (c.clearPendingUpload id).Keeps ((c.clearPendingUpload id).setState i .closed) := rfl
      exact (clearPending c id).trans (hclosed.trans (invoke _ _))
  · exact refl c

lemma flush (fits : Room) (c : Conn σ) : c.Keeps (flushCredits fits c).1 := by
  unfold flushCredits flushConn
  split_ifs <;> rfl

lemma deliverHeaders (c : Conn σ) (id : Nat) (endStream refuse : Bool) (fields : List (Str × Str)) :
    c.Keeps (deliverHeaders cb fits c id endStream refuse fields).conn := by
  unfold Http2.deliverHeaders
  split
  · dsimp only
    split
    · exact closeAt c _
    · exact closeAt c _
  · split
    · cases checkResponse fields endStream with
      | none => exact refl c
      | some informational =>
        refine Keeps.trans ?_ (invoke _ _)
        cases informational with
        | false => exact refl c
        | true => cases c.findStream id <;> rfl
    · exact invoke _ _

lemma endTrailers (c : Conn σ) (id : Nat) (slot : Option Nat) (endStream bad : Bool) :
    c.Keeps (endTrailers cb fits c id slot endStream bad).conn := by
  unfold Http2.endTrailers
  cases slot with
  | none => exact resetKnownStream c id _
  | some i =>
    have hend : c.Keeps (c.endRemote i) := rfl
    dsimp only
    split_ifs
    · exact hend.trans (invoke _ _)
    · exact hend
    · exact resetKnownStream c id _

lemma deliverTrailers (c : Conn σ) (fields : List (Str × Str)) : c.Keeps (deliverTrailers cb c fields).conn := by
  unfold Http2.deliverTrailers
  split
  · exact invoke _ _
  · exact refl c

lemma allocStream {id i} (h : c.allocStream id = some (i, c')) : c.Keeps c' := by
  unfold Conn.allocStream at h
  split at h
  · cases h
    rfl
  · split at h
    · cases h
    · cases h
      rfl

lemma settleData (c : Conn σ) (h : FrameHeader) (p : Str) (i : Nat) : c.Keeps (settleData fits c h p i).conn := by
  have hend : c.Keeps (c.endData i (h.has kEndStream)) := by
    unfold Conn.endData
    split_ifs <;> rfl
  unfold Http2.settleData
  dsimp only
  split
  · exact hend.trans rfl
  · exact hend.trans rfl

lemma handleData (c : Conn σ) (h : FrameHeader) (payload : Str) : c.Keeps (handleData cb fits c h payload).conn := by
  unfold Http2.handleData
  split
  · exact refl c
  dsimp only
  split
  · rfl
  split
  · rfl
  next i _ =>
  split
  · rfl
  split
  · rfl
  have hreceive : ∀ w : Int, c.Keeps (({ c with connRecvWindow := w } : Conn σ).modifyStream i fun s =>
      { s with recvWindow := s.recvWindow - h.length }) := fun _ => rfl
  split
  · have hcredit : ∀ (d : Conn σ) (n : Nat), d.Keeps { d with connRecvCredit := n } := fun _ _ => rfl
    exact (hreceive _).trans ((resetKnownStream _ _ _).trans (hcredit _ _))
  · have hhold : ∀ (d : Conn σ) (n : Nat), d.Keeps (d.holdData i n) := by
      intro d n
      unfold Conn.holdData
      split_ifs <;> rfl
    exact (hreceive _).trans ((hhold _ _).trans ((invoke _ _).trans (settleData _ _ _ _)))

lemma handleWindowUpdate (c : Conn σ) (h : FrameHeader) (payload : Str) :
    c.Keeps (handleWindowUpdate cb fits c h payload).conn := by
  unfold Http2.handleWindowUpdate
  split
  · exact refl c
  dsimp only
  split
  · split
    · exact refl c
    · rfl
  · cases c.findStream h.streamId with
    | none => exact refl c
    | some i =>
      dsimp only
      split_ifs
      · exact resetKnownStream c _ _
      · exact resetKnownStream c _ _
      · rfl

lemma handleSettings (c : Conn σ) (h : FrameHeader) (payload : Str) : c.Keeps (handleSettings fits c h payload).conn := by
  unfold Http2.handleSettings
  split
  · exact refl c
  split
  · exact refl c
  split
  · exact refl c
  · dsimp only
    split
    · exact refl c
    · rfl

end Conn.Keeps

lemma handleFrame_keeps {h} (payload : Str) (hh : h.type ≠ .headers) (hc : h.type ≠ .continuation) :
    c.Keeps (handleFrame cb fits c h payload).conn := by
  unfold handleFrame
  split
  · exact .refl c
  cases ht : h.type with
  | headers => exact absurd ht hh
  | continuation => exact absurd ht hc
  | settings => exact .handleSettings c h payload
  | data => exact .handleData c h payload
  | windowUpdate => exact .handleWindowUpdate c h payload
  | rstStream =>
    dsimp only [handleRstStream]
    split_ifs
    · exact .refl c
    · exact (Conn.Keeps.clearPending c _).trans ((Conn.Keeps.closeAt _ _).trans (.invoke _ _))
  | ping =>
    dsimp only [handlePing]
    split_ifs <;> exact .refl c
  | goaway =>
    dsimp only [handleGoaway]
    split_ifs
    · exact .refl c
    · exact .refl c
    · rfl
  | pushPromise => exact .refl c
  | priority => exact .refl c
  | unknown n => exact .refl c

end Rut.Http2
