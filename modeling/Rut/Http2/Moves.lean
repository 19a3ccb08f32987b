import Rut.Http2.Conn

/-!
# What a frame does to the connection

The handlers of `handle_frame` are made of a few moves: callbacks, the closing of a stream, a fresh stream, and
updates of the fields of header assembly. Frames other than SETTINGS, DATA and WINDOW_UPDATE do nothing else
(`handleFrame_moves`).
-/

namespace Rut.Http2

variable {σ : Type} {cb : Callbacks σ} {fits : Room} {c c' : Conn σ}

lemma allocStream_spec {id i} (h : c.allocStream id = some (i, c')) : ∃ ss, c' = { c with streams := ss } ∧
      ((∃ s, c.streams[i]? = some s ∧ Conn.reusable s = true ∧ ss = c.streams.set i (c.freshStream id)) ∨
        i = c.streams.length ∧ ss = c.streams ++ [c.freshStream id]) := by
  unfold Conn.allocStream at h
  cases hfind : c.streams.findIdx? Conn.reusable with
  | some j =>
    rw [hfind] at h
    cases h
    obtain ⟨hlt, hreuse, -⟩ := List.findIdx?_eq_some_iff_getElem.mp hfind
    exact ⟨_, rfl, .inl ⟨_, List.getElem?_eq_getElem hlt, hreuse, rfl⟩⟩
  | none =>
    rw [hfind] at h
    split_ifs at h
    cases h
    exact ⟨_, rfl, .inr ⟨rfl, rfl⟩⟩

def Conn.sameButAssembly (c' c : Conn σ) : Prop :=
  c' = { c with
    hpackDec := c'.hpackDec
    hdrBlock := c'.hdrBlock
    contStream := c'.contStream
    contEndStream := c'.contEndStream
    contDiscard := c'.contDiscard
    contRefuse := c'.contRefuse }

/-- A move of a frame handler that leaves flow control to the callbacks. -/
inductive Move (cb : Callbacks σ) : Conn σ → Conn σ → Prop where
  | call (c : Conn σ) (call : Call) : Move cb c (cb.invoke call c).conn
  | close (c : Conn σ) (i : Nat) : Move cb c (c.setState i .closed)
  | endRemote (c : Conn σ) (i : Nat) (h : (c.stream i).state = .open) : Move cb c (c.setState i .halfClosedRemote)
  | gotHeaders (c : Conn σ) (i : Nat) (b : Bool) : Move cb c (c.setGotHeaders i b)
  | alloc (c : Conn σ) {id i : Nat} {c' : Conn σ} (hid : c.lastStreamId < id) (h : c.allocStream id = some (i, c')) :
      Move cb c { c' with lastStreamId := id }
  | full (c : Conn σ) {id : Nat} (hid : c.lastStreamId < id) (h : c.allocStream id = none) :
      Move cb c { c with lastStreamId := id }
  | assembly (c : Conn σ) {c' : Conn σ} (h : c'.sameButAssembly c) : Move cb c c'
  | pending (c : Conn σ) (p : PendingUpload) : Move cb c { c with pending := p }
  | peerGoaway (c : Conn σ) (last : Nat) : Move cb c { c with peerGoaway := true, peerLastStream := last }

abbrev Moves (cb : Callbacks σ) : Conn σ → Conn σ → Prop := Relation.ReflTransGen (Move cb)

structure Carries (cb : Callbacks σ) (R : Conn σ → Conn σ → Prop) : Prop where
  refl (c : Conn σ) : R c c
  trans {c₁ c₂ c₃ : Conn σ} (h : R c₁ c₂) (h' : R c₂ c₃) : R c₁ c₃
  call (c : Conn σ) (call : Call) : R c (cb.invoke call c).conn
  close (c : Conn σ) (i : Nat) : R c (c.setState i .closed)
  halfClose (c : Conn σ) (i : Nat) (h : (c.stream i).state = .open) : R c (c.setState i .halfClosedRemote)
  gotHeaders (c : Conn σ) (i : Nat) (b : Bool) : R c (c.setGotHeaders i b)
  assembly {c c' : Conn σ} (h : c'.sameButAssembly c) : R c c'
  pending (c : Conn σ) (p : PendingUpload) : R c { c with pending := p }

namespace Carries

variable {R : Conn σ → Conn σ → Prop} (H : Carries cb R)
include H

lemma closeAt (c : Conn σ) (slot : Option Nat) : R c (slot.elim c (c.setState · .closed)) := by
  cases slot with
  | none => exact H.refl c
  | some i => exact H.close c i

lemma endRemote (c : Conn σ) (i : Nat) : R c (c.endRemote i) := by
  unfold Conn.endRemote
  split_ifs with h
  · exact H.halfClose c i h
  · exact H.close c i

lemma clearPending (c : Conn σ) (id : Nat) : R c (c.clearPendingUpload id) := by
  unfold Conn.clearPendingUpload
  split_ifs
  · exact H.pending c {}
  · exact H.refl c

lemma append {p} (h : c.appendFragment p = some c') : R c c' := by
  unfold Conn.appendFragment at h
  split_ifs at h
  cases h
  exact H.assembly rfl

lemma decodeBlock {k} (hk : ∀ d fields, R { c with hpackDec := d } (k { c with hpackDec := d } fields).conn) :
    R c (decodeBlock c k).conn := by
  unfold Http2.decodeBlock
  split
  · exact H.refl c
  · exact H.refl c
  · next st _ =>
    have hdec : R c { c with hpackDec := st.dyn } := H.assembly rfl
    exact H.trans hdec (hk st.dyn (blockFields st))

lemma resetKnownStream (c : Conn σ) (id : Nat) (e : Http2Error) : R c (resetKnownStream cb fits c id e).conn := by
  unfold Http2.resetKnownStream
  split_ifs
  · dsimp only
    cases c.findStream id with
    | none => exact H.clearPending c id
    | some i => exact H.trans (H.clearPending c id) (H.trans (H.close _ i) (H.call _ _))
  · exact H.refl c

lemma gotHeadersAt (c : Conn σ) (slot : Option Nat) (b : Bool) : R c (slot.elim c (c.setGotHeaders · b)) := by
  cases slot with
  | none => exact H.refl c
  | some i => exact H.gotHeaders c i b

lemma endRemoteAt (c : Conn σ) (slot : Option Nat) : R c (slot.elim c c.endRemote) := by
  cases slot with
  | none => exact H.refl c
  | some i => exact H.endRemote c i

lemma deliverHeaders (c : Conn σ) (id : Nat) (endStream refuse : Bool) (fields : List (Str × Str)) :
    R c (deliverHeaders cb fits c id endStream refuse fields).conn := by
  unfold Http2.deliverHeaders
  split
  · dsimp only
    split
    · exact H.closeAt _ _
    · exact H.closeAt _ _
  · split
    · cases checkResponse fields endStream with
      | none => exact H.refl c
      | some informational =>
        refine H.trans ?_ (H.call _ _)
        cases informational with
        | false => exact H.refl c
        | true => exact H.gotHeadersAt _ _ _
    · exact H.call _ _

lemma finishHeaders (c : Conn σ) (id : Nat) (endStream refuse : Bool) :
    R c (finishHeaders cb fits c id endStream refuse).conn := by
  refine H.decodeBlock fun d fields => ?_
  refine H.trans ?_ (H.deliverHeaders _ id endStream refuse fields)
  exact H.assembly rfl

lemma endTrailers (c : Conn σ) (id : Nat) (slot : Option Nat) (endStream bad : Bool) :
    R c (endTrailers cb fits c id slot endStream bad).conn := by
  unfold Http2.endTrailers
  cases slot with
  | none => exact H.resetKnownStream c id _
  | some i =>
    dsimp only
    split_ifs
    · exact H.trans (H.endRemote c i) (H.call _ _)
    · exact H.endRemote c i
    · exact H.resetKnownStream c id _

lemma deliverTrailers (c : Conn σ) (fields : List (Str × Str)) : R c (deliverTrailers cb c fields).conn := by
  unfold Http2.deliverTrailers
  split
  · exact H.call _ _
  · exact H.refl c

lemma discardHeaders {k} (hk : ∀ r bad, R r.conn (k r bad).conn) : R c (discardHeaders cb c k).conn := by
  refine H.decodeBlock fun d fields => ?_
  refine H.trans ?_ (hk _ _)
  exact H.trans (H.deliverTrailers _ fields) (H.assembly rfl)

lemma handleKnownHeaders (c : Conn σ) (h : FrameHeader) (p : Str) (i : Nat) (newStream : Bool) :
    R c (handleKnownHeaders cb fits c h p i newStream).conn := by
  unfold Http2.handleKnownHeaders
  dsimp only
  split
  · cases happ : c.appendFragment p with
    | none => exact H.refl c
    | some c₁ =>
      refine H.trans (H.append happ) ?_
      dsimp only
      split
      · have hawait : R c₁ (c₁.awaitBlock h.streamId (h.has kEndStream)) := H.assembly rfl
        exact H.trans hawait (H.discardHeaders fun r bad => H.endTrailers _ _ _ _ _)
      · exact H.assembly rfl
  · refine H.trans (H.gotHeaders c i true) ?_
    generalize c.setGotHeaders i true = c₁
    cases happ : c₁.appendFragment p with
    | none => exact H.refl c₁
    | some c₂ =>
      refine H.trans (H.append happ) ?_
      dsimp only
      split
      · split
        · exact H.trans (H.endRemote _ i) (H.finishHeaders _ _ _ _)
        · exact H.finishHeaders _ _ _ _
      · exact H.assembly rfl

lemma handleStaleHeaders (c : Conn σ) (h : FrameHeader) (p : Str) : R c (handleStaleHeaders cb fits c h p).conn := by
  unfold Http2.handleStaleHeaders
  split
  · exact H.refl c
  · cases happ : c.appendFragment p with
    | none => exact H.refl c
    | some c₁ =>
      refine H.trans (H.append happ) ?_
      dsimp only
      have hawait : R c₁ { c₁.awaitBlock h.streamId false with contDiscard := true } := H.assembly rfl
      refine H.trans hawait ?_
      generalize ({ c₁.awaitBlock h.streamId false with contDiscard := true } : Conn σ) = c₂
      split
      · refine H.decodeBlock fun d fields => ?_
        have hend : R { c₂ with hpackDec := d } ({ c₂ with hpackDec := d } : Conn σ).endBlock := H.assembly rfl
        exact H.trans hend (H.resetKnownStream _ _ _)
      · exact H.refl c₂

lemma handleContinuation (c : Conn σ) (h : FrameHeader) (payload : Str) :
    R c (handleContinuation cb fits c h payload).conn := by
  unfold Http2.handleContinuation
  split
  · exact H.refl c
  · cases happ : c.appendFragment payload with
    | none => exact H.refl c
    | some c₁ =>
      refine H.trans (H.append happ) ?_
      dsimp only
      split
      · split
        · exact H.discardHeaders fun r bad => H.endTrailers _ _ _ _ _
        · refine H.trans ?_ (H.finishHeaders _ _ _ _)
          split
          · exact H.endRemoteAt _ _
          · exact H.refl c₁
      · exact H.refl c₁

lemma handleRstStream (c : Conn σ) (h : FrameHeader) (payload : Str) : R c (handleRstStream cb c h payload).conn := by
  unfold Http2.handleRstStream
  split_ifs
  · exact H.refl c
  · exact H.trans (H.clearPending c _) (H.trans (H.closeAt _ _) (H.call _ _))

lemma handleHeaders (c : Conn σ) (h : FrameHeader) (payload : Str) : R c (handleHeaders cb fits c h payload).conn ∨
    h.streamId % 2 = 1 ∧ c.lastStreamId < h.streamId ∧ ((∃ i c', c.allocStream h.streamId = some (i, c') ∧
          R { c' with lastStreamId := h.streamId } (handleHeaders cb fits c h payload).conn) ∨
        c.allocStream h.streamId = none ∧
          (handleHeaders cb fits c h payload).conn = { c with lastStreamId := h.streamId }) := by
  unfold Http2.handleHeaders
  split
  · exact .inl (H.refl c)
  · next hodd =>
    cases stripPadding h payload true with
    | none => exact .inl (H.refl c)
    | some p =>
      cases c.findStream h.streamId with
      | some i => exact .inl (H.handleKnownHeaders _ _ _ _ _)
      | none =>
        dsimp only
        split
        · exact .inl (H.handleStaleHeaders _ _ _)
        · split
          · exact .inl (H.refl c)
          · next hid =>
            refine .inr ⟨by omega, Nat.not_le.mp hid, ?_⟩
            cases halloc : c.allocStream h.streamId with
            | some r => exact .inl ⟨_, _, rfl, H.handleKnownHeaders _ _ _ _ _⟩
            | none => exact .inr ⟨rfl, rfl⟩

end Carries

namespace Moves

lemma refl : Moves cb c c := Relation.ReflTransGen.refl

lemma call (c : Conn σ) (call : Call) : Moves cb c (cb.invoke call c).conn := .single (.call c call)

lemma close (c : Conn σ) (i : Nat) : Moves cb c (c.setState i .closed) := .single (.close c i)

lemma carries : Carries cb (Moves cb) where
  refl := fun _ => refl
  trans := Relation.ReflTransGen.trans
  call := call
  close := close
  halfClose := fun c i h => .single (.endRemote c i h)
  gotHeaders := fun c i b => .single (.gotHeaders c i b)
  assembly := fun h => .single (.assembly _ h)
  pending := fun c p => .single (.pending c p)

lemma clearPending (c : Conn σ) (id : Nat) : Moves cb c (c.clearPendingUpload id) := carries.clearPending c id

lemma resetKnownStream (c : Conn σ) (id : Nat) (e : Http2Error) :
    Moves cb c (resetKnownStream cb fits c id e).conn := carries.resetKnownStream c id e

lemma handleHeaders (c : Conn σ) (h : FrameHeader) (payload : Str) :
    Moves cb c (handleHeaders cb fits c h payload).conn := by
  obtain hmoves | ⟨-, hid, ⟨i, c', halloc, hmoves⟩ | ⟨halloc, hconn⟩⟩ := carries.handleHeaders c h payload
  · exact hmoves
  · exact .head (.alloc c hid halloc) hmoves
  · rw [hconn]
    exact .single (.full c hid halloc)

end Moves

def FrameType.isFlow (t : FrameType) : Bool := t == .settings || t == .data || t == .windowUpdate

/-- Every other frame is a sequence of moves. -/
theorem handleFrame_moves {h : FrameHeader} (payload : Str) (hflow : h.type.isFlow = false) :
    Moves cb c (handleFrame cb fits c h payload).conn := by
  unfold handleFrame
  split_ifs
  · exact .refl
  · cases ht : h.type with
    | headers => exact Moves.handleHeaders c h payload
    | continuation => exact Moves.carries.handleContinuation c h payload
    | rstStream => exact Moves.carries.handleRstStream c h payload
    | ping =>
      dsimp only [handlePing]
      split_ifs <;> exact .refl
    | goaway =>
      dsimp only [handleGoaway]
      split_ifs
      · exact .refl
      · exact .refl
      · exact .single (.peerGoaway c _)
    | settings =>
      rw [ht] at hflow
      cases hflow
    | data =>
      rw [ht] at hflow
      cases hflow
    | windowUpdate =>
      rw [ht] at hflow
      cases hflow
    | priority => exact .refl
    | pushPromise => exact .refl
    | unknown n => exact .refl

end Rut.Http2
