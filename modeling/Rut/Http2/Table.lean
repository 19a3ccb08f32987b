import Rut.Http2.HeaderSync
import Rut.Http2.Streams

/-!
# The table of streams over whole runs

Slots are recycled and several handlers write the states of streams. Whatever a frame does, with or without a connection
error, a slot keeps its stream, which only moves on, or it goes to a stream that is newer than all before.
-/

set_option linter.all false
namespace Rut.Http2

variable {σ L : Type} {cb : Callbacks σ} {serve : Conn σ → L → Conn σ → Prop} {fits : Room} {c c' : Conn σ}

/-! ## Streams move on -/

def StreamState.rank : StreamState → Nat
  | .idle => 0
  | .open => 1
  | .halfClosedLocal | .halfClosedRemote => 2
  | .closed => 3

def StreamState.Onward (s s' : StreamState) : Prop := s' = s ∨ s.rank < s'.rank

lemma StreamState.Onward.trans {s s' s'' : StreamState} (h : s.Onward s') (h' : s'.Onward s'') : s.Onward s'' := by
  rcases h with rfl | h
  · exact h'
  · rcases h' with rfl | h'
    · exact .inr h
    · exact .inr (h.trans h')

lemma StreamState.Onward.closed (s : StreamState) : s.Onward .closed := by
  cases s with
  | closed => exact .inl rfl
  | _ => exact .inr (by decide)

structure Stream.Onward (s s' : Stream) : Prop where
  id : s'.id = s.id
  state : s.state.Onward s'.state

lemma Stream.Onward.refl (s : Stream) : s.Onward s := ⟨rfl, .inl rfl⟩

lemma Stream.Onward.forall₂_trans {ss ss' ss''} (h : List.Forall₂ Stream.Onward ss ss')
    (h' : List.Forall₂ Stream.Onward ss' ss'') : List.Forall₂ Stream.Onward ss ss'' := by
  induction h generalizing ss'' with
  | nil => exact h'
  | cons hs _ ih =>
    cases h' with
    | cons hs' h' => exact .cons ⟨hs'.id.trans hs.id, hs.state.trans hs'.state⟩ (ih h')

structure Conn.Onward (c c' : Conn σ) : Prop where
  streams : List.Forall₂ Stream.Onward c.streams c'.streams
  lastStreamId : c'.lastStreamId = c.lastStreamId

/-- The callbacks leave the slots to their streams and move these on only. -/
def Callbacks.Onward (cb : Callbacks σ) : Prop := ∀ (call : Call) (c : Conn σ), c.Onward (cb.invoke call c).conn

namespace Conn.Onward

lemma refl (c : Conn σ) : c.Onward c := ⟨List.forall₂_same.mpr fun s _ => .refl s, rfl⟩

lemma trans {c₁ c₂ c₃ : Conn σ} (h : c₁.Onward c₂) (h' : c₂.Onward c₃) : c₁.Onward c₃ :=
  ⟨Stream.Onward.forall₂_trans h.streams h'.streams, h'.lastStreamId.trans h.lastStreamId⟩

lemma modify {f : Stream → Stream} (hid : ∀ s, (f s).id = s.id) (hstate : ∀ s, (f s).state = s.state) (i : Nat) :
    c.Onward (c.modifyStream i f) :=
  ⟨forall₂_modify Stream.Onward.refl fun s _ => ⟨hid s, .inl (hstate s)⟩, rfl⟩

lemma setState {i state} (h : (c.stream i).state.Onward state) : c.Onward (c.setState i state) := by
  refine ⟨forall₂_modify Stream.Onward.refl fun s hs => ⟨rfl, ?_⟩, rfl⟩
  rw [stream_eq hs] at h
  exact h

end Conn.Onward

/-- `h2_close_stream`: what the serving layer does once our side has ended. -/
def Conn.h2CloseStream (c : Conn σ) (id : Nat) : Conn σ :=
  (c.findStream id).elim c fun i =>
    c.setState i (if (c.stream i).state = .halfClosedRemote then .closed else .halfClosedLocal)

lemma h2CloseStream_onward (c : Conn σ) (id : Nat) : c.Onward (c.h2CloseStream id) := by
  unfold Conn.h2CloseStream
  cases hfind : c.findStream id with
  | none => exact .refl c
  | some i =>
    have hlive := (findStream_id hfind).2.1
    rw [Option.elim_some]
    split_ifs with hremote
    · exact .setState (.closed _)
    · refine .setState ?_
      cases hstate : (c.stream i).state with
      | idle => exact .inr (by decide)
      | «open» => exact .inr (by decide)
      | halfClosedLocal => exact .inl rfl
      | halfClosedRemote => exact absurd hstate hremote
      | closed => exact absurd hstate hlive

lemma forall₂_getElem?_left {R : Stream → Stream → Prop} {ss ss' : List Stream} (h : List.Forall₂ R ss ss') {j : Nat}
    {s : Stream} (hs : ss[j]? = some s) : ∃ s', ss'[j]? = some s' ∧ R s s' :=
  forall₂_getElem? (R := fun s' s => R s s') h.flip hs

/-! ## Frames -/

lemma Callbacks.Onward.carries (hcb : cb.Onward) : Carries cb Conn.Onward where
  refl := .refl
  trans := .trans
  call := fun c call => hcb call c
  close := fun _ _ => .setState (.closed _)
  halfClose := fun c i h => .setState (by rw [h]; exact .inr (by decide))
  gotHeaders := fun c i b => .modify (fun _ => by rfl) (fun _ => by rfl) i
  assembly := fun {c c'} h => by
    have hstreams : c'.streams = c.streams := by rw [h]
    refine ⟨?_, by rw [h]⟩
    rw [hstreams]
    exact (Conn.Onward.refl c).streams
  pending := fun c p => ⟨(Conn.Onward.refl c).streams, rfl⟩

lemma endData_onward (c : Conn σ) (i : Nat) (endStream : Bool) : c.Onward (c.endData i endStream) := by
  unfold Conn.endData
  split
  · next h =>
    rw [Bool.and_eq_true, bne_iff_ne] at h
    refine .setState ?_
    split_ifs with hlocal
    · exact .closed _
    · cases hstate : (c.stream i).state with
      | idle => exact .inr (by decide)
      | «open» => exact .inr (by decide)
      | halfClosedLocal => exact absurd hstate hlocal
      | halfClosedRemote => exact .inl rfl
      | closed => exact absurd hstate h.2
  · exact .refl c

lemma settleData_onward (c : Conn σ) (h : FrameHeader) (p : Str) (i : Nat) :
    c.Onward (settleData fits c h p i).conn := by
  refine (endData_onward c i (h.has kEndStream)).trans ?_
  unfold settleData
  dsimp only
  generalize c.endData i (h.has kEndStream) = c
  have hmodify : ∀ (d : Conn σ) (f : Stream → Stream), (∀ s, (f s).id = s.id) → (∀ s, (f s).state = s.state) →
      List.Forall₂ Stream.Onward d.streams (d.streams.modify i f) := fun d f hid hstate =>
    (Conn.Onward.modify (c := d) hid hstate i).streams
  split
  · exact ⟨hmodify _ _ (fun _ => by rfl) (fun _ => by rfl), rfl⟩
  · exact ⟨hmodify _ _ (fun _ => by rfl) (fun _ => by rfl), rfl⟩

lemma handleData_onward (hcb : cb.Onward) (c : Conn σ) (h : FrameHeader) (payload : Str) :
    c.Onward (handleData cb fits c h payload).conn := by
  have hwindow : ∀ w : Int, c.Onward { c with connRecvWindow := w } := fun w => ⟨(Conn.Onward.refl c).streams, rfl⟩
  unfold handleData
  split
  · exact .refl c
  dsimp only
  split
  · exact hwindow _
  split
  · exact hwindow _
  next i _ =>
  split
  · exact hwindow _
  split
  · exact hwindow _
  have hreceive : c.Onward (c.receive i h.length) :=
    (hwindow _).trans (.modify (fun _ => by rfl) (fun _ => by rfl) i)
  split
  · have hreset : c.Onward (resetKnownStream cb fits (c.receive i h.length) h.streamId .flowControlError).conn :=
      hreceive.trans (hcb.carries.resetKnownStream _ _ _)
    exact ⟨hreset.streams, hreset.lastStreamId⟩
  · refine hreceive.trans ?_
    have hhold : ∀ n, (c.receive i h.length).Onward ((c.receive i h.length).holdData i n) := by
      intro n
      unfold Conn.holdData
      split
      · exact .modify (fun _ => by rfl) (fun _ => by rfl) i
      · exact .refl _
    exact (hhold _).trans ((hcb _ _).trans (settleData_onward _ h _ i))

lemma handleSettings_onward (c : Conn σ) (h : FrameHeader) (payload : Str) :
    c.Onward (handleSettings fits c h payload).conn := by
  obtain hconn | ⟨settings, -, -, -, hconn⟩ := handleSettings_cases fits c h payload
  · rw [hconn]
    exact .refl c
  · rw [hconn]
    refine ⟨List.forall₂_map_right_iff.mpr (List.forall₂_same.mpr fun s _ => ?_), rfl⟩
    split_ifs
    · exact .refl s
    · exact ⟨rfl, .inl rfl⟩

lemma handleWindowUpdate_onward (hcb : cb.Onward) (c : Conn σ) (h : FrameHeader) (payload : Str) :
    c.Onward (handleWindowUpdate cb fits c h payload).conn := by
  unfold handleWindowUpdate
  split
  · exact .refl c
  dsimp only
  split
  · split
    · exact .refl c
    · exact ⟨(Conn.Onward.refl c).streams, rfl⟩
  · cases c.findStream h.streamId with
    | none => exact .refl c
    | some i =>
      dsimp only
      split_ifs
      · exact hcb.carries.resetKnownStream _ _ _
      · exact hcb.carries.resetKnownStream _ _ _
      · exact .modify (fun _ => by rfl) (fun _ => by rfl) i

/-- What happens to the table at a time: its streams move on, possibly after one slot has gone to a fresh stream, or
after a stream has been seen for which there was none. -/
inductive TableStep : Conn σ → Conn σ → Prop where
  | same {c c' : Conn σ} (h : c.Onward c') : TableStep c c'
  | fresh {c c₁ c' : Conn σ} {id i : Nat} (hodd : id % 2 = 1) (hid : c.lastStreamId < id)
      (ha : c.allocStream id = some (i, c₁)) (h : Conn.Onward { c₁ with lastStreamId := id } c') : TableStep c c'
  | full {c c' : Conn σ} {id : Nat} (hid : c.lastStreamId < id) (h : Conn.Onward { c with lastStreamId := id } c') :
      TableStep c c'

lemma TableStep.goaway (h : TableStep c c') : TableStep c { c' with goawaySent := true } := by
  have hsent : ∀ {d : Conn σ}, d.Onward c' → d.Onward { c' with goawaySent := true } := fun h =>
    ⟨h.streams, h.lastStreamId⟩
  cases h with
  | same h => exact .same (hsent h)
  | fresh hodd hid ha h => exact .fresh hodd hid ha (hsent h)
  | full hid h => exact .full hid (hsent h)

lemma handleFrame_table (hcb : cb.Onward) (c : Conn σ) (h : FrameHeader) (payload : Str) :
    TableStep c (handleFrame cb fits c h payload).conn := by
  unfold handleFrame
  split_ifs
  · exact .same (.refl c)
  · cases h.type with
    | headers =>
      obtain hsame | ⟨hodd, hid, ⟨i, c', ha, honward⟩ | ⟨-, hconn⟩⟩ := hcb.carries.handleHeaders c h payload
      · exact .same hsame
      · exact .fresh hodd hid ha honward
      · dsimp only
        rw [hconn]
        exact .full hid (.refl _)
    | continuation => exact .same (hcb.carries.handleContinuation c h payload)
    | rstStream => exact .same (hcb.carries.handleRstStream c h payload)
    | settings => exact .same (handleSettings_onward c h payload)
    | data => exact .same (handleData_onward hcb c h payload)
    | windowUpdate => exact .same (handleWindowUpdate_onward hcb c h payload)
    | ping =>
      dsimp only [handlePing]
      split_ifs <;> exact .same (.refl c)
    | goaway =>
      dsimp only [handleGoaway]
      split_ifs
      · exact .same (.refl c)
      · exact .same (.refl c)
      · exact .same ⟨(Conn.Onward.refl c).streams, rfl⟩
    | priority => exact .same (.refl c)
    | pushPromise => exact .same (.refl c)
    | unknown n => exact .same (.refl c)

lemma flush_onward (fits : Room) (c : Conn σ) : c.Onward (flushCredits fits c).1 ∧
      List.Forall₂ (fun s s' : Stream => s'.state = s.state ∧ s'.recvUnconsumed = s.recvUnconsumed) c.streams
        (flushCredits fits c).1.streams := by
  have hconn : (flushConn fits c).1.streams = c.streams ∧ (flushConn fits c).1.lastStreamId = c.lastStreamId := by
    unfold flushConn
    split
    · exact ⟨rfl, rfl⟩
    · exact ⟨rfl, rfl⟩
  have hslots := flushStreams_forall₂ fits (outLen (flushConn fits c).2) (flushConn fits c).1.streams
  rw [hconn.1] at hslots
  have hone : ∀ s s' : Stream, (∃ w, s' = (flushStream fits w s).1) →
      s'.id = s.id ∧ s'.state = s.state ∧ s'.recvUnconsumed = s.recvUnconsumed := by
    rintro s s' ⟨w, rfl⟩
    unfold flushStream
    split_ifs <;> exact ⟨rfl, rfl, rfl⟩
  refine ⟨⟨?_, hconn.2⟩, ?_⟩
  · refine (show List.Forall₂ _ c.streams (flushStreams fits _ (flushConn fits c).1.streams).1 from ?_)
    rw [hconn.1]
    exact hslots.imp fun s s' h => ⟨(hone s s' h).1, .inl (hone s s' h).2.1⟩
  · refine (show List.Forall₂ _ c.streams (flushStreams fits _ (flushConn fits c).1.streams).1 from ?_)
    rw [hconn.1]
    exact hslots.imp fun s s' h => (hone s s' h).2

/-! ## The invariant -/

/-- The slots belong to distinct streams of the peer that have been seen, and there are at most 64 of them. -/
structure TableInv (c : Conn σ) : Prop where
  distinct : c.ids.Nodup
  odd : ∀ id ∈ c.ids, id % 2 = 1
  seen : ∀ id ∈ c.ids, id ≤ c.lastStreamId
  size : c.streams.length ≤ kMaxStreams

/-- What a step may do to the table: the last stream only grows; a slot keeps its stream, which moves on, or it goes to
a stream newer than all before, and then it was new itself or its stream was closed and had no octets left to consume. -/
structure Conn.Advances (c c' : Conn σ) : Prop where
  last : c.lastStreamId ≤ c'.lastStreamId
  kept : c.streams.length ≤ c'.streams.length
  slots : ∀ (i : Nat) (s' : Stream), c'.streams[i]? = some s' →
    (∃ s, c.streams[i]? = some s ∧ s.Onward s') ∨
    c.lastStreamId < s'.id ∧ s'.id = c'.lastStreamId ∧
      ∀ s, c.streams[i]? = some s → s.state = .closed ∧ s.recvUnconsumed = 0

lemma Conn.Onward.ids (h : c.Onward c') : c'.ids = c.ids := map_eq_of_forall₂ (h.streams.imp fun _ _ hs => hs.id)

lemma Conn.Onward.length (h : c.Onward c') : c'.streams.length = c.streams.length := h.streams.length_eq.symm

lemma Conn.Onward.advances (h : c.Onward c') : c.Advances c' where
  last := h.lastStreamId.ge
  kept := h.length.ge
  slots := fun _ _ hs' => .inl (forall₂_getElem? h.streams hs')

lemma allocStream_length {id i} (h : c.allocStream id = some (i, c')) (hsize : c.streams.length ≤ kMaxStreams) :
    c.streams.length ≤ c'.streams.length ∧ c'.streams.length ≤ kMaxStreams := by
  unfold Conn.allocStream at h
  split at h
  · cases h
    rw [List.length_set]
    exact ⟨le_rfl, hsize⟩
  · split_ifs at h with hfull
    cases h
    rw [List.length_append, List.length_singleton]
    exact ⟨Nat.le_succ _, Nat.not_le.mp hfull⟩

lemma TableInv.idsInv (h : TableInv c) : IdsInv c where
  range := fun id hid => by
    have hodd := h.odd id hid
    exact ⟨by omega, h.seen id hid⟩
  distinct := h.distinct

lemma TableInv.onward (h : TableInv c) (hon : c.Onward c') : TableInv c' where
  distinct := by
    rw [hon.ids]
    exact h.distinct
  odd := by
    rw [hon.ids]
    exact h.odd
  seen := by
    rw [hon.ids, hon.lastStreamId]
    exact h.seen
  size := by
    rw [hon.length]
    exact h.size

lemma fresh_slot {id i j : Nat} {s'} (h : c.allocStream id = some (i, c')) (hs' : c'.streams[j]? = some s') :
    c.streams[j]? = some s' ∨
      s' = c.freshStream id ∧ ∀ s, c.streams[j]? = some s → s.state = .closed ∧ s.recvUnconsumed = 0 := by
  obtain ⟨ss, rfl, ⟨s, hs, hreuse, rfl⟩ | ⟨rfl, rfl⟩⟩ := allocStream_spec h
  · rw [Conn.reusable, Bool.and_eq_true, beq_iff_eq, beq_iff_eq] at hreuse
    rw [List.getElem?_set] at hs'
    split_ifs at hs' with hij hlt
    · subst hij
      refine .inr ⟨(Option.some.inj hs').symm, fun s₀ hs₀ => ?_⟩
      cases hs.symm.trans hs₀
      exact hreuse
    · exact .inl hs'
  · dsimp only at hs'
    by_cases hlt : j < c.streams.length
    · rw [List.getElem?_append_left hlt] at hs'
      exact .inl hs'
    · rw [List.getElem?_append_right (Nat.not_lt.mp hlt)] at hs'
      have hmem := List.mem_of_getElem? hs'
      refine .inr ⟨List.mem_singleton.mp hmem, fun s hs => ?_⟩
      rw [List.getElem?_eq_none (Nat.not_lt.mp hlt)] at hs
      cases hs

lemma TableStep.inv (h : TableStep c c') (hinv : TableInv c) : TableInv c' ∧ c.Advances c' := by
  cases h with
  | same hon => exact ⟨hinv.onward hon, hon.advances⟩
  | @fresh c₁ _ id i hodd hid ha hon =>
    obtain ⟨hkept, hsize⟩ := allocStream_length ha hinv.size
    have hids := hinv.idsInv.alloc hid ha
    have hslot : ∀ s ∈ c₁.streams, s ∈ c.streams ∨ s = c.freshStream id := by
      intro s hs
      obtain ⟨j, hj⟩ := List.mem_iff_getElem?.mp hs
      rcases fresh_slot ha hj with hold | ⟨hnew, -⟩
      · exact .inl (List.mem_of_getElem? hold)
      · exact .inr hnew
    have hfresh : TableInv { c₁ with lastStreamId := id } := by
      refine ⟨hids.distinct, fun id' h' => ?_, fun id' h' => (hids.range id' h').2, hsize⟩
      obtain ⟨s, hs, rfl⟩ := List.mem_map.mp h'
      rcases hslot s hs with hold | rfl
      · exact hinv.odd _ (List.mem_map_of_mem hold)
      · exact hodd
    refine ⟨hfresh.onward hon, ?_, ?_, ?_⟩
    · rw [hon.lastStreamId]
      exact hid.le
    · rw [hon.length]
      exact hkept
    · intro j s' hs'
      obtain ⟨s, hs, hmove⟩ := forall₂_getElem? hon.streams hs'
      rcases fresh_slot ha hs with hold | ⟨rfl, hreuse⟩
      · exact .inl ⟨s, hold, hmove⟩
      · refine .inr ⟨?_, ?_, hreuse⟩
        · rw [hmove.id]
          exact hid
        · rw [hmove.id, hon.lastStreamId]
          rfl
  | @full _ id hid hon =>
    have hskip : TableInv { c with lastStreamId := id } :=
      ⟨hinv.distinct, hinv.odd, fun id' h' => (hinv.seen id' h').trans hid.le, hinv.size⟩
    refine ⟨hskip.onward hon, hid.le.trans hon.lastStreamId.ge, hon.length.ge, ?_⟩
    exact fun j s' hs' => .inl (forall₂_getElem? hon.streams hs')

lemma Conn.Advances.flushed (h : (flushCredits fits c).1.Advances c') : c.Advances c' := by
  obtain ⟨hon, hsame⟩ := flush_onward fits c
  refine ⟨hon.lastStreamId ▸ h.last, hon.length ▸ h.kept, fun i s' hs' => ?_⟩
  rcases h.slots i s' hs' with ⟨s₁, hs₁, hmove⟩ | ⟨hnew, hlast, hreuse⟩
  · obtain ⟨s, hs, hmove₁⟩ := forall₂_getElem? hon.streams hs₁
    exact .inl ⟨s, hs, hmove.id.trans hmove₁.id, hmove₁.state.trans hmove.state⟩
  · refine .inr ⟨hon.lastStreamId ▸ hnew, hlast, fun s hs => ?_⟩
    obtain ⟨s₁, hs₁, hstate, hheld⟩ := forall₂_getElem?_left hsame hs
    have hclosed := hreuse s₁ hs₁
    rw [hstate, hheld] at hclosed
    exact hclosed

/-! ## Runs -/

/-- Where the next step of the engine leads, also one that ends in a connection error. -/
inductive EngineNext (cb : Callbacks σ) (serve : Conn σ → L → Conn σ → Prop) : Engine σ → Conn σ → Prop where
  | call (cap : Option Nat) (c : Conn σ) (input : Str) :
      EngineNext cb serve (.idle c) ((startProcess cap c input).elim (·.conn) (·.conn))
  | turn (cap : Option Nat) (p : Progress σ) :
      EngineNext cb serve (.busy cap p) ((processStep cb cap p).elim (·.conn) (·.conn))
  | serve {c c' : Conn σ} {l : L} (h : serve c l c') : EngineNext cb serve (.idle c) c'

lemma EngineStep.next {s s' a} (h : EngineStep cb serve s a s') : EngineNext cb serve s s'.conn := by
  cases h with
  | @call cap c input p h =>
    have hnext : EngineNext cb serve (.idle c) _ := .call cap c input
    rw [h] at hnext
    exact hnext
  | @wait cap c input p h =>
    have hnext : EngineNext cb serve (.idle c) _ := .call cap c input
    rw [h] at hnext
    exact hnext
  | @turn cap p p' h =>
    have hnext : EngineNext cb serve (.busy cap p) _ := .turn cap p
    rw [h] at hnext
    exact hnext
  | @«return» cap p p' h =>
    have hnext : EngineNext cb serve (.busy cap p) _ := .turn cap p
    rw [h] at hnext
    exact hnext
  | serve h => exact .serve h

lemma startProcess_onward (cap : Option Nat) (c : Conn σ) (input : Str) :
    c.Onward ((startProcess cap c input).elim (·.conn) (·.conn)) := by
  unfold startProcess
  split
  · exact .refl c
  · cases matchClientPreface input with
    | error => exact ⟨(Conn.Onward.refl c).streams, rfl⟩
    | incomplete => exact .refl c
    | complete =>
      dsimp only [Sum.elim_inl]
      unfold greet
      split
      · exact ⟨(Conn.Onward.refl c).streams, rfl⟩
      · exact ⟨(Conn.Onward.refl c).streams, rfl⟩

lemma processStep_table (hcb : cb.Onward) (cap : Option Nat) (p : Progress σ) :
    TableStep (p.flush cap).conn ((processStep cb cap p).elim (·.conn) (·.conn)) := by
  unfold processStep
  dsimp only
  cases nextTurn (room cap (outLen (p.flush cap).out)) (p.flush cap).conn (p.flush cap).rest with
  | wait => exact .same (.refl _)
  | close e =>
    cases e with
    | none => exact .same (.refl _)
    | some e => exact .same ⟨(Conn.Onward.refl _).streams, rfl⟩
  | handle h payload rest =>
    have hframe : TableStep (p.flush cap).conn ((p.flush cap).handle cb cap h payload rest).1.conn :=
      handleFrame_table hcb _ h payload
    unfold Progress.turn
    dsimp only
    generalize (p.flush cap).handle cb cap h payload rest = r at hframe
    obtain ⟨q, v⟩ := r
    cases v with
    | ok => exact hframe
    | error e => exact hframe.goaway
    | fault => exact hframe

lemma EngineNext.table (hcb : cb.Onward) (hserve : ∀ c l c', serve c l c' → c.Onward c') {s}
    (h : EngineNext cb serve s c') (hinv : TableInv s.conn) : TableInv c' ∧ s.conn.Advances c' := by
  cases h with
  | call cap c input =>
    have hon := startProcess_onward cap c input
    exact ⟨hinv.onward hon, hon.advances⟩
  | turn cap p =>
    have hflush : TableInv (p.flush cap).conn := hinv.onward (flush_onward _ _).1
    obtain ⟨hinv', hadv⟩ := (processStep_table hcb cap p).inv hflush
    exact ⟨hinv', Conn.Advances.flushed hadv⟩
  | serve h =>
    have hon := hserve _ _ _ h
    exact ⟨hinv.onward hon, hon.advances⟩

/-! ## The assembly of header blocks -/

def BlockInv (c : Conn σ) : Prop := c.contStream = 0 → c.hdrBlock = []

lemma BlockInv.same (h : BlockInv c) (hs : c.SameBlock c') : BlockInv c' := by
  intro hcont
  rw [hs.hdrBlock]
  exact h (hs.contStream.symm.trans hcont)

lemma BlockInv.takes {p ended} (ht : c.Takes p ended c') : BlockInv c' := by
  intro hcont
  cases ended with
  | true => exact (ht.last rfl).hdrBlock
  | false => exact absurd hcont (ht.more rfl).2.2

lemma handleHeaders_same {h payload}
    (hadm : ¬ Handled.Admitted ⟨c, fits, h, payload⟩) : c.SameBlock (handleHeaders cb fits c h payload).conn := by
  have hfull : c.findStream h.streamId = none ∧ c.client = false ∧ c.allocStream h.streamId = none := by
    unfold Handled.Admitted at hadm
    push Not at hadm
    obtain ⟨-, hfind, hclient, hreuse, hlen⟩ := hadm
    refine ⟨hfind, hclient, ?_⟩
    have hidx : c.streams.findIdx? Conn.reusable = none := by
      rw [List.findIdx?_eq_none_iff]
      intro s hs
      by_contra hr
      exact hreuse (List.any_eq_true.mpr ⟨s, hs, by simpa using hr⟩)
    unfold Conn.allocStream
    rw [hidx]
    exact if_pos hlen
  unfold handleHeaders
  split
  · exact .refl c
  · cases stripPadding h payload true with
    | none => exact .refl c
    | some p =>
      rw [hfull.1, hfull.2.1]
      dsimp only
      rw [if_neg Bool.false_ne_true]
      split
      · exact .refl c
      · rw [hfull.2.2]
        exact ⟨rfl, rfl, rfl⟩

lemma BlockInv.frame {h payload} (hok : (handleFrame cb fits c h payload).verdict = .ok) (hinv : BlockInv c) :
    BlockInv (handleFrame cb fits c h payload).conn := by
  by_cases hh : h.type = .headers
  · unfold handleFrame at hok ⊢
    split_ifs at hok ⊢
    rw [hh] at hok ⊢
    by_cases hadm : Handled.Admitted ⟨c, fits, h, payload⟩
    · obtain ⟨p, -, ht⟩ := handleHeaders_takes hh hadm hok
      exact .takes ht
    · exact hinv.same (handleHeaders_same hadm)
  · by_cases hc : h.type = .continuation
    · unfold handleFrame at hok ⊢
      split_ifs at hok ⊢
      rw [hc] at hok ⊢
      exact .takes (handleContinuation_takes hok).2
    · exact hinv.same (handleFrame_keeps payload hh hc).sameBlock

lemma BlockInv.step (hserve : ∀ c l c', serve c l c' → c.SameBlock c') {s s' a}
    (h : EngineStep cb serve s a s') (hinv : BlockInv s.conn) : BlockInv s'.conn := by
  cases s with
  | idle c =>
    obtain ⟨cap, input, seen, sent, rfl, heq, -⟩ | ⟨l, rfl, hs⟩ := idle_cases h
    · rw [heq]
      exact hinv.same ⟨rfl, rfl, rfl⟩
    · exact hinv.same (hserve _ _ _ hs)
  | busy cap p =>
    obtain ⟨rfl, ⟨-, heq⟩ | ⟨x, -, hx, -, hok, heq⟩⟩ := turn_cases h
    · rw [heq]
      exact hinv.same (Conn.Keeps.flush _ _).sameBlock
    · rw [heq]
      refine BlockInv.frame hok ?_
      rw [hx]
      exact hinv.same (Conn.Keeps.flush _ _).sameBlock

/-! ## The whole run -/

/-- Over time: the last stream only grows, and a stream that is in the table at both ends has moved on. -/
structure Conn.Evolves (c c' : Conn σ) : Prop where
  last : c.lastStreamId ≤ c'.lastStreamId
  state : ∀ s ∈ c.streams, ∀ s' ∈ c'.streams, s'.id = s.id → s.state.Onward s'.state

lemma Conn.Evolves.refl (hinv : TableInv c) : c.Evolves c := by
  refine ⟨le_rfl, fun s hs s' hs' hid => ?_⟩
  obtain ⟨i, hi⟩ := List.mem_iff_getElem?.mp hs
  obtain ⟨j, hj⟩ := List.mem_iff_getElem?.mp hs'
  obtain rfl := hinv.idsInv.unique hj hi hid
  cases hi.symm.trans hj
  exact .inl rfl

lemma Conn.Evolves.advance {c₀} (h : c₀.Evolves c) (hinv : TableInv c₀) (hadv : c.Advances c') : c₀.Evolves c' := by
  refine ⟨h.last.trans hadv.last, fun s hs s' hs' hid => ?_⟩
  obtain ⟨i, hi⟩ := List.mem_iff_getElem?.mp hs'
  rcases hadv.slots i s' hi with ⟨s₁, hs₁, hmove⟩ | ⟨hnew, -, -⟩
  · have hsame : s₁.id = s.id := hmove.id.symm.trans hid
    exact (h.state s hs s₁ (List.mem_of_getElem? hs₁) hsame).trans hmove.state
  · have hseen := hinv.seen s.id (List.mem_map_of_mem hs)
    have hlast := h.last
    omega

/-- The table of streams of a server: in every run the slots belong to distinct streams of the peer, at most 64 of them,
none newer than the last one seen; between two header blocks nothing is assembled; the next step, also one that ends in
a connection error, keeps the table and changes it only as it may; and since any earlier state of the run the last
stream has only grown and every stream moved on. -/
theorem stream_table (hcb : cb.Onward) (hserve : ∀ c l c', serve c l c' → c.Onward c' ∧ c.SameBlock c')
    {decBuf encBuf : Str} {app : σ} {t : List (Entry σ L)} {s : Engine σ}
    (h : EngineRun cb serve (Conn.init decBuf encBuf app) t s) :
    TableInv s.conn ∧ BlockInv s.conn ∧
      (∀ c', EngineNext cb serve s c' → TableInv c' ∧ s.conn.Advances c') ∧
      ∀ e ∈ t, e.1.conn.Evolves s.conn := by
  have hon : ∀ c l c', serve c l c' → c.Onward c' := fun c l c' hs => (hserve c l c' hs).1
  suffices hrun : TableInv s.conn ∧ BlockInv s.conn ∧ ∀ e ∈ t, TableInv e.1.conn ∧ e.1.conn.Evolves s.conn from
    ⟨hrun.1, hrun.2.1, fun c' hnext => hnext.table hcb hon hrun.1, fun e he => (hrun.2.2 e he).2⟩
  induction h with
  | nil =>
    refine ⟨⟨List.nodup_nil, ?_, ?_, Nat.zero_le _⟩, fun _ => rfl, ?_⟩
    · exact fun _ hid => absurd hid List.not_mem_nil
    · exact fun _ hid => absurd hid List.not_mem_nil
    · exact fun _ he => absurd he List.not_mem_nil
  | @snoc t s s' a _ hs ih =>
    obtain ⟨hinv, hblock, hearlier⟩ := ih
    obtain ⟨hinv', hadv⟩ := hs.next.table hcb hon hinv
    refine ⟨hinv', hblock.step (fun c l c' h => (hserve c l c' h).2) hs, fun e he => ?_⟩
    rcases List.mem_append.mp he with he | he
    · obtain ⟨hinv₀, hevolves⟩ := hearlier e he
      exact ⟨hinv₀, hevolves.advance hinv₀ hadv⟩
    · rw [List.mem_singleton.mp he]
      exact ⟨hinv, (Conn.Evolves.refl hinv).advance hinv hadv⟩

def closingCallbacks : Callbacks Unit
  | .headers id _ _ => some fun c => c.h2CloseStream id
  | _ => none

lemma closingCallbacks_onward : closingCallbacks.Onward := by
  intro call c
  cases call with
  | headers id fields endStream =>
    have hclose := h2CloseStream_onward c id
    exact ⟨hclose.streams, hclose.lastStreamId⟩
  | _ => exact .refl c

theorem stream_table_entry :
    ∃ p, process closingCallbacks (some 100) (Conn.init [] [] ()) entryInput = some p ∧
      p.conn.streams.map (fun s => (s.id, s.state)) = [(1, .halfClosedLocal)] ∧ TableInv p.conn ∧ BlockInv p.conn := by
  have hcall : (process closingCallbacks (some 100) (Conn.init [] [] ()) entryInput).map
      (fun p => (p.status, p.conn.streams.map fun s => (s.id, s.state))) = some (.open, [(1, .halfClosedLocal)]) := by
    decide
  obtain ⟨p, hp, heq⟩ := Option.map_eq_some_iff.mp hcall
  have hrun := (process_run (L := Empty) (fun _ _ _ => False) hp (congrArg Prod.fst heq)).1
  obtain ⟨htable, hblock, -, -⟩ := stream_table closingCallbacks_onward (fun _ _ _ h => h.elim) hrun
  exact ⟨p, hp, congrArg Prod.snd heq, htable, hblock⟩

def badBlockInput : Str := kClientPreface ++ FrameHeader.bytes ⟨1, .headers, kEndHeaders, 1⟩ ++ [0x80]

def resetInput : Str := FrameHeader.bytes ⟨4, .rstStream, 0, 1⟩ ++ [0, 0, 0, 8]

/-- The connection error for a block that is not decoded leaves the block behind; and a reset closes an open stream
without a state between. -/
theorem badBlock_left_behind :
    (process (fun _ => none) (some 100) (Conn.init [] [] ()) badBlockInput).map
        (fun p => (p.status, p.conn.contStream, p.conn.hdrBlock)) = some (.close, 0, [0x80]) ∧
      ((process (fun _ => none) (some 100) (Conn.init [] [] ()) entryInput).bind fun p =>
        (process (fun _ => none) (some 100) p.conn resetInput).map fun q =>
          (p.conn.streams.map fun s => (s.id, s.state), q.conn.streams.map fun s => (s.id, s.state))) =
        some ([(1, .open)], [(1, .closed)]) := by
  refine ⟨by decide, by decide⟩

end Rut.Http2
