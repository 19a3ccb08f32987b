import Rut.Http2.Moves
import Rut.Http2.Pump

/-!
# The serving layer

What the code around the engine does to a connection, in callbacks and between two calls of `process`: it returns
delivered octets through `consume_data`, opens streams of a client through `open_stream`, sends response bodies through
`h2_pump_outbound`, and closes streams. Between SETTINGS, DATA and WINDOW_UPDATE frames a connection changes in such
ways only (`handleFrame_shifts`).
-/

namespace Rut.Http2

variable {σ : Type} {cb : Callbacks σ} {fits : Room} {c c' : Conn σ} {busy : Option Nat}

/-- What the serving layer may do to a slot. It does not set the flag of the stream whose octets it is being given. -/
structure Stream.Served (busy : Option Nat) (s s' : Stream) : Prop where
  id : s'.id = s.id
  closed : s.state = .closed → s'.state = .closed
  receives : s'.state.receives = true → s.state.receives = true
  sendWindow : s'.sendWindow = s.sendWindow
  recvWindow : s'.recvWindow = s.recvWindow
  recvCredit : s'.recvCredit = s.recvCredit
  recvUnconsumed : s'.recvUnconsumed = s.recvUnconsumed
  manualWindow : busy = some s.id → s'.manualWindow = s.manualWindow

/-- What the serving layer may do to a connection without a call of the engine. -/
structure Conn.Served (busy : Option Nat) (c c' : Conn σ) : Prop where
  streams : List.Forall₂ (Stream.Served busy) c.streams c'.streams
  connSendWindow : c'.connSendWindow = c.connSendWindow
  connRecvWindow : c'.connRecvWindow = c.connRecvWindow
  connRecvCredit : c'.connRecvCredit = c.connRecvCredit
  lastStreamId : c'.lastStreamId = c.lastStreamId
  peerSettings : c'.peerSettings = c.peerSettings
  initialWindowSize : c'.ourSettings.initialWindowSize = c.ourSettings.initialWindowSize

inductive Attend (busy : Option Nat) : Conn σ → Conn σ → Prop where
  | consume (c : Conn σ) (id len : Nat) : Attend busy c (c.consumeData id len).2
  | other {c c' : Conn σ} (h : c.Served busy c') : Attend busy c c'

def Call.delivers : Call → Option Nat
  | .data id octets _ => if octets = [] then none else some id
  | _ => none

/-- The callbacks touch flow control through `consume_data` only. -/
def Callbacks.Attends (cb : Callbacks σ) : Prop :=
  ∀ (call : Call) (c : Conn σ), Relation.ReflTransGen (Attend call.delivers) c (cb.invoke call c).conn

/-- Actions of the serving layer between two calls of `process`. -/
inductive ServeAct where
  | consume (id len : Nat)
  | «open» (id : Nat)
  | pump (cap : Nat)
  | other
deriving DecidableEq

/-- A step of the serving layer between two calls of `process`. -/
inductive Serve : Conn σ → ServeAct → Conn σ → Prop where
  | consume (c : Conn σ) (id len : Nat) : Serve c (.consume id len) (c.consumeData id len).2
  | «open» {c c' : Conn σ} {id i : Nat} (h : c.openStream id = some (i, c')) : Serve c (.open id) c'
  | pump (c : Conn σ) (cap : Nat) : Serve c (.pump cap) (h2PumpOutbound c cap).1
  | other {c c' : Conn σ} (h : c.Served none c') : Serve c .other c'

/-! ## Changes that are served -/

namespace Stream.Served

lemma refl (s : Stream) : Served busy s s where
  id := rfl
  closed := fun h => h
  receives := fun h => h
  sendWindow := rfl
  recvWindow := rfl
  recvCredit := rfl
  recvUnconsumed := rfl
  manualWindow := fun _ => rfl

instance : Std.Refl (Served busy) := ⟨refl⟩

lemma setState (s : Stream) {state : StreamState} (hclosed : s.state = .closed → state = .closed)
    (hreceives : state.receives = true → s.state.receives = true) : Served busy s { s with state } where
  id := rfl
  closed := hclosed
  receives := hreceives
  sendWindow := rfl
  recvWindow := rfl
  recvCredit := rfl
  recvUnconsumed := rfl
  manualWindow := fun _ => rfl

end Stream.Served

lemma forall₂_modify {R : Stream → Stream → Prop} (hrefl : ∀ s, R s s) {f ss i} (hf : ∀ s, ss[i]? = some s → R s (f s)) : List.Forall₂ R ss (ss.modify i f) := by
  induction ss generalizing i with
  | nil =>
    rw [List.modify_nil]
    exact .nil
  | cons s ss ih =>
    cases i with
    | zero => exact .cons (hf s rfl) (List.forall₂_same.mpr fun s _ => hrefl s)
    | succ i => exact .cons (hrefl s) (ih hf)

lemma map_eq_of_forall₂ {β : Type} {g : Stream → β} {ss ss'}
    (h : List.Forall₂ (fun s s' => g s' = g s) ss ss') : ss'.map g = ss.map g := by
  induction h with
  | nil => rfl
  | cons hs _ ih => rw [List.map_cons, List.map_cons, hs, ih]

lemma forall₂_getElem? {R : Stream → Stream → Prop} {ss ss'} (h : List.Forall₂ R ss ss') {j : Nat}
    {s'} (hs' : ss'[j]? = some s') : ∃ s, ss[j]? = some s ∧ R s s' := by
  induction h generalizing j with
  | nil => cases hs'
  | @cons s _ _ _ hs _ ih =>
    cases j with
    | zero =>
      cases hs'
      exact ⟨s, rfl, hs⟩
    | succ j => exact ih hs'

namespace Conn.Served

lemma of_streams {ss : List Stream} (h : List.Forall₂ (Stream.Served busy) c.streams ss) :
    c.Served busy { c with streams := ss } where
  streams := h
  connSendWindow := rfl
  connRecvWindow := rfl
  connRecvCredit := rfl
  lastStreamId := rfl
  peerSettings := rfl
  initialWindowSize := rfl

lemma modify {f : Stream → Stream} {i : Nat} (h : ∀ s, c.streams[i]? = some s → s.Served busy (f s)) :
    c.Served busy (c.modifyStream i f) :=
  of_streams (forall₂_modify Stream.Served.refl h)

lemma setState {i state} (hclosed : (c.stream i).state = .closed → state = .closed)
    (hreceives : state.receives = true → (c.stream i).state.receives = true) : c.Served busy (c.setState i state) := by
  refine modify fun s hs => .setState s ?_ ?_
  · rw [Conn.stream, List.getD_eq_getElem?_getD, hs] at hclosed
    exact hclosed
  · rw [Conn.stream, List.getD_eq_getElem?_getD, hs] at hreceives
    exact hreceives

lemma close (i : Nat) : c.Served busy (c.setState i .closed) := setState (fun _ => rfl) (fun h => by cases h)

lemma stream (h : c.Served busy c') (i : Nat) : (c.stream i).Served busy (c'.stream i) := by
  have hss := h.streams
  unfold Conn.stream
  generalize c.streams = ss at hss
  generalize c'.streams = ss' at hss
  induction hss generalizing i with
  | nil => exact .refl _
  | cons hs _ ih =>
    cases i with
    | zero => exact hs
    | succ i => exact ih i

end Conn.Served

/-! ## Shifts -/

/-- A change of the connection by the serving layer, or by a frame that is not about flow control. -/
inductive Shift : Conn σ → Conn σ → Prop where
  | consume (c : Conn σ) (id len : Nat) : Shift c (c.consumeData id len).2
  | served {c c' : Conn σ} (h : c.Served none c') : Shift c c'
  | alloc {c c' : Conn σ} {id i : Nat} (hid : c.lastStreamId < id) (h : c.allocStream id = some (i, c')) :
      Shift c { c' with lastStreamId := id }
  | skip {c : Conn σ} {id : Nat} (hid : c.lastStreamId < id) : Shift c { c with lastStreamId := id }

abbrev Shifts : Conn σ → Conn σ → Prop := Relation.ReflTransGen Shift

lemma Stream.Served.idle {s s' : Stream} (h : s.Served busy s') : s.Served none s' :=
  { h with manualWindow := fun h => by cases h }

lemma Conn.Served.idle (h : c.Served busy c') : c.Served none c' :=
  { h with streams := h.streams.imp fun _ _ hs => hs.idle }

lemma Attend.shift (h : Attend busy c c') : Shift c c' := by
  cases h with
  | consume id len => exact .consume c id len
  | other h => exact .served h.idle

lemma Move.shifts (hcb : cb.Attends) (h : Move cb c c') : Shifts c c' := by
  cases h with
  | call call => exact Relation.ReflTransGen.mono (fun _ _ => Attend.shift) _ _ (hcb call c)
  | close i => exact .single (.served (.close i))
  | endRemote i h =>
    refine .single (.served (.setState ?_ ?_))
    · rw [h]
      exact fun h => by cases h
    · exact fun h => by cases h
  | gotHeaders i b => exact .single (.served (.modify fun s _ => { Stream.Served.refl s with }))
  | alloc hid h => exact .single (.alloc hid h)
  | full hid h => exact .single (.skip hid)
  | assembly h =>
    rw [h]
    exact .single (.served { Conn.Served.of_streams (List.forall₂_refl c.streams) with })
  | pending p => exact .single (.served { Conn.Served.of_streams (List.forall₂_refl c.streams) with })
  | peerGoaway last => exact .single (.served { Conn.Served.of_streams (List.forall₂_refl c.streams) with })

lemma Moves.shifts (hcb : cb.Attends) (h : Moves cb c c') : Shifts c c' := by
  induction h with
  | refl => exact .refl
  | tail _ hstep ih => exact ih.trans (hstep.shifts hcb)

lemma openStream_shift {id i} (h : c.openStream id = some (i, c')) : Shift c c' := by
  unfold Conn.openStream at h
  split_ifs at h with hrefuse
  obtain ⟨r, ha, heq⟩ := Option.map_eq_some_iff.mp h
  cases heq
  have hid : c.lastStreamId < id := by
    by_contra hle
    exact hrefuse (by simp [Nat.not_lt.mp hle])
  exact .alloc hid ha

/-- A frame that is not about flow control shifts the connection. -/
theorem handleFrame_shifts (hcb : cb.Attends) {h : FrameHeader} (payload : Str) (hflow : h.type.isFlow = false) :
    Shifts c (handleFrame cb fits c h payload).conn :=
  (handleFrame_moves payload hflow).shifts hcb

/-! ## DATA -/

/-- Both windows after `n` octets have come in on the stream in slot `i`. -/
def Conn.receive (c : Conn σ) (i n : Nat) : Conn σ :=
  ({ c with connRecvWindow := c.connRecvWindow - n } : Conn σ).modifyStream i fun s =>
    { s with recvWindow := s.recvWindow - n }

def Conn.receiver (c : Conn σ) (id : Nat) : Option Nat :=
  (c.findStream id).filter fun i => (c.stream i).state != .halfClosedRemote

lemma stripPadding_length {h payload p priority}
    (hp : stripPadding h payload priority = some p) : p.length ≤ payload.length := by
  unfold stripPadding at hp
  dsimp only at hp
  obtain ⟨pad, -, hp⟩ := Option.bind_eq_some_iff.mp hp
  split_ifs at hp <;> cases hp <;> simp only [List.length_take, List.length_drop] <;> omega

lemma findStream_modify (c : Conn σ) (i id : Nat) {f} (hid : ∀ s, (f s).id = s.id)
    (hstate : ∀ s, (f s).state = s.state) : (c.modifyStream i f).findStream id = c.findStream id := by
  unfold Conn.findStream Conn.modifyStream
  generalize c.streams = ss
  induction ss generalizing i with
  | nil => rw [List.modify_nil]
  | cons s ss ih =>
    cases i with
    | zero => rw [List.modify_zero_cons, List.findIdx?_cons, List.findIdx?_cons, hid, hstate]
    | succ i => rw [List.modify_succ_cons, List.findIdx?_cons, List.findIdx?_cons, ih]

lemma findStream_receive (c : Conn σ) (i n id : Nat) : (c.receive i n).findStream id = c.findStream id :=
  findStream_modify c i id (fun _ => rfl) fun _ => rfl

/-- The connection after a stream in slot `i` has been reset by the engine. -/
def Conn.resetAt (cb : Callbacks σ) (c : Conn σ) (id i : Nat) (e : Http2Error) : Conn σ :=
  (cb.invoke (.reset id e.code) ((c.clearPendingUpload id).setState i .closed)).conn

lemma Moves.resetAt (c : Conn σ) (id i : Nat) (e : Http2Error) : Moves cb c (c.resetAt cb id i e) :=
  (Moves.clearPending c id).trans ((Moves.close _ i).trans (Moves.call _ _))

lemma resetKnownStream_ok {id i e} (hfind : c.findStream id = some i)
    (h : (resetKnownStream cb fits c id e).verdict = .ok) :
    (resetKnownStream cb fits c id e).conn = c.resetAt cb id i e ∧
      (resetKnownStream cb fits c id e).out = [writeRstStream id e] := by
  unfold resetKnownStream at h ⊢
  split_ifs at h ⊢ with hfits
  rw [hfind]
  exact ⟨rfl, rfl⟩

lemma handleData_cases {h payload} (hlen : payload.length = h.length)
    (hok : (handleData cb fits c h payload).verdict = .ok) : h.streamId ≠ 0 ∧ (h.length : Int) ≤ c.connRecvWindow ∧
    (c.receiver h.streamId = none ∧ handleData cb fits c h payload = { conn := c, out := strayDataOut fits h } ∨
      ∃ i p, c.receiver h.streamId = some i ∧ stripPadding h payload false = some p ∧ p.length ≤ h.length ∧
        (((c.receive i h.length).stream i).recvWindow < 0 ∧
            (handleData cb fits c h payload).conn =
              { (c.receive i h.length).resetAt cb h.streamId i .flowControlError with
                connRecvCredit := add32 ((c.receive i h.length).resetAt cb h.streamId i .flowControlError).connRecvCredit
                  h.length } ∧
            (handleData cb fits c h payload).out = [writeRstStream h.streamId .flowControlError] ∨
          0 ≤ ((c.receive i h.length).stream i).recvWindow ∧
            handleData cb fits c h payload = deliverData cb fits (c.receive i h.length) h p i)) := by
  unfold handleData at hok ⊢
  by_cases hid : h.streamId = 0
  · rw [if_pos hid] at hok
    cases hok
  rw [if_neg hid] at hok ⊢
  by_cases hwin : c.connRecvWindow - h.length < 0
  · rw [if_pos hwin] at hok
    cases hok
  rw [if_neg hwin] at hok ⊢
  refine ⟨hid, by omega, ?_⟩
  have hrecv : (({ c with connRecvWindow := c.connRecvWindow - h.length } : Conn σ).findStream h.streamId).filter
      (fun i => (({ c with connRecvWindow := c.connRecvWindow - h.length } : Conn σ).stream i).state !=
        .halfClosedRemote) = c.receiver h.streamId := rfl
  rw [hrecv] at hok ⊢
  cases hfind : c.receiver h.streamId with
  | none =>
    refine .inl ⟨rfl, ?_⟩
    rw [Int.sub_add_cancel]
  | some i =>
    rw [hfind] at hok
    dsimp only at hok ⊢
    cases hstrip : stripPadding h payload false with
    | none =>
      rw [hstrip] at hok
      cases hok
    | some p =>
      rw [hstrip] at hok
      refine .inr ⟨i, p, rfl, rfl, (stripPadding_length hstrip).trans hlen.le, ?_⟩
      split_ifs at hok ⊢ with hclient hover
      · obtain ⟨hslot, -⟩ := Option.filter_eq_some_iff.mp hfind
        rw [← findStream_receive c i h.length] at hslot
        obtain ⟨hconn, hout⟩ := resetKnownStream_ok hslot hok
        refine .inl ⟨hover, ?_, hout⟩
        exact congrArg (fun d : Conn σ => { d with connRecvCredit := add32 d.connRecvCredit h.length }) hconn
      · exact .inr ⟨Int.not_lt.mp hover, rfl⟩

/-! ## SETTINGS and WINDOW_UPDATE -/

def Conn.adopt (c : Conn σ) (settings : Settings) : Conn σ :=
  { c with
    peerSettings := settings
    hpackEnc := c.hpackEnc.setTableSize settings.headerTableSize
    streams := c.streams.map fun s =>
      if s.state = .closed then s
      else { s with sendWindow := s.sendWindow + (settings.initialWindowSize - c.peerSettings.initialWindowSize) }
    peerSettingsSeen := true }

def Conn.adopts (c : Conn σ) (settings : Settings) : Prop :=
  settings.initialWindowSize ≠ c.peerSettings.initialWindowSize → ∀ s ∈ c.streams, s.state ≠ .closed →
    s.sendWindow + (settings.initialWindowSize - c.peerSettings.initialWindowSize) ≤ kMaxWindow

lemma handleSettings_cases (fits : Room) (c : Conn σ) (h : FrameHeader) (payload : Str) :
    (handleSettings fits c h payload).conn = c ∨
    ∃ settings, parseSettings payload c.peerSettings = .ok settings ∧ c.adopts settings ∧
      (handleSettings fits c h payload).verdict = .ok ∧ (handleSettings fits c h payload).conn = c.adopt settings := by
  unfold handleSettings
  by_cases hid : h.streamId ≠ 0
  · rw [if_pos hid]
    exact .inl rfl
  rw [if_neg hid]
  by_cases hack : h.has kAck = true
  · rw [if_pos hack]
    exact .inl rfl
  rw [if_neg hack]
  cases hparse : parseSettings payload c.peerSettings with
  | error e => exact .inl rfl
  | ok settings =>
    dsimp only
    by_cases hbad : (settings.initialWindowSize - c.peerSettings.initialWindowSize : Int) ≠ 0 ∧
        (c.streams.any fun s => s.state != .closed && decide (kMaxWindow < s.sendWindow +
          (settings.initialWindowSize - c.peerSettings.initialWindowSize))) = true
    · rw [if_pos hbad]
      exact .inl rfl
    rw [if_neg hbad]
    refine .inr ⟨settings, rfl, ?_, rfl, rfl⟩
    intro hne s hs hlive
    by_contra hover
    refine hbad ⟨by omega, List.any_eq_true.mpr ⟨s, hs, ?_⟩⟩
    rw [Bool.and_eq_true, bne_iff_ne, decide_eq_true_iff]
    exact ⟨hlive, by omega⟩

lemma handleWindowUpdate_cases {h payload} (hok : (handleWindowUpdate cb fits c h payload).verdict = .ok) :
    (h.streamId = 0 ∧ c.connSendWindow + (readBe payload % 2 ^ 31 : Nat) ≤ kMaxWindow ∧
        (handleWindowUpdate cb fits c h payload).conn =
          { c with connSendWindow := c.connSendWindow + (readBe payload % 2 ^ 31 : Nat) }) ∨
      h.streamId ≠ 0 ∧
      (c.findStream h.streamId = none ∧ (handleWindowUpdate cb fits c h payload).conn = c ∨
        ∃ i, c.findStream h.streamId = some i ∧
          (0 < readBe payload % 2 ^ 31 ∧ (c.stream i).sendWindow + (readBe payload % 2 ^ 31 : Nat) ≤ kMaxWindow ∧
              (handleWindowUpdate cb fits c h payload).conn =
                c.modifyStream i (fun s => { s with sendWindow := s.sendWindow + (readBe payload % 2 ^ 31 : Nat) }) ∨
            (readBe payload % 2 ^ 31 = 0 ∨ kMaxWindow < (c.stream i).sendWindow + (readBe payload % 2 ^ 31 : Nat)) ∧
              Moves cb c (handleWindowUpdate cb fits c h payload).conn)) := by
  unfold handleWindowUpdate at hok ⊢
  by_cases hlen : h.length ≠ 4
  · rw [if_pos hlen] at hok
    cases hok
  rw [if_neg hlen] at hok ⊢
  dsimp only at hok ⊢
  by_cases hid : h.streamId = 0
  · refine .inl ⟨hid, ?_⟩
    split_ifs at hok ⊢ with hinc hover
    exact ⟨by omega, rfl⟩
  · refine .inr ⟨hid, ?_⟩
    rw [if_neg hid] at hok ⊢
    cases hfind : c.findStream h.streamId with
    | none => exact .inl ⟨rfl, rfl⟩
    | some i =>
      refine .inr ⟨i, rfl, ?_⟩
      dsimp only
      split_ifs with hinc hover
      · exact .inr ⟨.inl hinc, Moves.resetKnownStream _ _ _⟩
      · exact .inr ⟨.inr hover, Moves.resetKnownStream _ _ _⟩
      · exact .inl ⟨by omega, by omega, rfl⟩

end Rut.Http2
