import Rut.Http2.Streams

/-!
# The ledger of the send windows

The window of a live stream for sending is the initial window size the peer has set last, with the increments it has
announced for the stream, less the octets of the DATA frames the pump has sent on it; SETTINGS may take it below zero.
-/

namespace Rut.Http2

variable {σ : Type} {cb : Callbacks σ} {fits : Room} {c c' : Conn σ} {accepted sent : Nat} {acc out : Nat → Nat}

def updateIncrement (payload : Str) : Nat := readBe payload % 2 ^ 31

def Handled.acceptedConn (x : Handled σ) : Nat :=
  if x.header.type = .windowUpdate ∧ x.header.streamId = 0 then updateIncrement x.payload else 0

/-- The increment of a frame that the window of a stream accepts: the stream is live and the window stays in range. -/
def Handled.acceptedOn (id : Nat) (x : Handled σ) : Nat :=
  if x.header.type = .windowUpdate ∧ x.header.streamId = id ∧ id ≠ 0 then
    (x.conn.findStream id).elim 0 fun i =>
      if (x.conn.stream i).sendWindow + updateIncrement x.payload ≤ kMaxWindow then updateIncrement x.payload else 0
  else 0

def sentFrame : Entry σ ServeAct → Option DataFrame
  | (.idle c, .serve (.pump cap)) => (h2PumpOutbound c cap).2.1
  | _ => none

def acceptedConn (t : List (Entry σ ServeAct)) : Nat := (t.map fun e => (handled e).elim 0 (·.acceptedConn)).sum

def acceptedOn (id : Nat) (t : List (Entry σ ServeAct)) : Nat :=
  (t.map fun e => (handled e).elim 0 (·.acceptedOn id)).sum

def dataSent (t : List (Entry σ ServeAct)) : Nat := (t.map fun e => (sentFrame e).elim 0 (·.payload.length)).sum

def dataSentOn (id : Nat) (t : List (Entry σ ServeAct)) : Nat :=
  (t.map fun e => (sentFrame e).elim 0 fun f => if f.streamId = id then f.payload.length else 0).sum

/-! ## Settings -/

lemma applySetting_initialWindowSize {s s' id val} (h : applySetting s id val = .ok s')
    (hs : s.initialWindowSize ≤ kMaxWindowSize) : s'.initialWindowSize ≤ kMaxWindowSize := by
  unfold applySetting at h
  split at h
  case h_2 | h_3 | h_6 =>
    split_ifs at h
    cases h
    exact hs
  case h_5 =>
    split_ifs at h with hval
    cases h
    exact Nat.not_lt.mp hval
  all_goals
    cases h
    exact hs

lemma parseSettingsLoop_initialWindowSize {payload s s'} (h : parseSettingsLoop payload s = .ok s')
    (hs : s.initialWindowSize ≤ kMaxWindowSize) : s'.initialWindowSize ≤ kMaxWindowSize := by
  fun_induction parseSettingsLoop payload s with
  | case1 a b c d e f rest s s₁ happly ih => exact ih h (applySetting_initialWindowSize happly hs)
  | case2 => cases h
  | case3 =>
    cases h
    exact hs

lemma parseSettings_initialWindowSize {payload s s'} (h : parseSettings payload s = .ok s')
    (hs : s.initialWindowSize ≤ kMaxWindowSize) : s'.initialWindowSize ≤ kMaxWindowSize := by
  unfold parseSettings at h
  split_ifs at h
  exact parseSettingsLoop_initialWindowSize h hs

/-! ## The invariant -/

structure SlotSend (initial : Nat) (acc out : Nat → Nat) (s : Stream) : Prop where
  ledger : s.sendWindow = initial + acc s.id - out s.id
  max : s.sendWindow ≤ kMaxWindow
  spent : -kMaxWindow ≤ (acc s.id : Int) - out s.id

/-- The send windows agree with a ledger of increments accepted and octets sent. -/
structure SendInv (accepted sent : Nat) (acc out : Nat → Nat) (c : Conn σ) : Prop where
  conn : c.connSendWindow = kDefaultInitialWindowSize + accepted - sent
  connMax : c.connSendWindow ≤ kMaxWindow
  slot : ∀ s ∈ c.streams, s.state ≠ .closed → SlotSend c.peerSettings.initialWindowSize acc out s
  fresh : ∀ id, c.lastStreamId < id → acc id = 0 ∧ out id = 0
  initial : c.peerSettings.initialWindowSize ≤ kMaxWindowSize

namespace SendInv

lemma slotwise (h : SendInv accepted sent acc out c)
    (hss : List.Forall₂ (fun s s' : Stream => s'.id = s.id ∧ s'.sendWindow = s.sendWindow ∧
      (s.state = .closed → s'.state = .closed)) c.streams c'.streams)
    (hconn : c'.connSendWindow = c.connSendWindow) (hlast : c'.lastStreamId = c.lastStreamId)
    (hpeer : c'.peerSettings = c.peerSettings) : SendInv accepted sent acc out c' where
  conn := hconn.trans h.conn
  connMax := hconn.trans_le h.connMax
  slot := by
    intro s' hs' hlive
    obtain ⟨j, hj⟩ := List.mem_iff_getElem?.mp hs'
    obtain ⟨s, hs, hid, hwindow, hclosed⟩ := forall₂_getElem? hss hj
    obtain ⟨hledger, hmax, hspent⟩ := h.slot s (List.mem_of_getElem? hs) fun h => hlive (hclosed h)
    rw [hpeer]
    refine ⟨?_, ?_, ?_⟩
    · rw [hwindow, hid]
      exact hledger
    · rw [hwindow]
      exact hmax
    · rw [hid]
      exact hspent
  fresh := by
    rw [hlast]
    exact h.fresh
  initial := by
    rw [hpeer]
    exact h.initial

lemma served {busy : Option Nat} (h : SendInv accepted sent acc out c) (hs : c.Served busy c') :
    SendInv accepted sent acc out c' :=
  h.slotwise (hs.streams.imp fun _ _ hs => ⟨hs.id, hs.sendWindow, hs.closed⟩) hs.connSendWindow hs.lastStreamId
    hs.peerSettings

lemma modify {f i} (h : SendInv accepted sent acc out c)
    (hss : c'.streams = c.streams.modify i f) (hf : ∀ s, (f s).id = s.id ∧ (f s).sendWindow = s.sendWindow ∧
      (s.state = .closed → (f s).state = .closed))
    (hconn : c'.connSendWindow = c.connSendWindow) (hlast : c'.lastStreamId = c.lastStreamId)
    (hpeer : c'.peerSettings = c.peerSettings) : SendInv accepted sent acc out c' := by
  refine h.slotwise ?_ hconn hlast hpeer
  rw [hss]
  exact forall₂_modify (fun _ => ⟨rfl, rfl, fun h => h⟩) fun s _ => hf s

lemma consume (h : SendInv accepted sent acc out c) (id len : Nat) :
    SendInv accepted sent acc out (c.consumeData id len).2 := by
  obtain heq | ⟨i, -, -, -, heq⟩ := consumeData_cases c id len
  · rw [heq]
    exact h
  · rw [heq]
    exact h.modify rfl (fun _ => ⟨rfl, rfl, fun h => h⟩) rfl rfl rfl

lemma attends {busy} (h : SendInv accepted sent acc out c)
    (ha : Relation.ReflTransGen (Attend busy) c c') : SendInv accepted sent acc out c' := by
  induction ha with
  | refl => exact h
  | tail _ ha ih =>
    cases ha with
    | consume id len => exact ih.consume id len
    | other hs => exact ih.served hs

lemma fresh_slot {id} (h : SendInv accepted sent acc out c) (hid : c.lastStreamId < id) :
    SlotSend c.peerSettings.initialWindowSize acc out (c.freshStream id) := by
  obtain ⟨hacc, hout⟩ := h.fresh id hid
  have hinit := h.initial
  unfold kMaxWindowSize at hinit
  refine ⟨?_, ?_, ?_⟩
  · dsimp only [Conn.freshStream]
    omega
  · dsimp only [Conn.freshStream, kMaxWindow]
    omega
  · dsimp only [Conn.freshStream, kMaxWindow]
    omega

lemma alloc {id i} (h : SendInv accepted sent acc out c) (hid : c.lastStreamId < id)
    (ha : c.allocStream id = some (i, c')) : SendInv accepted sent acc out { c' with lastStreamId := id } := by
  have hfresh := h.fresh_slot hid
  obtain ⟨ss, rfl, hss⟩ := allocStream_spec ha
  refine ⟨h.conn, h.connMax, ?_, fun id' hid' => h.fresh id' (hid.trans hid'), h.initial⟩
  intro s hs hlive
  obtain ⟨s₀, -, -, rfl⟩ | ⟨-, rfl⟩ := hss
  · rcases List.mem_or_eq_of_mem_set hs with hs | rfl
    · exact h.slot s hs hlive
    · exact hfresh
  · rcases List.mem_append.mp hs with hs | hs
    · exact h.slot s hs hlive
    · cases List.mem_singleton.mp hs
      exact hfresh

lemma shifts (h : SendInv accepted sent acc out c) (hs : Shifts c c') : SendInv accepted sent acc out c' := by
  induction hs with
  | refl => exact h
  | tail _ hs ih =>
    cases hs with
    | consume id len => exact ih.consume id len
    | served hs => exact ih.served hs
    | alloc hid ha => exact ih.alloc hid ha
    | skip hid =>
      exact ⟨ih.conn, ih.connMax, ih.slot, fun id' hid' => ih.fresh id' (hid.trans hid'), ih.initial⟩

end SendInv

/-! ## Frames -/

namespace SendInv

lemma settled {h p i} (hend : SendInv accepted sent acc out (c.endData i (h.has kEndStream))) :
    SendInv accepted sent acc out (settleData fits c h p i).conn := by
  unfold settleData
  dsimp only
  generalize c.endData i (h.has kEndStream) = c at hend ⊢
  split
  · exact hend.modify rfl (fun _ => ⟨rfl, rfl, fun h => h⟩) rfl rfl rfl
  · exact hend.modify rfl (fun _ => ⟨rfl, rfl, fun h => h⟩) rfl rfl rfl

lemma data (hcb : cb.Attends) {h payload} (hlen : payload.length = h.length)
    (hok : (handleData cb fits c h payload).verdict = .ok) (hinv : SendInv accepted sent acc out c) :
    SendInv accepted sent acc out (handleData cb fits c h payload).conn := by
  have hreceive : ∀ i n, SendInv accepted sent acc out (c.receive i n) := fun i n =>
    hinv.modify rfl (fun _ => ⟨rfl, rfl, fun h => h⟩) rfl rfl rfl
  obtain ⟨-, -, ⟨-, heq⟩ | ⟨i, p, -, -, -, ⟨-, hconn, -⟩ | ⟨-, heq⟩⟩⟩ := handleData_cases hlen hok
  · rw [heq]
    exact hinv
  · rw [hconn]
    have hreset : Moves cb (c.receive i h.length) _ := Moves.resetAt _ h.streamId i .flowControlError
    have hinv' := (hreceive i h.length).shifts (hreset.shifts hcb)
    exact ⟨hinv'.conn, hinv'.connMax, hinv'.slot, hinv'.fresh, hinv'.initial⟩
  · rw [heq]
    have hhold : SendInv accepted sent acc out ((c.receive i h.length).holdData i p.length) := by
      unfold Conn.holdData
      split
      · exact (hreceive i h.length).modify rfl (fun _ => ⟨rfl, rfl, fun h => h⟩) rfl rfl rfl
      · exact hreceive i h.length
    have hcall := hhold.attends (hcb (.data h.streamId p (h.has kEndStream)) _)
    have hend := hcall.served (endData_served none _ i (h.has kEndStream))
    exact settled hend

lemma settings {h payload} (hinv : SendInv accepted sent acc out c) :
    SendInv accepted sent acc out (handleSettings fits c h payload).conn := by
  obtain hconn | ⟨settings, hparse, hadopts, -, hconn⟩ := handleSettings_cases fits c h payload
  · rw [hconn]
    exact hinv
  · rw [hconn]
    refine ⟨hinv.conn, hinv.connMax, ?_, hinv.fresh, parseSettings_initialWindowSize hparse hinv.initial⟩
    intro s' hs' hlive
    obtain ⟨s, hs, rfl⟩ := List.mem_map.mp hs'
    dsimp only [Conn.adopt]
    split_ifs at hlive ⊢ with hclosed
    · exact absurd hclosed hlive
    · obtain ⟨hledger, hmax, hspent⟩ := hinv.slot s hs hclosed
      refine ⟨?_, ?_, hspent⟩
      · dsimp only
        omega
      · dsimp only
        by_cases hsame : settings.initialWindowSize = c.peerSettings.initialWindowSize
        · rw [hsame]
          omega
        · exact hadopts hsame s hs hclosed

/-- A change of the window of the stream in slot `i` is booked for it. -/
lemma book {acc' out'} {accepted' sent' i : Nat} {s w}
    (h : SendInv accepted sent acc out c) (hids : IdsInv c) (hi : c.streams[i]? = some s)
    (hother : ∀ id, id ≠ s.id → acc' id = acc id ∧ out' id = out id)
    (hss : c'.streams = c.streams.modify i fun s => { s with sendWindow := s.sendWindow + w })
    (hslot : s.state ≠ .closed → SlotSend c.peerSettings.initialWindowSize acc' out'
      { s with sendWindow := s.sendWindow + w })
    (hconn : c'.connSendWindow = kDefaultInitialWindowSize + accepted' - sent')
    (hmax : c'.connSendWindow ≤ kMaxWindow) (hlast : c'.lastStreamId = c.lastStreamId)
    (hpeer : c'.peerSettings = c.peerSettings) : SendInv accepted' sent' acc' out' c' where
  conn := hconn
  connMax := hmax
  slot := by
    intro s' hs' hlive
    rw [hpeer]
    rw [hss] at hs'
    obtain ⟨j, hj⟩ := List.mem_iff_getElem?.mp hs'
    rw [List.getElem?_modify] at hj
    obtain ⟨s₀, hs₀, rfl⟩ := Option.map_eq_some_iff.mp hj
    by_cases hij : i = j
    · subst hij
      cases hi.symm.trans hs₀
      rw [if_pos rfl] at hlive ⊢
      exact hslot hlive
    · rw [if_neg hij] at hlive ⊢
      obtain ⟨hledger, hmax, hspent⟩ := h.slot s₀ (List.mem_of_getElem? hs₀) hlive
      have hne : s₀.id ≠ s.id := fun heq => hij (hids.unique hi hs₀ heq.symm)
      obtain ⟨hacc, hout⟩ := hother s₀.id hne
      refine ⟨?_, hmax, ?_⟩
      · rw [hacc, hout]
        exact hledger
      · rw [hacc, hout]
        exact hspent
  fresh := by
    intro id hid
    rw [hlast] at hid
    have hle := (hids.range s.id (List.mem_map_of_mem (List.mem_of_getElem? hi))).2
    obtain ⟨hacc, hout⟩ := hother id (by omega)
    rw [hacc, hout]
    exact h.fresh id hid
  initial := by
    rw [hpeer]
    exact h.initial

end SendInv

namespace SendInv

lemma windowUpdate (hcb : cb.Attends) {h payload} (ht : h.type = .windowUpdate)
    (hok : (handleWindowUpdate cb fits c h payload).verdict = .ok) (hids : IdsInv c)
    (hinv : SendInv accepted sent acc out c) : SendInv (accepted + Handled.acceptedConn ⟨c, fits, h, payload⟩) sent
      (fun id => acc id + Handled.acceptedOn id ⟨c, fits, h, payload⟩) out
      (handleWindowUpdate cb fits c h payload).conn := by
  unfold Handled.acceptedConn Handled.acceptedOn
  simp only [ht, true_and]
  obtain ⟨hid, hmax, hconn⟩ | ⟨hid, hcases⟩ := handleWindowUpdate_cases hok
  · have hacc : ∀ id, ¬(0 = id ∧ id ≠ 0) := fun id hboth => hboth.2 hboth.1.symm
    simp only [hid, if_pos, hacc, if_false, Nat.add_zero]
    rw [hconn]
    have hbefore := hinv.conn
    refine ⟨?_, hmax, hinv.slot, hinv.fresh, hinv.initial⟩
    unfold updateIncrement
    dsimp only
    omega
  · simp only [hid, if_false, Nat.add_zero]
    obtain ⟨hnone, hconn⟩ | ⟨i, hfind, hcases⟩ := hcases
    · have hacc : (fun id => acc id + if h.streamId = id ∧ id ≠ 0 then
          (c.findStream id).elim 0 (fun i => if (c.stream i).sendWindow + updateIncrement payload ≤ kMaxWindow then
            updateIncrement payload else 0) else 0) = acc := by
        funext id
        by_cases hid' : h.streamId = id
        · rw [← hid', hnone]
          simp
        · simp [hid']
      rw [hacc, hconn]
      exact hinv
    · obtain ⟨hsid, -, hi⟩ := findStream_id hfind
      have hacc : (fun id => acc id + if h.streamId = id ∧ id ≠ 0 then
          (c.findStream id).elim 0 (fun i => if (c.stream i).sendWindow + updateIncrement payload ≤ kMaxWindow then
            updateIncrement payload else 0) else 0) =
          fun id => acc id + if id = (c.stream i).id then
            (if (c.stream i).sendWindow + updateIncrement payload ≤ kMaxWindow then updateIncrement payload else 0)
            else 0 := by
        funext id
        rw [hsid]
        by_cases hid' : h.streamId = id
        · subst hid'
          simp [hfind, hid]
        · simp [hid', Ne.symm hid']
      rw [hacc]
      obtain ⟨-, hmax, hconn⟩ | ⟨hrefused, hmoves⟩ := hcases
      · have hfits : (c.stream i).sendWindow + updateIncrement payload ≤ kMaxWindow := hmax
        rw [if_pos hfits, hconn]
        refine hinv.book hids hi (fun id hne => ⟨by rw [if_neg hne, Nat.add_zero], rfl⟩) rfl ?_ hinv.conn hinv.connMax
          rfl rfl
        intro hlive
        obtain ⟨hledger, -, hspent⟩ := hinv.slot _ (List.mem_of_getElem? hi) hlive
        refine ⟨?_, hmax, ?_⟩
        · dsimp only
          rw [if_pos rfl]
          unfold updateIncrement
          omega
        · dsimp only
          omega
      · have hzero : (if (c.stream i).sendWindow + updateIncrement payload ≤ kMaxWindow then updateIncrement payload
            else 0) = 0 := by
          unfold updateIncrement
          split_ifs with hle
          · rcases hrefused with hinc | hover
            · exact hinc
            · omega
          · rfl
        simp only [hzero, ite_self, Nat.add_zero]
        exact hinv.shifts (hmoves.shifts hcb)

lemma frame (hcb : cb.Attends) {x : Handled σ} (hlen : x.payload.length = x.header.length)
    (hok : (x.reply cb).verdict = .ok) (hids : IdsInv x.conn) (hinv : SendInv accepted sent acc out x.conn) :
    SendInv (accepted + x.acceptedConn) sent (fun id => acc id + x.acceptedOn id) out (x.reply cb).conn := by
  obtain ⟨c, fits, h, payload⟩ := x
  unfold Handled.reply at hok ⊢
  by_cases ht : h.type = .windowUpdate
  · unfold handleFrame at hok ⊢
    split_ifs at hok ⊢
    rw [ht] at hok ⊢
    exact hinv.windowUpdate hcb ht hok hids
  · have hconn : Handled.acceptedConn ⟨c, fits, h, payload⟩ = 0 := if_neg fun hboth => ht hboth.1
    have hon : ∀ id, Handled.acceptedOn id ⟨c, fits, h, payload⟩ = 0 := fun id => if_neg fun hboth => ht hboth.1
    simp only [hconn, hon, Nat.add_zero]
    by_cases hflow : h.type.isFlow = true
    · unfold handleFrame at hok ⊢
      split_ifs at hok ⊢
      cases htype : h.type with
      | settings => exact hinv.settings
      | data =>
        rw [htype] at hok
        exact hinv.data hcb hlen hok
      | windowUpdate => exact absurd htype ht
      | _ =>
        rw [htype] at hflow
        cases hflow
    · exact hinv.shifts (handleFrame_shifts hcb payload (Bool.eq_false_of_not_eq_true hflow))

lemma flush (h : SendInv accepted sent acc out c) (fits : Room) : SendInv accepted sent acc out (flushCredits fits c).1 := by
  have hconn : SendInv accepted sent acc out (flushConn fits c).1 := by
    unfold flushConn
    split
    · exact ⟨h.conn, h.connMax, h.slot, h.fresh, h.initial⟩
    · exact h
  refine hconn.slotwise ((flushStreams_forall₂ fits _ _).imp ?_) rfl rfl rfl
  rintro s s' ⟨w, rfl⟩
  unfold flushStream
  split_ifs <;> exact ⟨rfl, rfl, fun h => h⟩

lemma pump (h : SendInv accepted sent acc out c) (hids : IdsInv c) (cap : Nat) :
    SendInv accepted (sent + (h2PumpOutbound c cap).2.1.elim 0 (·.payload.length)) acc
      (fun id => out id + (h2PumpOutbound c cap).2.1.elim 0 fun f => if f.streamId = id then f.payload.length else 0)
      (h2PumpOutbound c cap).1 := by
  obtain ⟨status, -, heq⟩ | ⟨body, i, n, -, -, -, hfind, hpos, hn, -, hconn, hstream, -, heq⟩ := h2PumpOutbound_cases c cap
  · rw [heq]
    exact h
  · obtain ⟨hsid, hlive, hi⟩ := findStream_id hfind
    have hlen : ((body.drop c.outboundBodyOffset).take n).length = n := by
      rw [List.length_take, List.length_drop]
      omega
    have hout : (fun id => out id + if c.outboundStream = id then n else 0) =
        fun id => out id + if id = (c.stream i).id then n else 0 := by
      funext id
      rw [hsid]
      by_cases hid : c.outboundStream = id
      · rw [hid]
      · rw [if_neg hid, if_neg (Ne.symm hid)]
    have hbefore := h.conn
    have hmax := h.connMax
    have hinit := h.initial
    rw [heq]
    dsimp only [Option.elim_some]
    rw [hlen, hout]
    refine h.book hids hi (w := -n) (fun id hne => ⟨rfl, by rw [if_neg hne, Nat.add_zero]⟩) rfl ?_ ?_ ?_ rfl rfl
    · intro hlive
      obtain ⟨hledger, hsmax, hspent⟩ := h.slot _ (List.mem_of_getElem? hi) hlive
      unfold kMaxWindowSize at hinit
      refine ⟨?_, ?_, ?_⟩
      · dsimp only
        rw [if_pos rfl]
        omega
      · dsimp only
        omega
      · dsimp only [kMaxWindow] at hsmax hspent ⊢
        rw [if_pos rfl]
        omega
    · dsimp only [Conn.send, Conn.modifyStream]
      omega
    · dsimp only [Conn.send, Conn.modifyStream]
      omega

end SendInv

/-! ## Runs -/

structure SendRun (t : List (Entry σ ServeAct)) (c : Conn σ) : Prop where
  ids : IdsInv c
  ledger : SendInv (acceptedConn t) (dataSent t) (acceptedOn · t) (dataSentOn · t) c

lemma SendRun.step (hcb : cb.Attends) {t s s' a}
    (hinv : SendRun t s.conn) (h : EngineStep cb Serve s a s') : SendRun (t ++ [(s, a)]) s'.conn := by
  have hconn : acceptedConn (t ++ [(s, a)]) = acceptedConn t + (handled (s, a)).elim 0 (·.acceptedConn) := by
    simp [acceptedConn]
  have hsent : dataSent (t ++ [(s, a)]) = dataSent t + (sentFrame (s, a)).elim 0 (·.payload.length) := by
    simp [dataSent]
  have hacc : (acceptedOn · (t ++ [(s, a)])) = fun id => acceptedOn id t + (handled (s, a)).elim 0 (·.acceptedOn id) := by
    funext id
    simp [acceptedOn]
  have hout : (dataSentOn · (t ++ [(s, a)])) = fun id => dataSentOn id t +
      (sentFrame (s, a)).elim 0 fun f => if f.streamId = id then f.payload.length else 0 := by
    funext id
    simp [dataSentOn]
  cases s with
  | idle c =>
    obtain ⟨cap, input, seen, greeted, rfl, heq, -⟩ | ⟨l, rfl, hserve⟩ := idle_cases h
    · refine ⟨heq ▸ hinv.ids.congr ⟨rfl, rfl⟩, ?_⟩
      rw [hconn, hsent, hacc, hout, heq]
      exact ⟨hinv.ledger.conn, hinv.ledger.connMax, hinv.ledger.slot, hinv.ledger.fresh, hinv.ledger.initial⟩
    · refine ⟨hinv.ids.serve hserve, ?_⟩
      rw [hconn, hsent, hacc, hout]
      generalize hd : s'.conn = d at hserve ⊢
      cases hserve with
      | consume id len => exact hinv.ledger.consume id len
      | «open» ho => exact hinv.ledger.shifts (.single (openStream_shift ho))
      | pump cap => exact hinv.ledger.pump hinv.ids cap
      | other hs => exact hinv.ledger.served hs
  | busy cap p =>
    obtain ⟨rfl, hcases⟩ := turn_cases h
    have hids := hinv.ids.congr (.flush (room cap (outLen p.out)) p.conn)
    have hflush := hinv.ledger.flush (room cap (outLen p.out))
    simp only [handled, sentFrame, Option.elim_none, Nat.add_zero] at hconn hsent hacc hout
    obtain ⟨hnone, heq⟩ | ⟨x, hsome, hx, hlen, hok, heq⟩ := hcases
    · refine ⟨heq ▸ hids, ?_⟩
      rw [hconn, hsent, hacc, hout, heq, hnone]
      exact hflush
    · have hids' : IdsInv x.conn := by
        rw [hx]
        exact hids
      have hledger' : SendInv (acceptedConn t) (dataSent t) (acceptedOn · t) (dataSentOn · t) x.conn := by
        rw [hx]
        exact hflush
      refine ⟨heq ▸ hids'.frame hcb hlen hok, ?_⟩
      rw [hconn, hsent, hacc, hout, heq, hsome]
      exact hledger'.frame hcb hlen hok hids'

lemma SendRun.init (decBuf encBuf : Str) (app : σ) : SendRun [] (Conn.init decBuf encBuf app) where
  ids := IdsInv.init decBuf encBuf app
  ledger := ⟨rfl, Int.ofNat_le.mpr (by decide), (fun s hs => by cases hs), fun _ _ => ⟨rfl, rfl⟩, (by decide : 65535 ≤ 2147483647)⟩

lemma settings_rejected {h payload} (ht : h.type = .settings)
    (herr : (handleFrame cb fits c h payload).verdict ≠ .ok) : (handleFrame cb fits c h payload).conn = c := by
  unfold handleFrame at herr ⊢
  split_ifs at herr ⊢
  · rfl
  · rw [ht] at herr ⊢
    obtain hconn | ⟨settings, -, -, hok, -⟩ := handleSettings_cases fits c h payload
    · exact hconn
    · exact absurd hok herr

/-- The send windows are exact: in every run, the window of each live stream is the initial window size of the peer with
the increments accepted for the stream, less the octets the pump has sent on it, and is in the range of `i32`; that of
the connection is the default with the increments accepted for it, less all octets sent, and is in range; and SETTINGS
that are answered with an error change nothing. -/
theorem send_windows (hcb : cb.Attends) {c₀ : Conn σ} {decBuf encBuf : Str} {app : σ}
    (hinit : c₀ = Conn.init decBuf encBuf app ∨ c₀ = Conn.initClient decBuf encBuf app) {s : Engine σ}
    {t : List (Entry σ ServeAct)} (h : EngineRun cb Serve c₀ t s) :
    (∀ st ∈ s.conn.streams, st.state ≠ .closed →
      st.sendWindow = s.conn.peerSettings.initialWindowSize + acceptedOn st.id t - dataSentOn st.id t ∧
      -2 ^ 31 ≤ st.sendWindow ∧ st.sendWindow ≤ 2 ^ 31 - 1) ∧
    s.conn.connSendWindow = 65535 + acceptedConn t - dataSent t ∧ s.conn.connSendWindow ≤ 2 ^ 31 - 1 ∧
    ∀ (fits : Room) (c : Conn σ) (h : FrameHeader) (payload : Str), h.type = .settings →
      (handleFrame cb fits c h payload).verdict ≠ .ok → (handleFrame cb fits c h payload).conn = c := by
  have hstart : SendRun [] c₀ := by
    rcases hinit with rfl | rfl
    · exact .init decBuf encBuf app
    · have hserver := SendRun.init decBuf encBuf app
      refine ⟨hserver.ids.congr ⟨rfl, rfl⟩, ?_⟩
      have hledger := hserver.ledger
      exact ⟨hledger.conn, hledger.connMax, hledger.slot, hledger.fresh, hledger.initial⟩
  have hinv : SendRun t s.conn := by
    induction h with
    | nil => exact hstart
    | snoc _ hs ih => exact ih.step hcb hs
  refine ⟨fun st hst hlive => ?_, hinv.ledger.conn, hinv.ledger.connMax, fun fits c h payload => settings_rejected⟩
  obtain ⟨hledger, hmax, hspent⟩ := hinv.ledger.slot st hst hlive
  unfold kMaxWindow at hmax hspent
  exact ⟨hledger, by omega, by omega⟩

def updatedInput : Str :=
  kClientPreface ++ FrameHeader.bytes ⟨1, .headers, kEndHeaders, 1⟩ ++ [0x82] ++
    FrameHeader.bytes ⟨4, .windowUpdate, 0, 1⟩ ++ [0, 0, 0, 5]

theorem updatedInput_windows :
    ∃ p, process (fun _ => none) (some 100) (Conn.init [] [] ()) updatedInput = some p ∧
      p.conn.streams.map (·.sendWindow) = [65540] ∧ p.conn.connSendWindow ≤ 2 ^ 31 - 1 := by
  have hcall : (process (fun _ => none) (some 100) (Conn.init [] [] ()) updatedInput).map
      (fun p => (p.status, p.conn.streams.map (·.sendWindow))) = some (.open, [65540]) := by
    decide
  obtain ⟨p, hp, heq⟩ := Option.map_eq_some_iff.mp hcall
  have ht := (process_run Serve hp (congrArg Prod.fst heq)).1
  exact ⟨p, hp, congrArg Prod.snd heq, (send_windows (fun _ _ => .refl) (.inl rfl) ht).2.2.1⟩

end Rut.Http2
