import Rut.Http2.Credit
import Rut.Http2.Replies

/-!
# The ledger of the receive windows

The windows the engine keeps for receiving agree with those of the peer if it has taken from them what was received
and added to them what was announced. The engine adds to its windows for DATA that it replenishes itself whether or not
there is room for the WINDOW_UPDATE frames, so the two agree in runs in which there always is.
-/

set_option linter.all false
namespace Rut.Http2

variable {σ : Type} {cb : Callbacks σ} {fits : Room} {c c' : Conn σ} {consumed i k : Nat} {on upd : Nat → Nat}

def OutFrame.increment (id : Nat) : OutFrame → Nat
  | .windowUpdate id' n => if id' = id then n else 0
  | _ => 0

def increments (id : Nat) (out : List OutFrame) : Nat := (out.map (·.increment id)).sum

@[simp] lemma increments_nil (id : Nat) : increments id [] = 0 := rfl

@[simp] lemma increments_cons (id : Nat) (f : OutFrame) (out : List OutFrame) :
    increments id (f :: out) = f.increment id + increments id out := by
  rfl

@[simp] lemma increments_append (id : Nat) (o₁ o₂ : List OutFrame) :
    increments id (o₁ ++ o₂) = increments id o₁ + increments id o₂ := by
  rw [increments, List.map_append, List.sum_append]
  rfl

@[simp] lemma increment_update (id id' n : Nat) :
    (writeWindowUpdate id' n).increment id = if id' = id then n % 2 ^ 31 else 0 := rfl

@[simp] lemma increment_rst (id id' : Nat) (e : Http2Error) : (writeRstStream id' e).increment id = 0 := rfl

def dataOctets {L : Type} (e : Entry σ L) : Nat :=
  (handled e).elim 0 fun x => if x.header.type = .data then x.header.length else 0

def dataOctetsOn {L : Type} (id : Nat) (e : Entry σ L) : Nat :=
  (handled e).elim 0 fun x =>
    if x.header.type = .data ∧ x.header.streamId = id ∧ (x.conn.receiver id).isSome then x.header.length else 0

def dataConsumed {L : Type} (t : List (Entry σ L)) : Nat := (t.map dataOctets).sum

def dataConsumedOn {L : Type} (id : Nat) (t : List (Entry σ L)) : Nat := (t.map (dataOctetsOn id)).sum

def updatesWritten {L : Type} (cb : Callbacks σ) (id : Nat) (t : List (Entry σ L)) : Nat :=
  (t.map fun e => increments id (written cb e)).sum

/-- There is room for what the engine has to announce. It announces the octets of a DATA frame at once unless the
frame overflows the window of its stream or is delivered to a consumer that returns octets itself; stray DATA is
answered with a reset of the stream first, and a stream that has ended needs no announcement. -/
def Handled.Roomy (x : Handled σ) : Prop :=
  x.header.type = .data → 0 < x.header.length →
    match x.conn.receiver x.header.streamId with
    | none => x.fits 0 13 = true ∧ x.fits 13 13 = true
    | some i =>
      (x.conn.stream i).recvWindow < x.header.length ∨
      ((x.conn.stream i).manualWindow = true ∧ stripPadding x.header x.payload false ≠ some []) ∨
      x.fits 0 13 = true ∧ (x.header.has kEndStream = true ∨ x.fits 13 13 = true)

/-! ## The invariant -/

/-- What is known of a slot whose stream still receives: its window agrees with the ledger, and is short of the initial
one by the octets that are held, to be announced, or part of the frame that is handled. -/
structure SlotLedger (on upd : Nat → Nat) (k : Nat) (s : Stream) : Prop where
  window : 0 ≤ s.recvWindow
  ledger : s.recvWindow = kDefaultInitialWindowSize - on s.id + upd s.id
  total : s.recvWindow + s.recvCredit + s.recvUnconsumed + k = kDefaultInitialWindowSize

/-- The windows agree with a ledger of octets consumed and increments written, while `k` octets of the stream in slot
`i` are being handled. -/
structure LedgerInv (consumed : Nat) (on upd : Nat → Nat) (i k : Nat) (c : Conn σ) : Prop where
  conn : c.connRecvWindow = kDefaultInitialWindowSize - consumed + upd 0
  slot : ∀ j s, c.streams[j]? = some s → s.state.receives = true → SlotLedger on upd (if j = i then k else 0) s
  fresh : ∀ id, c.lastStreamId < id → on id = 0 ∧ upd id = 0
  initial : c.ourSettings.initialWindowSize = kDefaultInitialWindowSize

namespace LedgerInv

lemma slotwise {R} (h : LedgerInv consumed on upd i k c) (hss : List.Forall₂ R c.streams c'.streams)
    (hslot : ∀ k s s', R s s' → (s.state.receives = true → SlotLedger on upd k s) →
      s'.state.receives = true → SlotLedger on upd k s')
    (hw : c'.connRecvWindow = c.connRecvWindow) (hlast : c'.lastStreamId = c.lastStreamId)
    (hinit : c'.ourSettings.initialWindowSize = c.ourSettings.initialWindowSize) :
    LedgerInv consumed on upd i k c' where
  conn := hw.trans h.conn
  slot := by
    intro j s' hs'
    obtain ⟨s, hs, hR⟩ := forall₂_getElem? hss hs'
    exact hslot _ s s' hR (h.slot j s hs)
  fresh := by
    rw [hlast]
    exact h.fresh
  initial := hinit.trans h.initial

lemma served {busy} (h : LedgerInv consumed on upd i k c) (hs : c.Served busy c') :
    LedgerInv consumed on upd i k c' := by
  refine h.slotwise hs.streams ?_ hs.connRecvWindow hs.lastStreamId hs.initialWindowSize
  intro k s s' hR hslot hrecv
  obtain ⟨hwindow, hledger, htotal⟩ := hslot (hR.receives hrecv)
  refine ⟨?_, ?_, ?_⟩
  · rw [hR.recvWindow]
    exact hwindow
  · rw [hR.recvWindow, hR.id]
    exact hledger
  · rw [hR.recvWindow, hR.recvCredit, hR.recvUnconsumed]
    exact htotal

lemma consume (h : LedgerInv consumed on upd i k c) (id len : Nat) :
    LedgerInv consumed on upd i k (c.consumeData id len).2 := by
  obtain heq | ⟨j, -, hj, hle, heq⟩ := consumeData_cases c id len
  · rw [heq]
    exact h
  · rw [heq]
    refine h.slotwise (R := fun s s' => s' = s ∨ len ≤ s.recvUnconsumed ∧ s' =
      { s with recvUnconsumed := s.recvUnconsumed - len, recvCredit := add32 s.recvCredit len })
      (forall₂_modify (fun s => .inl rfl) ?_) ?_ rfl rfl rfl
    · intro s hs
      cases hj.symm.trans hs
      exact .inr ⟨hle, rfl⟩
    · rintro k s s' (rfl | ⟨hle, rfl⟩) hslot hrecv
      · exact hslot hrecv
      · obtain ⟨hwindow, hledger, htotal⟩ := hslot hrecv
        refine ⟨hwindow, hledger, ?_⟩
        unfold kDefaultInitialWindowSize at htotal ⊢
        dsimp only
        unfold add32
        omega

lemma attends {busy} (h : LedgerInv consumed on upd i k c)
    (ha : Relation.ReflTransGen (Attend busy) c c') : LedgerInv consumed on upd i k c' := by
  induction ha with
  | refl => exact h
  | tail _ ha ih =>
    cases ha with
    | consume id len => exact ih.consume id len
    | other hs => exact ih.served hs

lemma fresh_slot {id} (h : LedgerInv consumed on upd i 0 c) (hid : c.lastStreamId < id) :
    SlotLedger on upd 0 (c.freshStream id) := by
  obtain ⟨hon, hupd⟩ := h.fresh id hid
  have hinit := h.initial
  refine ⟨Int.natCast_nonneg _, ?_, ?_⟩
  · dsimp only [Conn.freshStream]
    omega
  · dsimp only [Conn.freshStream]
    omega

lemma alloc {id j} (h : LedgerInv consumed on upd i 0 c) (hid : c.lastStreamId < id)
    (ha : c.allocStream id = some (j, c')) : LedgerInv consumed on upd i 0 { c' with lastStreamId := id } := by
  have hfresh := h.fresh_slot hid
  obtain ⟨ss, rfl, hss⟩ := allocStream_spec ha
  refine ⟨h.conn, ?_, fun id' hid' => h.fresh id' (hid.trans hid'), h.initial⟩
  intro l s hs hrecv
  rw [ite_self]
  have hold : ∀ s, c.streams[l]? = some s → s.state.receives = true → SlotLedger on upd 0 s := by
    intro s hs hrecv
    have := h.slot l s hs hrecv
    rwa [ite_self] at this
  obtain ⟨s₀, -, -, rfl⟩ | ⟨-, rfl⟩ := hss
  · rw [List.getElem?_set] at hs
    split_ifs at hs
    · cases hs
      exact hfresh
    · exact hold s hs hrecv
  · rw [List.getElem?_append] at hs
    split_ifs at hs
    · exact hold s hs hrecv
    · cases hs' : l - c.streams.length with
      | zero =>
        rw [hs'] at hs
        cases hs
        exact hfresh
      | succ n =>
        rw [hs'] at hs
        cases hs

lemma shifts (h : LedgerInv consumed on upd i 0 c) (hs : Shifts c c') : LedgerInv consumed on upd i 0 c' := by
  induction hs with
  | refl => exact h
  | tail _ hs ih =>
    cases hs with
    | consume id len => exact ih.consume id len
    | served hs => exact ih.served hs
    | alloc hid ha => exact ih.alloc hid ha
    | skip hid => exact ⟨ih.conn, ih.slot, fun id' hid' => ih.fresh id' (hid.trans hid'), ih.initial⟩

end LedgerInv

/-! ## DATA -/

@[simp] lemma outLen_update (id n : Nat) : outLen [writeWindowUpdate id n] = 13 := by
  simp [outLen, writeWindowUpdate, OutFrame.bytes, FrameHeader.bytes, length_writeBe]

@[simp] lemma outLen_rst (id : Nat) (e : Http2Error) : outLen [writeRstStream id e] = 13 := by
  simp [outLen, writeRstStream, OutFrame.bytes, FrameHeader.bytes, length_writeBe]

namespace LedgerInv

/-- A change of slot `i` is booked for its stream. -/
lemma book {on' upd'} {consumed' k' : Nat} {s f}
    (h : LedgerInv consumed on upd i k c) (hids : IdsInv c) (hi : c.streams[i]? = some s)
    (hother : ∀ id, id ≠ s.id → id ≠ 0 → on' id = on id ∧ upd' id = upd id) (hss : c'.streams = c.streams.modify i f)
    (hslot : (f s).state.receives = true → SlotLedger on' upd' k' (f s))
    (hconn : c'.connRecvWindow = kDefaultInitialWindowSize - consumed' + upd' 0)
    (hlast : c'.lastStreamId = c.lastStreamId) (hinit : c'.ourSettings = c.ourSettings) :
    LedgerInv consumed' on' upd' i k' c' where
  conn := hconn
  slot := by
    intro j s' hs' hrecv
    rw [hss, List.getElem?_modify] at hs'
    obtain ⟨s₀, hs₀, rfl⟩ := Option.map_eq_some_iff.mp hs'
    by_cases hj : i = j
    · subst hj
      cases hi.symm.trans hs₀
      rw [if_pos rfl] at hrecv ⊢
      rw [if_pos rfl]
      exact hslot hrecv
    · rw [if_neg hj] at hrecv ⊢
      obtain ⟨hwindow, hledger, htotal⟩ := h.slot j s₀ hs₀ hrecv
      rw [if_neg (Ne.symm hj)] at htotal ⊢
      have hne : s₀.id ≠ s.id := fun heq => hj (hids.unique hi hs₀ heq.symm)
      have hpos := (hids.range s₀.id (List.mem_map_of_mem (List.mem_of_getElem? hs₀))).1
      obtain ⟨hon, hupd⟩ := hother s₀.id hne hpos.ne'
      refine ⟨hwindow, ?_, htotal⟩
      rw [hon, hupd]
      exact hledger
  fresh := by
    intro id hid
    rw [hlast] at hid
    have hle := (hids.range s.id (List.mem_map_of_mem (List.mem_of_getElem? hi))).2
    obtain ⟨hon, hupd⟩ := hother id (by omega) (by omega)
    rw [hon, hupd]
    exact h.fresh id hid
  initial := by
    rw [hinit]
    exact h.initial

lemma receive {n : Nat} {s} (h : LedgerInv consumed on upd i 0 c) (hids : IdsInv c)
    (hi : c.streams[i]? = some s) (hn : (n : Int) ≤ s.recvWindow) :
    LedgerInv (consumed + n) (fun id => on id + if id = s.id then n else 0) upd i n (c.receive i n) := by
  refine h.book hids hi (fun id hid _ => ⟨by rw [if_neg hid, Nat.add_zero], rfl⟩) rfl ?_ ?_ rfl rfl
  · intro hrecv
    obtain ⟨hwindow, hledger, htotal⟩ := h.slot i s hi hrecv
    rw [if_pos rfl] at htotal
    refine ⟨?_, ?_, ?_⟩
    · dsimp only
      omega
    · dsimp only
      rw [if_pos rfl]
      omega
    · dsimp only
      omega
  · have hconn := h.conn
    dsimp only [Conn.receive, Conn.modifyStream]
    omega

lemma receive_closed {n s} (h : LedgerInv consumed on upd i 0 c) (hids : IdsInv c) (hi : c.streams[i]? = some s) :
    LedgerInv (consumed + n) (fun id => on id + if id = s.id then n else 0) upd i 0
      ((c.receive i n).setState i .closed) := by
  have hss : ((c.receive i n).setState i .closed).streams =
      c.streams.modify i fun s => { s with recvWindow := s.recvWindow - n, state := .closed } :=
    List.modify_modify_eq _ _ _ _
  refine h.book hids hi (fun id hid _ => ⟨by rw [if_neg hid, Nat.add_zero], rfl⟩) hss ?_ ?_ rfl rfl
  · intro hrecv
    cases hrecv
  · have hconn := h.conn
    dsimp only [Conn.receive, Conn.setState, Conn.modifyStream]
    omega

end LedgerInv

lemma endData_receives {s} (hi : (c.endData i true).streams[i]? = some s) : s.state.receives = false := by
  unfold Conn.endData Conn.stream at hi
  split at hi
  · unfold Conn.setState Conn.modifyStream at hi
    rw [List.getElem?_modify] at hi
    obtain ⟨s₀, -, rfl⟩ := Option.map_eq_some_iff.mp hi
    rw [if_pos rfl]
    split_ifs <;> rfl
  · next h =>
    rw [List.getD_eq_getElem?_getD, hi, Bool.true_and, bne_iff_ne, not_not] at h
    have hclosed : s.state = .closed := h
    rw [hclosed]
    rfl

lemma increments_replenishOut {h endStream} (hid : h.streamId ≠ 0) (hsize : h.length < 2 ^ 31)
    (hroom : 0 < h.length → fits 0 13 = true ∧ (endStream = true ∨ fits 13 13 = true)) :
    increments 0 (replenishOut fits h endStream) = h.length ∧
      (endStream = false → increments h.streamId (replenishOut fits h endStream) = h.length) ∧
      ∀ id, id ≠ h.streamId → id ≠ 0 → increments id (replenishOut fits h endStream) = 0 := by
  unfold replenishOut kFrameHeaderSize
  by_cases hzero : h.length = 0
  · rw [if_pos hzero, hzero]
    exact ⟨rfl, fun _ => rfl, fun _ _ _ => rfl⟩
  · obtain ⟨h₁, h₂⟩ := hroom (Nat.pos_of_ne_zero hzero)
    rw [if_neg hzero]
    dsimp only
    rw [if_pos h₁, outLen_update]
    cases endStream with
    | true =>
      refine ⟨?_, (fun h => by cases h), fun id _ h0 => ?_⟩
      · simpa using hsize
      · simp [h0.symm]
    | false =>
      have h₂ : fits 13 13 = true := h₂.resolve_left (by decide)
      refine ⟨?_, fun _ => ?_, fun id hne h0 => ?_⟩
      · simpa [h₂, hid] using hsize
      · simpa [h₂, hid.symm] using hsize
      · simp [h₂, hne.symm, h0.symm]

namespace LedgerInv

lemma hold {n s} (h : LedgerInv consumed on upd i k c) (hids : IdsInv c) (hi : c.streams[i]? = some s) (hn : n ≤ k) :
    LedgerInv consumed on upd i (k - if s.manualWindow then n else 0) (c.holdData i n) := by
  unfold Conn.holdData
  rw [stream_eq hi]
  by_cases hmanual : s.manualWindow = true
  · rw [if_pos hmanual, if_pos hmanual]
    refine h.book hids hi (fun _ _ _ => ⟨rfl, rfl⟩) rfl ?_ h.conn rfl rfl
    intro hrecv
    obtain ⟨hwindow, hledger, htotal⟩ := h.slot i s hi hrecv
    rw [if_pos rfl] at htotal
    refine ⟨hwindow, hledger, ?_⟩
    unfold kDefaultInitialWindowSize at htotal ⊢
    dsimp only
    unfold add32
    omega
  · rw [if_neg hmanual, if_neg hmanual]
    exact h

lemma settle {h} {p : Str} {s} {held : Bool}
    (hinv : LedgerInv consumed on upd i (h.length - if held then p.length else 0) c) (hids : IdsInv c)
    (hi : c.streams[i]? = some s) (hid : s.id = h.streamId) (hne : h.streamId ≠ 0) (hsize : h.length < 2 ^ 31)
    (hflag : p ≠ [] → s.manualWindow = held) (hroom : 0 < h.length → held = true ∧ p ≠ [] ∨
      fits 0 13 = true ∧ (h.has kEndStream = true ∨ fits 13 13 = true)) :
    LedgerInv consumed on (fun id => upd id + increments id (settleData fits c h p i).out) i 0
      (settleData fits c h p i).conn := by
  have hend := endData_served (some s.id) c i (h.has kEndStream)
  have hids' := hids.congr (.served hend)
  have hinv' := hinv.served hend
  have hlast : ∀ s, (c.endData i (h.has kEndStream)).streams[i]? = some s → h.has kEndStream = true →
      s.state.receives = false := by
    intro s hs hlast
    rw [hlast] at hs
    exact endData_receives hs
  have hserved := hend.stream i
  rw [stream_eq hi] at hserved
  have hi' : (c.endData i (h.has kEndStream)).streams[i]? = some ((c.endData i (h.has kEndStream)).stream i) := by
    refine getElem?_stream ?_
    rw [← hend.streams.length_eq]
    exact (List.getElem?_eq_some_iff.mp hi).1
  unfold settleData
  dsimp only
  generalize c.endData i (h.has kEndStream) = d at hids' hinv' hlast hserved hi' ⊢
  generalize d.stream i = s' at hserved hi' ⊢
  have hsid : s'.id = h.streamId := hserved.id.trans hid
  have hsflag : p ≠ [] → s'.manualWindow = held := fun hp => (hserved.manualWindow rfl).trans (hflag hp)
  by_cases hmanual : s'.manualWindow = true
  · rw [if_pos hmanual]
    have hk : (h.length - if held then p.length else 0) = h.length - p.length := by
      by_cases hp : p = []
      · rw [hp, List.length_nil, ite_self]
      · rw [← hsflag hp, hmanual, if_pos rfl]
    refine hinv'.book hids' hi' (fun _ _ _ => ⟨rfl, rfl⟩) rfl ?_ hinv'.conn rfl rfl
    intro hrecv
    obtain ⟨hwindow, hledger, htotal⟩ := hinv'.slot i s' hi' hrecv
    rw [if_pos rfl] at htotal
    refine ⟨hwindow, hledger, ?_⟩
    unfold kDefaultInitialWindowSize at htotal ⊢
    dsimp only
    unfold add32
    omega
  · rw [if_neg hmanual]
    have hk : (h.length - if held then p.length else 0) = h.length := by
      by_cases hp : p = []
      · rw [hp, List.length_nil, ite_self, Nat.sub_zero]
      · rw [← hsflag hp, if_neg hmanual, Nat.sub_zero]
    have hfits : 0 < h.length → fits 0 13 = true ∧ (h.has kEndStream = true ∨ fits 13 13 = true) := fun hpos =>
      (hroom hpos).resolve_left fun hheld => hmanual ((hsflag hheld.2).trans hheld.1)
    obtain ⟨h₁, h₂, h₃⟩ := increments_replenishOut hne hsize hfits
    refine hinv'.book hids' hi' ?_ rfl ?_ ?_ rfl rfl
    · intro id hid₁ hid₀
      rw [hsid] at hid₁
      exact ⟨rfl, by rw [h₃ id hid₁ hid₀, Nat.add_zero]⟩
    · intro hrecv
      have hgoing : h.has kEndStream = false := by
        by_contra hlast'
        have := hlast s' hi' (by simpa using hlast')
        exact absurd (hrecv.symm.trans this) (by decide)
      obtain ⟨hwindow, hledger, htotal⟩ := hinv'.slot i s' hi' hrecv
      rw [if_pos rfl] at htotal
      refine ⟨?_, ?_, ?_⟩
      · dsimp only
        omega
      · dsimp only
        rw [hsid, h₂ hgoing, ← hsid]
        omega
      · dsimp only
        omega
    · have hconn := hinv'.conn
      dsimp only [Conn.replenish, Conn.modifyStream]
      omega

end LedgerInv

namespace LedgerInv

lemma deliver (hcb : cb.Attends) {h} {p : Str} {s}
    (hinv : LedgerInv consumed on upd i h.length c) (hids : IdsInv c) (hi : c.streams[i]? = some s)
    (hid : s.id = h.streamId) (hne : h.streamId ≠ 0) (hlen : p.length ≤ h.length) (hsize : h.length < 2 ^ 31)
    (hroom : 0 < h.length → s.manualWindow = true ∧ p ≠ [] ∨
      fits 0 13 = true ∧ (h.has kEndStream = true ∨ fits 13 13 = true)) :
    LedgerInv consumed on (fun id => upd id + increments id (deliverData cb fits c h p i).out) i 0
      (deliverData cb fits c h p i).conn := by
  have hcall := hcb (.data h.streamId p (h.has kEndStream)) (c.holdData i p.length)
  have hsame := (Conn.SameIds.hold c i p.length).trans (.attends hcall)
  have hinv' := (hinv.hold hids hi hlen).attends hcall
  have hout : (deliverData cb fits c h p i).out =
      (settleData fits (cb.invoke (.data h.streamId p (h.has kEndStream)) (c.holdData i p.length)).conn h p i).out := by
    unfold deliverData Reply.andThen Callbacks.invoke
    cases cb (.data h.streamId p (h.has kEndStream)) <;> rfl
  obtain ⟨hkeepid, hkeep⟩ := attends_stream hcall i
  rw [holdData_stream (·.id) fun _ _ => rfl, stream_eq hi] at hkeepid hkeep
  rw [holdData_stream (·.manualWindow) fun _ _ => rfl, stream_eq hi] at hkeep
  rw [hout]
  have hi' := getElem?_stream (hsame.lt (List.getElem?_eq_some_iff.mp hi).1)
  refine hinv'.settle (hids.congr hsame) hi' (hkeepid.trans hid) hne hsize (fun hp => hkeep ?_) hroom
  rw [hid]
  exact if_neg hp

lemma congr {consumed' : Nat} {on' upd'} (h : LedgerInv consumed on upd i k c) (hids : IdsInv c)
    (hss : c'.streams = c.streams) (hother : ∀ id, id ≠ 0 → on' id = on id ∧ upd' id = upd id)
    (hconn : c'.connRecvWindow = kDefaultInitialWindowSize - consumed' + upd' 0)
    (hlast : c'.lastStreamId = c.lastStreamId) (hinit : c'.ourSettings = c.ourSettings) :
    LedgerInv consumed' on' upd' i k c' where
  conn := hconn
  slot := by
    intro j s hs hrecv
    rw [hss] at hs
    obtain ⟨hwindow, hledger, htotal⟩ := h.slot j s hs hrecv
    have hpos := (hids.range s.id (List.mem_map_of_mem (List.mem_of_getElem? hs))).1
    obtain ⟨hon, hupd⟩ := hother s.id hpos.ne'
    refine ⟨hwindow, ?_, htotal⟩
    rw [hon, hupd]
    exact hledger
  fresh := by
    intro id hid
    rw [hlast] at hid
    obtain ⟨hon, hupd⟩ := hother id (Nat.ne_zero_of_lt hid)
    rw [hon, hupd]
    exact h.fresh id hid
  initial := by
    rw [hinit]
    exact h.initial

lemma reindex (h : LedgerInv consumed on upd i 0 c) (j : Nat) : LedgerInv consumed on upd j 0 c where
  conn := h.conn
  slot := by
    intro l s hs hrecv
    have hslot := h.slot l s hs hrecv
    rw [ite_self] at hslot ⊢
    exact hslot
  fresh := h.fresh
  initial := h.initial

lemma stray {h} (hinv : LedgerInv consumed on upd i k c) (hids : IdsInv c) (hsize : h.length < 2 ^ 31)
    (hroom : 0 < h.length → fits 0 13 = true ∧ fits 13 13 = true) :
    LedgerInv (consumed + h.length) on (fun id => upd id + increments id (strayDataOut fits h)) i k c := by
  have hother : ∀ id, id ≠ 0 → increments id (strayDataOut fits h) = 0 := by
    intro id hid
    unfold strayDataOut
    dsimp only
    split_ifs <;> simp [hid.symm]
  have hzero : increments 0 (strayDataOut fits h) = h.length := by
    unfold strayDataOut kFrameHeaderSize
    dsimp only
    rcases Nat.eq_zero_or_pos h.length with hz | hpos
    · rw [hz]
      split_ifs <;> simp
    · obtain ⟨h₁, h₂⟩ := hroom hpos
      rw [if_pos h₁, outLen_rst, if_pos (by simpa [hpos] using h₂)]
      simpa using hsize
  have hconn := hinv.conn
  refine hinv.congr hids rfl (fun id hid => ⟨rfl, by rw [hother id hid, Nat.add_zero]⟩) ?_ rfl rfl
  omega

lemma overflow (hcb : cb.Attends) (id n : Nat) (e : Http2Error) {s}
    (hinv : LedgerInv consumed on upd i 0 c) (hids : IdsInv c) (hi : c.streams[i]? = some s) :
    LedgerInv (consumed + n) (fun id => on id + if id = s.id then n else 0) upd i 0
      ((c.receive i n).resetAt cb id i e) := by
  have hclosed := hinv.receive_closed (n := n) hids hi
  refine LedgerInv.attends ?_ (hcb _ _)
  unfold Conn.clearPendingUpload
  split
  · exact ⟨hclosed.conn, hclosed.slot, hclosed.fresh, hclosed.initial⟩
  · exact hclosed

lemma data (hcb : cb.Attends) {h payload} (hlen : payload.length = h.length)
    (hok : (handleData cb fits c h payload).verdict = .ok) (ht : h.type = .data)
    (hroomy : Handled.Roomy ⟨c, fits, h, payload⟩) (hcredit : CreditInv 0 c) (hids : IdsInv c)
    (hinv : LedgerInv consumed on upd i 0 c) : LedgerInv (consumed + h.length)
      (fun id => on id + if h.streamId = id ∧ (c.receiver id).isSome then h.length else 0)
      (fun id => upd id + increments id (handleData cb fits c h payload).out) i 0
      (handleData cb fits c h payload).conn := by
  obtain ⟨hne, hwindow, hcases⟩ := handleData_cases hlen hok
  have hroomy := hroomy ht
  have hsize : h.length < 2 ^ 31 := by
    have htotal := hcredit.total
    unfold Conn.recvTotal kDefaultInitialWindowSize at htotal
    omega
  obtain ⟨hnone, heq⟩ | ⟨j, p, hslot, hstrip, hp, hcases⟩ := hcases
  · rw [heq]
    rw [hnone] at hroomy
    have hon : (fun id => on id + if h.streamId = id ∧ (c.receiver id).isSome then h.length else 0) = on := by
      funext id
      by_cases hid : h.streamId = id
      · rw [← hid, hnone]
        simp
      · simp [hid]
    rw [hon]
    exact hinv.stray hids hsize hroomy
  · obtain ⟨hfind, -⟩ := Option.filter_eq_some_iff.mp hslot
    obtain ⟨hid, -, hj⟩ := findStream_id hfind
    have hon : (fun id => on id + if h.streamId = id ∧ (c.receiver id).isSome then h.length else 0) =
        fun id => on id + if id = (c.stream j).id then h.length else 0 := by
      funext id
      rw [hid]
      by_cases hid' : id = h.streamId
      · rw [hid', hslot]
        simp
      · simp [hid', Ne.symm hid']
    have hj' := getElem?_receive hj h.length
    have hrecv : ((c.receive j h.length).stream j).recvWindow = (c.stream j).recvWindow - h.length := by
      rw [stream_eq hj']
    rw [hon]
    obtain ⟨-, hconn, hout⟩ | ⟨hfit, heq⟩ := hcases
    · have hinv' := ((hinv.reindex j).overflow hcb h.streamId h.length .flowControlError hids hj).reindex i
      have hupd : (fun id => upd id + increments id [writeRstStream h.streamId .flowControlError]) = upd := by
        funext id
        simp
      rw [hconn, hout, hupd]
      exact ⟨hinv'.conn, hinv'.slot, hinv'.fresh, hinv'.initial⟩
    · rw [heq]
      refine LedgerInv.reindex (i := j) ?_ i
      refine ((hinv.reindex j).receive hids hj (by omega)).deliver hcb (hids.congr (.receive c j h.length)) hj' hid hne hp
        hsize fun hpos => ?_
      have hroom := hroomy hpos
      dsimp only at hroom
      rw [hslot] at hroom
      rcases hroom with hover | ⟨hmanual, hnil⟩ | hroom
      · omega
      · refine .inl ⟨hmanual, ?_⟩
        rintro rfl
        exact hnil hstrip
      · exact .inr hroom

end LedgerInv

/-! ## Other frames -/

def Reply.Quiet (r : Reply σ) : Prop := ∀ id, increments id r.out = 0

lemma Reply.Resets.quiet {r : Reply σ} (h : r.Resets) : r.Quiet := by
  intro id
  refine List.sum_eq_zero fun n hn => ?_
  obtain ⟨f, hf, rfl⟩ := List.mem_map.mp hn
  obtain ⟨id', code, rfl⟩ := h f hf
  rfl

lemma handleFrame_quiet {h} (payload : Str) (ht : h.type ≠ .data)
    (hok : (handleFrame cb fits c h payload).verdict = .ok) : (handleFrame cb fits c h payload).Quiet := by
  by_cases hans : h.type.isAnswered = true
  · unfold handleFrame at hok ⊢
    split_ifs at hok ⊢
    cases htype : h.type with
    | settings =>
      rw [htype] at hok
      intro id
      rw [handleSettings_out hok]
      split_ifs <;> rfl
    | ping =>
      rw [htype] at hok
      intro id
      rw [(handlePing_out hok).2]
      split_ifs <;> rfl
    | data => exact absurd htype ht
    | _ =>
      rw [htype] at hans
      cases hans
  · exact (handleFrame_resets payload (Bool.eq_false_of_not_eq_true hans)).quiet

namespace LedgerInv

lemma settings {h payload} (hinv : LedgerInv consumed on upd i k c) :
    LedgerInv consumed on upd i k (handleSettings fits c h payload).conn := by
  obtain hconn | ⟨settings, -, -, -, hconn⟩ := handleSettings_cases fits c h payload
  · rw [hconn]
    exact hinv
  · rw [hconn]
    refine hinv.slotwise (R := fun s s' => ∃ w, s' = { s with sendWindow := w }) ?_ ?_ rfl rfl rfl
    · refine List.forall₂_map_right_iff.mpr (List.forall₂_same.mpr fun s _ => ?_)
      split_ifs
      · exact ⟨s.sendWindow, rfl⟩
      · exact ⟨_, rfl⟩
    · rintro k s s' ⟨w, rfl⟩ hslot hrecv
      obtain ⟨hwindow, hledger, htotal⟩ := hslot hrecv
      exact ⟨hwindow, hledger, htotal⟩

lemma windowUpdate (hcb : cb.Attends) {h payload}
    (hok : (handleWindowUpdate cb fits c h payload).verdict = .ok) (hinv : LedgerInv consumed on upd i 0 c) :
    LedgerInv consumed on upd i 0 (handleWindowUpdate cb fits c h payload).conn := by
  obtain ⟨-, -, hconn⟩ | ⟨-, ⟨-, hconn⟩ | ⟨j, -, ⟨-, -, hconn⟩ | ⟨-, hmoves⟩⟩⟩ := handleWindowUpdate_cases hok
  · rw [hconn]
    exact ⟨hinv.conn, hinv.slot, hinv.fresh, hinv.initial⟩
  · rw [hconn]
    exact hinv
  · rw [hconn]
    refine hinv.slotwise (R := fun s s' => ∃ w, s' = { s with sendWindow := w })
      (forall₂_modify (fun s => ⟨s.sendWindow, rfl⟩) fun s _ => ⟨_, rfl⟩) ?_ rfl rfl rfl
    rintro k s s' ⟨w, rfl⟩ hslot hrecv
    obtain ⟨hwindow, hledger, htotal⟩ := hslot hrecv
    exact ⟨hwindow, hledger, htotal⟩
  · exact hinv.shifts (hmoves.shifts hcb)

lemma frame (hcb : cb.Attends) {x : Handled σ} (hlen : x.payload.length = x.header.length)
    (hok : (x.reply cb).verdict = .ok) (hroomy : x.Roomy) (hcredit : CreditInv 0 x.conn) (hids : IdsInv x.conn)
    (hinv : LedgerInv consumed on upd i 0 x.conn) :
    LedgerInv (consumed + if x.header.type = .data then x.header.length else 0)
      (fun id => on id + if x.header.type = .data ∧ x.header.streamId = id ∧ (x.conn.receiver id).isSome then
        x.header.length else 0) (fun id => upd id + increments id (x.reply cb).out) i 0 (x.reply cb).conn := by
  obtain ⟨c, fits, h, payload⟩ := x
  unfold Handled.reply at hok ⊢
  by_cases ht : h.type = .data
  · simp only [ht, true_and, if_pos]
    unfold handleFrame at hok ⊢
    split_ifs at hok ⊢
    rw [ht] at hok ⊢
    exact hinv.data hcb hlen hok ht hroomy hcredit hids
  · have hquiet : (fun id => upd id + increments id (handleFrame cb fits c h payload).out) = upd := by
      funext id
      rw [handleFrame_quiet payload ht hok id, Nat.add_zero]
    simp only [ht, false_and, if_false, Nat.add_zero, hquiet]
    by_cases hflow : h.type.isFlow = true
    · unfold handleFrame at hok ⊢
      split_ifs at hok ⊢
      cases htype : h.type with
      | settings => exact hinv.settings
      | data => exact absurd htype ht
      | windowUpdate =>
        rw [htype] at hok
        exact hinv.windowUpdate hcb hok
      | _ =>
        rw [htype] at hflow
        cases hflow
    · exact hinv.shifts (handleFrame_shifts hcb payload (Bool.eq_false_of_not_eq_true hflow))

end LedgerInv

/-! ## Flushed credits -/

lemma increments_flushStream {w id s} (hid : s.id ≠ id) : increments id (flushStream fits w s).2 = 0 := by
  unfold flushStream
  split_ifs <;> simp [hid]

lemma increments_flushStreams {w id ss} (hid : id ∉ ss.map (·.id)) : increments id (flushStreams fits w ss).2 = 0 := by
  induction ss generalizing w with
  | nil => rfl
  | cons s ss ih =>
    rw [List.map_cons, List.mem_cons, not_or] at hid
    rw [flushStreams]
    rw [increments_append, increments_flushStream (Ne.symm hid.1), ih hid.2]

lemma flushStreams_slot {w j : Nat} {ss s'} (hss : (ss.map (·.id)).Nodup)
    (h : (flushStreams fits w ss).1[j]? = some s') : ∃ s w', ss[j]? = some s ∧ s' = (flushStream fits w' s).1 ∧
      increments s.id (flushStreams fits w ss).2 = increments s.id (flushStream fits w' s).2 := by
  induction ss generalizing w j with
  | nil => cases h
  | cons s₀ ss ih =>
    rw [List.map_cons, List.nodup_cons] at hss
    rw [flushStreams] at h ⊢
    dsimp only at h ⊢
    cases j with
    | zero =>
      cases h
      refine ⟨s₀, w, rfl, rfl, ?_⟩
      rw [increments_append, increments_flushStreams hss.1, Nat.add_zero]
    | succ j =>
      obtain ⟨s, w', hs, hs', hinc⟩ := ih hss.2 h
      refine ⟨s, w', hs, hs', ?_⟩
      have hne : s₀.id ≠ s.id := by
        intro heq
        exact hss.1 (heq ▸ List.mem_map_of_mem (List.mem_of_getElem? hs))
      rw [increments_append, increments_flushStream hne, Nat.zero_add, hinc]

lemma SlotLedger.flush (upd upd' : Nat → Nat) {w s}
    (h : s.state.receives = true → SlotLedger on upd 0 s) (hrecv : (flushStream fits w s).1.state.receives = true)
    (hupd : upd' s.id = upd s.id + increments s.id (flushStream fits w s).2) :
    SlotLedger on upd' 0 (flushStream fits w s).1 := by
  unfold flushStream at hrecv hupd ⊢
  split_ifs at hrecv hupd ⊢ with hcredit hstate
  · obtain ⟨hwindow, hledger, htotal⟩ := h hstate
    have hinit : (kDefaultInitialWindowSize : Int) = 65535 := rfl
    have hmod : s.recvCredit % 2 ^ 31 = s.recvCredit := Nat.mod_eq_of_lt (by omega)
    have hinc : increments s.id [writeWindowUpdate s.id s.recvCredit] = s.recvCredit := by
      rw [increments_cons, increment_update, if_pos rfl, hmod, increments_nil, Nat.add_zero]
    dsimp only at hupd ⊢
    refine ⟨?_, ?_, ?_⟩
    · dsimp only
      omega
    · dsimp only
      omega
    · dsimp only
      omega
  · exact absurd hrecv hstate
  · obtain ⟨hwindow, hledger, htotal⟩ := h hrecv
    refine ⟨hwindow, ?_, htotal⟩
    rw [hupd, increments_nil, Nat.add_zero]
    exact hledger

lemma LedgerInv.flush (h : LedgerInv consumed on upd i 0 c) (hcredit : CreditInv 0 c) (hids : IdsInv c) (fits : Room) :
    LedgerInv consumed on (fun id => upd id + increments id (flushCredits fits c).2) i 0 (flushCredits fits c).1 := by
  have hconn : LedgerInv consumed on (fun id => upd id + increments id (flushConn fits c).2) i 0
      (flushConn fits c).1 := by
    unfold flushConn
    split
    · have hle := hcredit.held_le
      unfold kDefaultInitialWindowSize at hle
      have hmod : c.connRecvCredit % 2 ^ 31 = c.connRecvCredit := Nat.mod_eq_of_lt (by omega)
      have hbefore := h.conn
      refine h.congr hids rfl (fun id hid => ⟨rfl, ?_⟩) ?_ rfl rfl
      · rw [increments_cons, increment_update, if_neg hid.symm, increments_nil, Nat.add_zero]
      · dsimp only
        rw [increments_cons, increment_update, if_pos rfl, hmod, increments_nil]
        omega
    · simpa using h
  have hids' : IdsInv (flushConn fits c).1 := by
    refine hids.congr ?_
    unfold flushConn
    split
    · exact ⟨rfl, rfl⟩
    · exact .refl c
  unfold flushCredits
  generalize flushConn fits c = r at hconn hids' ⊢
  obtain ⟨c₁, o₁⟩ := r
  have hnew : ∀ id, id ∉ c₁.ids → increments id (o₁ ++ (flushStreams fits (outLen o₁) c₁.streams).2) =
      increments id o₁ := by
    intro id hid
    rw [increments_append, increments_flushStreams hid, Nat.add_zero]
  refine ⟨?_, ?_, ?_, hconn.initial⟩
  · rw [hnew 0 fun hmem => absurd (hids'.range 0 hmem).1 (Nat.lt_irrefl 0)]
    exact hconn.conn
  · intro j s' hs' hrecv
    obtain ⟨s, w, hs, rfl, hinc⟩ := flushStreams_slot hids'.distinct hs'
    rw [ite_self]
    refine SlotLedger.flush (fun id => upd id + increments id o₁) _ (fun hrecv => ?_) hrecv ?_
    · have hslot := hconn.slot j s hs hrecv
      rwa [ite_self] at hslot
    · rw [increments_append, hinc, Nat.add_assoc]
  · intro id hid
    rw [hnew id fun hmem => absurd (hids'.range id hmem).2 (Nat.not_le.mpr hid)]
    exact hconn.fresh id hid

/-! ## Runs -/

lemma increments_settings {id out} (h : ∀ f ∈ out, ∃ payload, f = .settings payload) : increments id out = 0 := by
  refine List.sum_eq_zero fun n hn => ?_
  obtain ⟨f, hf, rfl⟩ := List.mem_map.mp hn
  obtain ⟨payload, rfl⟩ := h f hf
  rfl

lemma LedgerInv.serve {a} (h : LedgerInv consumed on upd i 0 c) (hs : Serve c a c') :
    LedgerInv consumed on upd i 0 c' := by
  cases hs with
  | consume id len => exact h.consume id len
  | «open» ho => exact h.shifts (.single (openStream_shift ho))
  | pump cap =>
    obtain ⟨status, -, heq⟩ | ⟨body, j, n, -, -, -, -, -, -, -, -, -, -, heq⟩ := h2PumpOutbound_cases c cap
    · rw [heq]
      exact h
    · rw [heq]
      refine h.slotwise (R := fun s s' => ∃ w, s' = { s with sendWindow := w })
        (forall₂_modify (fun s => ⟨s.sendWindow, rfl⟩) fun s _ => ⟨_, rfl⟩) ?_ rfl rfl rfl
      rintro k s s' ⟨w, rfl⟩ hslot hrecv
      obtain ⟨hwindow, hledger, htotal⟩ := hslot hrecv
      exact ⟨hwindow, hledger, htotal⟩
  | other hs => exact h.served hs

structure RecvInv (cb : Callbacks σ) (t : List (Entry σ ServeAct)) (c : Conn σ) : Prop where
  credit : CreditInv 0 c
  ids : IdsInv c
  ledger : LedgerInv (dataConsumed t) (dataConsumedOn · t) (updatesWritten cb · t) 0 0 c

lemma RecvInv.step (hcb : cb.Attends) {t s s' a}
    (hroomy : ∀ x, handled (s, a) = some x → x.Roomy) (hinv : RecvInv cb t s.conn) (h : EngineStep cb Serve s a s') :
    RecvInv cb (t ++ [(s, a)]) s'.conn := by
  have hconsumed : dataConsumed (t ++ [(s, a)]) = dataConsumed t + dataOctets (s, a) := by
    simp [dataConsumed]
  have hon : (dataConsumedOn · (t ++ [(s, a)])) = fun id => dataConsumedOn id t + dataOctetsOn id (s, a) := by
    funext id
    simp [dataConsumedOn]
  have hupd : (updatesWritten cb · (t ++ [(s, a)])) =
      fun id => updatesWritten cb id t + increments id (written cb (s, a)) := by
    funext id
    simp [updatesWritten]
  cases s with
  | idle c =>
    obtain ⟨cap, input, seen, sent, rfl, hconn, hout⟩ | ⟨l, rfl, hserve⟩ := idle_cases h
    · refine ⟨hinv.credit.step hcb h, ?_, ?_⟩
      · rw [hconn]
        exact hinv.ids.congr ⟨rfl, rfl⟩
      · have hquiet : ∀ id, increments id (written cb ((.idle c, .call cap input) : Entry σ ServeAct)) = 0 :=
          fun id => increments_settings hout
        rw [hconsumed, hon, hupd, hconn]
        simp only [hquiet]
        exact ⟨hinv.ledger.conn, hinv.ledger.slot, hinv.ledger.fresh, hinv.ledger.initial⟩
    · refine ⟨hinv.credit.step hcb h, hinv.ids.serve hserve, ?_⟩
      rw [hconsumed, hon, hupd]
      exact hinv.ledger.serve hserve
  | busy cap p =>
    obtain ⟨rfl, hcases⟩ := turn_cases h
    have hids := hinv.ids.congr (.flush (room cap (outLen p.out)) p.conn)
    have hcredit := hinv.credit.flush (room cap (outLen p.out))
    have hflush := hinv.ledger.flush hinv.credit hinv.ids (room cap (outLen p.out))
    obtain ⟨hnone, hconn⟩ | ⟨x, hsome, hx, hlen, hok, hconn⟩ := hcases
    · refine ⟨hinv.credit.step hcb h, hconn ▸ hids, ?_⟩
      rw [hconsumed, hon, hupd, hconn]
      simp only [dataOctets, dataOctetsOn, handled, written, hnone, Option.elim_none, List.append_nil, Nat.add_zero]
      exact hflush
    · have hids' : IdsInv x.conn := by
        rw [hx]
        exact hids
      have hcredit' : CreditInv 0 x.conn := by
        rw [hx]
        exact hcredit
      have hledger' : LedgerInv (dataConsumed t) (dataConsumedOn · t)
          (fun id => updatesWritten cb id t + increments id (flushCredits (room cap (outLen p.out)) p.conn).2) 0 0
          x.conn := by
        rw [hx]
        exact hflush
      refine ⟨hinv.credit.step hcb h, ?_, ?_⟩
      · rw [hconn]
        exact hids'.frame hcb hlen hok
      · rw [hconsumed, hon, hupd, hconn]
        simp only [dataOctets, dataOctetsOn, handled, written, hsome, Option.elim_some, increments_append,
          ← Nat.add_assoc]
        exact hledger'.frame hcb hlen hok (hroomy x hsome) hcredit' hids'

lemma RecvInv.init (decBuf encBuf : Str) (app : σ) : RecvInv cb [] (Conn.init decBuf encBuf app) where
  credit := CreditInv.init decBuf encBuf app
  ids := IdsInv.init decBuf encBuf app
  ledger := ⟨rfl, (fun j s hs => by cases hs), fun _ _ => ⟨rfl, rfl⟩, rfl⟩

def strayInput : Str := kClientPreface ++ FrameHeader.bytes ⟨1, .data, 0, 1⟩ ++ [7]

def strayStart (cap : Option Nat) : Progress Unit :=
  greet cap (Conn.init [] [] ()) (FrameHeader.bytes ⟨1, .data, 0, 1⟩ ++ [7])

def strayEnd (cap : Option Nat) : Progress Unit :=
  (((strayStart cap).flush cap).handle (fun _ => none) cap ⟨1, .data, 0, 1⟩ [7] []).1

/-- The call of `process` on this input, turn by turn. -/
def strayTrace (cap : Option Nat) : List (Entry Unit ServeAct) :=
  [(.idle (Conn.init [] [] ()), .call cap strayInput), (.busy cap (strayStart cap), .turn),
    (.busy cap (strayEnd cap), .turn)]

end Rut.Http2
