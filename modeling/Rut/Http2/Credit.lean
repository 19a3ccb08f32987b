import Rut.Http2.Streams

/-!
# Conservation of receive credit

Every octet of the initial window of the connection is in one of three places: the peer may still send it, it has been
delivered and awaits `consume_data`, or it waits to be announced to the peer again. While a DATA frame is handled some
of its octets are in none of them; the invariant counts those apart.
-/

namespace Rut.Http2

variable {σ : Type} {cb : Callbacks σ} {fits : Room} {c c' : Conn σ} {k : Nat}

def Conn.held (c : Conn σ) : Nat := (c.streams.map (·.recvUnconsumed)).sum

def Conn.recvTotal (c : Conn σ) : Int := c.connRecvWindow + c.connRecvCredit + c.held

/-- All credit is there but for `k` octets of the frame that is handled. -/
structure CreditInv (k : Nat) (c : Conn σ) : Prop where
  total : c.recvTotal + k = kDefaultInitialWindowSize
  window : 0 ≤ c.connRecvWindow

/-! ## Sums over the slots -/

lemma sum_map_modify {ss : List Stream} {i s} (h : ss[i]? = some s) (f : Stream → Stream)
    (g : Stream → Nat) : ((ss.modify i f).map g).sum + g s = (ss.map g).sum + g (f s) := by
  induction ss generalizing i with
  | nil => cases h
  | cons s' ss ih =>
    cases i with
    | zero =>
      cases h
      simp only [List.modify_zero_cons, List.map_cons, List.sum_cons]
      omega
    | succ i =>
      have hi := ih (by simpa using h)
      simp only [List.modify_succ_cons, List.map_cons, List.sum_cons]
      omega

lemma held_congr {ss : List Stream} (h : List.Forall₂ (fun s s' => s'.recvUnconsumed = s.recvUnconsumed) c.streams ss) :
    (ss.map (·.recvUnconsumed)).sum = c.held :=
  congrArg List.sum (map_eq_of_forall₂ h)

lemma held_modify {f : Stream → Stream} (hf : ∀ s, (f s).recvUnconsumed = s.recvUnconsumed) (i : Nat) :
    (c.modifyStream i f).held = c.held :=
  held_congr (forall₂_modify (R := fun s s' => s'.recvUnconsumed = s.recvUnconsumed) (fun _ => rfl) fun s _ => hf s)

lemma recvUnconsumed_le_held {i : Nat} (h : c.streams[i]? = some (c.stream i)) : (c.stream i).recvUnconsumed ≤ c.held :=
  List.le_sum_of_mem (List.mem_map_of_mem (List.mem_of_getElem? h))

/-! ## Steps of the serving layer -/

namespace CreditInv

lemma held_le (h : CreditInv k c) : c.connRecvCredit + c.held + k ≤ kDefaultInitialWindowSize := by
  have htotal := h.total
  have hwindow := h.window
  unfold Conn.recvTotal at htotal
  omega

lemma congr (h : CreditInv k c) (hw : c'.connRecvWindow = c.connRecvWindow)
    (hc : c'.connRecvCredit = c.connRecvCredit) (hh : c'.held = c.held) : CreditInv k c' where
  total := by
    rw [Conn.recvTotal, hw, hc, hh]
    exact h.total
  window := by
    rw [hw]
    exact h.window

lemma served {busy : Option Nat} (h : CreditInv k c) (hs : c.Served busy c') : CreditInv k c' :=
  h.congr hs.connRecvWindow hs.connRecvCredit (held_congr (hs.streams.imp fun _ _ hs => hs.recvUnconsumed))

lemma add32_credit (h : CreditInv k c) {n} (hn : n ≤ c.held + k) : add32 c.connRecvCredit n = c.connRecvCredit + n := by
  have hle := h.held_le
  unfold kDefaultInitialWindowSize at hle
  unfold add32
  omega

/-- `consume_data` moves octets from the stream to the credit of the connection. -/
lemma consume (h : CreditInv k c) (id len : Nat) : CreditInv k (c.consumeData id len).2 := by
  obtain heq | ⟨i, -, hslot, hle, heq⟩ := consumeData_cases c id len
  · rw [heq]
    exact h
  · rw [heq]
    have hheld := recvUnconsumed_le_held hslot
    have hsum := sum_map_modify hslot
      (fun s => { s with recvUnconsumed := s.recvUnconsumed - len, recvCredit := add32 s.recvCredit len })
      (·.recvUnconsumed)
    dsimp only at hsum
    have htotal := h.total
    unfold Conn.recvTotal Conn.held at htotal
    refine ⟨?_, h.window⟩
    unfold Conn.recvTotal Conn.held Conn.modifyStream
    dsimp only
    rw [h.add32_credit (by omega)]
    omega

lemma attend {busy} (h : CreditInv k c) (ha : Attend busy c c') : CreditInv k c' := by
  cases ha with
  | consume id len => exact h.consume id len
  | other hs => exact h.served hs

lemma attends {busy} (h : CreditInv k c) (ha : Relation.ReflTransGen (Attend busy) c c') : CreditInv k c' := by
  induction ha with
  | refl => exact h
  | tail _ ha ih => exact ih.attend ha

lemma alloc {id i} (h : CreditInv k c) (ha : c.allocStream id = some (i, c')) : CreditInv k c' := by
  obtain ⟨ss, rfl, ⟨s, hs, hreuse, rfl⟩ | ⟨-, rfl⟩⟩ := allocStream_spec ha
  · refine h.congr rfl rfl ?_
    have hsum := sum_map_modify hs (fun _ => c.freshStream id) (·.recvUnconsumed)
    rw [List.modify_eq_set_getElem?, hs] at hsum
    have hfree : s.recvUnconsumed = 0 := by
      unfold Conn.reusable at hreuse
      rw [Bool.and_eq_true, beq_iff_eq, beq_iff_eq] at hreuse
      exact hreuse.2
    have hfresh : (c.freshStream id).recvUnconsumed = 0 := rfl
    rw [hfree, hfresh] at hsum
    exact hsum
  · refine h.congr rfl rfl ?_
    unfold Conn.held
    rw [List.map_append, List.sum_append]
    rfl

lemma shift (h : CreditInv k c) (hs : Shift c c') : CreditInv k c' := by
  cases hs with
  | consume id len => exact h.consume id len
  | served hs => exact h.served hs
  | alloc hid ha => exact (h.alloc ha).congr rfl rfl rfl
  | skip hid => exact h.congr rfl rfl rfl

lemma shifts (h : CreditInv k c) (hs : Shifts c c') : CreditInv k c' := by
  induction hs with
  | refl => exact h
  | tail _ hs ih => exact ih.shift hs

end CreditInv

/-! ## Frames -/

namespace CreditInv

lemma hold (h : CreditInv k c) (i : Nat) {n} (hn : n ≤ k) :
    CreditInv (k - if (c.stream i).manualWindow then n else 0) (c.holdData i n) := by
  unfold Conn.holdData
  by_cases hmanual : (c.stream i).manualWindow = true
  · rw [if_pos hmanual, if_pos hmanual]
    have hslot := getElem?_of_manual hmanual
    have hsum := sum_map_modify hslot (fun s => { s with recvUnconsumed := add32 s.recvUnconsumed n }) (·.recvUnconsumed)
    dsimp only at hsum
    have hle := h.held_le
    have htotal := h.total
    unfold Conn.recvTotal Conn.held at htotal
    unfold Conn.held kDefaultInitialWindowSize at hle
    have hmem := recvUnconsumed_le_held hslot
    unfold Conn.held at hmem
    have hnowrap : add32 (c.stream i).recvUnconsumed n = (c.stream i).recvUnconsumed + n := by
      unfold add32
      omega
    refine ⟨?_, h.window⟩
    unfold Conn.recvTotal Conn.held Conn.modifyStream
    dsimp only
    omega
  · rw [if_neg hmanual, if_neg hmanual]
    exact h

lemma settle {h} {p : Str} {i} {held : Bool} (hinv : CreditInv (h.length - if held then p.length else 0) c)
    (hflag : p ≠ [] → (c.stream i).manualWindow = held) : CreditInv 0 (settleData fits c h p i).conn := by
  have hend := endData_served (some (c.stream i).id) c i (h.has kEndStream)
  have hflag' := (hend.stream i).manualWindow rfl
  have hinv' := hinv.served hend
  unfold settleData
  dsimp only
  generalize c.endData i (h.has kEndStream) = d at hinv' hflag' ⊢
  have hheld : p.length = 0 ∨ (d.stream i).manualWindow = held := by
    by_cases hp : p = []
    · exact .inl (List.length_eq_zero_iff.mpr hp)
    · exact .inr (hflag'.trans (hflag hp))
  have htotal := hinv'.total
  have hwindow := hinv'.window
  unfold Conn.recvTotal at htotal
  by_cases hmanual : (d.stream i).manualWindow = true
  · rw [if_pos hmanual]
    have hk : (h.length - if held then p.length else 0) = h.length - p.length := by
      rcases hheld with hheld | hheld
      · rw [hheld, ite_self]
      · rw [← hheld, hmanual, if_pos rfl]
    rw [hk] at hinv' htotal
    have hh : (d.creditPadding i (h.length - p.length)).held = d.held :=
      held_modify (fun _ => by rfl) i
    refine ⟨?_, hwindow⟩
    unfold Conn.recvTotal
    rw [hh]
    dsimp only [Conn.creditPadding, Conn.modifyStream]
    rw [hinv'.add32_credit (Nat.le_add_left _ _)]
    omega
  · rw [if_neg hmanual]
    have hk : (h.length - if held then p.length else 0) = h.length := by
      rcases hheld with hheld | hheld
      · rw [hheld, ite_self, Nat.sub_zero]
      · rw [← hheld, if_neg hmanual, Nat.sub_zero]
    have hh : (d.replenish i h.length).held = d.held :=
      held_modify (fun _ => by rfl) i
    refine ⟨?_, ?_⟩
    · unfold Conn.recvTotal
      rw [hh]
      dsimp only [Conn.replenish, Conn.modifyStream]
      omega
    · dsimp only [Conn.replenish, Conn.modifyStream]
      omega

lemma receive {i n : Nat} (h : CreditInv 0 c) (hn : (n : Int) ≤ c.connRecvWindow) : CreditInv n (c.receive i n) where
  total := by
    have htotal := h.total
    have hh : (c.receive i n).held = c.held :=
      held_modify (fun _ => by rfl) i
    unfold Conn.recvTotal at htotal ⊢
    rw [hh]
    dsimp only [Conn.receive, Conn.modifyStream]
    omega
  window := by
    dsimp only [Conn.receive, Conn.modifyStream]
    omega

lemma deliver (hcb : cb.Attends) {h p i} (hid : (c.stream i).id = h.streamId)
    (hlen : p.length ≤ h.length) (hinv : CreditInv h.length c) : CreditInv 0 (deliverData cb fits c h p i).conn := by
  have hcall := hcb (.data h.streamId p (h.has kEndStream)) (c.holdData i p.length)
  refine settle ((hinv.hold i hlen).attends hcall) fun hp => ?_
  have hbusy : (Call.data h.streamId p (h.has kEndStream)).delivers = some h.streamId := if_neg hp
  have hkeep := (attends_stream hcall i).2
  rw [holdData_stream (·.id) fun _ _ => rfl, hid, hbusy] at hkeep
  rw [hkeep rfl]
  exact holdData_stream (·.manualWindow) (fun _ _ => rfl) i p.length

lemma data (hcb : cb.Attends) {h payload} (hlen : payload.length = h.length)
    (hok : (handleData cb fits c h payload).verdict = .ok) (hinv : CreditInv 0 c) :
    CreditInv 0 (handleData cb fits c h payload).conn := by
  obtain ⟨-, hwindow, ⟨-, heq⟩ | ⟨i, p, hslot, -, hp, ⟨-, hconn, -⟩ | ⟨-, heq⟩⟩⟩ := handleData_cases hlen hok
  · rw [heq]
    exact hinv
  · rw [hconn]
    have hreset : Moves cb (c.receive i h.length) _ := Moves.resetAt _ h.streamId i .flowControlError
    have hinv₁ := (hinv.receive hwindow).shifts (hreset.shifts hcb)
    generalize (c.receive i h.length).resetAt cb h.streamId i .flowControlError = c₁ at hinv₁ ⊢
    have htotal := hinv₁.total
    unfold Conn.recvTotal at htotal
    refine ⟨?_, hinv₁.window⟩
    have hh : ({ c₁ with connRecvCredit := add32 c₁.connRecvCredit h.length } : Conn σ).held = c₁.held := rfl
    unfold Conn.recvTotal
    rw [hh]
    dsimp only
    rw [hinv₁.add32_credit (Nat.le_add_left _ _)]
    omega
  · rw [heq]
    refine deliver hcb ?_ hp (hinv.receive hwindow)
    obtain ⟨hfind, -⟩ := Option.filter_eq_some_iff.mp hslot
    rw [← (findStream_id hfind).1]
    exact stream_modify (c := { c with connRecvWindow := c.connRecvWindow - h.length }) (·.id) (fun _ => by rfl) i i

lemma settings {h payload} (hinv : CreditInv k c) : CreditInv k (handleSettings fits c h payload).conn := by
  obtain hconn | ⟨settings, -, -, -, hconn⟩ := handleSettings_cases fits c h payload
  · rw [hconn]
    exact hinv
  · rw [hconn]
    refine hinv.congr rfl rfl ?_
    unfold Conn.held Conn.adopt
    rw [List.map_map]
    congr 2
    funext s
    dsimp only [Function.comp]
    split_ifs <;> rfl

lemma windowUpdate (hcb : cb.Attends) {h payload}
    (hok : (handleWindowUpdate cb fits c h payload).verdict = .ok) (hinv : CreditInv k c) :
    CreditInv k (handleWindowUpdate cb fits c h payload).conn := by
  obtain ⟨-, -, hconn⟩ | ⟨-, ⟨-, hconn⟩ | ⟨i, -, ⟨-, -, hconn⟩ | ⟨-, hmoves⟩⟩⟩ := handleWindowUpdate_cases hok
  · rw [hconn]
    exact hinv.congr rfl rfl rfl
  · rw [hconn]
    exact hinv
  · rw [hconn]
    exact hinv.congr rfl rfl (held_modify (fun _ => by rfl) i)
  · exact hinv.shifts (hmoves.shifts hcb)

lemma frame (hcb : cb.Attends) {h payload} (hlen : payload.length = h.length)
    (hok : (handleFrame cb fits c h payload).verdict = .ok) (hinv : CreditInv 0 c) :
    CreditInv 0 (handleFrame cb fits c h payload).conn := by
  by_cases hflow : h.type.isFlow = true
  · unfold handleFrame at hok ⊢
    split_ifs at hok ⊢
    cases ht : h.type with
    | settings => exact hinv.settings
    | data =>
      rw [ht] at hok
      exact hinv.data hcb hlen hok
    | windowUpdate =>
      rw [ht] at hok
      exact hinv.windowUpdate hcb hok
    | _ =>
      rw [ht] at hflow
      cases hflow
  · exact hinv.shifts (handleFrame_shifts hcb payload (Bool.eq_false_of_not_eq_true hflow))

end CreditInv

/-! ## Runs -/

lemma flushStream_unconsumed (fits : Room) (w : Nat) (s : Stream) :
    (flushStream fits w s).1.recvUnconsumed = s.recvUnconsumed := by
  unfold flushStream
  split_ifs <;> rfl

namespace CreditInv

lemma flush (h : CreditInv k c) (fits : Room) : CreditInv k (flushCredits fits c).1 := by
  have hconn : CreditInv k (flushConn fits c).1 := by
    unfold flushConn
    split
    · have htotal := h.total
      have hwindow := h.window
      unfold Conn.recvTotal at htotal
      refine ⟨?_, ?_⟩
      · unfold Conn.recvTotal
        have hh : ({ c with connRecvWindow := c.connRecvWindow + c.connRecvCredit, connRecvCredit := 0 } : Conn σ).held
            = c.held := rfl
        dsimp only
        omega
      · dsimp only
        omega
    · exact h
  refine hconn.congr rfl rfl (held_congr ?_)
  refine (flushStreams_forall₂ fits _ _).imp ?_
  rintro s s' ⟨w, rfl⟩
  exact flushStream_unconsumed fits w s

lemma serve {a} (h : CreditInv k c) (hs : Serve c a c') : CreditInv k c' := by
  cases hs with
  | consume id len => exact h.consume id len
  | «open» ho => exact h.shift (openStream_shift ho)
  | pump cap =>
    obtain ⟨status, -, heq⟩ | ⟨body, i, n, -, -, -, -, -, -, -, -, -, -, heq⟩ := h2PumpOutbound_cases c cap
    · rw [heq]
      exact h
    · rw [heq]
      exact h.congr rfl rfl (held_modify (fun _ => by rfl) i)
  | other hs => exact h.served hs

lemma step (hcb : cb.Attends) {s s' a} (h : EngineStep cb Serve s a s')
    (hinv : CreditInv 0 s.conn) : CreditInv 0 s'.conn := by
  cases s with
  | idle c =>
    obtain ⟨cap, input, seen, sent, -, hconn, -⟩ | ⟨l, -, hserve⟩ := idle_cases h
    · rw [hconn]
      exact hinv.congr rfl rfl rfl
    · exact hinv.serve hserve
  | busy cap p =>
    have hflush := hinv.flush (room cap (outLen p.out))
    obtain ⟨-, ⟨-, hconn⟩ | ⟨x, -, hx, hlen, hok, hconn⟩⟩ := turn_cases h
    · rw [hconn]
      exact hflush
    · rw [hconn]
      have hbefore : CreditInv 0 x.conn := by
        rw [hx]
        exact hflush
      exact hbefore.frame hcb hlen hok

lemma run (hcb : cb.Attends) {s t} (hinv : CreditInv 0 c) (h : EngineRun cb Serve c t s) : CreditInv 0 s.conn := by
  induction h with
  | nil => exact hinv
  | snoc _ hs ih => exact ih.step hcb hs

lemma init (decBuf encBuf : Str) (app : σ) : CreditInv 0 (Conn.init decBuf encBuf app) :=
  ⟨rfl, Int.natCast_nonneg _⟩

lemma initClient (decBuf encBuf : Str) (app : σ) : CreditInv 0 (Conn.initClient decBuf encBuf app) :=
  (init decBuf encBuf app).congr rfl rfl rfl

end CreditInv

/-- Conservation of receive credit: in every run whose callbacks touch flow control through `consume_data` only and
leave the flag of a stream alone while it is given octets, the window, the pending credit and the octets that are held
add up to the initial window after every frame and every action of the serving layer; `consume_data` credits no more
than is held. -/
theorem credit_conserved (hcb : cb.Attends) {c₀ : Conn σ} {decBuf encBuf : Str} {app : σ}
    (hinit : c₀ = Conn.init decBuf encBuf app ∨ c₀ = Conn.initClient decBuf encBuf app) {s : Engine σ}
    {t : List (Entry σ ServeAct)} (h : EngineRun cb Serve c₀ t s) :
    s.conn.recvTotal = 65535 ∧
    (∀ id len, (s.conn.consumeData id len).2.recvTotal = 65535 ∧
      ((s.conn.consumeData id len).1 = false ∧ (s.conn.consumeData id len).2 = s.conn ∨
        ∃ i, s.conn.lastSlot id = some i ∧ len ≤ (s.conn.stream i).recvUnconsumed ∧
          ((s.conn.consumeData id len).2.stream i).recvUnconsumed = (s.conn.stream i).recvUnconsumed - len ∧
          (s.conn.consumeData id len).2.connRecvCredit = s.conn.connRecvCredit + len)) ∧
    ∀ (c : Conn σ) (id len : Nat), 0 ≤ c.connRecvWindow → c.recvTotal ≤ 65535 →
      (c.consumeData id len).2.recvTotal = c.recvTotal := by
  have hinv : CreditInv 0 s.conn := by
    rcases hinit with rfl | rfl
    · exact (CreditInv.init _ _ _).run hcb h
    · exact (CreditInv.initClient _ _ _).run hcb h
  refine ⟨(add_zero _).symm.trans hinv.total, fun id len => ⟨(add_zero _).symm.trans (hinv.consume id len).total, ?_⟩, ?_⟩
  · obtain heq | ⟨i, hi, hslot, hle, heq⟩ := consumeData_cases s.conn id len
    · rw [heq]
      exact .inl ⟨rfl, rfl⟩
    · have hheld := recvUnconsumed_le_held hslot
      rw [heq]
      refine .inr ⟨i, hi, hle, ?_, hinv.add32_credit (by omega)⟩
      dsimp only [Conn.stream, Conn.modifyStream]
      rw [List.getD_eq_getElem?_getD, List.getElem?_modify, hslot]
      simp [Conn.stream]
  · intro c id len hwindow htotal
    obtain ⟨k, hk⟩ := Int.le.dest htotal
    have hinv' : CreditInv k c := ⟨hk, hwindow⟩
    have hbefore := hinv'.total
    have hafter := (hinv'.consume id len).total
    omega

/-- A serving layer that takes over the window of every stream, consumes octets as they are delivered, and notes the
sum after each `consume_data`. -/
def eagerCallbacks : Callbacks (Option Int)
  | .headers id _ _ => some fun c =>
    (c.findStream id).elim c fun i => c.modifyStream i fun s => { s with manualWindow := true }
  | .data id octets _ => some fun c =>
    let c := (c.consumeData id octets.length).2
    { c with app := some c.recvTotal }
  | _ => none

lemma eagerCallbacks_attends : eagerCallbacks.Attends := by
  intro call c
  cases call with
  | headers id fields endStream =>
    refine .single (.other ?_)
    have hflag : c.Served none ((c.findStream id).elim c fun i => c.modifyStream i fun s =>
        { s with manualWindow := true }) := by
      cases c.findStream id with
      | none => exact .of_streams (List.forall₂_refl c.streams)
      | some i => exact .modify fun s _ => { (Stream.Served.refl s : s.Served none s) with manualWindow := fun h => by cases h }
    exact { hflag with }
  | data id octets endStream =>
    refine .tail (.single (.consume c id octets.length)) (.other ?_)
    exact { Conn.Served.of_streams (List.forall₂_refl (c.consumeData id octets.length).2.streams) with }
  | reset id code => exact .refl
  | trailers id fields => exact .refl

/-- The preface, a request head on stream 1, and DATA on it: two octets between a pad length and two octets of padding. -/
def paddedInput : Str :=
  kClientPreface ++ FrameHeader.bytes ⟨1, .headers, kEndHeaders, 1⟩ ++ [0x82] ++
    FrameHeader.bytes ⟨5, .data, kPadded, 1⟩ ++ [2, 7, 7, 0, 0]

lemma paddedInput_process :
    (process eagerCallbacks (some 1000) (Conn.init [] [] none) paddedInput).map (fun p => (p.status, p.conn.app)) =
      some (.open, some 65532) := by
  decide

/-- Where a callback consumes the octets of a padded frame, the sum lacks the padding and its length until the frame is
handled. -/
theorem paddedInput_consumed : eagerCallbacks.Attends ∧
    ∃ p, process eagerCallbacks (some 1000) (Conn.init [] [] none) paddedInput = some p ∧ p.status = .open ∧
      p.conn.app = some 65532 := by
  refine ⟨eagerCallbacks_attends, ?_⟩
  obtain ⟨p, hp, heq⟩ := Option.map_eq_some_iff.mp paddedInput_process
  exact ⟨p, hp, congrArg Prod.fst heq, congrArg Prod.snd heq⟩

/-- Once the frame is handled the sum is complete. -/
theorem paddedInput_conserved :
    ∃ p, process eagerCallbacks (some 1000) (Conn.init [] [] none) paddedInput = some p ∧
      p.conn.recvTotal = 65535 := by
  obtain ⟨p, hp, heq⟩ := Option.map_eq_some_iff.mp paddedInput_process
  have ht := (process_run Serve hp (congrArg Prod.fst heq)).1
  exact ⟨p, hp, (credit_conserved eagerCallbacks_attends (.inl rfl) ht).1⟩

end Rut.Http2
