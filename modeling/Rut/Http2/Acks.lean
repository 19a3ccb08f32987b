import Rut.Http2.Replies

/-!
# Acknowledgements

Which acknowledgements a run writes. Outside of clients and gRPC the engine does not wait for room before it handles
SETTINGS or PING: it consumes the frame and drops the acknowledgement that does not fit.
-/

namespace Rut.Http2

variable {σ L : Type} {cb : Callbacks σ} {serve : Conn σ → L → Conn σ → Prop} {fits : Room} {c : Conn σ}

def OutFrame.isAck : OutFrame → Bool
  | .settingsAck | .pingAck _ => true
  | _ => false

def Handled.owes (x : Handled σ) : List OutFrame :=
  if x.header.has kAck then []
  else
    match x.header.type with
    | .settings => [.settingsAck]
    | .ping => [.pingAck x.payload]
    | _ => []

/-- There is room for it behind what the call of `process` has written so far. -/
def Handled.RoomForAck (x : Handled σ) : Prop := ∀ f ∈ x.owes, x.fits 0 f.bytes.length = true

/-- The acknowledgements a run owes, in the order in which their frames are handled. -/
def acksOwed (t : List (Entry σ L)) : List OutFrame := (t.filterMap handled).flatMap Handled.owes

def acksWritten (cb : Callbacks σ) (t : List (Entry σ L)) : List OutFrame :=
  (t.flatMap (written cb)).filter OutFrame.isAck

/-! ## One frame -/

def Unacked (out : List OutFrame) : Prop := ∀ f ∈ out, f.isAck = false

namespace Unacked

lemma nil : Unacked [] := fun _ hf => by cases hf

lemma windowUpdate (id n : Nat) : Unacked [writeWindowUpdate id n] := fun f hf => by
  rw [List.mem_singleton.mp hf]
  rfl

lemma resets {r : Reply σ} (h : r.Resets) : Unacked r.out := fun f hf => by
  obtain ⟨id, code, rfl⟩ := h f hf
  rfl

lemma append {o₁ o₂ : List OutFrame} (h₁ : Unacked o₁) (h₂ : Unacked o₂) : Unacked (o₁ ++ o₂) := fun f hf => by
  rcases List.mem_append.mp hf with hf | hf
  · exact h₁ f hf
  · exact h₂ f hf

lemma ite {p} [Decidable p] {o} (h : Unacked o) : Unacked (if p then o else []) := by
  split
  · exact h
  · exact nil

lemma filter {o : List OutFrame} (h : Unacked o) : o.filter OutFrame.isAck = [] :=
  List.filter_eq_nil_iff.mpr fun f hf => by simp [h f hf]

lemma flushConn (fits : Room) (c : Conn σ) : Unacked (flushConn fits c).2 := by
  unfold Http2.flushConn
  split
  · exact windowUpdate _ _
  · exact nil

lemma flushStream (fits : Room) (w : Nat) (s : Stream) : Unacked (flushStream fits w s).2 := by
  unfold Http2.flushStream
  split_ifs
  · exact windowUpdate _ _
  · exact nil
  · exact nil

lemma flushStreams (fits : Room) (w : Nat) (ss : List Stream) : Unacked (flushStreams fits w ss).2 := by
  induction ss generalizing w with
  | nil => exact nil
  | cons s ss ih => exact append (flushStream fits w s) (ih _)

lemma flushCredits (fits : Room) (c : Conn σ) : Unacked (flushCredits fits c).2 :=
  append (flushConn fits c) (flushStreams fits _ _)

lemma handleData (c : Conn σ) (h : FrameHeader) (payload : Str) : Unacked (handleData cb fits c h payload).out := by
  unfold Http2.handleData
  split
  · exact nil
  dsimp only
  split
  · exact nil
  split
  · exact append (ite (resets (r := { conn := c, out := [writeRstStream _ _] }) (.single _ _ rfl))) (ite (windowUpdate _ _))
  split
  · exact nil
  split
  · exact nil
  split
  · exact resets (Reply.Resets.resetKnownStream _ _ _)
  refine append (resets (Reply.Resets.invoke _ _)) ?_
  unfold settleData
  dsimp only
  split
  · exact nil
  · unfold replenishOut
    split
    · exact nil
    · exact append (ite (windowUpdate _ _)) (ite (windowUpdate _ _))

end Unacked

lemma Handled.reply_acks {x : Handled σ} (hlen : x.payload.length = x.header.length) (hok : (x.reply cb).verdict = .ok) :
    (x.RoomForAck → (x.reply cb).out.filter OutFrame.isAck = x.owes) ∧
      (¬ x.RoomForAck → (x.reply cb).out.filter OutFrame.isAck = [] ∧ x.owes ≠ []) := by
  -- A frame that asks for nothing is answered without an acknowledgement.
  have hnone : x.owes = [] → Unacked (x.reply cb).out →
      (x.RoomForAck → (x.reply cb).out.filter OutFrame.isAck = x.owes) ∧
      (¬ x.RoomForAck → (x.reply cb).out.filter OutFrame.isAck = [] ∧ x.owes ≠ []) := by
    intro howes hun
    refine ⟨fun _ => hun.filter.trans howes.symm, fun hroom => absurd ?_ hroom⟩
    intro f hf
    rw [howes] at hf
    cases hf
  -- One that asks for an acknowledgement is answered with it if there is room.
  have hone : ∀ f, f.isAck = true → x.owes = [f] →
      (x.reply cb).out = (if x.fits 0 f.bytes.length = true then [f] else []) →
      (x.RoomForAck → (x.reply cb).out.filter OutFrame.isAck = x.owes) ∧
      (¬ x.RoomForAck → (x.reply cb).out.filter OutFrame.isAck = [] ∧ x.owes ≠ []) := by
    intro f hack howes hout
    have hroom : x.RoomForAck ↔ x.fits 0 f.bytes.length = true := by
      rw [Handled.RoomForAck, howes]
      simp
    rw [hroom, hout, howes]
    refine ⟨fun h => ?_, fun h => ?_⟩
    · rw [if_pos h, List.filter_singleton, hack]
      rfl
    · rw [if_neg h]
      exact ⟨rfl, List.cons_ne_nil _ _⟩
  obtain ⟨c, fits, h, payload⟩ := x
  by_cases hans : h.type.isAnswered = true
  · unfold Handled.reply handleFrame at hok hnone hone ⊢
    split_ifs at hok hnone hone ⊢
    cases ht : h.type with
    | settings =>
      rw [ht] at hok hnone hone
      have hout := handleSettings_out hok
      by_cases hack : h.has kAck = true
      · rw [if_pos hack] at hout
        refine hnone (by simp [Handled.owes, hack]) ?_
        rw [hout]
        exact .nil
      · rw [if_neg hack] at hout
        exact hone .settingsAck rfl (by simp [Handled.owes, hack, ht]) hout
    | ping =>
      rw [ht] at hok hnone hone
      obtain ⟨hsize, hout⟩ := handlePing_out hok
      by_cases hack : h.has kAck = true
      · rw [if_pos hack] at hout
        refine hnone (by simp [Handled.owes, hack]) ?_
        rw [hout]
        exact .nil
      · have hbytes : (OutFrame.pingAck payload).bytes.length = kFrameHeaderSize + 8 := by
          rw [OutFrame.bytes, List.length_append, hlen, hsize]
          rfl
        rw [if_neg hack, ← hbytes] at hout
        exact hone (.pingAck payload) rfl (by simp [Handled.owes, hack, ht]) hout
    | data =>
      rw [ht] at hnone
      refine hnone ?_ (.handleData c h payload)
      simp [Handled.owes, ht]
    | _ =>
      rw [ht] at hans
      cases hans
  · refine hnone ?_ (.resets (handleFrame_resets payload (Bool.eq_false_of_not_eq_true hans)))
    unfold Handled.owes
    split
    · rfl
    · dsimp only
      split
      · next ht => exact absurd (by rw [ht]; rfl) hans
      · next ht => exact absurd (by rw [ht]; rfl) hans
      · rfl

/-! ## Runs -/

lemma turnFrame_room {cap p x} (h : turnFrame cap p = some x)
    (hwaits : (x.conn.client || x.conn.grpcActive) = true) (hok : (x.reply cb).verdict = .ok) : x.RoomForAck := by
  unfold turnFrame at h
  dsimp only at h
  split at h
  · next hd payload rest ht =>
    cases h
    obtain ⟨-, hlen, -, hfits⟩ := nextTurn_handle ht
    have hroom := hfits hwaits
    intro f hf
    have hsmall : f.bytes.length ≤ 26 := by
      unfold Handled.owes at hf
      split at hf
      · cases hf
      · split at hf
        · rw [List.mem_singleton.mp hf]
          decide
        · next hping =>
          rw [Handled.reply, handleFrame] at hok
          split at hok
          · cases hok
          · rw [hping] at hok
            rw [List.mem_singleton.mp hf, OutFrame.bytes, List.length_append, hlen, (handlePing_out hok).1]
            decide
        · cases hf
    unfold room at hroom ⊢
    dsimp only at hroom ⊢
    cases cap with
    | none => rfl
    | some cap =>
      rw [Option.all_some, decide_eq_true_iff] at hroom ⊢
      omega
  · cases h

/-- The frame that a step handles finds room for its acknowledgement, unless the connection waits for room anyway. -/
def EntryRoom (e : Entry σ L) : Prop :=
  ∀ x, handled e = some x → x.conn.client = false → x.conn.grpcActive = false → x.RoomForAck

lemma acksOwed_append (t t' : List (Entry σ L)) : acksOwed (t ++ t') = acksOwed t ++ acksOwed t' := by
  rw [acksOwed, List.filterMap_append, List.flatMap_append]
  rfl

lemma acksWritten_append (t t' : List (Entry σ L)) : acksWritten cb (t ++ t') = acksWritten cb t ++ acksWritten cb t' := by
  rw [acksWritten, List.flatMap_append, List.filter_append]
  rfl

lemma step_acks {s s' a} (h : EngineStep cb serve s a s') :
    (EntryRoom (s, a) → acksWritten cb [(s, a)] = acksOwed [(s, a)]) ∧
      (¬ EntryRoom (s, a) → acksWritten cb [(s, a)] = [] ∧ acksOwed [(s, a)] ≠ []) := by
  have hwritten : acksWritten cb [(s, a)] = (written cb (s, a)).filter OutFrame.isAck := by
    rw [acksWritten, List.flatMap_singleton]
  rw [hwritten]
  cases s with
  | idle c =>
    have howed : acksOwed [((.idle c, a) : Entry σ L)] = [] := by
      rfl
    have hun : Unacked (written cb ((.idle c, a) : Entry σ L)) := by
      obtain ⟨cap, input, seen, sent, rfl, -, hout⟩ | ⟨l, rfl, -⟩ := idle_cases h
      · intro f hf
        obtain ⟨payload, rfl⟩ := hout f hf
        rfl
      · exact .nil
    refine ⟨fun _ => hun.filter.trans howed.symm, fun hroom => absurd (fun x hx _ _ => ?_) hroom⟩
    cases hx
  | busy cap p =>
    obtain ⟨rfl, ⟨hnone, -⟩ | ⟨x, hsome, -, hlen, hok, -⟩⟩ := turn_cases h
    · have hhandled : handled ((.busy cap p, .turn) : Entry σ L) = none := hnone
      have howed : acksOwed [((.busy cap p, .turn) : Entry σ L)] = [] := by
        rw [acksOwed, List.filterMap_cons_none hhandled]
        rfl
      rw [written, hnone, Option.elim_none, List.append_nil]
      refine ⟨fun _ => (Unacked.flushCredits _ _).filter.trans howed.symm, fun hroom => absurd (fun x hx _ _ => ?_) hroom⟩
      rw [hhandled] at hx
      cases hx
    · have hhandled : handled ((.busy cap p, .turn) : Entry σ L) = some x := hsome
      have howed : acksOwed [((.busy cap p, .turn) : Entry σ L)] = x.owes := by
        rw [acksOwed, List.filterMap_cons_some hhandled, List.filterMap_nil, List.flatMap_singleton]
      have hroom : EntryRoom ((.busy cap p, .turn) : Entry σ L) ↔ x.RoomForAck := by
        simp only [EntryRoom, hhandled, Option.some.injEq, forall_eq']
        refine ⟨fun h => ?_, fun h _ _ => h⟩
        by_cases hwaits : (x.conn.client || x.conn.grpcActive) = true
        · exact turnFrame_room hsome hwaits hok
        · rw [Bool.or_eq_true, not_or, Bool.not_eq_true, Bool.not_eq_true] at hwaits
          exact h hwaits.1 hwaits.2
      rw [written, hsome, Option.elim_some, List.filter_append, (Unacked.flushCredits _ _).filter, List.nil_append,
        howed, hroom]
      exact x.reply_acks hlen hok

lemma run_acks {c t s} (h : EngineRun cb serve c t s) : ((∀ e ∈ t, EntryRoom e) → acksWritten cb t = acksOwed t) ∧
      (¬ (∀ e ∈ t, EntryRoom e) → (acksWritten cb t).length < (acksOwed t).length) := by
  induction h with
  | nil => exact ⟨fun _ => rfl, fun h => absurd (fun e he => by cases he) h⟩
  | @snoc t s s' a _ hs ih =>
    obtain ⟨hroomy, hfull⟩ := step_acks hs
    have hle : (acksWritten cb t).length ≤ (acksOwed t).length := by
      by_cases hall : ∀ e ∈ t, EntryRoom e
      · rw [ih.1 hall]
      · exact (ih.2 hall).le
    rw [acksWritten_append, acksOwed_append]
    by_cases hroom : EntryRoom (s, a)
    · rw [hroomy hroom]
      refine ⟨fun hall => ?_, fun hnot => ?_⟩
      · rw [ih.1 fun e he => hall e (List.mem_append_left _ he)]
      · have hbefore : ¬ ∀ e ∈ t, EntryRoom e := by
          intro hall
          refine hnot fun e he => ?_
          rcases List.mem_append.mp he with he | he
          · exact hall e he
          · rw [List.mem_singleton.mp he]
            exact hroom
        rw [List.length_append, List.length_append]
        exact Nat.add_lt_add_right (ih.2 hbefore) _
    · obtain ⟨hnil, hne⟩ := hfull hroom
      refine ⟨fun hall => absurd (hall _ (List.mem_append_right _ (List.mem_singleton_self _))) hroom, fun _ => ?_⟩
      have hpos := List.length_pos_of_ne_nil hne
      rw [hnil, List.append_nil, List.length_append]
      omega

/-- Acknowledgements: a run writes exactly those it owes, in order, if and only if each frame that asks for one finds
room for it, on connections other than those of clients and of gRPC. -/
theorem acks_exact {c : Conn σ} {t : List (Entry σ L)} {s : Engine σ} (h : EngineRun cb serve c t s) :
    acksWritten cb t = acksOwed t ↔
      ∀ e ∈ t, ∀ x, handled e = some x → x.conn.client = false → x.conn.grpcActive = false → x.RoomForAck := by
  obtain ⟨hroomy, hfull⟩ := run_acks h
  refine ⟨fun heq => ?_, hroomy⟩
  by_contra hnot
  have hlt := hfull hnot
  rw [heq] at hlt
  exact lt_irrefl _ hlt

def pingInput : Str := kClientPreface ++ FrameHeader.bytes ⟨8, .ping, 0, 0⟩ ++ [1, 2, 3, 4, 5, 6, 7, 8]

def pingStart (cap : Option Nat) : Progress Unit :=
  greet cap (Conn.init [] [] ()) (FrameHeader.bytes ⟨8, .ping, 0, 0⟩ ++ [1, 2, 3, 4, 5, 6, 7, 8])

def pingEnd (cap : Option Nat) : Progress Unit :=
  (((pingStart cap).flush cap).handle (fun _ => none) cap ⟨8, .ping, 0, 0⟩ [1, 2, 3, 4, 5, 6, 7, 8] []).1

/-- The call of `process` on this input, turn by turn. -/
def pingTrace (cap : Option Nat) : List (Entry Unit Empty) :=
  [(.idle (Conn.init [] [] ()), .call cap pingInput), (.busy cap (pingStart cap), .turn),
    (.busy cap (pingEnd cap), .turn)]

theorem pingTrace_acked : ∃ s, EngineRun (fun _ => none) (fun _ _ _ => False) (Conn.init [] [] ()) (pingTrace (some 100)) s ∧
    acksWritten (fun _ => none) (pingTrace (some 100)) = acksOwed (pingTrace (some 100)) := by
  have hrun : EngineRun (fun _ => none) (fun _ _ _ => False) (Conn.init [] [] ()) (pingTrace (some 100))
      (.idle ((pingEnd (some 100)).flush (some 100)).conn) :=
    .snoc (.snoc (.snoc .nil (.call rfl)) (.turn rfl)) (.return rfl rfl)
  refine ⟨_, hrun, (acks_exact hrun).mpr ?_⟩
  intro e he x hx _ _
  simp only [pingTrace, List.mem_cons, List.not_mem_nil, or_false] at he
  rcases he with rfl | rfl | rfl
  · cases hx
  · have hhandled : handled ((.busy (some 100) (pingStart (some 100)), .turn) : Entry Unit Empty) = some
        ⟨((pingStart (some 100)).flush (some 100)).conn, room (some 100) 15, ⟨8, .ping, 0, 0⟩, [1, 2, 3, 4, 5, 6, 7, 8]⟩ :=
      rfl
    cases hhandled.symm.trans hx
    intro f hf
    rw [List.mem_singleton.mp hf]
    rfl
  · cases hx

/-- Without room for the acknowledgement PING is consumed all the same. -/
theorem pingTrace_dropped : ∃ s, EngineRun (fun _ => none) (fun _ _ _ => False) (Conn.init [] [] ()) (pingTrace (some 16)) s ∧
    s.conn.client = false ∧ acksOwed (pingTrace (some 16)) = [.pingAck [1, 2, 3, 4, 5, 6, 7, 8]] ∧
    acksWritten (fun _ => none) (pingTrace (some 16)) = [] := by
  refine ⟨.idle ((pingEnd (some 16)).flush (some 16)).conn, ?_, rfl, rfl, rfl⟩
  exact .snoc (.snoc (.snoc .nil (.call rfl)) (.turn rfl)) (.return rfl rfl)

end Rut.Http2
