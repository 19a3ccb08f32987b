import Rut.Http2.Engine
import Rut.Http2.Serving

/-!
# The slots of the table of streams

How the operations of the engine change the slots, and that the slots belong to distinct streams in every run: a
fresh stream has a greater identifier than all before.
-/

namespace Rut.Http2

variable {σ : Type} {cb : Callbacks σ} {fits : Room} {c c' : Conn σ}

lemma stream_eq {i s} (h : c.streams[i]? = some s) : c.stream i = s := by
  rw [Conn.stream, List.getD_eq_getElem?_getD, h]
  rfl

lemma getElem?_stream {i} (h : i < c.streams.length) : c.streams[i]? = some (c.stream i) := by
  rw [stream_eq (List.getElem?_eq_getElem h)]
  exact List.getElem?_eq_getElem h

lemma getElem?_of_manual {i} (h : (c.stream i).manualWindow = true) : c.streams[i]? = some (c.stream i) := by
  refine getElem?_stream ?_
  by_contra hlt
  rw [Conn.stream, List.getD_eq_getElem?_getD, List.getElem?_eq_none (Nat.not_lt.mp hlt)] at h
  cases h

lemma stream_modify {β : Type} (g : Stream → β) {f} (hf : ∀ s, g (f s) = g s) (i j : Nat) :
    g ((c.modifyStream i f).stream j) = g (c.stream j) := by
  unfold Conn.stream Conn.modifyStream
  rw [List.getD_eq_getElem?_getD, List.getD_eq_getElem?_getD, List.getElem?_modify]
  cases c.streams[j]? with
  | none => rfl
  | some s =>
    by_cases hij : i = j
    · simp [hij, hf]
    · simp [hij]

lemma getElem?_modify {i s} (h : c.streams[i]? = some s) (f : Stream → Stream) :
    (c.modifyStream i f).streams[i]? = some (f s) := by
  rw [Conn.modifyStream, List.getElem?_modify, h, Option.map_eq_map, Option.map_some, if_pos rfl]

lemma getElem?_receive {i : Nat} {s : Stream} (h : c.streams[i]? = some s) (n : Nat) :
    (c.receive i n).streams[i]? = some { s with recvWindow := s.recvWindow - n } :=
  getElem?_modify (c := { c with connRecvWindow := c.connRecvWindow - n }) h _

/-- `consume_data` refuses and changes nothing, or credits octets that are held. -/
lemma consumeData_cases (c : Conn σ) (id len : Nat) : c.consumeData id len = (false, c) ∨
    ∃ i, c.lastSlot id = some i ∧ c.streams[i]? = some (c.stream i) ∧ len ≤ (c.stream i).recvUnconsumed ∧
      c.consumeData id len = (true, { c.modifyStream i fun s =>
              { s with recvUnconsumed := s.recvUnconsumed - len, recvCredit := add32 s.recvCredit len } with
            connRecvCredit := add32 c.connRecvCredit len }) := by
  unfold Conn.consumeData
  cases hslot : c.lastSlot id with
  | none => exact .inl rfl
  | some i =>
    dsimp only
    split
    · exact .inl rfl
    · next hrefuse =>
      rw [Bool.or_eq_true, not_or, Bool.not_eq_true', Bool.not_eq_false, decide_eq_true_iff, Nat.not_lt] at hrefuse
      exact .inr ⟨i, rfl, getElem?_of_manual hrefuse.1, hrefuse.2, rfl⟩

lemma consumeData_stream {β : Type} (g : Stream → β)
    (hg : ∀ s unconsumed credit, g { s with recvUnconsumed := unconsumed, recvCredit := credit } = g s)
    (id len i : Nat) : g ((c.consumeData id len).2.stream i) = g (c.stream i) := by
  unfold Conn.consumeData
  cases c.lastSlot id with
  | none => rfl
  | some j =>
    dsimp only
    split_ifs
    · rfl
    · exact stream_modify g (fun s => hg s _ _) j i

lemma Attend.stream {busy} (h : Attend busy c c') (i : Nat) : (c'.stream i).id = (c.stream i).id ∧
      (busy = some (c.stream i).id → (c'.stream i).manualWindow = (c.stream i).manualWindow) := by
  cases h with
  | consume id len =>
    refine ⟨consumeData_stream (·.id) (fun _ _ _ => rfl) id len i, fun _ => ?_⟩
    exact consumeData_stream (·.manualWindow) (fun _ _ _ => rfl) id len i
  | other h => exact ⟨(h.stream i).id, (h.stream i).manualWindow⟩

lemma attends_stream {busy} (h : Relation.ReflTransGen (Attend busy) c c') (i : Nat) :
    (c'.stream i).id = (c.stream i).id ∧
      (busy = some (c.stream i).id → (c'.stream i).manualWindow = (c.stream i).manualWindow) := by
  induction h with
  | refl => exact ⟨rfl, fun _ => rfl⟩
  | tail _ h ih =>
    obtain ⟨hid, hmanual⟩ := h.stream i
    refine ⟨hid.trans ih.1, fun hbusy => ?_⟩
    rw [hmanual (hbusy.trans (congrArg some ih.1.symm)), ih.2 hbusy]

lemma findStream_id {id i} (h : c.findStream id = some i) :
    (c.stream i).id = id ∧ (c.stream i).state ≠ .closed ∧ c.streams[i]? = some (c.stream i) := by
  obtain ⟨hlt, hs, -⟩ := List.findIdx?_eq_some_iff_getElem.mp h
  have hslot : c.streams[i]? = some c.streams[i] := List.getElem?_eq_getElem hlt
  rw [Bool.and_eq_true, beq_iff_eq, bne_iff_ne] at hs
  rw [stream_eq hslot]
  exact ⟨hs.1, hs.2, hslot⟩

lemma holdData_stream {β : Type} (g : Stream → β) (hg : ∀ s n, g { s with recvUnconsumed := n } = g s) (i n : Nat) :
    g ((c.holdData i n).stream i) = g (c.stream i) := by
  unfold Conn.holdData
  split
  · exact stream_modify g (fun s => hg s _) i i
  · rfl

lemma endData_served (busy : Option Nat) (c : Conn σ) (i : Nat) (endStream : Bool) :
    c.Served busy (c.endData i endStream) := by
  unfold Conn.endData
  split
  · next h =>
    rw [Bool.and_eq_true, bne_iff_ne] at h
    refine .setState (fun hclosed => absurd hclosed h.2) ?_
    split_ifs
    · exact fun h => by cases h
    · exact fun h => by cases h
  · exact .of_streams (List.forall₂_refl c.streams)

lemma flushStreams_forall₂ (fits : Room) (w : Nat) (ss : List Stream) :
    List.Forall₂ (fun s s' => ∃ w, s' = (flushStream fits w s).1) ss (flushStreams fits w ss).1 := by
  induction ss generalizing w with
  | nil => exact .nil
  | cons s ss ih => exact .cons ⟨w, rfl⟩ (ih _)

/-! ## Identifiers -/

def Conn.ids (c : Conn σ) : List Nat := c.streams.map (·.id)

lemma ids_modify {f : Stream → Stream} (hf : ∀ s, (f s).id = s.id) (i : Nat) : (c.modifyStream i f).ids = c.ids :=
  map_eq_of_forall₂ (forall₂_modify (R := fun s s' => s'.id = s.id) (fun _ => rfl) fun s _ => hf s)

lemma Conn.Served.ids {busy : Option Nat} (h : c.Served busy c') : c'.ids = c.ids :=
  map_eq_of_forall₂ (h.streams.imp fun _ _ hs => hs.id)

structure IdsInv (c : Conn σ) : Prop where
  range : ∀ id ∈ c.ids, 0 < id ∧ id ≤ c.lastStreamId
  distinct : c.ids.Nodup

structure Conn.SameIds (c c' : Conn σ) : Prop where
  ids : c'.ids = c.ids
  lastStreamId : c'.lastStreamId = c.lastStreamId

namespace Conn.SameIds

lemma refl (c : Conn σ) : c.SameIds c := ⟨rfl, rfl⟩

lemma trans {c₁ c₂ c₃ : Conn σ} (h : c₁.SameIds c₂) (h' : c₂.SameIds c₃) : c₁.SameIds c₃ :=
  ⟨h'.ids.trans h.ids, h'.lastStreamId.trans h.lastStreamId⟩

lemma lt (h : c.SameIds c') {i} (hi : i < c.streams.length) : i < c'.streams.length := by
  have hlen := congrArg List.length h.ids
  rw [Conn.ids, Conn.ids, List.length_map, List.length_map] at hlen
  rwa [hlen]

lemma served {busy : Option Nat} (h : c.Served busy c') : c.SameIds c' := ⟨h.ids, h.lastStreamId⟩

lemma modify {f : Stream → Stream} (hf : ∀ s, (f s).id = s.id) (i : Nat) : c.SameIds (c.modifyStream i f) :=
  ⟨ids_modify hf i, rfl⟩

lemma consume (c : Conn σ) (id len : Nat) : c.SameIds (c.consumeData id len).2 := by
  obtain heq | ⟨i, -, -, -, heq⟩ := consumeData_cases c id len
  · rw [heq]
    exact refl c
  · rw [heq]
    exact ⟨ids_modify (fun _ => by rfl) i, rfl⟩

lemma attends {busy} (h : Relation.ReflTransGen (Attend busy) c c') : c.SameIds c' := by
  induction h with
  | refl => exact refl c
  | tail _ h ih =>
    refine ih.trans ?_
    cases h with
    | consume id len => exact consume _ id len
    | other h => exact served h

lemma hold (c : Conn σ) (i n : Nat) : c.SameIds (c.holdData i n) := by
  unfold Conn.holdData
  split
  · exact modify (fun _ => by rfl) i
  · exact refl c

lemma receive (c : Conn σ) (i n : Nat) : c.SameIds (c.receive i n) := ⟨ids_modify (fun _ => by rfl) i, rfl⟩

lemma settle (c : Conn σ) (h : FrameHeader) (p : Str) (i : Nat) : c.SameIds (settleData fits c h p i).conn := by
  refine (served (endData_served none c i (h.has kEndStream))).trans ?_
  unfold settleData
  dsimp only
  generalize c.endData i (h.has kEndStream) = c
  split
  · exact ⟨ids_modify (fun _ => by rfl) i, rfl⟩
  · exact ⟨ids_modify (fun _ => by rfl) i, rfl⟩

lemma deliver (hcb : cb.Attends) (c : Conn σ) (h : FrameHeader) (p : Str) (i : Nat) :
    c.SameIds (deliverData cb fits c h p i).conn :=
  (hold c i p.length).trans ((attends (hcb _ _)).trans (settle _ h p i))

lemma flush (fits : Room) (c : Conn σ) : c.SameIds (flushCredits fits c).1 := by
  have hconn : c.SameIds (flushConn fits c).1 := by
    unfold flushConn
    split
    · exact ⟨rfl, rfl⟩
    · exact refl c
  refine hconn.trans ⟨map_eq_of_forall₂ ((flushStreams_forall₂ fits _ _).imp ?_), rfl⟩
  rintro s s' ⟨w, rfl⟩
  unfold flushStream
  split_ifs <;> rfl

end Conn.SameIds

namespace IdsInv

lemma congr (h : IdsInv c) (hsame : c.SameIds c') : IdsInv c' where
  range := by
    rw [hsame.ids, hsame.lastStreamId]
    exact h.range
  distinct := by
    rw [hsame.ids]
    exact h.distinct

lemma skip {id : Nat} (h : IdsInv c) (hid : c.lastStreamId < id) : IdsInv { c with lastStreamId := id } where
  range := fun id' h' => ⟨(h.range id' h').1, (h.range id' h').2.trans hid.le⟩
  distinct := h.distinct

lemma alloc {id i} (h : IdsInv c) (hid : c.lastStreamId < id) (ha : c.allocStream id = some (i, c')) :
    IdsInv { c' with lastStreamId := id } := by
  have hnew : id ∉ c.ids := fun hmem => absurd (h.range id hmem).2 (Nat.not_le.mpr hid)
  have hrange : ∀ id' ∈ c.ids, 0 < id' ∧ id' ≤ id := fun id' h' =>
    ⟨(h.range id' h').1, (h.range id' h').2.trans hid.le⟩
  have hown : 0 < id ∧ id ≤ id := ⟨Nat.zero_lt_of_lt hid, le_rfl⟩
  obtain ⟨ss, rfl, ⟨s, -, -, rfl⟩ | ⟨-, rfl⟩⟩ := allocStream_spec ha
  · have hids : ({ c with streams := c.streams.set i (c.freshStream id), lastStreamId := id } : Conn σ).ids =
        c.ids.set i id := List.map_set
    refine ⟨?_, ?_⟩
    · rw [hids]
      intro id' hmem
      rcases List.mem_or_eq_of_mem_set hmem with hmem | rfl
      · exact hrange id' hmem
      · exact hown
    · rw [hids]
      exact h.distinct.set hnew
  · have hids : ({ c with streams := c.streams ++ [c.freshStream id], lastStreamId := id } : Conn σ).ids =
        c.ids ++ [id] := List.map_append
    refine ⟨?_, ?_⟩
    · rw [hids]
      intro id' hmem
      rcases List.mem_append.mp hmem with hmem | hmem
      · exact hrange id' hmem
      · cases List.mem_singleton.mp hmem
        exact hown
    · rw [hids]
      exact List.nodup_append.mpr ⟨h.distinct, List.nodup_singleton _, fun a ha b hb => by
        cases List.mem_singleton.mp hb
        exact fun heq => hnew (heq ▸ ha)⟩

lemma shift (h : IdsInv c) (hs : Shift c c') : IdsInv c' := by
  cases hs with
  | consume id len => exact h.congr (.consume c id len)
  | served hs => exact h.congr (.served hs)
  | alloc hid ha => exact h.alloc hid ha
  | skip hid => exact h.skip hid

lemma shifts (h : IdsInv c) (hs : Shifts c c') : IdsInv c' := by
  induction hs with
  | refl => exact h
  | tail _ hs ih => exact ih.shift hs

lemma frame (hcb : cb.Attends) {h payload} (hlen : payload.length = h.length)
    (hok : (handleFrame cb fits c h payload).verdict = .ok) (hinv : IdsInv c) :
    IdsInv (handleFrame cb fits c h payload).conn := by
  by_cases hflow : h.type.isFlow = true
  · unfold handleFrame at hok ⊢
    split_ifs at hok ⊢
    cases ht : h.type with
    | settings =>
      obtain hconn | ⟨settings, -, -, -, hconn⟩ := handleSettings_cases fits c h payload
      · rw [hconn]
        exact hinv
      · rw [hconn]
        refine hinv.congr ⟨map_eq_of_forall₂ ?_, rfl⟩
        refine List.forall₂_map_right_iff.mpr (List.forall₂_same.mpr fun s _ => ?_)
        split_ifs <;> rfl
    | data =>
      rw [ht] at hok
      obtain ⟨-, -, ⟨-, heq⟩ | ⟨i, p, -, -, -, ⟨-, hconn, -⟩ | ⟨-, heq⟩⟩⟩ := handleData_cases hlen hok
      · rw [heq]
        exact hinv
      · rw [hconn]
        have hreset : Moves cb (c.receive i h.length) _ := Moves.resetAt _ h.streamId i .flowControlError
        exact ((hinv.congr (.receive c i h.length)).shifts (hreset.shifts hcb)).congr ⟨rfl, rfl⟩
      · rw [heq]
        exact hinv.congr ((Conn.SameIds.receive c i h.length).trans (.deliver hcb _ h p i))
    | windowUpdate =>
      rw [ht] at hok
      obtain ⟨-, -, hconn⟩ | ⟨-, ⟨-, hconn⟩ | ⟨i, -, ⟨-, -, hconn⟩ | ⟨-, hmoves⟩⟩⟩ := handleWindowUpdate_cases hok
      · rw [hconn]
        exact hinv.congr ⟨rfl, rfl⟩
      · rw [hconn]
        exact hinv
      · rw [hconn]
        exact hinv.congr (.modify (fun _ => by rfl) i)
      · exact hinv.shifts (hmoves.shifts hcb)
    | _ =>
      rw [ht] at hflow
      cases hflow
  · exact hinv.shifts (handleFrame_shifts hcb payload (Bool.eq_false_of_not_eq_true hflow))

lemma serve {a} (h : IdsInv c) (hs : Serve c a c') : IdsInv c' := by
  cases hs with
  | consume id len => exact h.congr (.consume c id len)
  | «open» ho => exact h.shift (openStream_shift ho)
  | pump cap =>
    obtain ⟨status, -, heq⟩ | ⟨body, i, n, -, -, -, -, -, -, -, -, -, -, heq⟩ := h2PumpOutbound_cases c cap
    · rw [heq]
      exact h
    · rw [heq]
      exact h.congr ⟨ids_modify (fun _ => by rfl) i, rfl⟩
  | other hs => exact h.congr (.served hs)

lemma init (decBuf encBuf : Str) (app : σ) : IdsInv (Conn.init decBuf encBuf app) :=
  ⟨fun _ hid => absurd hid List.not_mem_nil, List.nodup_nil⟩

lemma unique (h : IdsInv c) {i j : Nat} {s s'} (hi : c.streams[i]? = some s) (hj : c.streams[j]? = some s')
    (hid : s.id = s'.id) : i = j := by
  have hlt : i < c.ids.length := by
    rw [Conn.ids, List.length_map]
    exact (List.getElem?_eq_some_iff.mp hi).1
  refine (List.getElem?_inj hlt h.distinct).mp ?_
  rw [Conn.ids, List.getElem?_map, List.getElem?_map, hi, hj]
  exact congrArg some hid

end IdsInv

end Rut.Http2
