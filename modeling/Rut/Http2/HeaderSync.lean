import Rut.Http2.Keeps
import Rut.Http2.Serving

/-!
# The HPACK decoder and the header blocks

Every header block has to go through the decoder, whatever becomes of its stream, or the dynamic table of the peer and
ours differ from then on. The reference decoder is fed the blocks as the frames bring them. The engine does not decode
the block of a HEADERS frame that finds the table of streams full, so the two agree in runs in which no frame does.
-/

namespace Rut.Http2

open Hpack (DynamicTable decodeHeaderBlock)

variable {σ L : Type} {cb : Callbacks σ} {fits : Room} {c c' : Conn σ}

def decodeTable (d : DynamicTable) (block : Str) : Option DynamicTable :=
  match decodeHeaderBlock headerCaps d block with
  | .ok st => some st.dyn
  | _ => none

/-- The header blocks received: those that are complete, and the one that CONTINUATION frames go on with. -/
structure Received where
  blocks : List Str := []
  pending : Option Str := none
deriving DecidableEq

def Received.collect (r : Received) (block : Str) (ended : Bool) : Received :=
  if ended then { blocks := r.blocks ++ [block], pending := none } else { r with pending := some block }

def Received.frame (r : Received) (h : FrameHeader) (payload : Str) : Received :=
  match h.type with
  | .headers => r.collect ((stripPadding h payload true).getD []) (h.has kEndHeaders)
  | .continuation => r.collect (r.pending.getD [] ++ payload) (h.has kEndHeaders)
  | _ => r

def received (t : List (Entry σ L)) : Received :=
  t.foldl (fun r e => (handled e).elim r fun x => r.frame x.header x.payload) {}

/-- A frame that does not ask for a fresh stream of a server in vain: there is a slot to reuse, or another one. -/
def Handled.Admitted (x : Handled σ) : Prop :=
  x.header.type = .headers → x.conn.findStream x.header.streamId = none → x.conn.client = false →
    x.conn.streams.any Conn.reusable = true ∨ x.conn.streams.length < kMaxStreams

instance (x : Handled σ) : Decidable x.Admitted :=
  inferInstanceAs (Decidable (_ → _ → _ → _))

/-! ## What leaves the assembly of blocks alone -/

structure Conn.SameBlock (c c' : Conn σ) : Prop where
  hpackDec : c'.hpackDec = c.hpackDec
  hdrBlock : c'.hdrBlock = c.hdrBlock
  contStream : c'.contStream = c.contStream

namespace Conn.SameBlock

lemma refl (c : Conn σ) : c.SameBlock c := ⟨rfl, rfl, rfl⟩

lemma trans {c₁ c₂ c₃ : Conn σ} (h : c₁.SameBlock c₂) (h' : c₂.SameBlock c₃) : c₁.SameBlock c₃ :=
  ⟨h'.hpackDec.trans h.hpackDec, h'.hdrBlock.trans h.hdrBlock, h'.contStream.trans h.contStream⟩

end Conn.SameBlock

lemma Conn.Keeps.sameBlock (h : c.Keeps c') : c.SameBlock c' := by
  rw [← h]
  exact ⟨rfl, rfl, rfl⟩

/-! ## What a frame does to the block -/

structure Conn.Decodes (c c' : Conn σ) : Prop where
  table : decodeTable c.hpackDec c.hdrBlock = some c'.hpackDec
  hdrBlock : c'.hdrBlock = []
  contStream : c'.contStream = 0

lemma Conn.Decodes.trans (h : c.Decodes c') {c'' : Conn σ} (hs : c'.SameBlock c'') : c.Decodes c'' :=
  ⟨hs.hpackDec ▸ h.table, hs.hdrBlock.trans h.hdrBlock, hs.contStream.trans h.contStream⟩

lemma decodeBlock_ok {k} (h : (decodeBlock c k).verdict = .ok) :
    ∃ d fields, decodeTable c.hpackDec c.hdrBlock = some d ∧ decodeBlock c k = k { c with hpackDec := d } fields := by
  unfold decodeBlock at h ⊢
  unfold decodeTable
  cases hd : decodeHeaderBlock headerCaps c.hpackDec c.hdrBlock with
  | error =>
    rw [hd] at h
    cases h
  | fault =>
    rw [hd] at h
    cases h
  | ok st => exact ⟨st.dyn, blockFields st, rfl, rfl⟩

lemma finishHeaders_decodes {id endStream refuse} (h : (finishHeaders cb fits c id endStream refuse).verdict = .ok) :
    c.Decodes (finishHeaders cb fits c id endStream refuse).conn := by
  unfold finishHeaders at h ⊢
  obtain ⟨d, fields, hd, heq⟩ := decodeBlock_ok h
  rw [heq]
  exact Conn.Decodes.trans ⟨hd, rfl, rfl⟩ (Conn.Keeps.deliverHeaders _ _ _ _ _).sameBlock

lemma discardHeaders_decodes {id slot endStream} (h : (discardHeaders cb c fun r bad =>
      r.andThen fun c => endTrailers cb fits c id slot endStream bad).verdict = .ok) :
    c.Decodes (discardHeaders cb c fun r bad =>
      r.andThen fun c => endTrailers cb fits c id slot endStream bad).conn := by
  unfold discardHeaders at h ⊢
  obtain ⟨d, fields, hd, heq⟩ := decodeBlock_ok h
  rw [heq]
  have htable : decodeTable c.hpackDec c.hdrBlock =
      some (deliverTrailers cb { c with hpackDec := d } fields).conn.hpackDec := by
    rw [(Conn.Keeps.deliverTrailers _ fields).sameBlock.hpackDec, hd]
  have hdecodes : c.Decodes (deliverTrailers cb { c with hpackDec := d } fields).conn.endBlock := ⟨htable, rfl, rfl⟩
  exact hdecodes.trans (Conn.Keeps.endTrailers _ _ _ _ _).sameBlock

lemma dropHeaders_decodes {id e} (h : (dropHeaders c fun c => resetKnownStream cb fits c id e).verdict = .ok) :
    c.Decodes (dropHeaders c fun c => resetKnownStream cb fits c id e).conn := by
  unfold dropHeaders at h ⊢
  obtain ⟨d, fields, hd, heq⟩ := decodeBlock_ok h
  rw [heq]
  exact Conn.Decodes.trans ⟨hd, rfl, rfl⟩ (Conn.Keeps.resetKnownStream _ _ _).sameBlock

/-- A frame brings the next fragment of a block, which is decoded if it is the last one. -/
structure Conn.Takes (c : Conn σ) (p : Str) (ended : Bool) (c' : Conn σ) : Prop where
  last : ended = true → Conn.Decodes { c with hdrBlock := c.hdrBlock ++ p } c'
  more : ended = false → c'.hpackDec = c.hpackDec ∧ c'.hdrBlock = c.hdrBlock ++ p ∧ c'.contStream ≠ 0

namespace Conn.Takes

variable {p : Str} {ended : Bool}

lemma decoded {d : Conn σ} (h : d.Decodes c') (he : ended = true) (hd : d.hpackDec = c.hpackDec)
    (hb : d.hdrBlock = c.hdrBlock ++ p) : c.Takes p ended c' := by
  refine ⟨fun _ => ⟨?_, h.hdrBlock, h.contStream⟩, fun hne => ?_⟩
  · rw [← h.table, hd, hb]
  · rw [he] at hne
    cases hne

lemma awaits (he : ¬ended = true) (hd : c'.hpackDec = c.hpackDec) (hb : c'.hdrBlock = c.hdrBlock ++ p)
    (hs : c'.contStream ≠ 0) : c.Takes p ended c' :=
  ⟨fun h => absurd h he, fun _ => ⟨hd, hb, hs⟩⟩

lemma congr {d} (h : d.Takes p ended c') (hs : c.SameBlock d) : c.Takes p ended c' := by
  refine ⟨fun he => ?_, fun he => ?_⟩
  · obtain ⟨htable, hblock, hstream⟩ := h.last he
    exact ⟨by rw [← htable, hs.hpackDec, hs.hdrBlock], hblock, hstream⟩
  · obtain ⟨hdec, hblock, hstream⟩ := h.more he
    exact ⟨hdec.trans hs.hpackDec, by rw [hblock, hs.hdrBlock], hstream⟩

end Conn.Takes

lemma appendFragment_some {p} (h : c.appendFragment p = some c') : c' = { c with hdrBlock := c.hdrBlock ++ p } := by
  unfold Conn.appendFragment at h
  split_ifs at h
  exact (Option.some.inj h).symm

lemma handleKnownHeaders_takes {h p i new} (hid : h.streamId ≠ 0)
    (hok : (handleKnownHeaders cb fits c h p i new).verdict = .ok) :
    c.Takes p (h.has kEndHeaders) (handleKnownHeaders cb fits c h p i new).conn := by
  unfold handleKnownHeaders at hok ⊢
  dsimp only at hok ⊢
  by_cases hgot : (c.stream i).gotHeaders = true
  · rw [if_pos hgot] at hok ⊢
    cases ha : c.appendFragment p with
    | none =>
      rw [ha] at hok
      cases hok
    | some d =>
      rw [ha] at hok
      dsimp only at hok ⊢
      obtain rfl := appendFragment_some ha
      by_cases hend : h.has kEndHeaders = true
      · rw [if_pos hend] at hok ⊢
        exact .decoded (discardHeaders_decodes hok) hend rfl rfl
      · rw [if_neg hend] at hok ⊢
        exact .awaits hend rfl rfl hid
  · rw [if_neg hgot] at hok ⊢
    cases ha : (c.setGotHeaders i true).appendFragment p with
    | none =>
      rw [ha] at hok
      cases hok
    | some d =>
      rw [ha] at hok
      dsimp only at hok ⊢
      obtain rfl := appendFragment_some ha
      by_cases hend : h.has kEndHeaders = true
      · rw [if_pos hend] at hok ⊢
        refine .decoded (finishHeaders_decodes hok) hend ?_ ?_
        · split_ifs <;> rfl
        · split_ifs <;> rfl
      · rw [if_neg hend] at hok ⊢
        exact .awaits hend rfl rfl hid

lemma handleStaleHeaders_takes {h p} (hid : h.streamId ≠ 0) (hok : (handleStaleHeaders cb fits c h p).verdict = .ok) :
    c.Takes p (h.has kEndHeaders) (handleStaleHeaders cb fits c h p).conn := by
  unfold handleStaleHeaders at hok ⊢
  by_cases hlast : c.lastStreamId < h.streamId
  · rw [if_pos hlast] at hok
    cases hok
  rw [if_neg hlast] at hok ⊢
  cases ha : c.appendFragment p with
  | none =>
    rw [ha] at hok
    cases hok
  | some d =>
    rw [ha] at hok
    dsimp only at hok ⊢
    obtain rfl := appendFragment_some ha
    by_cases hend : h.has kEndHeaders = true
    · rw [if_pos hend] at hok ⊢
      exact .decoded (dropHeaders_decodes hok) hend rfl rfl
    · rw [if_neg hend] at hok ⊢
      exact .awaits hend rfl rfl hid

lemma handleContinuation_takes {h p} (hok : (handleContinuation cb fits c h p).verdict = .ok) :
    c.contStream ≠ 0 ∧ c.Takes p (h.has kEndHeaders) (handleContinuation cb fits c h p).conn := by
  unfold handleContinuation at hok ⊢
  by_cases hcont : c.contStream = 0
  · rw [if_pos hcont] at hok
    cases hok
  rw [if_neg hcont] at hok ⊢
  refine ⟨hcont, ?_⟩
  cases ha : c.appendFragment p with
  | none =>
    rw [ha] at hok
    cases hok
  | some d =>
    rw [ha] at hok
    dsimp only at hok ⊢
    obtain rfl := appendFragment_some ha
    by_cases hend : h.has kEndHeaders = true
    · rw [if_pos hend] at hok ⊢
      by_cases hdiscard : c.contDiscard = true
      · rw [if_pos hdiscard] at hok ⊢
        exact .decoded (discardHeaders_decodes hok) hend rfl rfl
      · rw [if_neg hdiscard] at hok ⊢
        refine .decoded (finishHeaders_decodes hok) hend ?_ ?_
        · split_ifs
          · cases Conn.findStream _ h.streamId <;> rfl
          · rfl
        · split_ifs
          · cases Conn.findStream _ h.streamId <;> rfl
          · rfl
    · rw [if_neg hend] at hok ⊢
      exact .awaits hend rfl rfl hcont

lemma allocStream_none {id} (h : c.allocStream id = none) :
    c.streams.any Conn.reusable = false ∧ kMaxStreams ≤ c.streams.length := by
  unfold Conn.allocStream at h
  split at h
  · cases h
  · rename_i hidx
    split at h
    · rename_i hlen
      refine ⟨?_, hlen⟩
      rw [List.any_eq_false]
      intro s hs
      rw [List.findIdx?_eq_none_iff.mp hidx s hs]
      exact Bool.false_ne_true
    · cases h

lemma handleHeaders_takes {h payload} (ht : h.type = .headers)
    (hadm : Handled.Admitted ⟨c, fits, h, payload⟩) (hok : (handleHeaders cb fits c h payload).verdict = .ok) :
    ∃ p, stripPadding h payload true = some p ∧
      c.Takes p (h.has kEndHeaders) (handleHeaders cb fits c h payload).conn := by
  unfold handleHeaders at hok ⊢
  by_cases hid : h.streamId = 0 ∨ h.streamId % 2 = 0
  · rw [if_pos hid] at hok
    cases hok
  rw [if_neg hid] at hok ⊢
  have hid : h.streamId ≠ 0 := fun h₀ => hid (.inl h₀)
  cases hp : stripPadding h payload true with
  | none =>
    rw [hp] at hok
    cases hok
  | some p =>
    rw [hp] at hok
    refine ⟨p, rfl, ?_⟩
    dsimp only at hok ⊢
    cases hf : c.findStream h.streamId with
    | some i =>
      rw [hf] at hok
      exact handleKnownHeaders_takes hid hok
    | none =>
      rw [hf] at hok
      by_cases hclient : c.client = true
      · rw [if_pos hclient] at hok ⊢
        exact handleStaleHeaders_takes hid hok
      rw [if_neg hclient] at hok ⊢
      by_cases hlast : h.streamId ≤ c.lastStreamId
      · rw [if_pos hlast] at hok
        cases hok
      rw [if_neg hlast] at hok ⊢
      cases ha : c.allocStream h.streamId with
      | some r =>
        rw [ha] at hok
        have htakes := handleKnownHeaders_takes hid hok
        exact htakes.congr ((Conn.Keeps.allocStream ha).sameBlock.trans ⟨rfl, rfl, rfl⟩)
      | none =>
        obtain ⟨hreuse, hfull⟩ := allocStream_none ha
        rcases hadm ht hf (Bool.eq_false_of_not_eq_true hclient) with hadm | hadm
        · exact absurd hadm (by rw [hreuse]; exact Bool.false_ne_true)
        · exact absurd hadm (Nat.not_lt.mpr hfull)

/-! ## Runs -/

/-- The decoder is where the blocks received have brought a decoder that started at `d₀`. -/
structure SyncInv (d₀ : DynamicTable) (r : Received) (c : Conn σ) : Prop where
  table : r.blocks.foldlM decodeTable d₀ = some c.hpackDec
  block : c.hdrBlock = r.pending.getD []
  between : c.contStream = 0 → r.pending = none

namespace SyncInv

variable {d₀ : DynamicTable} {r : Received}

lemma congr (h : SyncInv d₀ r c) (hs : c.SameBlock c') : SyncInv d₀ r c' :=
  ⟨by rw [h.table, hs.hpackDec], hs.hdrBlock.trans h.block, fun hz => h.between (hs.contStream ▸ hz)⟩

lemma takes {p ended} (h : SyncInv d₀ r c) (ht : c.Takes p ended c') :
    SyncInv d₀ (r.collect (r.pending.getD [] ++ p) ended) c' := by
  cases ended with
  | true =>
    obtain ⟨htable, hblock, -⟩ := ht.last rfl
    refine ⟨?_, hblock, fun _ => rfl⟩
    rw [Received.collect, if_pos rfl, List.foldlM_append, h.table]
    rw [← h.block, Option.bind_eq_bind, Option.bind_some, List.foldlM_cons, htable]
    rfl
  | false =>
    obtain ⟨hdec, hblock, hstream⟩ := ht.more rfl
    refine ⟨?_, ?_, fun hz => absurd hz hstream⟩
    · rw [hdec]
      exact h.table
    · rw [hblock, h.block]
      rfl

lemma frame {hd payload} (h : SyncInv d₀ r c)
    (hadm : Handled.Admitted ⟨c, fits, hd, payload⟩) (hok : (handleFrame cb fits c hd payload).verdict = .ok) :
    SyncInv d₀ (r.frame hd payload) (handleFrame cb fits c hd payload).conn := by
  by_cases hh : hd.type = .headers
  · have hbetween : c.contStream = 0 := by
      by_contra hcont
      unfold handleFrame at hok
      rw [if_pos ⟨hcont, .inl (by rw [hh]; exact FrameType.noConfusion)⟩] at hok
      cases hok
    have heq : handleFrame cb fits c hd payload = handleHeaders cb fits c hd payload := by
      unfold handleFrame
      rw [if_neg fun hcont => hcont.1 hbetween, hh]
    rw [heq] at hok ⊢
    obtain ⟨p, hp, ht⟩ := handleHeaders_takes hh hadm hok
    have htakes := h.takes ht
    rw [h.between hbetween] at htakes
    unfold Received.frame
    rw [hh]
    rw [hp]
    exact htakes
  · by_cases hc : hd.type = .continuation
    · have heq : handleFrame cb fits c hd payload = handleContinuation cb fits c hd payload := by
        unfold handleFrame at hok ⊢
        split_ifs at hok ⊢
        rw [hc]
      rw [heq] at hok ⊢
      unfold Received.frame
      rw [hc]
      exact h.takes (handleContinuation_takes hok).2
    · have hr : r.frame hd payload = r := by
        unfold Received.frame
        split <;> simp_all
      rw [hr]
      exact h.congr (handleFrame_keeps payload hh hc).sameBlock

end SyncInv

/-- Between two calls of `process`, whatever leaves the assembly of blocks alone; no file but the engine's touches it. -/
abbrev LeavesBlock : Conn σ → Unit → Conn σ → Prop := fun c _ c' => c.SameBlock c'

lemma SyncInv.step {d₀ t s s' a} (hinv : SyncInv d₀ (received t) s.conn) (h : EngineStep cb LeavesBlock s a s')
    (hadm : ∀ x, handled (s, a) = some x → x.Admitted) : SyncInv d₀ (received (t ++ [(s, a)])) s'.conn := by
  have hr : received (t ++ [(s, a)]) =
      (handled (s, a)).elim (received t) fun x => (received t).frame x.header x.payload := by
    unfold received
    rw [List.foldl_append]
    rfl
  rw [hr]
  cases s with
  | idle c =>
    obtain ⟨cap, input, seen, sent, rfl, heq, -⟩ | ⟨l, rfl, hserve⟩ := idle_cases h
    · rw [heq]
      exact hinv.congr ⟨rfl, rfl, rfl⟩
    · exact hinv.congr hserve
  | busy cap p =>
    obtain ⟨rfl, ⟨hnone, heq⟩ | ⟨x, hsome, hx, -, hok, heq⟩⟩ := turn_cases h
    · rw [handled, hnone, heq]
      exact hinv.congr (Conn.Keeps.flush _ _).sameBlock
    · have hflush : SyncInv d₀ (received t) x.conn := by
        rw [hx]
        exact hinv.congr (Conn.Keeps.flush _ _).sameBlock
      rw [handled, hsome, heq]
      exact hflush.frame (hadm x hsome) hok

/-- The decoder stays in step with the peer: in every run of a server in which no HEADERS frame asks in vain for a
slot, the table is that of a decoder which is fed all header blocks received, once and in order. -/
theorem decoder_in_step {decBuf encBuf : Str} {app : σ} {t : List (Entry σ Unit)} {s : Engine σ}
    (h : EngineRun cb LeavesBlock (Conn.init decBuf encBuf app) t s)
    (hadm : ∀ e ∈ t, ∀ x, handled e = some x → x.Admitted) :
    (received t).blocks.foldlM decodeTable (DynamicTable.init decBuf kDefaultHeaderTableSize) = some s.conn.hpackDec := by
  have hinv : SyncInv (DynamicTable.init decBuf kDefaultHeaderTableSize) (received t) s.conn := by
    induction h with
    | nil => exact ⟨rfl, rfl, fun _ => rfl⟩
    | snoc _ hs ih =>
      have hbefore := ih fun e he => hadm e (List.mem_append_left _ he)
      exact hbefore.step hs (hadm _ (List.mem_append_right _ (List.mem_singleton_self _)))
  exact hinv.table

def entryInput : Str :=
  kClientPreface ++ FrameHeader.bytes ⟨5, .headers, kEndHeaders, 1⟩ ++ [0x40, 1, ch 'a', 1, ch 'b']

theorem entryInput_in_step :
    ∃ p, process (fun _ => none) (some 100) (Conn.init [] [] ()) entryInput = some p ∧
      [[0x40, 1, ch 'a', 1, ch 'b']].foldlM decodeTable (DynamicTable.init [] kDefaultHeaderTableSize) =
        some p.conn.hpackDec := by
  have hcall : (process (fun _ => none) (some 100) (Conn.init [] [] ()) entryInput).map (·.status) = some .open := by
    decide
  obtain ⟨p, hp, hopen⟩ := Option.map_eq_some_iff.mp hcall
  have hadm : ∀ e ∈ processTrace (fun _ => none) Unit (some 100) (Conn.init [] [] ()) entryInput,
      (handled e).all (fun x => decide x.Admitted) = true := by
    decide
  refine ⟨p, hp, ?_⟩
  refine decoder_in_step (process_run LeavesBlock hp hopen).1 fun e he x hx => ?_
  have hall := hadm e he
  rw [hx] at hall
  exact of_decide_eq_true hall

/-- The preface, a request head on each of the streams 1 to 127, and one on stream 129 that adds an entry to the
table. -/
def crowdedInput : Str :=
  kClientPreface ++ (List.range 64).flatMap (fun i => FrameHeader.bytes ⟨1, .headers, kEndHeaders, 2 * i + 1⟩ ++ [0x82]) ++
    FrameHeader.bytes ⟨5, .headers, kEndHeaders, 129⟩ ++ [0x40, 1, ch 'a', 1, ch 'b']

/-- The block of a stream that the table of streams has no slot for is lost on the decoder. -/
theorem crowdedInput_out_of_step :
    ¬∀ (t : List (Entry Unit Unit)) (s : Engine Unit),
      EngineRun (fun _ => none) LeavesBlock (Conn.init [] [] ()) t s →
        (received t).blocks.foldlM decodeTable (DynamicTable.init [] kDefaultHeaderTableSize) =
          some s.conn.hpackDec := by
  intro hstep
  obtain ⟨hcall, hents⟩ : (process (fun _ => none) (some 1000) (Conn.init [] [] ()) crowdedInput).map
      (fun p => (p.status, p.conn.hpackDec.ents)) = some (.open, []) ∧
      ((received (processTrace (fun _ => none) Unit (some 1000) (Conn.init [] [] ())
        crowdedInput)).blocks.foldlM decodeTable (DynamicTable.init [] kDefaultHeaderTableSize)).map (·.ents) =
          some [⟨0, 1, 1⟩] := by
    decide +kernel
  obtain ⟨p, hp, heq⟩ := Option.map_eq_some_iff.mp hcall
  have hsame := hstep _ _ (process_run LeavesBlock hp (congrArg Prod.fst heq)).1
  have hnone : p.conn.hpackDec.ents = [] := congrArg Prod.snd heq
  rw [hsame, Option.map_some, Engine.conn, hnone] at hents
  cases hents

end Rut.Http2
