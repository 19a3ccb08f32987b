import Rut.Ws.Terminate
import Rut.Ws.Wire

/-!
# A turn of an inspection

Between two turns the inspector has read whole frames and perhaps the beginning of a data frame. What a turn does is
stated about the frame that these bytes begin, as if they were still to be read.
-/

namespace Rut.Ws

open Incremental

variable {D : Type} {t : Tunnel D} {st : WsInspector D} {e : Engine D} {before p : Str} {h : WsFrameHeader} {rest : Str}

/-- The bytes `before` of a data frame have been read. -/
structure Framed (t : Tunnel D) (st : WsInspector D) (before : Str) : Prop where
  whole : st.partial_data_frame = false → before = [] ∧ st.partial_payload_len = 0
  part : st.partial_data_frame = true → ∃ body,
    ws_parse_header t.masked st.decoder.isSome before = .done st.partial_header body ∧
      body.length = st.partial_payload_len ∧ st.partial_payload_len < st.partial_header.payload_len ∧
      st.partial_header.opcode.isControl = false

def WsInspector.headerLen (st : WsInspector D) (h : WsFrameHeader) : Nat :=
  if st.partial_data_frame then 0 else h.header_len

/-- The header `h` of the current frame is known, and `rest` is what follows it. -/
structure Current (t : Tunnel D) (st : WsInspector D) (before p : Str) (h : WsFrameHeader) (rest : Str) : Prop where
  parse : ws_parse_header t.masked st.decoder.isSome (before ++ p) = .done h rest
  header : ∃ r, st.header t p = .done h r
  seen : st.partial_payload_len ≤ rest.length
  seen_le : st.partial_payload_len ≤ h.payload_len
  drop : p.drop (st.headerLen h) = rest.drop st.partial_payload_len
  length : p.length = st.headerLen h + (rest.length - st.partial_payload_len)
  control : h.opcode.isControl = true → st.partial_data_frame = false ∧ st.partial_payload_len = 0
  progress : 0 < st.headerLen h ∨ st.partial_payload_len < h.payload_len

lemma ws_parse_header_drop {masked allow_compressed} {s r : Str}
    (hp : ws_parse_header masked allow_compressed s = .done h r) :
    r = s.drop h.header_len ∧ s.length = h.header_len + r.length ∧ 0 < h.header_len := by
  obtain ⟨key, hh, -, -, rfl⟩ := ws_parse_header_iff.mp hp
  have hlen : h.header_len = (headerWire h.fin h.compressed h.opcode key h.payload_len).length := by rw [hh]; rfl
  rw [hlen, List.drop_left, List.length_append]
  exact ⟨rfl, rfl, Nat.zero_lt_succ _⟩

namespace Framed

lemma header_eq (hf : Framed t st before) (p : Str) : (∃ h rest, Current t st before p h rest) ∨
      (ws_parse_header t.masked st.decoder.isSome (before ++ p) = .fail ∧ st.header t p = .fail) ∨
      ∃ u, ws_parse_header t.masked st.decoder.isSome (before ++ p) = .stall u ∧ st.header t p = .stall u := by
  cases hpart : st.partial_data_frame with
  | true =>
    obtain ⟨body, hparse, hlen, hlt, hdata⟩ := hf.part hpart
    refine .inl ⟨st.partial_header, body ++ p, (stable_ws_parse_header ..).done_append hparse p, ⟨p, ?_⟩, ?_, hlt.le, ?_, ?_, ?_,
      .inr hlt⟩
    · rw [WsInspector.header, if_pos hpart]
    · rw [← hlen, List.length_append]
      exact Nat.le_add_right ..
    · rw [WsInspector.headerLen, if_pos hpart, ← hlen, List.drop_left]
      rfl
    · rw [WsInspector.headerLen, if_pos hpart, ← hlen, List.length_append]
      omega
    · rw [hdata]
      exact nofun
  | false =>
    obtain ⟨rfl, hzero⟩ := hf.whole hpart
    have hheader : st.header t p = ws_parse_header t.masked st.decoder.isSome p := by
      rw [WsInspector.header, hpart, if_neg Bool.false_ne_true]
    rw [hheader, List.nil_append]
    cases hp : ws_parse_header t.masked st.decoder.isSome p with
    | done h rest =>
      obtain ⟨hdrop, hlen, hpos⟩ := ws_parse_header_drop hp
      have hhl : st.headerLen h = h.header_len := by rw [WsInspector.headerLen, hpart, if_neg Bool.false_ne_true]
      refine .inl ⟨h, rest, hp, ⟨rest, hheader.trans hp⟩, ?_, ?_, ?_, ?_, fun _ => ⟨hpart, hzero⟩, .inl (hhl ▸ hpos)⟩
      · rw [hzero]
        exact Nat.zero_le _
      · rw [hzero]
        exact Nat.zero_le _
      · rw [hhl, hzero, ← hdrop]
        rfl
      · rw [hhl, hzero, hlen]
        rfl
    | fail => exact .inr (.inl ⟨rfl, rfl⟩)
    | stall u => exact .inr (.inr ⟨u, rfl, rfl⟩)

end Framed

def WsInspector.frameTotal (st : WsInspector D) (h : WsFrameHeader) : Nat :=
  st.headerLen h + h.payload_len - st.partial_payload_len

namespace Current

lemma lt_iff (hc : Current t st before p h rest) : p.length < st.frameTotal h ↔ rest.length < h.payload_len := by
  have hlen := hc.length
  have hseen := hc.seen
  unfold WsInspector.frameTotal
  omega

lemma drop_total (hc : Current t st before p h rest) : p.drop (st.frameTotal h) = rest.drop h.payload_len := by
  have hle := hc.seen_le
  have htotal : st.frameTotal h = st.headerLen h + (h.payload_len - st.partial_payload_len) := by
    unfold WsInspector.frameTotal
    omega
  rw [htotal, ← List.drop_drop, hc.drop, List.drop_drop, Nat.add_sub_cancel' hle]

lemma drop_lt (hc : Current t st before p h rest) (hle : h.payload_len ≤ rest.length) :
    (rest.drop h.payload_len).length < p.length := by
  have hlen := hc.length
  have hseen := hc.seen_le
  rw [List.length_drop]
  rcases hc.progress with hpos | hpos <;> omega

end Current

def plainBody (t : Tunnel D) (h : WsFrameHeader) (rest : Str) : Str :=
  if t.masked then ws_unmask (rest.take h.payload_len) h.mask_key else rest.take h.payload_len

lemma turn_eq (hc : Current t e.st before p h rest) :
    turn t e p =
      if refused t e.st h then (.error, 0, e)
      else if rest.length < h.payload_len ∧ (h.opcode.isControl ∨ e.out.bytes ≠ []) then (.stop, 0, e)
      else if e.out.bytes ≠ [] ∧ needed t e.st h (e.st.frameTotal h) > t.out_cap - e.out.bytes.length then (.stop, 0, e)
      else if h.opcode.isControl then
        let r := controlFrame t e h (plainBody t h rest)
        (r.1, if r.1 = .error then 0 else e.st.frameTotal h, r.2)
      else dataFrame t e h p := by
  obtain ⟨r, hheader⟩ := hc.header
  have hlt := hc.lt_iff
  have hbody : h.opcode.isControl = true → p.drop (e.st.headerLen h) = rest := by
    intro hcontrol
    rw [hc.drop, (hc.control hcontrol).2]
    rfl
  unfold WsInspector.frameTotal WsInspector.headerLen at *
  unfold turn
  rw [hheader]
  refine if_congr Iff.rfl rfl (if_congr (and_congr_left' hlt) rfl (if_congr Iff.rfl rfl ?_))
  by_cases hcontrol : h.opcode.isControl = true
  · rw [if_pos hcontrol, if_pos hcontrol, hbody hcontrol]
    rfl
  · rw [if_neg hcontrol, if_neg hcontrol]

structure Stores (st st' : WsInspector D) : Prop where
  assembler : st'.assembler = st.assembler
  partial_data_frame : st'.partial_data_frame = st.partial_data_frame
  partial_payload_len : st'.partial_payload_len = st.partial_payload_len
  decoder : st'.decoder.isSome = st.decoder.isSome
  received_close : st'.received_close = st.received_close

lemma store_stores {e' compressed last bytes}
    (hs : store t e h compressed last bytes = some e') : Stores e.st e'.st ∧ e'.out = e.out ∧ e'.calls = e.calls := by
  unfold store at hs
  dsimp only at hs
  generalize hfresh : (!e.st.partial_data_frame && h.opcode != .continuation) = fresh at hs
  have hbase : ∀ b, Stores e.st (if b = true then { e with st := { e.st with compressed_message := compressed } } else e).st ∧
      (if b = true then { e with st := { e.st with compressed_message := compressed } } else e).out = e.out ∧
      (if b = true then { e with st := { e.st with compressed_message := compressed } } else e).calls = e.calls := by
    intro b
    split_ifs <;> exact ⟨⟨rfl, rfl, rfl, rfl, rfl⟩, rfl, rfl⟩
  obtain ⟨hst, hout, hcalls⟩ := hbase fresh
  generalize (if fresh = true then { e with st := { e.st with compressed_message := compressed } } else e) = e₀ at hs hst hout hcalls
  cases compressed with
  | false =>
    cases hs
    exact ⟨⟨hst.assembler, hst.partial_data_frame, hst.partial_payload_len, hst.decoder, hst.received_close⟩, hout, hcalls⟩
  | true =>
    rw [if_pos rfl] at hs
    cases hd : e₀.st.decoder with
    | none =>
      rw [hd] at hs
      cases hs
    | some decoder =>
      rw [hd] at hs
      dsimp only at hs
      split at hs
      · cases hs
      split at hs
      · cases hs
      cases hs
      have hsome : e.st.decoder.isSome = true := by rw [← hst.decoder, hd]; rfl
      exact ⟨⟨hst.assembler, hst.partial_data_frame, hst.partial_payload_len, hsome.symm, hst.received_close⟩, hout, hcalls⟩

lemma dataFrame_eq (hc : Current t e.st before p h rest) :
    dataFrame t e h p =
      match store t e h (e.st.compressed h) (decide (h.payload_len ≤ rest.length))
        ((rest.take h.payload_len).drop e.st.partial_payload_len) with
      | none => (.error, 0, e)
      | some e' =>
        if rest.length < h.payload_len then
          (.stop, p.length, { e' with st := { e'.st with
            partial_payload_len := rest.length, partial_data_frame := true, partial_header := h } })
        else
          let r := endFrame t e' h (e.st.compressed h)
          (r.1, e.st.frameTotal h, r.2) := by
  have hlen := hc.length
  have hseen := hc.seen
  have hle := hc.seen_le
  have hdrop := hc.drop
  unfold WsInspector.frameTotal WsInspector.headerLen at *
  unfold dataFrame
  dsimp only
  generalize (if e.st.partial_data_frame = true then 0 else h.header_len) = header_len at hlen hdrop ⊢
  have hchunk : min (h.payload_len - e.st.partial_payload_len) (p.length - header_len) =
      min h.payload_len rest.length - e.st.partial_payload_len := by omega
  have hlast : decide (min h.payload_len rest.length - e.st.partial_payload_len =
      h.payload_len - e.st.partial_payload_len) = decide (h.payload_len ≤ rest.length) := by
    refine decide_eq_decide.mpr ?_
    omega
  have hbytes : (p.drop header_len).take (min h.payload_len rest.length - e.st.partial_payload_len) =
      (rest.take h.payload_len).drop e.st.partial_payload_len := by
    rw [hdrop, List.drop_take, List.take_eq_take_iff, List.length_drop]
    omega
  rw [hchunk, hbytes, hlast]
  cases hs : store t e h (e.st.compressed h) (decide (h.payload_len ≤ rest.length))
    ((rest.take h.payload_len).drop e.st.partial_payload_len) with
  | none => rfl
  | some e' =>
    have hpart := (store_stores hs).1.partial_payload_len
    dsimp only
    rw [hpart]
    by_cases hshort : rest.length < h.payload_len
    · have hreceived : e.st.partial_payload_len + (min h.payload_len rest.length - e.st.partial_payload_len) = rest.length := by
        omega
      have htaken : header_len + (min h.payload_len rest.length - e.st.partial_payload_len) = p.length := by omega
      rw [hreceived, htaken, if_pos hshort, if_pos hshort]
    · rw [if_neg (by omega), if_neg hshort]
      have htaken : header_len + (min h.payload_len rest.length - e.st.partial_payload_len) =
          header_len + h.payload_len - e.st.partial_payload_len := by omega
      rw [htaken]

end Rut.Ws
