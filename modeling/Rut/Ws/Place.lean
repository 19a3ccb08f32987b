import Rut.Ws.Reassembly

/-!
# Where an inspection stops

With or without codecs, an inspection has read whole frames of its stream and perhaps the beginning of a data frame when
it stops, and its inspector knows the sequence of fragments, whatever became of the messages.
-/

set_option linter.all false
namespace Rut.Ws

open Lib (Memory.read Memory.write)
open Incremental

variable {D : Type} {t : Tunnel D} {st st' : WsInspector D} {e e' : Engine D} {before p rest : Str} {h : WsFrameHeader}
  {codec : Bool} {f : Frame} {fs part : List Frame}

def advance (part : List Frame) (f : Frame) : List Frame :=
  if f.opcode.isControl then part else if f.fin then [] else part ++ [f]

/-- The inspector knows the frames `part` of a message in progress, and has read `before` of the next frame. -/
structure Carries (t : Tunnel D) (codec : Bool) (st : WsInspector D) (part : List Frame) (before : Str) : Prop where
  framed : Framed t st before
  decoder : st.decoder.isSome = codec
  fragmented : st.assembler.in_fragmented = !part.isEmpty
  accumulated : st.assembler.accumulated_len = (payloads part).length
  compressed : ∀ f, part.head? = some f → st.compressed_message = f.compressed
  fresh : st.partial_data_frame = true → part = [] → st.compressed_message = st.partial_header.compressed
  sequence : st.partial_data_frame = true → (st.partial_header.opcode = .continuation ↔ part ≠ [])

lemma ws_message_feed_accepts {a limit} (hne : (ws_message_feed a h limit).1 ≠ .error) :
    (h.opcode = .continuation ↔ a.in_fragmented = true) ∧ ((ws_message_feed a h limit).2 = if h.fin then {} else
        ⟨true, if h.opcode = .continuation then a.message_opcode else h.opcode,
          (if h.opcode = .continuation then a.accumulated_len else 0) + h.payload_len⟩) ∧
      (h.fin = false → (ws_message_feed a h limit).1 = .needMore) := by
  unfold ws_message_feed at hne ⊢
  by_cases hcontrol : h.opcode.isControl = true
  · rw [if_pos hcontrol] at hne
    exact absurd rfl hne
  rw [if_neg hcontrol] at hne ⊢
  by_cases hstray : h.opcode = .continuation ∧ (a.in_fragmented = false ∨ h.compressed = true)
  · rw [if_pos hstray] at hne
    exact absurd rfl hne
  rw [if_neg hstray] at hne ⊢
  by_cases hinner : h.opcode ≠ .continuation ∧ a.in_fragmented = true
  · rw [if_pos hinner] at hne
    exact absurd rfl hne
  rw [if_neg hinner] at hne ⊢
  have hseq : h.opcode = .continuation ↔ a.in_fragmented = true := by
    refine ⟨fun hc => ?_, fun hf => ?_⟩
    · by_contra hf
      exact hstray ⟨hc, .inl (Bool.eq_false_of_not_eq_true hf)⟩
    · by_contra hc
      exact hinner ⟨hc, hf⟩
  have hstart : (if h.opcode = .continuation then a else ⟨true, h.opcode, 0⟩) =
      (⟨true, if h.opcode = .continuation then a.message_opcode else h.opcode,
        if h.opcode = .continuation then a.accumulated_len else 0⟩ : WsMessageAssembler) := by
    by_cases hc : h.opcode = .continuation
    · have hf := hseq.mp hc
      obtain ⟨b, op, n⟩ := a
      cases hf
      rw [if_pos hc, if_pos hc, if_pos hc]
    · rw [if_neg hc, if_neg hc, if_neg hc]
  rw [hstart] at hne ⊢
  refine ⟨hseq, ?_⟩
  generalize (if h.opcode = .continuation then a.accumulated_len else 0) = n at hne ⊢
  generalize (if h.opcode = .continuation then a.message_opcode else h.opcode) = op at hne ⊢
  by_cases hover : h.payload_len > 2 ^ 64 - 1 - n ∨ limit ≠ 0 ∧ (n > limit ∨ h.payload_len > limit - n)
  · rw [if_pos hover] at hne
    exact absurd rfl hne
  rw [if_neg hover]
  cases h.fin with
  | true => exact ⟨rfl, nofun⟩
  | false => exact ⟨rfl, fun _ => rfl⟩

def compressedMessage (part : List Frame) (h : WsFrameHeader) : Bool := (part.head?.map Frame.compressed).getD h.compressed

lemma readFrame_eq {masked} {s : Str} (hparse : ws_parse_header masked codec s = .done h rest) :
    readFrame masked codec s =
      if h.payload_len ≤ rest.length then .done (h.frame (rest.take h.payload_len)) (rest.drop h.payload_len)
      else .stall () := by
  unfold readFrame
  simp only [Bind.bind, Reader.bind, hparse]
  unfold Reader.take
  by_cases hlen : h.payload_len ≤ rest.length
  · simp only [if_pos hlen]
    rfl
  · simp only [if_neg hlen]

lemma readFrame_fail {masked} {s : Str} (hparse : ws_parse_header masked codec s = .fail) :
    readFrame masked codec s = .fail := by
  unfold readFrame
  simp only [Bind.bind, Reader.bind, hparse]

lemma readFrame_stall {masked} {s : Str} {u} (hparse : ws_parse_header masked codec s = .stall u) :
    readFrame masked codec s = .stall () := by
  unfold readFrame
  simp only [Bind.bind, Reader.bind, hparse]

namespace Carries

lemma flag_eq (hc : Carries t codec st part before) (hcur : Current t st before p h rest)
    (hseq : h.opcode = .continuation ↔ st.assembler.in_fragmented = true) :
    (if st.partial_data_frame = true ∨ h.opcode = .continuation then st.compressed_message else h.compressed) =
      compressedMessage part h := by
  cases part with
  | nil =>
    have hop : ¬ h.opcode = .continuation := by
      rw [hseq, hc.fragmented]
      exact Bool.false_ne_true
    by_cases hpart : st.partial_data_frame = true
    · obtain ⟨r, hheader⟩ := hcur.header
      rw [WsInspector.header, if_pos hpart] at hheader
      cases hheader
      rw [if_pos (.inl hpart), hc.fresh hpart rfl]
      rfl
    · rw [if_neg (by rintro (h₁ | h₁); exacts [hpart h₁, hop h₁])]
      rfl
  | cons g gs =>
    have hop : h.opcode = .continuation := by
      rw [hseq, hc.fragmented]
      rfl
    rw [if_pos (.inr hop), hc.compressed g rfl]
    rfl

lemma ends {body op} (hc : Carries t codec st part before) (hdata : h.opcode.isControl = false)
    (hlen : body.length = h.payload_len) (hseq : h.opcode = .continuation ↔ st.assembler.in_fragmented = true)
    (hpart : st'.partial_data_frame = false) (hzero : st'.partial_payload_len = 0) (hdec : st'.decoder.isSome = codec)
    (hasm : st'.assembler = if h.fin then {} else
      ⟨true, op, (if h.opcode = .continuation then st.assembler.accumulated_len else 0) + h.payload_len⟩)
    (hflag : h.fin = false → st'.compressed_message = compressedMessage part h) :
    Carries t codec st' (advance part (h.frame body)) [] := by
  have hcontrol : ¬ (h.frame body).opcode.isControl = true := by
    show ¬ h.opcode.isControl = true
    rw [hdata]
    exact Bool.false_ne_true
  have hpayload : (h.frame body).payload.length = h.payload_len := by
    unfold WsFrameHeader.frame
    split_ifs
    · rw [ws_unmask, length_ws_unmask_chunk, hlen]
    · exact hlen
  have hnever : ¬ st'.partial_data_frame = true := by rw [hpart]; exact Bool.false_ne_true
  rw [advance, if_neg hcontrol]
  refine ⟨framed_whole hpart hzero, hdec, ?_, ?_, ?_, fun hp => absurd hp hnever, fun hp => absurd hp hnever⟩
  · rw [hasm]
    show _ = !(if h.fin = true then [] else part ++ [h.frame body]).isEmpty
    cases h.fin with
    | true => rfl
    | false => cases part <;> rfl
  · rw [hasm]
    show _ = (payloads (if h.fin = true then [] else part ++ [h.frame body])).length
    cases h.fin with
    | true => rfl
    | false =>
      rw [if_neg Bool.false_ne_true, if_neg Bool.false_ne_true, payloads_concat, List.length_append, hpayload]
      by_cases hop : h.opcode = .continuation
      · rw [if_pos hop, hc.accumulated]
      · have hnil : part = [] := by
          have hf : ¬ st.assembler.in_fragmented = true := fun hf => hop (hseq.mpr hf)
          rw [hc.fragmented] at hf
          cases part with
          | nil => rfl
          | cons g gs => exact absurd rfl hf
        rw [if_neg hop, hnil]
        rfl
  · show ∀ g, (if h.fin = true then [] else part ++ [h.frame body]).head? = some g → _
    intro g hg
    cases hfin : h.fin with
    | true =>
      rw [hfin] at hg
      cases hg
    | false =>
      rw [hfin, if_neg Bool.false_ne_true] at hg
      rw [hflag hfin]
      cases part with
      | nil =>
        cases hg
        rfl
      | cons g' gs =>
        cases hg
        rfl

end Carries

structure Delivers (st st' : WsInspector D) (flow : Flow) : Prop where
  assembler : st'.assembler = st.assembler
  partial_data_frame : st'.partial_data_frame = st.partial_data_frame
  partial_payload_len : st'.partial_payload_len = st.partial_payload_len
  decoder : st'.decoder = st.decoder
  goes : flow = .next ∧ st'.received_close = st.received_close ∨ flow = .close ∧ st'.received_close = false

lemma compress_emitted_message_encoder {n out out'} (hc : compress_emitted_message t st n out = some (st', out')) :
    ∃ encoder, st' = { st with encoder := encoder } := by
  unfold compress_emitted_message at hc
  split at hc
  · cases hc
    exact ⟨st.encoder, rfl⟩
  rename_i encoder _
  by_cases hsame : out.bytes.length = n
  · rw [if_pos hsame] at hc
    cases hc
    exact ⟨st.encoder, rfl⟩
  rw [if_neg hsame] at hc
  split at hc
  · rename_i h body _
    by_cases hbad : (h.opcode ≠ .text ∧ h.opcode ≠ .binary) ∨ h.payload_len ≠ body.length
    · rw [if_pos hbad] at hc
      cases hc
    rw [if_neg hbad] at hc
    split at hc
    · cases hc
    · cases hc
      exact ⟨_, rfl⟩
    · rename_i encoder' payload _
      by_cases hshort : payload.length < h.payload_len
      · rw [if_pos hshort] at hc
        obtain ⟨_, -, heq⟩ := Option.map_eq_some_iff.mp hc
        cases heq
        exact ⟨_, rfl⟩
      · rw [if_neg hshort] at hc
        cases hc
        exact ⟨_, rfl⟩
  · cases hc

lemma deliver_delivers (op : WsOpcode) (payload : Str) :
    (deliver t e op payload).1 = .error ∨ Delivers e.st (deliver t e op payload).2.st (deliver t e op payload).1 := by
  unfold deliver
  split_ifs
  · exact .inl rfl
  dsimp only
  split
  · exact .inl rfl
  · exact .inr ⟨rfl, rfl, rfl, rfl, .inl ⟨rfl, rfl⟩⟩
  · split
    · exact .inl rfl
    · rename_i hemit
      obtain ⟨out, -, hcomp⟩ := Option.bind_eq_some_iff.mp hemit
      obtain ⟨encoder, rfl⟩ := compress_emitted_message_encoder hcomp
      exact .inr ⟨rfl, rfl, rfl, rfl, .inl ⟨rfl, rfl⟩⟩
  · split
    · exact .inl rfl
    · exact .inr ⟨rfl, rfl, rfl, rfl, .inr ⟨rfl, rfl⟩⟩

lemma store_compressed_message {compressed last bytes} (hs : store t e h compressed last bytes = some e') :
    e'.st.compressed_message =
      if e.st.partial_data_frame = true ∨ h.opcode = .continuation then e.st.compressed_message else compressed := by
  have hfresh : (!e.st.partial_data_frame && h.opcode != .continuation) = true ↔
      ¬ (e.st.partial_data_frame = true ∨ h.opcode = .continuation) := by
    rw [Bool.and_eq_true, Bool.not_eq_true', bne_iff_ne, not_or, Bool.not_eq_true]
  unfold store at hs
  dsimp only at hs
  generalize hf : (!e.st.partial_data_frame && h.opcode != .continuation) = fresh at hs hfresh
  have hkeep : (if fresh = true then { e with st := { e.st with compressed_message := compressed } } else e).st.compressed_message =
      if e.st.partial_data_frame = true ∨ h.opcode = .continuation then e.st.compressed_message else compressed := by
    by_cases hpart : e.st.partial_data_frame = true ∨ h.opcode = .continuation
    · rw [if_pos hpart, if_neg fun hfr => hfresh.mp hfr hpart]
    · rw [if_neg hpart, if_pos (hfresh.mpr hpart)]
  rw [← hkeep]
  generalize (if fresh = true then { e with st := { e.st with compressed_message := compressed } } else e) = e₀ at hs
  cases compressed with
  | false =>
    cases hs
    rfl
  | true =>
    rw [if_pos rfl] at hs
    split at hs
    · cases hs
    split at hs
    · cases hs
    split at hs
    · cases hs
    cases hs
    rfl

inductive Turned (t : Tunnel D) (codec : Bool) (st : WsInspector D) (part : List Frame) (before p : Str) (flow : Flow)
    (n : Nat) (st' : WsInspector D) : Prop where
  | stops (hflow : flow = .stop) (hn : n ≤ p.length) (hc : Carries t codec st' part (before ++ p.take n))
      (hclose : st'.received_close = st.received_close)
  | reads (f : Frame) (hread : readFrame t.masked codec (before ++ p) = .done f (p.drop n))
      (hgoes : (flow = .next ∧ st'.received_close = st.received_close) ∨ flow = .close)
      (hc : flow = .next ∨ st'.received_close = false → Carries t codec st' (advance part f) [])
  | fails (hflow : flow = .error)

lemma endFrame_turned {compressed body} (hc : Carries t codec st part before)
    (hdata : h.opcode.isControl = false) (hlen : body.length = h.payload_len) (hs : Stores st e.st)
    (hflag : e.st.compressed_message = compressedMessage part h) :
    let r := endFrame t e h compressed
    r.1 = .error ∨ (((r.1 = .next ∧ r.2.st.received_close = st.received_close) ∨ r.1 = .close) ∧
      (r.1 = .next ∨ r.2.st.received_close = false → Carries t codec r.2.st (advance part (h.frame body)) [])) := by
  unfold endFrame
  dsimp only
  generalize (if compressed = true then ws_deflate_wire_limit (decodedLimit t) else t.max_message_size) = limit
  rw [hs.assembler]
  have hfeed := @ws_message_feed_accepts h st.assembler limit
  generalize ws_message_feed st.assembler h limit = r at hfeed
  obtain ⟨status, assembler⟩ := r
  have hdec : e.st.decoder.isSome = codec := hs.decoder.trans hc.decoder
  cases status with
  | error => exact .inl rfl
  | needMore =>
    obtain ⟨hseq, hasm, -⟩ := hfeed nofun
    refine .inr ⟨.inl ⟨rfl, hs.received_close⟩, fun _ => ?_⟩
    exact hc.ends hdata hlen hseq rfl rfl hdec hasm fun _ => hflag
  | complete op total =>
    obtain ⟨hseq, hasm, hmore⟩ := hfeed nofun
    have hfin : ¬ h.fin = false := fun hf => by cases hmore hf
    refine (deliver_delivers _ _).imp id fun hd => ?_
    refine ⟨hd.goes.imp (fun hn => ⟨hn.1, hn.2.trans hs.received_close⟩) And.left, fun _ => ?_⟩
    exact hc.ends hdata hlen hseq hd.partial_data_frame hd.partial_payload_len
      ((congrArg Option.isSome hd.decoder).trans hdec) (hd.assembler.trans hasm) fun hf => absurd hf hfin

lemma controlFrame_keeps (payload : Str) :
    let r := controlFrame t e h payload
    r.1 = .error ∨ (r.1 = .next ∧ r.2.st = e.st) ∨ (r.1 = .close ∧ r.2.st.received_close = true) := by
  unfold controlFrame
  split_ifs
  · split
    · exact .inl rfl
    · dsimp only
      split
      · exact .inl rfl
      · exact .inr (.inr ⟨rfl, rfl⟩)
  · split
    · exact .inl rfl
    · exact .inr (.inl ⟨rfl, rfl⟩)

lemma refused_false (hr : refused t st h = false) (hdata : h.opcode.isControl = false) :
    h.opcode = .continuation ↔ st.assembler.in_fragmented = true := by
  unfold refused at hr
  rw [hdata, Bool.not_false, Bool.true_and, Bool.or_eq_false_iff, Bool.or_eq_false_iff] at hr
  obtain ⟨⟨-, hcont⟩, -⟩ := hr
  rw [bne_eq_false_iff_eq] at hcont
  rw [← hcont, beq_iff_eq]

lemma Carries.seq_iff (hc : Carries t codec st part before) : st.assembler.in_fragmented = true ↔ part ≠ [] := by
  rw [hc.fragmented]
  cases part <;> simp

lemma dataFrame_turned (hc : Carries t codec e.st part before) (hcur : Current t e.st before p h rest)
    (hdata : h.opcode.isControl = false) (hr : refused t e.st h = false) :
    let r := dataFrame t e h p
    Turned t codec e.st part before p r.1 r.2.1 r.2.2.st := by
  have hparse := hcur.parse
  rw [hc.decoder] at hparse
  have hseq := refused_false hr hdata
  have hflag : e.st.compressed h = compressedMessage part h := by
    rw [WsInspector.compressed, hdata, Bool.not_false, Bool.true_and]
    exact hc.flag_eq hcur hseq
  rw [dataFrame_eq hcur, hflag]
  cases hstore : store t e h (compressedMessage part h) (decide (h.payload_len ≤ rest.length))
    ((rest.take h.payload_len).drop e.st.partial_payload_len) with
  | none => exact .fails rfl
  | some e' =>
    obtain ⟨hs, -, -⟩ := store_stores hstore
    have hmsg : e'.st.compressed_message = compressedMessage part h := by
      rw [store_compressed_message hstore, ← hc.flag_eq hcur hseq]
      split_ifs <;> rfl
    dsimp only
    by_cases hshort : rest.length < h.payload_len
    · rw [if_pos hshort]
      refine .stops rfl (Nat.le_refl _) ?_ hs.received_close
      rw [List.take_length]
      refine ⟨⟨nofun, fun _ => ⟨rest, ?_, rfl, hshort, hdata⟩⟩, hs.decoder.trans hc.decoder, ?_, ?_, ?_, ?_, ?_⟩
      · show ws_parse_header t.masked e'.st.decoder.isSome (before ++ p) = .done h rest
        rw [hs.decoder]
        exact hcur.parse
      · exact (congrArg WsMessageAssembler.in_fragmented hs.assembler).trans hc.fragmented
      · exact (congrArg WsMessageAssembler.accumulated_len hs.assembler).trans hc.accumulated
      · intro g hg
        refine hmsg.trans ?_
        rw [compressedMessage, hg]
        rfl
      · rintro - rfl
        exact hmsg
      · exact fun _ => hseq.trans hc.seq_iff
    · rw [if_neg hshort]
      have hle := Nat.not_lt.mp hshort
      have hread := readFrame_eq hparse
      rw [if_pos hle, ← hcur.drop_total] at hread
      rcases endFrame_turned hc hdata (List.length_take_of_le hle) hs hmsg with hfail | ⟨hgoes, hcarries⟩
      · exact .fails hfail
      · exact .reads _ hread hgoes hcarries

lemma turn_turned (hc : Carries t codec e.st part before) (p : Str) :
    let r := turn t e p
    Turned t codec e.st part before p r.1 r.2.1 r.2.2.st := by
  have hstop : Carries t codec e.st part (before ++ p.take 0) := by rwa [List.take_zero, List.append_nil]
  rcases hc.framed.header_eq p with ⟨h, rest, hcur⟩ | ⟨-, hheader⟩ | ⟨u, -, hheader⟩
  · rw [turn_eq hcur]
    by_cases hr : refused t e.st h = true
    · rw [if_pos hr]
      exact .fails rfl
    rw [if_neg hr]
    by_cases hshort : rest.length < h.payload_len ∧ (h.opcode.isControl = true ∨ e.out.bytes ≠ [])
    · rw [if_pos hshort]
      exact .stops rfl (Nat.zero_le _) hstop rfl
    rw [if_neg hshort]
    by_cases hfree : e.out.bytes ≠ [] ∧ needed t e.st h (e.st.frameTotal h) > t.out_cap - e.out.bytes.length
    · rw [if_pos hfree]
      exact .stops rfl (Nat.zero_le _) hstop rfl
    rw [if_neg hfree]
    by_cases hcontrol : h.opcode.isControl = true
    · rw [if_pos hcontrol]
      have hle : h.payload_len ≤ rest.length := Nat.not_lt.mp fun hlt => hshort ⟨hlt, .inl hcontrol⟩
      have hparse := hcur.parse
      rw [hc.decoder] at hparse
      have hread := readFrame_eq hparse
      rw [if_pos hle, ← hcur.drop_total] at hread
      have hadvance : advance part (h.frame (rest.take h.payload_len)) = part := if_pos hcontrol
      have hnil := (hc.framed.whole (hcur.control hcontrol).1).1
      dsimp only
      rcases @controlFrame_keeps D t e h (plainBody t h rest) with hfail | ⟨hnext, hst⟩ | ⟨hclose, hreceived⟩
      · exact .fails hfail
      · rw [if_neg (by rw [hnext]; exact nofun)]
        refine .reads _ hread (.inl ⟨hnext, by rw [hst]⟩) fun _ => ?_
        rw [hadvance, hst]
        rwa [hnil] at hc
      · rw [if_neg (by rw [hclose]; exact nofun)]
        refine .reads _ hread (.inr hclose) ?_
        rintro (hnext | hno)
        · rw [hclose] at hnext
          cases hnext
        · rw [hreceived] at hno
          cases hno
    · rw [if_neg hcontrol]
      exact dataFrame_turned hc hcur (Bool.eq_false_of_not_eq_true hcontrol) (Bool.eq_false_of_not_eq_true hr)
  · unfold turn
    rw [hheader]
    exact .fails rfl
  · unfold turn
    rw [hheader]
    exact .stops rfl (Nat.zero_le _) hstop rfl

/-! ## Inspections with or without codecs -/

/-- A stream begins with frames, of which `part` are those of the message in progress. -/
structure Cut (t : Tunnel D) (codec : Bool) (all : Str) (fs part : List Frame) (rest : Str) : Prop where
  eq : all = wires fs ++ rest
  wellFormed : ∀ f ∈ fs, f.WellFormed t.masked codec
  messages : ∃ groups, Messages fs groups part

namespace Cut

variable {all : Str}

lemma nil (t : Tunnel D) (codec : Bool) (all : Str) : Cut t codec all [] [] all := ⟨rfl, nofun, [], rfl, nofun, nofun⟩

lemma feed (h : Cut t codec all fs part rest) (c : Str) : Cut t codec (all ++ c) fs part (rest ++ c) :=
  ⟨by rw [h.eq, List.append_assoc], h.wellFormed, h.messages⟩

lemma read {r : Str} (h : Cut t codec all fs part rest) (hread : readFrame t.masked codec rest = .done f r) :
    Cut t codec all (fs ++ [f]) (advance part f) r := by
  obtain ⟨hwf, rfl⟩ := readFrame_iff.mp hread
  obtain ⟨groups, hm⟩ := h.messages
  refine ⟨?_, fun g hg => ?_, ?_⟩
  · rw [h.eq, wires_append, wires_singleton, List.append_assoc]
  · rcases List.mem_append.mp hg with hg | hg
    · exact h.wellFormed g hg
    · rw [List.mem_singleton.mp hg]
      exact hwf
  · unfold advance
    split_ifs with hcontrol hfin
    · exact ⟨groups, hm.control hcontrol⟩
    · exact ⟨_, hm.finish (Bool.eq_false_of_not_eq_true hcontrol) hfin⟩
    · exact ⟨groups, hm.extend (Bool.eq_false_of_not_eq_true hcontrol) (Bool.eq_false_of_not_eq_true hfin)⟩

end Cut

def Placed (t : Tunnel D) (codec : Bool) (all : Str) (st : WsInspector D) (p : Str) : Prop :=
  ∃ fs part before, Carries t codec st part before ∧ Cut t codec all fs part (before ++ p)

lemma inspectLoop_placed {all fuel consumed} (hc : Carries t codec e.st part before)
    (hcut : Cut t codec all fs part (before ++ p)) (hopen : e.st.received_close = false) :
    let r := inspectLoop t fuel e p consumed
    ∃ n, r.2.1 = consumed + n ∧ (r.1 = .ok → r.2.2.st.received_close = false) ∧
      (r.1 ≠ .error → r.2.2.st.received_close = false → Placed t codec all r.2.2.st (p.drop n)) := by
  induction fuel generalizing e part before p fs consumed with
  | zero => exact ⟨0, rfl, fun _ => hopen, fun _ _ => ⟨fs, part, before, hc, hcut⟩⟩
  | succ fuel ih =>
    have hturn := turn_turned hc p
    unfold inspectLoop
    generalize turn t e p = r at hturn
    obtain ⟨flow, n, e'⟩ := r
    cases hturn with
    | stops hflow hn hc' hclose =>
      subst hflow
      refine ⟨n, rfl, fun _ => hclose.trans hopen, fun _ _ => ⟨fs, part, _, hc', ?_⟩⟩
      rwa [List.append_assoc, List.take_append_drop]
    | reads f hread hgoes hc' =>
      have hcut' := hcut.read hread
      rcases hgoes with ⟨rfl, hclose⟩ | rfl
      · obtain ⟨n', hn', hok, hplaced⟩ := @ih e' [] (p.drop n) _ _ (consumed + n) (hc' (.inl rfl)) hcut' (hclose.trans hopen)
        refine ⟨n + n', hn'.trans (Nat.add_assoc ..), hok, ?_⟩
        rwa [← List.drop_drop]
      · refine ⟨n, rfl, ?_, fun _ hno => ⟨_, _, [], hc' (.inr hno), hcut'⟩⟩
        intro hok
        cases hok
    | fails hflow =>
      subst hflow
      refine ⟨n, rfl, ?_, fun hne => absurd rfl hne⟩
      intro hok
      cases hok

namespace Leg

def start (decoder encoder : Option D) (msg : Buffer) : Leg D := { st := { decoder := decoder, encoder := encoder }, msg := msg }

lemma start_placed (t : Tunnel D) (decoder encoder : Option D) (msg : Buffer) :
    Placed t decoder.isSome [] (start decoder encoder msg).st [] := by
  refine ⟨[], [], [], ⟨framed_whole rfl rfl, rfl, rfl, rfl, nofun, nofun, nofun⟩, .nil ..⟩

lemma run_placed (t : Tunnel D) (decoder encoder : Option D) (msg : Buffer) (acts : List Act) :
    let l := acts.foldl (step t) (start decoder encoder msg)
    (l.status = .ok → l.st.received_close = false) ∧
      (l.status ≠ .error → l.st.received_close = false → Placed t decoder.isSome l.received l.st l.buffered) := by
  induction acts using List.reverseRecOn with
  | nil => exact ⟨fun _ => rfl, fun _ _ => start_placed t decoder encoder msg⟩
  | append_singleton acts a ih =>
    rw [List.foldl_append]
    generalize acts.foldl (step t) (start decoder encoder msg) = l at ih
    obtain ⟨hok, hplaced⟩ := ih
    cases a with
    | recv c =>
      refine ⟨hok, fun hne hno => ?_⟩
      obtain ⟨fs, part, before, hc, hcut⟩ := hplaced hne hno
      refine ⟨fs, part, before, hc, ?_⟩
      show Cut t _ (l.received ++ c) fs part (before ++ (l.buffered ++ c))
      rw [← List.append_assoc]
      exact hcut.feed c
    | inspect =>
      rw [List.foldl_cons, List.foldl_nil]
      unfold step
      by_cases hstatus : l.status = .ok
      · rw [if_pos hstatus]
        dsimp only
        have hopen := hok hstatus
        obtain ⟨fs, part, before, hc, hcut⟩ := hplaced (by rw [hstatus]; exact nofun) hopen
        unfold call ws_inspect
        split_ifs
        · exact ⟨nofun, fun hne => absurd rfl hne⟩
        · obtain ⟨n, hn, hok', hplaced'⟩ := @inspectLoop_placed D t ⟨l.st, l.msg, ⟨[], l.drawn⟩, []⟩ before l.buffered _
            fs part l.received (l.buffered.length + 2) 0 hc hcut hopen
          rw [hn, Nat.zero_add]
          exact ⟨hok', hplaced'⟩
      · rw [if_neg hstatus]
        exact ⟨hok, hplaced⟩

end Leg

end Rut.Ws
