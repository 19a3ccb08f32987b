import Rut.Ws.Reference
import Rut.Ws.Turn

/-!
# Inspections without a codec

The loop of `ws_inspect` and the machine go together turn by turn: the message buffer holds the message in progress, and
the bytes of a data frame that has only begun are those that the machine is yet to read.
-/

set_option linter.all false
namespace Rut.Ws

open Lib (Memory.read Memory.write)
open Lib.Memory (read_add read_write read_write_of_le length_read read_zero)
open Incremental

variable {D : Type} {t : Tunnel D} {st : WsInspector D} {e e' : Engine D} {m : Assembly} {msg : Buffer}
  {before p rest : Str} {h : WsFrameHeader} {f : Frame}

def plain (t : Tunnel D) (h : WsFrameHeader) (body : Str) : Str := if t.masked then ws_unmask body h.mask_key else body

/-- The inspector and the message buffer stand for the message in progress, with `before` read of the current frame. -/
structure Tracks (t : Tunnel D) (st : WsInspector D) (msg : Buffer) (m : Assembly) (before : Str) : Prop where
  framed : Framed t st before
  decoder : st.decoder = none
  encoder : st.encoder = none
  compressed : st.compressed_message = false
  fragmented : st.assembler.in_fragmented = m.opcode.isSome
  opcode : ∀ op, m.opcode = some op → st.assembler.message_opcode = op
  idle : m.opcode = none → m.payload = []
  accumulated : st.assembler.accumulated_len = m.payload.length
  message_len : st.message_len = m.payload.length
  bound : m.payload.length ≤ t.msg_cap
  stored : Memory.read msg 0 m.payload.length = m.payload
  part : st.partial_data_frame = true → ∃ body,
    ws_parse_header t.masked false before = .done st.partial_header body ∧ turnedAway t m st.partial_header = false ∧
      Memory.read msg m.payload.length body.length = plain t st.partial_header body

/-! ## Reading -/

lemma inspected_eq {s : Str} (hparse : ws_parse_header t.masked false s = .done h rest) : inspected t m s =
      if turnedAway t m h then .fail
      else if h.payload_len ≤ rest.length then .done (h.frame (rest.take h.payload_len)) (rest.drop h.payload_len)
      else .stall () := by
  unfold inspected
  simp only [Bind.bind, Reader.bind, hparse]
  by_cases haway : turnedAway t m h = true
  · rw [if_pos haway, if_pos haway]
    rfl
  rw [if_neg haway, if_neg haway]
  unfold Reader.take Reader.bind
  by_cases hlen : h.payload_len ≤ rest.length
  · simp only [if_pos hlen]
    rfl
  · simp only [if_neg hlen]

lemma inspected_fail {s : Str} (hparse : ws_parse_header t.masked false s = .fail) : inspected t m s = .fail := by
  unfold inspected
  simp only [Bind.bind, Reader.bind, hparse]

lemma inspected_stall {s : Str} {u} (hparse : ws_parse_header t.masked false s = .stall u) :
    inspected t m s = .stall u := by
  unfold inspected
  simp only [Bind.bind, Reader.bind, hparse]

lemma header_plain {s : Str} (hparse : ws_parse_header t.masked false s = .done h rest) :
    h.masked = t.masked ∧ h.compressed = false ∧ h.payload_len < 2 ^ 63 ∧
      (h.opcode.isControl = true → h.payload_len ≤ kWsMaxControlPayload) := by
  obtain ⟨key, hh, hkey, hok, -⟩ := ws_parse_header_iff.mp hparse
  refine ⟨?_, ?_, hok.length, fun hc => (hok.control hc).2.1⟩
  · rw [hh]
    exact hkey
  · by_contra hc
    exact Bool.false_ne_true (hok.compressed (Bool.eq_true_of_not_eq_false hc)).1

lemma frame_payload (hmasked : h.masked = t.masked) (body : Str) : (h.frame body).payload = plain t h body := by
  unfold WsFrameHeader.frame plain
  rw [hmasked]

@[simp] lemma length_plain (t : Tunnel D) (h : WsFrameHeader) (body : Str) : (plain t h body).length = body.length := by
  unfold plain
  split_ifs
  · exact length_ws_unmask ..
  · rfl

namespace Tracks

lemma not_compressed (ht : Tracks t st msg m before) (hc : h.compressed = false) : st.compressed h = false := by
  unfold WsInspector.compressed
  rw [ht.compressed, hc, ite_self, Bool.and_false]

lemma refused_eq (ht : Tracks t st msg m before) (hc : h.compressed = false) : refused t st h = turnedAway t m h := by
  unfold refused turnedAway
  rw [ht.not_compressed hc, ht.fragmented, ht.message_len]
  rfl

end Tracks

lemma turnedAway_false (haway : turnedAway t m h = false) (hdata : h.opcode.isControl = false) :
    (h.opcode = .continuation ↔ m.opcode.isSome = true) ∧ m.payload.length + h.payload_len ≤ t.msg_cap ∧
      (t.max_message_size ≠ 0 → m.payload.length + h.payload_len ≤ t.max_message_size) := by
  unfold turnedAway at haway
  rw [hdata] at haway
  simp only [Bool.not_false, Bool.true_and, Bool.or_eq_false_iff, decide_eq_false_iff_not, Bool.and_eq_false_iff] at haway
  obtain ⟨⟨-, hcont⟩, hcap, hmax⟩ := haway
  refine ⟨?_, by omega, fun hne => ?_⟩
  · rw [bne_eq_false_iff_eq] at hcont
    rw [← hcont, beq_iff_eq]
  · rcases hmax with hmax | hmax
    · simp [hne] at hmax
    · omega

lemma ws_message_feed_eq (ht : Tracks t st msg m before) (haway : turnedAway t m h = false)
    (hdata : h.opcode.isControl = false) (hc : h.compressed = false) (hlen : h.payload_len < 2 ^ 63) :
    ws_message_feed st.assembler h t.max_message_size =
      if h.fin then (.complete (m.opcode.getD h.opcode) (m.payload.length + h.payload_len), {})
      else (.needMore, ⟨true, m.opcode.getD h.opcode, m.payload.length + h.payload_len⟩) := by
  obtain ⟨hcont, hcap, hmax⟩ := turnedAway_false haway hdata
  have hbig := t.msg_cap_lt
  have hfragmented := ht.fragmented
  -- the assembler after the first frame of a message is seen
  have hstart : (if h.opcode = .continuation then st.assembler else ⟨true, h.opcode, 0⟩) =
      (⟨true, m.opcode.getD h.opcode, m.payload.length⟩ : WsMessageAssembler) := by
    cases hop : m.opcode with
    | some op =>
      rw [hop] at hcont hfragmented
      rw [if_pos (hcont.mpr rfl), Option.getD_some, ← ht.opcode op hop, ← ht.accumulated]
      cases hasm : st.assembler
      rw [hasm] at hfragmented
      exact congrArg (fun b => WsMessageAssembler.mk b _ _) hfragmented
    | none =>
      rw [hop] at hcont
      rw [if_neg (fun hc => Bool.false_ne_true (hcont.mp hc)), Option.getD_none, ht.idle hop]
      rfl
  unfold ws_message_feed
  rw [if_neg (by rw [hdata]; exact Bool.false_ne_true)]
  rw [if_neg (c := h.opcode = .continuation ∧ (st.assembler.in_fragmented = false ∨ h.compressed = true)), if_neg]
  · dsimp only
    rw [hstart, if_neg]
    dsimp only
    rintro (hover | ⟨hne, hover⟩)
    · omega
    · have := hmax hne
      omega
  · rintro ⟨hne, hfrag⟩
    rw [hfragmented] at hfrag
    exact hne (hcont.mpr hfrag)
  · rintro ⟨heq, hbad | hbad⟩
    · rw [hfragmented, hcont.mp heq] at hbad
      cases hbad
    · rw [hc] at hbad
      cases hbad

/-! ## Storing -/

lemma store_eq (ht : Tracks t e.st e.msg m before) {last} (bytes : Str) : store t e h false last bytes = some { e with
      msg := Memory.write e.msg (m.payload.length + e.st.partial_payload_len) <|
        if t.masked then ws_unmask_chunk bytes h.mask_key e.st.partial_payload_len else bytes } := by
  have hsame : (if (!e.st.partial_data_frame && h.opcode != .continuation) = true then
      { e with st := { e.st with compressed_message := false } } else e) = e := by
    split_ifs
    · rw [← ht.compressed]
    · rfl
  unfold store
  dsimp only
  rw [hsame, if_neg Bool.false_ne_true, ht.message_len]

lemma plain_append (t : Tunnel D) (h : WsFrameHeader) (a b : Str) :
    plain t h (a ++ b) = plain t h a ++ if t.masked then ws_unmask_chunk b h.mask_key a.length else b := by
  unfold plain ws_unmask
  split_ifs
  · rw [ws_unmask_chunk_append, Nat.zero_add]
  · rfl

/-- The buffer holds the message in progress and `body` of the current frame, and nothing behind its end has changed. -/
structure Written (t : Tunnel D) (m : Assembly) (h : WsFrameHeader) (msg msg' : Buffer) (body : Str) : Prop where
  stored : Memory.read msg' 0 m.payload.length = m.payload
  body : Memory.read msg' m.payload.length body.length = plain t h body
  outside : ∀ i, t.msg_cap ≤ i → msg' i = msg i

lemma Tracks.seen (ht : Tracks t st msg m before) (hc : Current t st before p h rest) :
    Memory.read msg m.payload.length st.partial_payload_len = plain t h (rest.take st.partial_payload_len) := by
  cases hpart : st.partial_data_frame with
  | false =>
    rw [(ht.framed.whole hpart).2, read_zero, List.take_zero]
    unfold plain
    split_ifs <;> rfl
  | true =>
    obtain ⟨body, hparse, -, hread⟩ := ht.part hpart
    obtain ⟨body', hparse', hlen, -, -⟩ := ht.framed.part hpart
    rw [ht.decoder, Option.isSome_none, hparse] at hparse'
    cases hparse'
    have hcur := hc.parse
    rw [ht.decoder, Option.isSome_none, (stable_ws_parse_header ..).done_append hparse p] at hcur
    cases hcur
    rw [← hlen, hread, List.take_left]

lemma Tracks.written (ht : Tracks t st msg m before) (hc : Current t st before p h rest)
    (hcap : m.payload.length + h.payload_len ≤ t.msg_cap) :
    Written t m h msg (Memory.write msg (m.payload.length + st.partial_payload_len)
      (if t.masked then ws_unmask_chunk ((rest.take h.payload_len).drop st.partial_payload_len) h.mask_key
        st.partial_payload_len else (rest.take h.payload_len).drop st.partial_payload_len)) (rest.take h.payload_len) := by
  have hseen := hc.seen
  have hle := hc.seen_le
  generalize hbody : rest.take h.payload_len = body
  have hlen : body.length = min h.payload_len rest.length := by rw [← hbody, List.length_take]
  have htake : (body.take st.partial_payload_len).length = st.partial_payload_len := by
    rw [List.length_take]
    omega
  generalize hbytes : (if t.masked then ws_unmask_chunk (body.drop st.partial_payload_len) h.mask_key
    st.partial_payload_len else body.drop st.partial_payload_len) = bytes
  have hcount : bytes.length = body.length - st.partial_payload_len := by
    rw [← hbytes]
    split_ifs
    · rw [length_ws_unmask_chunk, List.length_drop]
    · rw [List.length_drop]
  refine ⟨?_, ?_, fun i hi => Lib.Memory.write_of_ge (by omega)⟩
  · rw [read_write_of_le (by omega)]
    exact ht.stored
  · have hsplit : body.length = st.partial_payload_len + bytes.length := by omega
    have hplain := plain_append t h (body.take st.partial_payload_len) (body.drop st.partial_payload_len)
    rw [List.take_append_drop, htake, hbytes] at hplain
    rw [hplain, hsplit, read_add, read_write_of_le (Nat.le_refl _), read_write, ht.seen hc, ← hbody, List.take_take,
      Nat.min_eq_left hle]

/-! ## A turn -/

lemma framed_whole (hpart : st.partial_data_frame = false) (hzero : st.partial_payload_len = 0) : Framed t st [] where
  whole := fun _ => ⟨rfl, hzero⟩
  part := fun hp => absurd (hpart.symm.trans hp) Bool.false_ne_true

lemma tracks_idle (hf : Framed t st []) (hpart : st.partial_data_frame = false) (hdec : st.decoder = none)
    (henc : st.encoder = none) (hcomp : st.compressed_message = false) (hasm : st.assembler = {})
    (hlen : st.message_len = 0) : Tracks t st msg {} [] where
  framed := hf
  decoder := hdec
  encoder := henc
  compressed := hcomp
  fragmented := by rw [hasm]; rfl
  opcode := nofun
  idle := fun _ => rfl
  accumulated := by rw [hasm]; rfl
  message_len := hlen
  bound := Nat.zero_le _
  stored := rfl
  part := fun hp => absurd (hpart.symm.trans hp) Bool.false_ne_true

lemma endFrame_sim {body} (ht : Tracks t e.st msg m before) (hw : Written t m h msg e.msg body)
    (hlen : body.length = h.payload_len) (haway : turnedAway t m h = false) (hdata : h.opcode.isControl = false)
    (hmasked : h.masked = t.masked) (hplain : h.compressed = false) (hlt : h.payload_len < 2 ^ 63)
    (hroom : h.fin = true →
      HasRoom t e.out (messageRoom t (m.payload.length + h.payload_len) + kWsMaxHeaderSize)) :
    let r := endFrame t e h false
    Does t e r.2 (inspects t m (h.frame body)).1 ∧ r.1.Agrees (inspects t m (h.frame body)).2 ∧ r.2.msg = e.msg ∧
      ∀ m', (inspects t m (h.frame body)).2 = .inl m' → Tracks t r.2.st r.2.msg m' [] := by
  obtain ⟨-, hcap, -⟩ := turnedAway_false haway hdata
  have hpayload : (h.frame body).payload = plain t h body := frame_payload hmasked body
  have hread : Memory.read e.msg 0 (m.payload.length + h.payload_len) = m.payload ++ plain t h body := by
    rw [read_add, hw.stored, Nat.zero_add, ← hlen, hw.body]
  have hcontrol : ¬ (h.frame body).opcode.isControl = true := by
    show ¬ h.opcode.isControl = true
    rw [hdata]
    exact Bool.false_ne_true
  unfold endFrame inspects
  dsimp only
  rw [if_neg Bool.false_ne_true, ws_message_feed_eq ht haway hdata hplain hlt, if_neg hcontrol]
  cases hfin : h.fin with
  | true =>
    rw [if_pos rfl, if_pos (show (h.frame body).fin = true from hfin), hpayload]
    dsimp only
    rw [if_neg Bool.false_ne_true, if_neg Bool.false_ne_true, hread]
    have hlength : (m.payload ++ plain t h body).length = m.payload.length + h.payload_len := by
      rw [List.length_append, length_plain, hlen]
    generalize hnew : ({ e with st := { { e.st with partial_data_frame := false, partial_payload_len := 0 } with
      assembler := {}, message_len := e.st.message_len + h.payload_len } } : Engine D) = e₁
    have henc : e₁.st.encoder = none := by
      rw [← hnew]
      exact ht.encoder
    have hout : e₁.out = e.out := by rw [← hnew]
    have hcalls : e₁.calls = e.calls := by rw [← hnew]
    obtain ⟨hdoes, hflow, hmsg, hnext⟩ := @deliver_sim D t e₁ (m.opcode.getD h.opcode) _ henc
      (show HasRoom t e₁.out (messageRoom t (m.payload ++ plain t h body).length + kWsMaxHeaderSize) by
        rw [hlength, hout]; exact hroom hfin)
    refine ⟨⟨?_, ?_, ?_⟩, hflow, ?_, fun m' hm' => ?_⟩
    · rw [← hcalls]
      exact hdoes.calls
    · rw [← hout]
      exact hdoes.out
    · rw [← hout]
      exact hdoes.room
    · rw [hmsg, ← hnew]
    · rw [show (h.frame body).opcode = h.opcode from rfl] at hm'
      have hgoes : (deliver t e₁ (m.opcode.getD h.opcode) (m.payload ++ plain t h body)).1 = .next := by
        rw [hm'] at hflow
        exact hflow
      obtain ⟨hidle, hst⟩ := hnext hgoes
      rw [hm'] at hidle
      cases hidle
      rw [hst, ← hnew]
      exact tracks_idle (framed_whole rfl rfl) rfl ht.decoder ht.encoder rfl rfl rfl
  | false =>
    have hopen : ¬ (h.frame body).fin = true := by
      show ¬ h.fin = true
      rw [hfin]
      exact Bool.false_ne_true
    rw [if_neg Bool.false_ne_true, if_neg hopen]
    refine ⟨Does.nothing rfl rfl, rfl, rfl, fun m' hm' => ?_⟩
    cases hm'
    have hlength : (m.payload ++ (h.frame body).payload).length = m.payload.length + h.payload_len := by
      rw [List.length_append, hpayload, length_plain, hlen]
    refine ⟨framed_whole rfl rfl, ht.decoder, ht.encoder, ht.compressed, rfl, ?_, nofun, hlength.symm, ?_, ?_, ?_, nofun⟩
    · intro op hop
      exact Option.some.inj hop
    · show e.st.message_len + h.payload_len = _
      rw [ht.message_len]
      exact hlength.symm
    · rw [Assembly.extend, hlength]
      exact hcap
    · rw [Assembly.extend, hlength, hpayload]
      exact hread

def frameBuffered (t : Tunnel D) (st : WsInspector D) (p : Str) : Prop :=
  ∃ h r, st.header t p = .done h r ∧ st.frameTotal h ≤ p.length

inductive TurnSim (t : Tunnel D) (e : Engine D) (m : Assembly) (before p : Str) (flow : Flow) (n : Nat) (e' : Engine D) :
    Prop where
  | stops (hflow : flow = .stop) (hdoes : Does t e e' []) (hn : n ≤ p.length)
      (ht : Tracks t e'.st e'.msg m (before ++ p.take n))
      (hwait : e.out.bytes = [] → ¬ frameBuffered t e.st p ∧ inspected t m (before ++ p) = .stall ())
  | fails (hflow : flow = .error) (hdoes : Does t e e' []) (hread : inspected t m (before ++ p) = .fail)
  | reads (f : Frame) (r : Str) (hread : inspected t m (before ++ p) = .done f r)
      (hdoes : Does t e e' (inspects t m f).1) (hflow : flow.Agrees (inspects t m f).2)
      (hn : flow ≠ .error → r = p.drop n ∧ r.length < p.length)
      (ht : ∀ m', (inspects t m f).2 = .inl m' → Tracks t e'.st e'.msg m' [])

lemma header_len_eq {s : Str} {allow_compressed} (hparse : ws_parse_header t.masked allow_compressed s = .done h rest) :
    h.header_len = headerSize t.masked h.payload_len := by
  obtain ⟨key, hh, hkey, -, -⟩ := ws_parse_header_iff.mp hparse
  rw [hh, ← hkey]
  exact length_headerWire h.fin h.compressed h.opcode key h.payload_len

lemma Current.not_buffered (hc : Current t st before p h rest) (hshort : rest.length < h.payload_len) :
    ¬ frameBuffered t st p := by
  rintro ⟨h', r', hheader, hle⟩
  obtain ⟨r, hheader'⟩ := hc.header
  rw [hheader] at hheader'
  cases hheader'
  exact absurd (hc.lt_iff.mpr hshort) (Nat.not_lt.mpr hle)

lemma hasRoom {n} (hcap : e.out.bytes.length ≤ t.out_cap)
    (hfree : ¬ (e.out.bytes ≠ [] ∧ n > t.out_cap - e.out.bytes.length)) : HasRoom t e.out n := by
  by_cases hnil : e.out.bytes = []
  · exact .inl hnil
  · exact .inr ⟨Nat.not_lt.mp fun hlt => hfree ⟨hnil, hlt⟩, hcap⟩

lemma control_sim (ht : Tracks t e.st e.msg m before) (hc : Current t e.st before p h rest)
    (hparse : ws_parse_header t.masked false (before ++ p) = .done h rest) (hcap : e.out.bytes.length ≤ t.out_cap)
    (hfree : ¬ (e.out.bytes ≠ [] ∧ needed t e.st h (e.st.frameTotal h) > t.out_cap - e.out.bytes.length))
    (hcontrol : h.opcode.isControl = true) (hle : h.payload_len ≤ rest.length) (haway : turnedAway t m h = false) :
    let r := controlFrame t e h (plainBody t h rest)
    TurnSim t e m before p r.1 (if r.1 = .error then 0 else e.st.frameTotal h) r.2 ∧ r.2.msg = e.msg := by
  obtain ⟨hmasked, -, -, hmax⟩ := header_plain hparse
  obtain ⟨hpart, hzero⟩ := hc.control hcontrol
  have hread : inspected t m (before ++ p) = .done (h.frame (rest.take h.payload_len)) (rest.drop h.payload_len) := by
    rw [inspected_eq hparse, haway, if_neg Bool.false_ne_true, if_pos hle]
  have hbody : plainBody t h rest = (h.frame (rest.take h.payload_len)).payload := (frame_payload hmasked _).symm
  have hlen : (plainBody t h rest).length = h.payload_len := by
    rw [hbody, frame_payload hmasked, length_plain, List.length_take]
    exact Nat.min_eq_left hle
  have hroom : HasRoom t e.out (headerSize t.masked (plainBody t h rest).length + (plainBody t h rest).length) := by
    have htotal : needed t e.st h (e.st.frameTotal h) =
        headerSize t.masked (plainBody t h rest).length + (plainBody t h rest).length := by
      rw [needed, if_pos hcontrol, WsInspector.frameTotal, WsInspector.headerLen, hpart, hzero, if_neg Bool.false_ne_true, hlen,
        header_len_eq hparse]
      rfl
    rw [htotal] at hfree
    exact hasRoom hcap hfree
  obtain ⟨hdoes, hflow, hmsg, hnext⟩ := @controlFrame_sim D t e (plainBody t h rest) h m hroom
  have hinspects : inspects t m (h.frame (rest.take h.payload_len)) = passes t m h.opcode (plainBody t h rest) := by
    rw [inspects, if_pos (show (h.frame (rest.take h.payload_len)).opcode.isControl = true from hcontrol), hbody]
    rfl
  refine ⟨.reads _ _ hread (hinspects ▸ hdoes) (hinspects ▸ hflow) (fun hne => ?_) fun m' hm' => ?_, hmsg⟩
  · rw [if_neg hne, hc.drop_total]
    exact ⟨rfl, hc.drop_lt hle⟩
  · rw [hinspects] at hm'
    rw [hm'] at hflow
    obtain ⟨hst, hsame⟩ := hnext hflow
    rw [hm'] at hsame
    cases hsame
    rw [hst, hmsg]
    have hnil := (ht.framed.whole hpart).1
    rwa [hnil] at ht

lemma data_sim (ht : Tracks t e.st e.msg m before) (hc : Current t e.st before p h rest)
    (hparse : ws_parse_header t.masked false (before ++ p) = .done h rest) (hcap : e.out.bytes.length ≤ t.out_cap)
    (hfree : ¬ (e.out.bytes ≠ [] ∧ needed t e.st h (e.st.frameTotal h) > t.out_cap - e.out.bytes.length))
    (hdata : h.opcode.isControl = false) (haway : turnedAway t m h = false) :
    let r := dataFrame t e h p
    TurnSim t e m before p r.1 r.2.1 r.2.2 ∧ ∀ i, t.msg_cap ≤ i → r.2.2.msg i = e.msg i := by
  obtain ⟨hmasked, hplain, hlt, -⟩ := header_plain hparse
  obtain ⟨-, hbuffer, -⟩ := turnedAway_false haway hdata
  have hins := inspected_eq (m := m) hparse
  rw [haway, if_neg Bool.false_ne_true] at hins
  rw [dataFrame_eq hc, ht.not_compressed hplain, store_eq ht]
  have hw := ht.written hc hbuffer
  generalize Memory.write e.msg (m.payload.length + e.st.partial_payload_len) _ = msg at hw ⊢
  dsimp only
  by_cases hshort : rest.length < h.payload_len
  · rw [if_pos hshort]
    have htake : rest.take h.payload_len = rest := List.take_of_length_le hshort.le
    rw [htake] at hw
    rw [if_neg (Nat.not_le.mpr hshort)] at hins
    refine ⟨.stops rfl (Does.nothing rfl rfl) (Nat.le_refl _) ?_ fun _ => ⟨hc.not_buffered hshort, hins⟩, hw.outside⟩
    rw [List.take_length]
    refine ⟨⟨nofun, fun _ => ⟨rest, hc.parse, rfl, hshort, hdata⟩⟩, ht.decoder, ht.encoder, ht.compressed, ht.fragmented,
      ht.opcode, ht.idle, ht.accumulated, ht.message_len, ht.bound, hw.stored, fun _ => ⟨rest, hparse, haway, hw.body⟩⟩
  · have hle := Nat.not_lt.mp hshort
    rw [if_neg hshort]
    rw [if_pos hle] at hins
    have hroom : h.fin = true →
        HasRoom t e.out (messageRoom t (m.payload.length + h.payload_len) + kWsMaxHeaderSize) := by
      intro hfin
      have htotal : needed t e.st h (e.st.frameTotal h) =
          messageRoom t (m.payload.length + h.payload_len) + kWsMaxHeaderSize := by
        rw [needed, if_neg (by rw [hdata]; exact Bool.false_ne_true), if_pos hfin, ht.not_compressed hplain,
          if_neg Bool.false_ne_true, ht.message_len]
        rfl
      rw [htotal] at hfree
      exact hasRoom hcap hfree
    obtain ⟨hdoes, hflow, hmsg, htracks⟩ := @endFrame_sim D t { e with msg := msg } m e.msg before h
      (rest.take h.payload_len) ht hw (List.length_take_of_le hle) haway hdata hmasked hplain hlt hroom
    refine ⟨.reads _ _ hins ⟨hdoes.calls, hdoes.out, hdoes.room⟩ hflow (fun _ => ?_) htracks, ?_⟩
    · rw [hc.drop_total]
      exact ⟨rfl, hc.drop_lt hle⟩
    · intro i hi
      rw [hmsg]
      exact hw.outside i hi

lemma turn_sim (ht : Tracks t e.st e.msg m before) (hcap : e.out.bytes.length ≤ t.out_cap) (p : Str) :
    let r := turn t e p
    TurnSim t e m before p r.1 r.2.1 r.2.2 ∧ ∀ i, t.msg_cap ≤ i → r.2.2.msg i = e.msg i := by
  have hstop : Tracks t e.st e.msg m (before ++ p.take 0) := by rwa [List.take_zero, List.append_nil]
  rcases ht.framed.header_eq p with ⟨h, rest, hc⟩ | ⟨hparse, hheader⟩ | ⟨u, hparse, hheader⟩
  · have hparse := hc.parse
    rw [ht.decoder, Option.isSome_none] at hparse
    obtain ⟨-, hplain, -, -⟩ := header_plain hparse
    have hins := inspected_eq (m := m) hparse
    rw [turn_eq hc, ht.refused_eq hplain]
    by_cases haway : turnedAway t m h = true
    · rw [if_pos haway] at hins ⊢
      exact ⟨.fails rfl (Does.nothing rfl rfl) hins, fun _ _ => rfl⟩
    rw [if_neg haway] at hins ⊢
    by_cases hshort : rest.length < h.payload_len ∧ (h.opcode.isControl = true ∨ e.out.bytes ≠ [])
    · rw [if_pos hshort]
      rw [if_neg (Nat.not_le.mpr hshort.1)] at hins
      exact ⟨.stops rfl (Does.nothing rfl rfl) (Nat.zero_le _) hstop fun _ => ⟨hc.not_buffered hshort.1, hins⟩,
        fun _ _ => rfl⟩
    rw [if_neg hshort]
    by_cases hfree : e.out.bytes ≠ [] ∧ needed t e.st h (e.st.frameTotal h) > t.out_cap - e.out.bytes.length
    · rw [if_pos hfree]
      exact ⟨.stops rfl (Does.nothing rfl rfl) (Nat.zero_le _) hstop fun hnil => absurd hnil hfree.1, fun _ _ => rfl⟩
    rw [if_neg hfree]
    by_cases hcontrol : h.opcode.isControl = true
    · rw [if_pos hcontrol]
      have hle : h.payload_len ≤ rest.length := Nat.not_lt.mp fun hlt => hshort ⟨hlt, .inl hcontrol⟩
      obtain ⟨hsim, hmsg⟩ := control_sim ht hc hparse hcap hfree hcontrol hle (Bool.eq_false_of_not_eq_true haway)
      exact ⟨hsim, fun i _ => congrFun hmsg i⟩
    · rw [if_neg hcontrol]
      exact data_sim ht hc hparse hcap hfree (Bool.eq_false_of_not_eq_true hcontrol) (Bool.eq_false_of_not_eq_true haway)
  · rw [ht.decoder, Option.isSome_none] at hparse
    unfold turn
    rw [hheader]
    exact ⟨.fails rfl (Does.nothing rfl rfl) (inspected_fail hparse), fun _ _ => rfl⟩
  · rw [ht.decoder, Option.isSome_none] at hparse
    unfold turn
    rw [hheader]
    refine ⟨.stops rfl (Does.nothing rfl rfl) (Nat.zero_le _) hstop fun _ => ⟨?_, inspected_stall hparse⟩, fun _ _ => rfl⟩
    rintro ⟨h, r, hh, -⟩
    rw [hheader] at hh
    cases hh

end Rut.Ws
