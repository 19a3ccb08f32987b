import Rut.Ws.Place

/-!
# Closing

Port of `ws_read_closing` of `src/runtime/ws_terminate.cc`, which goes on where `ws_inspect` has stopped: it throws data
away, and reports the Ping frames and the Close frame of what is left of the stream. Wherever the inspection has stopped,
it takes up the frame that has begun and cuts the rest of the stream into its frames.
-/

set_option linter.all false
namespace Rut.Ws

open Incremental

variable {D : Type} {t : Tunnel D} {st st' : WsInspector D} {before p rest : Str} {h : WsFrameHeader}
  {codec : Bool} {f : Frame} {fs part : List Frame}

/-- `WsClosingRead`, with what it reports. -/
inductive WsClosingRead where
  | needMore
  | ping (payload : Str)
  | close (code : Nat) (reason : Str)
  | error
deriving DecidableEq

/-- `kDecodedLimit` of `ws_read_closing`. -/
def closingLimit (t : Tunnel D) : Nat :=
  if t.max_message_size ≠ 0 ∧ t.max_message_size < kWsMaxMessageCapacity then t.max_message_size else kWsMaxMessageCapacity

/-- `kLimit`. -/
def payloadLimit (t : Tunnel D) (compressed : Bool) : Nat :=
  if compressed then ws_deflate_wire_limit (closingLimit t) else closingLimit t

/-- A control frame of the closing handshake: what is returned, unless the loop goes on, and how much is taken. -/
def closingControl (st : WsInspector D) (h : WsFrameHeader) (p : Str) : Option WsClosingRead × Nat × WsInspector D :=
  if st.partial_data_frame ∨ h.payload_len > kWsMaxControlPayload then (some .error, 0, st)
  else if p.length < h.header_len + h.payload_len then (some .needMore, 0, st)
  else
    let raw := (p.drop h.header_len).take h.payload_len
    let body := if h.masked then ws_unmask raw h.mask_key else raw
    if h.opcode = .close then
      match decode_close_payload body with
      | none => (some .error, 0, st)
      | some (code, reason) =>
        (some (.close code reason), h.header_len + h.payload_len,
          { st with echo_close_code := code, echo_close_reason := reason, received_close := true })
    else (if h.opcode = .ping then some (.ping body) else none, h.header_len + h.payload_len, st)

def closingData (t : Tunnel D) (st : WsInspector D) (h : WsFrameHeader) (p : Str) :
    Option WsClosingRead × Nat × WsInspector D :=
  let compressed := if st.partial_data_frame ∨ h.opcode = .continuation then st.compressed_message else h.compressed
  let limit := payloadLimit t compressed
  if (h.opcode == .continuation) != st.assembler.in_fragmented ∨ h.payload_len > limit ∨
      st.assembler.accumulated_len > limit - h.payload_len then (some .error, 0, st)
  else
    let header_len := if st.partial_data_frame then 0 else h.header_len
    let taken := min (h.payload_len - st.partial_payload_len) (p.length - header_len)
    let st := { st with compressed_message := compressed, partial_payload_len := st.partial_payload_len + taken }
    if st.partial_payload_len ≠ h.payload_len then
      (some .needMore, header_len + taken, { st with partial_header := h, partial_data_frame := true })
    else
      let st := { st with partial_data_frame := false, partial_payload_len := 0 }
      match ws_message_feed st.assembler h limit with
      | (.error, assembler) => (some .error, header_len + taken, { st with assembler := assembler })
      | (_, assembler) => (none, header_len + taken, { st with
          assembler := assembler, message_len := 0, compressed_message := if h.fin then false else compressed })

/-- A turn of the loop of `ws_read_closing`. -/
def closingTurn (t : Tunnel D) (st : WsInspector D) (p : Str) : Option WsClosingRead × Nat × WsInspector D :=
  match st.header t p with
  | .stall _ => (some .needMore, 0, st)
  | .fail => (some .error, 0, st)
  | .done h _ => if h.opcode.isControl then closingControl st h p else closingData t st h p

/-- The loop of `ws_read_closing`, a turn of which takes a byte. -/
def closingLoop (t : Tunnel D) : Nat → WsInspector D → Str → Nat → WsClosingRead × Nat × WsInspector D
  | 0, st, _, consumed => (.needMore, consumed, st)
  | fuel + 1, st, p, consumed =>
    if p = [] then (.needMore, consumed, st)
    else
      match closingTurn t st p with
      | (none, n, st) => closingLoop t fuel st (p.drop n) (consumed + n)
      | (some result, n, st) => (result, consumed + n, st)

/-- `ws_read_closing`: what it returns, the bytes consumed, and the inspector after it. -/
def ws_read_closing (t : Tunnel D) (st : WsInspector D) (input : Str) : WsClosingRead × Nat × WsInspector D :=
  if st.received_close then (.close st.echo_close_code st.echo_close_reason, 0, st)
  else closingLoop t (input.length + 1) st input 0

/-! ## Closing reads -/

def report (f : Frame) : Option WsClosingRead :=
  if f.opcode = .ping then some (.ping f.payload)
  else if f.opcode = .close then (decode_close_payload f.payload).map fun d => .close d.1 d.2
  else none

/-- The header of a data frame that a closing read refuses: it is out of turn, or its message too long. -/
def Refuses (t : Tunnel D) (part : List Frame) (h : WsFrameHeader) : Prop :=
  h.opcode.isControl = false ∧ (¬ (h.opcode = .continuation ↔ part ≠ []) ∨
    payloadLimit t (compressedMessage part h) < (payloads part).length + h.payload_len)

inductive Stops (t : Tunnel D) (codec : Bool) (part : List Frame) (s : Str) : Prop where
  | malformed (hread : readFrame t.masked codec s = .fail)
  | close (f : Frame) (r : Str) (hread : readFrame t.masked codec s = .done f r) (hop : f.opcode = .close)
      (hbody : decode_close_payload f.payload = none)
  | refused (h : WsFrameHeader) (r : Str) (hparse : ws_parse_header t.masked codec s = .done h r) (hr : Refuses t part h)

inductive ClosingTurned (t : Tunnel D) (codec : Bool) (part : List Frame) (before p : Str)
    (res : Option WsClosingRead) (n : Nat) (st' : WsInspector D) : Prop where
  | waits (hres : res = some .needMore) (hn : n ≤ p.length) (hc : Carries t codec st' part (before ++ p.take n))
      (hread : readFrame t.masked codec (before ++ p) = .stall ()) (hopen : st'.received_close = false)
  | reads (f : Frame) (hread : readFrame t.masked codec (before ++ p) = .done f (p.drop n)) (hop : f.opcode ≠ .close)
      (hres : res = report f) (hc : Carries t codec st' (advance part f) []) (hlt : (p.drop n).length < p.length)
      (hopen : st'.received_close = false)
  | closes (f : Frame) (code : Nat) (reason : Str) (hread : readFrame t.masked codec (before ++ p) = .done f (p.drop n))
      (hop : f.opcode = .close) (hbody : decode_close_payload f.payload = some (code, reason))
      (hres : res = some (.close code reason))
  | fails (hres : res = some .error) (hstop : Stops t codec part (before ++ p))

lemma closingControl_turned (hc : Carries t codec st part before) (hcur : Current t st before p h rest)
    (hcontrol : h.opcode.isControl = true) (hopen : st.received_close = false) :
    let r := closingControl st h p
    ClosingTurned t codec part before p r.1 r.2.1 r.2.2 := by
  have hparse := hcur.parse
  rw [hc.decoder] at hparse
  obtain ⟨hpart, hzero⟩ := hcur.control hcontrol
  obtain ⟨hnil, -⟩ := hc.framed.whole hpart
  obtain ⟨key, hh, -, hok, -⟩ := ws_parse_header_iff.mp hparse
  have hmax := (hok.control hcontrol).2.1
  have hread := readFrame_eq hparse
  have htotal : st.frameTotal h = h.header_len + h.payload_len := by
    rw [WsInspector.frameTotal, WsInspector.headerLen, hpart, if_neg Bool.false_ne_true, hzero]
    rfl
  have hlt := hcur.lt_iff
  have hdrop := hcur.drop_total
  have hbytes : p.drop h.header_len = rest := by
    have hd := hcur.drop
    rwa [WsInspector.headerLen, hpart, if_neg Bool.false_ne_true, hzero] at hd
  rw [htotal] at hlt hdrop
  unfold closingControl
  rw [if_neg (by rw [hpart]; rintro (h₁ | h₁); exacts [Bool.false_ne_true h₁, Nat.not_lt.mpr hmax h₁])]
  by_cases hshort : rest.length < h.payload_len
  · rw [if_neg (Nat.not_le.mpr hshort)] at hread
    rw [if_pos (hlt.mpr hshort)]
    refine .waits rfl (Nat.zero_le _) ?_ hread hopen
    rwa [List.take_zero, List.append_nil]
  have hle := Nat.not_lt.mp hshort
  rw [if_pos hle, ← hdrop] at hread
  rw [if_neg fun h₁ => hshort (hlt.mp h₁), hbytes]
  dsimp only
  have hpayload : (if h.masked = true then ws_unmask (rest.take h.payload_len) h.mask_key else rest.take h.payload_len) =
      (h.frame (rest.take h.payload_len)).payload := rfl
  rw [hpayload]
  by_cases hclose : h.opcode = .close
  · rw [if_pos hclose]
    cases hbody : decode_close_payload (h.frame (rest.take h.payload_len)).payload with
    | none => exact .fails rfl (.close _ _ hread hclose hbody)
    | some d =>
      obtain ⟨code, reason⟩ := d
      exact .closes _ code reason hread hclose hbody rfl
  · rw [if_neg hclose]
    refine .reads _ hread hclose ?_ ?_ ?_ hopen
    · unfold report
      rw [if_neg (show ¬ (h.frame (rest.take h.payload_len)).opcode = .close from hclose)]
      rfl
    · rw [advance, if_pos (show (h.frame (rest.take h.payload_len)).opcode.isControl = true from hcontrol)]
      rwa [hnil] at hc
    · rw [hdrop]
      exact hcur.drop_lt hle

lemma payloadLimit_lt (t : Tunnel D) (compressed : Bool) : payloadLimit t compressed < 2 ^ 63 := by
  have hlimit : closingLimit t ≤ kWsMaxMessageCapacity := by
    unfold closingLimit
    split_ifs with hmax
    · exact hmax.2.le
    · exact Nat.le_refl _
  have hcap : kWsMaxMessageCapacity < 2 ^ 32 := by decide
  unfold payloadLimit ws_deflate_wire_limit
  split_ifs <;> omega

lemma ws_message_feed_ne_error {a limit} (hdata : h.opcode.isControl = false)
    (hseq : h.opcode = .continuation ↔ a.in_fragmented = true) (hplain : h.opcode = .continuation → h.compressed = false)
    (hle : (if h.opcode = .continuation then a.accumulated_len else 0) + h.payload_len ≤ limit) (hlimit : limit < 2 ^ 63) :
    (ws_message_feed a h limit).1 ≠ .error := by
  have hcontrol : ¬ h.opcode.isControl = true := by rw [hdata]; exact Bool.false_ne_true
  have hstray : ¬ (h.opcode = .continuation ∧ (a.in_fragmented = false ∨ h.compressed = true)) := by
    rintro ⟨hop, hno | hcomp⟩
    · exact Bool.false_ne_true (hno.symm.trans (hseq.mp hop))
    · exact Bool.false_ne_true ((hplain hop).symm.trans hcomp)
  have hinner : ¬ (h.opcode ≠ .continuation ∧ a.in_fragmented = true) := fun ⟨hop, hf⟩ => hop (hseq.mpr hf)
  have hstart : (if h.opcode = .continuation then a else ⟨true, h.opcode, 0⟩ : WsMessageAssembler).accumulated_len =
      if h.opcode = .continuation then a.accumulated_len else 0 := by split_ifs <;> rfl
  unfold ws_message_feed
  rw [if_neg hcontrol, if_neg hstray, if_neg hinner]
  dsimp only
  rw [hstart, if_neg (by omega)]
  split_ifs <;> exact nofun

lemma closingData_turned (hc : Carries t codec st part before) (hcur : Current t st before p h rest)
    (hdata : h.opcode.isControl = false) (hopen : st.received_close = false) :
    let r := closingData t st h p
    ClosingTurned t codec part before p r.1 r.2.1 r.2.2 := by
  have hparse := hcur.parse
  rw [hc.decoder] at hparse
  obtain ⟨key, hh, -, hok, -⟩ := ws_parse_header_iff.mp hparse
  have hread := readFrame_eq hparse
  have hlen := hcur.length
  have hseen := hcur.seen
  have hle := hcur.seen_le
  have hcond : ((h.opcode == .continuation) != st.assembler.in_fragmented) = false ↔
      (h.opcode = .continuation ↔ st.assembler.in_fragmented = true) := by
    rw [bne_eq_false_iff_eq, Bool.eq_iff_iff, beq_iff_eq]
  by_cases hseq : h.opcode = .continuation ↔ st.assembler.in_fragmented = true
  swap
  · unfold closingData
    rw [if_pos (.inl (Bool.eq_true_of_not_eq_false fun h₁ => hseq (hcond.mp h₁)))]
    refine .fails rfl (.refused h rest hparse ⟨hdata, .inl ?_⟩)
    rwa [← hc.seq_iff]
  unfold closingData
  dsimp only
  rw [hc.flag_eq hcur hseq, hcond.mpr hseq, hc.accumulated]
  have hbound := payloadLimit_lt t (compressedMessage part h)
  generalize hlimit : payloadLimit t (compressedMessage part h) = limit at hbound ⊢
  by_cases hlong : limit < (payloads part).length + h.payload_len
  · rw [if_pos (.inr (by omega))]
    exact .fails rfl (.refused h rest hparse ⟨hdata, .inr (hlimit ▸ hlong)⟩)
  rw [if_neg (by rintro (h₁ | h₁); exacts [Bool.false_ne_true h₁, absurd h₁ (by omega)])]
  have htotal := hcur.drop_total
  unfold WsInspector.frameTotal at htotal
  unfold WsInspector.headerLen at hlen htotal
  generalize (if st.partial_data_frame = true then 0 else h.header_len) = header_len at hlen htotal ⊢
  by_cases hshort : rest.length < h.payload_len
  · have htaken : st.partial_payload_len + min (h.payload_len - st.partial_payload_len) (p.length - header_len) =
        rest.length := by omega
    have hall : header_len + min (h.payload_len - st.partial_payload_len) (p.length - header_len) = p.length := by omega
    rw [htaken, hall, if_pos (Nat.ne_of_lt hshort)]
    rw [if_neg (Nat.not_le.mpr hshort)] at hread
    refine .waits rfl (Nat.le_refl _) ?_ hread hopen
    rw [List.take_length]
    refine ⟨⟨nofun, fun _ => ⟨rest, hcur.parse, rfl, hshort, hdata⟩⟩, hc.decoder, hc.fragmented, hc.accumulated, ?_, ?_, ?_⟩
    · intro g hg
      show compressedMessage part h = g.compressed
      rw [compressedMessage, hg]
      rfl
    · rintro - rfl
      rfl
    · exact fun _ => hseq.trans hc.seq_iff
  · have hwhole := Nat.not_lt.mp hshort
    have htaken : st.partial_payload_len + min (h.payload_len - st.partial_payload_len) (p.length - header_len) =
        h.payload_len := by omega
    have hall : header_len + min (h.payload_len - st.partial_payload_len) (p.length - header_len) =
        header_len + h.payload_len - st.partial_payload_len := by omega
    rw [htaken, hall, if_neg (not_not_intro rfl)]
    rw [if_pos hwhole, ← htotal] at hread
    have hne : (ws_message_feed st.assembler h limit).1 ≠ .error := by
      refine ws_message_feed_ne_error hdata hseq (fun hop => ?_) ?_ hbound
      · by_contra hcomp
        rcases (hok.compressed (Bool.eq_true_of_not_eq_false hcomp)).2 with h₁ | h₁ <;> rw [hop] at h₁ <;> cases h₁
      · have hacc := hc.accumulated
        split_ifs <;> omega
    obtain ⟨-, hasm, -⟩ := ws_message_feed_accepts hne
    generalize ws_message_feed st.assembler h limit = r at hne hasm
    obtain ⟨status, assembler⟩ := r
    have hlt := hcur.drop_lt hwhole
    rw [← htotal] at hlt
    have hclosing : (h.frame (rest.take h.payload_len)).opcode ≠ .close := by
      show h.opcode ≠ .close
      rintro hop
      rw [hop] at hdata
      cases hdata
    have hreport : none = report (h.frame (rest.take h.payload_len)) := by
      unfold report
      rw [if_neg, if_neg hclosing]
      show h.opcode ≠ .ping
      rintro hop
      rw [hop] at hdata
      cases hdata
    have hcarries : ∀ st' : WsInspector D, st'.partial_data_frame = false → st'.partial_payload_len = 0 →
        st'.decoder = st.decoder → st'.assembler = assembler → (h.fin = false → st'.compressed_message = compressedMessage part h) →
        Carries t codec st' (advance part (h.frame (rest.take h.payload_len))) [] := by
      intro st' h₁ h₂ h₃ h₄ h₅
      exact hc.ends hdata (List.length_take_of_le hwhole) hseq h₁ h₂ (h₃ ▸ hc.decoder) (h₄.trans hasm) h₅
    cases status with
    | error => exact absurd rfl hne
    | needMore =>
      refine .reads _ hread hclosing hreport (hcarries _ rfl rfl rfl rfl fun hf => ?_) hlt hopen
      exact if_neg (by rw [hf]; exact Bool.false_ne_true)
    | complete op total =>
      refine .reads _ hread hclosing hreport (hcarries _ rfl rfl rfl rfl fun hf => ?_) hlt hopen
      exact if_neg (by rw [hf]; exact Bool.false_ne_true)

lemma closingTurn_turned (hc : Carries t codec st part before) (hopen : st.received_close = false) (p : Str) :
    let r := closingTurn t st p
    ClosingTurned t codec part before p r.1 r.2.1 r.2.2 := by
  unfold closingTurn
  rcases hc.framed.header_eq p with ⟨h, rest, hcur⟩ | ⟨hparse, hheader⟩ | ⟨u, hparse, hheader⟩
  · obtain ⟨r, hheader⟩ := hcur.header
    rw [hheader]
    dsimp only
    by_cases hcontrol : h.opcode.isControl = true
    · rw [if_pos hcontrol]
      exact closingControl_turned hc hcur hcontrol hopen
    · rw [if_neg hcontrol]
      exact closingData_turned hc hcur (Bool.eq_false_of_not_eq_true hcontrol) hopen
  · rw [hheader]
    rw [hc.decoder] at hparse
    exact .fails rfl (.malformed (readFrame_fail hparse))
  · rw [hheader]
    rw [hc.decoder] at hparse
    refine .waits rfl (Nat.zero_le _) ?_ (readFrame_stall hparse) hopen
    rwa [List.take_zero, List.append_nil]

namespace WsClosingRead

def reported : WsClosingRead → List WsClosingRead
  | needMore | error => []
  | ping payload => [ping payload]
  | close code reason => [close code reason]

def ended : WsClosingRead → Bool
  | needMore | ping _ => false
  | close _ _ | error => true

end WsClosingRead

/-- How far the closing reads have come: `gs` are the frames that they have read, after `fs`. -/
inductive ClosingReached (t : Tunnel D) (codec : Bool) (all : Str) (fs gs : List Frame) (rest : Str) (st : WsInspector D) :
    WsClosingRead → Prop where
  | going (status : WsClosingRead) (hstatus : status.ended = false) (part : List Frame) (before : Str)
      (hc : Carries t codec st part before) (hopen : st.received_close = false)
      (hcut : Cut t codec all (fs ++ gs) part (before ++ rest)) (hno : ∀ g ∈ gs, g.opcode ≠ .close) :
      ClosingReached t codec all fs gs rest st status
  | closed (code : Nat) (reason : Str) (gs' : List Frame) (f : Frame) (part : List Frame) (hgs : gs = gs' ++ [f])
      (hno : ∀ g ∈ gs', g.opcode ≠ .close) (hop : f.opcode = .close)
      (hbody : decode_close_payload f.payload = some (code, reason)) (hcut : Cut t codec all (fs ++ gs) part rest) :
      ClosingReached t codec all fs gs rest st (.close code reason)
  | failed (part : List Frame) (r : Str) (hcut : Cut t codec all (fs ++ gs) part r) (hstop : Stops t codec part r)
      (hno : ∀ g ∈ gs, g.opcode ≠ .close) : ClosingReached t codec all fs gs rest st .error

lemma report_ended {f res} (hop : f.opcode ≠ .close) (hres : some res = report f) :
    res.ended = false ∧ [res] = res.reported := by
  unfold report at hres
  split_ifs at hres
  cases hres
  exact ⟨rfl, rfl⟩

lemma Carries.stall (hc : Carries t codec st part before) : readFrame t.masked codec before = .stall () := by
  cases hpart : st.partial_data_frame with
  | true =>
    obtain ⟨body, hparse, hlen, hlt, -⟩ := hc.framed.part hpart
    rw [hc.decoder] at hparse
    rw [readFrame_eq hparse, if_neg (by omega)]
  | false =>
    rw [(hc.framed.whole hpart).1]
    rfl

lemma closingLoop_reached {all gs fuel consumed} (hc : Carries t codec st part before)
    (hopen : st.received_close = false) (hcut : Cut t codec all (fs ++ gs) part (before ++ p))
    (hno : ∀ g ∈ gs, g.opcode ≠ .close) (hfuel : p.length < fuel) :
    let r := closingLoop t fuel st p consumed
    ∃ n gs', r.2.1 = consumed + n ∧ ClosingReached t codec all fs (gs ++ gs') (p.drop n) r.2.2 r.1 ∧
      gs'.filterMap report = r.1.reported ∧
      (r.1.ended = false → (p.drop n).length < p.length ∨
        (n = 0 ∧ r.1 = .needMore ∧ gs' = [] ∧ readFrame t.masked codec (before ++ p) = .stall ())) := by
  induction fuel generalizing st part before p gs consumed with
  | zero => exact absurd hfuel (Nat.not_lt_zero _)
  | succ fuel ih =>
    unfold closingLoop
    by_cases hnil : p = []
    · rw [if_pos hnil]
      refine ⟨0, [], rfl, ?_, rfl, fun _ => .inr ⟨rfl, rfl, rfl, ?_⟩⟩
      · rw [List.append_nil]
        exact .going _ rfl part before hc hopen hcut hno
      · rw [hnil, List.append_nil]
        exact hc.stall
    rw [if_neg hnil]
    have hturn := closingTurn_turned hc hopen p
    generalize closingTurn t st p = r at hturn
    obtain ⟨res, n, st'⟩ := r
    dsimp only at hturn
    cases hturn with
    | waits hres hn hc' hread hopen' =>
      subst hres
      refine ⟨n, [], rfl, ?_, rfl, fun _ => ?_⟩
      · rw [List.append_nil]
        refine .going _ rfl part _ hc' hopen' ?_ hno
        rwa [List.append_assoc, List.take_append_drop]
      · rcases Nat.eq_zero_or_pos n with hzero | hpos
        · exact .inr ⟨hzero, rfl, rfl, hread⟩
        · refine .inl ?_
          rw [List.length_drop]
          omega
    | reads f hread hop hres hc' hlt hopen' =>
      have hcut' := hcut.read hread
      have hno' : ∀ g ∈ gs ++ [f], g.opcode ≠ .close := by
        intro g hg
        rcases List.mem_append.mp hg with hg | hg
        · exact hno g hg
        · rw [List.mem_singleton.mp hg]
          exact hop
      rw [List.append_assoc] at hcut'
      cases res with
      | none =>
        obtain ⟨n', gs', hn', hreached, hreports, -⟩ := @ih st' [] (p.drop n) (advance part f) (gs ++ [f]) (consumed + n) hc'
          hopen' hcut' hno' (by omega)
        refine ⟨n + n', [f] ++ gs', hn'.trans (Nat.add_assoc ..), ?_, ?_, fun _ => .inl ?_⟩
        · rw [← List.append_assoc, ← List.drop_drop]
          exact hreached
        · rw [List.filterMap_append, List.filterMap_cons_none hres.symm]
          exact hreports
        · rw [← List.drop_drop]
          refine Nat.lt_of_le_of_lt ?_ hlt
          rw [List.length_drop]
          exact Nat.sub_le ..
      | some res =>
        obtain ⟨hended, hreported⟩ := report_ended hop hres
        refine ⟨n, [f], rfl, .going res hended _ [] hc' hopen' hcut' hno', ?_, fun _ => .inl hlt⟩
        rw [← hreported, List.filterMap_cons_some hres.symm]
        rfl
    | closes f code reason hread hop hbody hres =>
      subst hres
      have hcut' := hcut.read hread
      rw [List.append_assoc] at hcut'
      refine ⟨n, [f], rfl, .closed code reason gs f _ rfl hno hop hbody hcut', ?_, nofun⟩
      have hreport : report f = some (.close code reason) := by
        unfold report
        rw [if_neg (by rw [hop]; exact nofun), if_pos hop, hbody]
        rfl
      rw [List.filterMap_cons_some hreport]
      rfl
    | fails hres hstop =>
      subst hres
      refine ⟨n, [], rfl, ?_, rfl, nofun⟩
      rw [List.append_nil]
      exact .failed part _ hcut hstop hno

/-! ## The closing handshake of a direction -/

structure ClosingLeg (D : Type) where
  st : WsInspector D
  buffered : Str
  received : Str
  reports : List WsClosingRead := []
  status : WsClosingRead := .needMore

inductive ClosingAct where
  | recv (chunk : Str)
  | read
deriving DecidableEq

namespace ClosingLeg

def start (l : Leg D) : ClosingLeg D := { st := l.st, buffered := l.buffered, received := l.received }

def step (t : Tunnel D) (c : ClosingLeg D) : ClosingAct → ClosingLeg D
  | .recv chunk => { c with buffered := c.buffered ++ chunk, received := c.received ++ chunk }
  | .read =>
    if c.status.ended then c
    else
      let r := ws_read_closing t c.st c.buffered
      { c with
        st := r.2.2, buffered := c.buffered.drop r.2.1, reports := c.reports ++ r.1.reported, status := r.1 }

lemma step_read {c : ClosingLeg D} (hended : c.status.ended = false) : c.step t .read = { c with
      st := (ws_read_closing t c.st c.buffered).2.2
      buffered := c.buffered.drop (ws_read_closing t c.st c.buffered).2.1
      reports := c.reports ++ (ws_read_closing t c.st c.buffered).1.reported
      status := (ws_read_closing t c.st c.buffered).1 } :=
  if_neg (by rw [hended]; exact Bool.false_ne_true)

def Idle (t : Tunnel D) (c : ClosingLeg D) : Prop :=
  (ws_read_closing t c.st c.buffered).1 = .needMore ∧ (ws_read_closing t c.st c.buffered).2.1 = 0

def Complete (t : Tunnel D) (c : ClosingLeg D) : Prop := c.status.ended = true ∨ c.Idle t

end ClosingLeg

lemma ws_read_closing_reached {c : ClosingLeg D} {gs} (hended : c.status.ended = false)
    (hr : ClosingReached t codec c.received fs gs c.buffered c.st c.status) :
    let r := ws_read_closing t c.st c.buffered
    ∃ gs', ClosingReached t codec c.received fs (gs ++ gs') (c.buffered.drop r.2.1) r.2.2 r.1 ∧
      gs'.filterMap report = r.1.reported ∧
      (r.1.ended = false → (c.buffered.drop r.2.1).length < c.buffered.length ∨ (c.Idle t ∧ ∃ rest,
        c.received = wires (fs ++ gs) ++ rest ∧ readFrame t.masked codec rest = .stall ())) := by
  generalize hstatus : c.status = status at hr
  cases hr with
  | closed => rw [hstatus] at hended; cases hended
  | failed => rw [hstatus] at hended; cases hended
  | going _ _ part before hc hopen hcut hno =>
    have hcall : ws_read_closing t c.st c.buffered = closingLoop t (c.buffered.length + 1) c.st c.buffered 0 := by
      unfold ws_read_closing
      rw [hopen, if_neg Bool.false_ne_true]
    obtain ⟨n, gs', hn, hreached, hreports, hidle⟩ := @closingLoop_reached D t c.st before c.buffered codec fs part
      c.received gs (c.buffered.length + 1) 0 hc hopen hcut hno (Nat.lt_succ_self _)
    rw [← hcall] at hn hreached hreports hidle
    rw [Nat.zero_add] at hn
    rw [← hn] at hreached hidle
    refine ⟨gs', hreached, hreports, fun hne => (hidle hne).imp_right ?_⟩
    rintro ⟨hzero, hmore, -, hstall⟩
    exact ⟨⟨hmore, hzero⟩, _, hcut.eq, hstall⟩

lemma ClosingReached.feed {all gs status} (hr : ClosingReached t codec all fs gs rest st status) (c : Str) :
    ClosingReached t codec (all ++ c) fs gs (rest ++ c) st status := by
  cases hr with
  | going _ hended part before hc hopen hcut hno =>
    refine .going status hended part before hc hopen ?_ hno
    rw [← List.append_assoc]
    exact hcut.feed c
  | closed code reason gs' f part hgs hno hop hbody hcut => exact .closed code reason gs' f part hgs hno hop hbody (hcut.feed c)
  | failed part r hcut hstop hno =>
    refine .failed part (r ++ c) (hcut.feed c) ?_ hno
    cases hstop with
    | malformed hread => exact .malformed ((stable_readFrame ..).fail c hread)
    | close f r' hread hop hbody => exact .close f _ ((stable_readFrame ..).done_append hread c) hop hbody
    | refused h r' hparse hr => exact .refused h _ ((stable_ws_parse_header ..).done_append hparse c) hr

lemma closing_run_reached {l part} (hopen : l.st.received_close = false)
    (hc : Carries t codec l.st part before) (hcut : Cut t codec l.received fs part (before ++ l.buffered))
    (acts : List ClosingAct) :
    let c := acts.foldl (ClosingLeg.step t) (.start l)
    ∃ gs, ClosingReached t codec c.received fs gs c.buffered c.st c.status ∧ c.reports = gs.filterMap report := by
  induction acts using List.reverseRecOn with
  | nil => exact ⟨[], .going _ rfl part before hc hopen (by rwa [List.append_nil]) nofun, rfl⟩
  | append_singleton acts a ih =>
    rw [List.foldl_append]
    obtain ⟨gs, hr, hreports⟩ := ih
    generalize acts.foldl (ClosingLeg.step t) (.start l) = c at hr hreports
    cases a with
    | recv chunk => exact ⟨gs, hr.feed chunk, hreports⟩
    | read =>
      rw [List.foldl_cons, List.foldl_nil]
      by_cases hended : c.status.ended = true
      · rw [ClosingLeg.step, if_pos hended]
        exact ⟨gs, hr, hreports⟩
      · rw [ClosingLeg.step_read (Bool.eq_false_of_not_eq_true hended)]
        obtain ⟨gs', hr', hreports', -⟩ := ws_read_closing_reached (Bool.eq_false_of_not_eq_true hended) hr
        refine ⟨gs ++ gs', hr', ?_⟩
        rw [List.filterMap_append, ← hreports, hreports']

/-- Where closing reads have come to after the frames `fs` of the inspection and `gs` of their own. -/
def Ends (t : Tunnel D) (codec : Bool) (fs gs : List Frame) (rest : Str) : WsClosingRead → Prop
  | .needMore | .ping _ => ∀ g ∈ gs, g.opcode ≠ .close
  | .close code reason => ∃ gs' f, gs = gs' ++ [f] ∧ (∀ g ∈ gs', g.opcode ≠ .close) ∧ f.opcode = .close ∧
      decode_close_payload f.payload = some (code, reason)
  | .error => (∀ g ∈ gs, g.opcode ≠ .close) ∧ ∃ groups part, Messages (fs ++ gs) groups part ∧ Stops t codec part rest

lemma ClosingReached.ends {all gs status} (hr : ClosingReached t codec all fs gs rest st status) :
    ∃ r, all = wires (fs ++ gs) ++ r ∧ (∀ f ∈ fs ++ gs, f.WellFormed t.masked codec) ∧ Ends t codec fs gs r status := by
  cases hr with
  | going _ hended part before hc hopen hcut hno =>
    refine ⟨_, hcut.eq, hcut.wellFormed, ?_⟩
    cases status with
    | needMore => exact hno
    | ping payload => exact hno
    | close code reason => cases hended
    | error => cases hended
  | closed code reason gs' f part hgs hno hop hbody hcut =>
    exact ⟨_, hcut.eq, hcut.wellFormed, gs', f, hgs, hno, hop, hbody⟩
  | failed part r hcut hstop hno =>
    obtain ⟨groups, hm⟩ := hcut.messages
    exact ⟨r, hcut.eq, hcut.wellFormed, hno, groups, part, hm, hstop⟩

lemma complete_of_reads {l part} (hopen : l.st.received_close = false)
    (hc : Carries t codec l.st part before) (hcut : Cut t codec l.received fs part (before ++ l.buffered))
    (acts : List ClosingAct) :
    ∃ n, ((acts ++ List.replicate n ClosingAct.read).foldl (ClosingLeg.step t) (.start l)).Complete t := by
  generalize hk : (acts.foldl (ClosingLeg.step t) (.start l)).buffered.length = k
  induction k using Nat.strong_induction_on generalizing acts with
  | _ k ih =>
    by_cases hcomplete : (acts.foldl (ClosingLeg.step t) (.start l)).Complete t
    · exact ⟨0, by rwa [List.replicate_zero, List.append_nil]⟩
    have hended : (acts.foldl (ClosingLeg.step t) (.start l)).status.ended = false := by
      by_contra hne
      exact hcomplete (.inl (Bool.eq_true_of_not_eq_false hne))
    have hstep : (acts ++ [ClosingAct.read]).foldl (ClosingLeg.step t) (.start l) =
        (acts.foldl (ClosingLeg.step t) (.start l)).step t .read := List.foldl_concat ..
    obtain ⟨gs, hr, -⟩ := closing_run_reached hopen hc hcut acts
    obtain ⟨gs', hr', -, hprogress⟩ := ws_read_closing_reached hended hr
    generalize acts.foldl (ClosingLeg.step t) (.start l) = c at *
    rw [ClosingLeg.step_read hended] at hstep
    by_cases hlast : (ws_read_closing t c.st c.buffered).1.ended = true
    · refine ⟨1, .inl ?_⟩
      show ((acts ++ [ClosingAct.read]).foldl (ClosingLeg.step t) (.start l)).status.ended = true
      rw [hstep]
      exact hlast
    · rcases hprogress (Bool.eq_false_of_not_eq_true hlast) with hlt | ⟨hidle, -⟩
      · obtain ⟨n, hn⟩ := ih _ (hk ▸ hlt) (acts ++ [ClosingAct.read]) (by rw [hstep])
        refine ⟨n + 1, ?_⟩
        rwa [List.append_assoc] at hn
      · exact absurd (.inr hidle) hcomplete

/-- Closing: wherever an inspection has stopped, with frames `fs` read and a part `before` of the next, what the closing
reads report are the Ping and Close frames of the rest of the stream, up to the first Close frame or the first frame that
is malformed or refused; when they go no further there is no whole frame left; and they go as far as they can. -/
theorem closing_continuity (t : Tunnel D) (decoder encoder : Option D) (msg : Buffer) (acts : List Act)
    (hstatus : (acts.foldl (Leg.step t) (.start decoder encoder msg)).status ≠ .error)
    (hopen : (acts.foldl (Leg.step t) (.start decoder encoder msg)).st.received_close = false) :
    ∃ fs before, (acts.foldl (Leg.step t) (.start decoder encoder msg)).received =
        wires fs ++ (before ++ (acts.foldl (Leg.step t) (.start decoder encoder msg)).buffered) ∧
      readFrame t.masked decoder.isSome before = .stall () ∧
      ∀ acts',
        let c := acts'.foldl (ClosingLeg.step t) (.start (acts.foldl (Leg.step t) (.start decoder encoder msg)))
        (∃ gs rest, c.received = wires (fs ++ gs) ++ rest ∧ (∀ f ∈ fs ++ gs, f.WellFormed t.masked decoder.isSome) ∧
          c.reports = gs.filterMap report ∧ Ends t decoder.isSome fs gs rest c.status ∧
          (c.status.ended = false → c.Idle t → readFrame t.masked decoder.isSome rest = .stall ())) ∧
        ∃ n, ((acts' ++ List.replicate n ClosingAct.read).foldl (ClosingLeg.step t)
          (.start (acts.foldl (Leg.step t) (.start decoder encoder msg)))).Complete t := by
  obtain ⟨-, hplaced⟩ := Leg.run_placed t decoder encoder msg acts
  obtain ⟨fs, part, before, hc, hcut⟩ := hplaced hstatus hopen
  generalize acts.foldl (Leg.step t) (.start decoder encoder msg) = l at *
  refine ⟨fs, before, hcut.eq, hc.stall, fun acts' => ⟨?_, complete_of_reads hopen hc hcut acts'⟩⟩
  obtain ⟨gs, hr, hreports⟩ := closing_run_reached hopen hc hcut acts'
  generalize acts'.foldl (ClosingLeg.step t) (.start l) = c at *
  obtain ⟨rest, heq, hwf, hends⟩ := hr.ends
  refine ⟨gs, rest, heq, hwf, hreports, hends, fun hended hidle => ?_⟩
  obtain ⟨gs', -, -, hprogress⟩ := ws_read_closing_reached hended hr
  rw [hidle.1, hidle.2] at hprogress
  obtain ⟨-, rest', heq', hstall⟩ := (hprogress rfl).resolve_left (Nat.lt_irrefl _)
  rw [heq] at heq'
  rwa [List.append_cancel_left heq']

/-- The inspection stops within the first frame of a text; a Ping before its last frame and the Close are reported. -/
theorem closing_within_text :
    let l := [Act.recv [0x01, 0x02, 0x68], .inspect].foldl (Leg.step relay) (.start none none fun _ => 0)
    let c := [ClosingAct.recv [0x69, 0x89, 0x01], .read, .recv [0x78, 0x80, 0x00, 0x88, 0x00], .read, .read].foldl
      (ClosingLeg.step relay) (.start l)
    c.reports = [.ping [0x78], .close 1005 []] ∧
      ∃ fs gs rest, c.received = wires (fs ++ gs) ++ rest ∧ c.reports = gs.filterMap report := by
  intro l c
  have hreports : c.reports = [.ping [0x78], .close 1005 []] := by decide
  obtain ⟨fs, before, -, -, hall⟩ := closing_continuity relay none none (fun _ => 0) [.recv [0x01, 0x02, 0x68], .inspect]
    (by decide) (by decide)
  obtain ⟨⟨gs, rest, hreceived, -, hgs, -⟩, -⟩ := hall
    [.recv [0x69, 0x89, 0x01], .read, .recv [0x78, 0x80, 0x00, 0x88, 0x00], .read, .read]
  exact ⟨hreports, fs, gs, rest, hreceived, hgs⟩

def narrow : Tunnel Unit := { relay with max_message_size := 1 }

/-- A message of two bytes and a Ping: all of it is frames, but the Ping is not reported. -/
theorem long_message_hides_ping :
    let c := [ClosingAct.recv [0x82, 0x02, 0x61, 0x62, 0x89, 0x00], .read].foldl (ClosingLeg.step narrow)
      (.start (.start none none fun _ => 0))
    c.status = .error ∧ c.reports = [] ∧
      ∃ fs, c.received = wires fs ∧ (∀ f ∈ fs, f.WellFormed narrow.masked false) ∧
        (∃ groups, Messages fs groups []) ∧ fs.filterMap report = [.ping []] := by
  refine ⟨by decide, by decide,
    [⟨true, false, .binary, none, [0x61, 0x62]⟩, ⟨true, false, .ping, none, []⟩], by decide, ?_, ?_,
    by decide⟩
  · intro f hf
    rcases List.mem_cons.mp hf with rfl | hf
    · exact ⟨rfl, by decide, nofun, nofun⟩
    · rw [List.mem_singleton.mp hf]
      exact ⟨rfl, by decide, nofun, fun _ => ⟨rfl, by decide, nofun⟩⟩
  · refine ⟨[[⟨true, false, .binary, none, [0x61, 0x62]⟩]], rfl, ?_, nofun⟩
    intro g hg
    rw [List.mem_singleton.mp hg]
    exact ⟨[], _, rfl, nofun, rfl⟩

end Rut.Ws
