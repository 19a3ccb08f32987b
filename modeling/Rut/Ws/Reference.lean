import Rut.Lib.Stream
import Rut.Ws.Output

/-!
# What an inspection is for

The inspection as a machine on the stream of its direction, which reads a frame at a time and has the whole output for
each of them. It has no message buffer and keeps the message in progress as it is.
-/

namespace Rut.Ws

open Incremental

variable {D : Type} {t : Tunnel D} {e e' : Engine D} {op : WsOpcode} {content payload reason : Str} {code : Nat}

inductive Event where
  | call (op : WsOpcode) (payload : Str)
  | frame (op : WsOpcode) (content : Str)
deriving DecidableEq

namespace Event

def call? : Event → Option (WsOpcode × Str)
  | call op payload => some (op, payload)
  | frame _ _ => none

def frame? : Event → Option (WsOpcode × Str)
  | call _ _ => none
  | frame op content => some (op, content)

end Event

structure Assembly where
  opcode : Option WsOpcode := none
  payload : Str := []
deriving DecidableEq

def Assembly.extend (m : Assembly) (f : Frame) : Assembly := ⟨some (m.opcode.getD f.opcode), m.payload ++ f.payload⟩

def turnedAway (t : Tunnel D) (m : Assembly) (h : WsFrameHeader) : Bool :=
  !h.opcode.isControl &&
    ((t.reject_fragmented && (h.opcode == .continuation || !h.fin)) ||
      ((h.opcode == .continuation) != m.opcode.isSome) ||
      (decide (m.payload.length + h.payload_len > t.msg_cap) ||
        (t.max_message_size != 0 && decide (m.payload.length + h.payload_len > t.max_message_size))))

def inspected (t : Tunnel D) (m : Assembly) : Reader UInt8 Unit Frame := do
  let h ← ws_parse_header t.masked false
  if turnedAway t m h then Reader.failure
  else do
    let body ← Reader.take h.payload_len ()
    pure (h.frame body)

lemma stable_inspected (t : Tunnel D) (m : Assembly) : Stable (inspected t m) :=
  .bind (stable_ws_parse_header ..) fun _ => .ite .failure (.bind (.take _ ()) fun _ => .pure _)

open Classical in
noncomputable def writes (t : Tunnel D) (op : WsOpcode) (content : Str) (next : Assembly ⊕ WsInspectStatus) :
    List Event × (Assembly ⊕ WsInspectStatus) :=
  if Fits t op content then ([.frame op content], next) else ([], .inr .error)

/-- A Close frame of a verdict, which loses its status when it does not fit and has no reason. -/
noncomputable def closesWith (t : Tunnel D) (code : Nat) (reason : Str) : List Event × (Assembly ⊕ WsInspectStatus) :=
  if (2 + if t.masked then 4 else 0) + (2 + reason.length) ≤ t.out_cap then
    writes t .close (closeBody code reason) (.inr .close)
  else if reason ≠ [] then ([], .inr .error) else writes t .close [] (.inr .close)

noncomputable def verdict (t : Tunnel D) (op : WsOpcode) (payload : Str) : List Event × (Assembly ⊕ WsInspectStatus) :=
  match reply t op payload with
  | .error => ([], .inr .error)
  | .nothing => ([], .inl {})
  | .frame op content => writes t op content (.inl {})
  | .closes code reason => closesWith t code reason

noncomputable def completes (t : Tunnel D) (op : WsOpcode) (payload : Str) : List Event × (Assembly ⊕ WsInspectStatus) :=
  if op = .text ∧ utf8_valid payload = false then ([], .inr .error)
  else ((.call op payload :: (verdict t op payload).1), (verdict t op payload).2)

noncomputable def passes (t : Tunnel D) (m : Assembly) (op : WsOpcode) (payload : Str) :
    List Event × (Assembly ⊕ WsInspectStatus) :=
  if op = .close then
    if (decode_close_payload payload).isNone then ([], .inr .error) else writes t op payload (.inr .close)
  else writes t op payload (.inl m)

noncomputable def inspects (t : Tunnel D) (m : Assembly) (f : Frame) : List Event × (Assembly ⊕ WsInspectStatus) :=
  if f.opcode.isControl then passes t m f.opcode f.payload
  else if f.fin then completes t (m.opcode.getD f.opcode) (m.payload ++ f.payload)
  else ([], .inl (m.extend f))

noncomputable def inspection (t : Tunnel D) : Lib.Machine UInt8 Unit Assembly Frame Event WsInspectStatus where
  reader := inspected t
  stable := stable_inspected t
  act := inspects t
  failed := .error

/-! ## What is written -/

def wires (fs : List Frame) : Str := (fs.map Frame.wire).flatten

@[simp] lemma wires_append (fs gs : List Frame) : wires (fs ++ gs) = wires fs ++ wires gs := by
  rw [wires, List.map_append, List.flatten_append]
  rfl

@[simp] lemma wires_singleton (f : Frame) : wires [f] = f.wire := List.append_nil _

/-- The engine has done what the events say, and its output has not run over. -/
structure Does (t : Tunnel D) (e e' : Engine D) (ws : List Event) : Prop where
  calls : e'.calls = e.calls ++ ws.filterMap Event.call?
  out : ∃ gs, e'.out.bytes = e.out.bytes ++ wires gs ∧ (∀ g ∈ gs, g.WellFormed t.masked false) ∧
    gs.map (fun g => (g.opcode, g.payload)) = ws.filterMap Event.frame?
  room : e.out.bytes.length ≤ t.out_cap → e'.out.bytes.length ≤ t.out_cap

def Flow.Agrees (flow : Flow) : Assembly ⊕ WsInspectStatus → Prop
  | .inl _ => flow = .next
  | .inr .close => flow = .close
  | .inr .error => flow = .error
  | .inr .ok => False

lemma Does.nothing (hcalls : e'.calls = e.calls) (hout : e'.out = e.out) : Does t e e' [] := by
  refine ⟨by rw [hcalls]; exact (List.append_nil _).symm, ⟨[], ?_, fun g hg => absurd hg List.not_mem_nil, rfl⟩, ?_⟩
  · rw [hout]
    exact (List.append_nil _).symm
  · rw [hout]
    exact id

/-- The room that a frame of `n` bytes finds. -/
def HasRoom (t : Tunnel D) (out : Output) (n : Nat) : Prop :=
  out.bytes = [] ∨ (n ≤ t.out_cap - out.bytes.length ∧ out.bytes.length ≤ t.out_cap)

lemma HasRoom.mono {out : Output} {n n' : Nat} (h : HasRoom t out n) (hle : n' ≤ n) : HasRoom t out n' :=
  h.imp_right fun ⟨h₁, h₂⟩ => ⟨hle.trans h₁, h₂⟩

lemma emit_writes (op : WsOpcode) (content : Str) (next : Assembly ⊕ WsInspectStatus)
    (hroom : HasRoom t e.out (headerSize t.masked content.length + content.length)) :
    (∃ out', emit_frame t e.out op content false = some out' ∧ writes t op content next = ([.frame op content], next) ∧
        out'.bytes = e.out.bytes ++ (sentFrame t e.out.drawn op content).wire ∧ Fits t op content ∧
        out'.bytes.length ≤ t.out_cap) ∨
      (emit_frame t e.out op content false = none ∧ writes t op content next = ([], .inr .error)) := by
  by_cases hfits : Fits t op content
  · have hemit := hfits.emit hroom
    obtain ⟨-, hle, -⟩ := emit_frame_iff.mp hemit
    refine .inl ⟨_, hemit, if_pos hfits, rfl, hfits, ?_⟩
    rwa [List.length_append, length_sentFrame]
  · exact .inr ⟨emit_frame_none hfits, if_neg hfits⟩

lemma Does.frame (hcalls : e'.calls = e.calls) (hfits : Fits t op content)
    (hout : e'.out.bytes = e.out.bytes ++ (sentFrame t e.out.drawn op content).wire)
    (hroom : e'.out.bytes.length ≤ t.out_cap) : Does t e e' [.frame op content] := by
  refine ⟨by rw [hcalls]; exact (List.append_nil _).symm, ⟨[sentFrame t e.out.drawn op content], ?_, ?_, rfl⟩, fun _ => hroom⟩
  · rw [hout, wires_singleton]
  · intro g hg
    rw [List.mem_singleton.mp hg]
    exact sentFrame_wellFormed hfits

lemma controlFrame_sim {h} (m : Assembly)
    (hroom : HasRoom t e.out (headerSize t.masked payload.length + payload.length)) :
    let r := controlFrame t e h payload
    Does t e r.2 (passes t m h.opcode payload).1 ∧ r.1.Agrees (passes t m h.opcode payload).2 ∧ r.2.msg = e.msg ∧
      (r.1 = .next → r.2.st = e.st ∧ (passes t m h.opcode payload).2 = .inl m) := by
  unfold controlFrame passes
  by_cases hclose : h.opcode = .close
  · rw [if_pos hclose, if_pos hclose]
    cases hd : decode_close_payload payload with
    | none => exact ⟨Does.nothing rfl rfl, rfl, rfl, nofun⟩
    | some d =>
      dsimp only
      rcases emit_writes h.opcode payload (.inr .close) hroom with ⟨out', hemit, hw, hout, hfits, hle'⟩ | ⟨hemit, hw⟩
      · rw [hemit, hw]
        exact ⟨Does.frame rfl hfits hout hle', rfl, rfl, nofun⟩
      · rw [hemit, hw]
        exact ⟨Does.nothing rfl rfl, rfl, rfl, nofun⟩
  · rw [if_neg hclose, if_neg hclose]
    rcases emit_writes h.opcode payload (.inl m) hroom with ⟨out', hemit, hw, hout, hfits, hle'⟩ | ⟨hemit, hw⟩
    · rw [hemit, hw]
      exact ⟨Does.frame rfl hfits hout hle', rfl, rfl, fun _ => ⟨rfl, rfl⟩⟩
    · rw [hemit, hw]
      exact ⟨Does.nothing rfl rfl, rfl, rfl, nofun⟩

/-- The room that `needed` asks for a message, without the header. -/
def messageRoom (t : Tunnel D) (original : Nat) : Nat :=
  if reasonRoom t ≠ 0 then max (dataRoom t original) (2 + reasonRoom t) else dataRoom t original

lemma emitClose_sim (code : Nat) (hle : reason.length ≤ kWsMaxCloseReasonBytes)
    (hroom : HasRoom t e.out ((2 + if t.masked then 4 else 0) + (2 + reason.length))) :
    (∃ out' content, emitClose t e.out code reason = some out' ∧
        closesWith t code reason = ([.frame .close content], .inr .close) ∧
        out'.bytes = e.out.bytes ++ (sentFrame t e.out.drawn .close content).wire ∧ Fits t .close content ∧
        out'.bytes.length ≤ t.out_cap) ∨
      (emitClose t e.out code reason = none ∧ closesWith t code reason = ([], .inr .error)) := by
  have hbody : (closeBody code reason).length = 2 + reason.length := by
    rw [closeBody, List.length_cons, List.length_cons]
    omega
  have hmax : 2 + reason.length ≤ kWsMaxControlPayload := by
    unfold kWsMaxCloseReasonBytes at hle
    unfold kWsMaxControlPayload at hle ⊢
    omega
  unfold emitClose closesWith
  generalize hhdr : (2 + if t.masked then 4 else 0) = hdr at hroom ⊢
  by_cases hfull : e.out.bytes.length + hdr + (2 + reason.length) > t.out_cap
  · -- there is room where something was written before, so nothing was
    have hnil : e.out.bytes = [] := by
      refine hroom.resolve_right fun ⟨h₁, h₂⟩ => ?_
      omega
    have hempty : ¬ hdr + (2 + reason.length) ≤ t.out_cap := by
      rw [hnil, List.length_nil] at hfull
      omega
    rw [if_pos hfull, if_neg hempty]
    by_cases hreason : reason ≠ []
    · rw [if_pos hreason, if_pos hreason]
      exact .inr ⟨rfl, rfl⟩
    · rw [if_neg hreason, if_neg hreason]
      rcases emit_writes .close [] (.inr .close) (show HasRoom t e.out _ from .inl hnil) with
        ⟨out', hemit, hw, hout, hfits, hle'⟩ | ⟨hemit, hw⟩
      · exact .inl ⟨out', [], hemit, hw, hout, hfits, hle'⟩
      · exact .inr ⟨hemit, hw⟩
  · have hempty : hdr + (2 + reason.length) ≤ t.out_cap := by omega
    rw [if_neg hfull, if_pos hempty]
    have hsize : headerSize t.masked (closeBody code reason).length + (closeBody code reason).length =
        hdr + (2 + reason.length) := by
      rw [hbody, headerSize_control _ hmax, hhdr]
    rcases emit_writes .close (closeBody code reason) (.inr .close) (hsize ▸ hroom) with ⟨out', hemit, hw, hout, hfits, hle'⟩ | ⟨hemit, hw⟩
    · exact .inl ⟨out', _, hemit, hw, hout, hfits, hle'⟩
    · exact .inr ⟨hemit, hw⟩

lemma compress_emitted_message_none {st out n} (henc : st.encoder = none) :
    compress_emitted_message t st n out = some (st, out) := by
  unfold compress_emitted_message
  rw [henc]

lemma deliver_sim (henc : e.st.encoder = none)
    (hroom : HasRoom t e.out (messageRoom t payload.length + kWsMaxHeaderSize)) :
    let r := deliver t e op payload
    Does t e r.2 (completes t op payload).1 ∧ r.1.Agrees (completes t op payload).2 ∧ r.2.msg = e.msg ∧
      (r.1 = .next → (completes t op payload).2 = .inl {} ∧
        r.2.st = { e.st with message_len := 0, compressed_message := false }) := by
  have hdata : dataRoom t payload.length ≤ messageRoom t payload.length := by
    unfold messageRoom
    split_ifs
    · exact Nat.le_max_left ..
    · exact Nat.le_refl _
  have hcalls : ∀ e' ws, Does t { e with calls := e.calls ++ [(op, payload)] } e' ws →
      Does t e e' (.call op payload :: ws) := by
    intro e' ws hd
    refine ⟨?_, hd.out, hd.room⟩
    rw [hd.calls, List.append_assoc]
    rfl
  unfold deliver completes
  by_cases htext : op = .text ∧ utf8_valid payload = false
  · rw [if_pos htext, if_pos htext]
    exact ⟨Does.nothing rfl rfl, rfl, rfl, nofun⟩
  rw [if_neg htext, if_neg htext]
  unfold verdict
  have hbound := reply_bounded t op payload
  generalize reply t op payload = verdict at hbound ⊢
  cases verdict with
  | error => exact ⟨hcalls _ _ (Does.nothing rfl rfl), rfl, rfl, nofun⟩
  | nothing => exact ⟨hcalls _ _ (Does.nothing rfl rfl), rfl, rfl, fun _ => ⟨rfl, rfl⟩⟩
  | frame op' content =>
    have hfit := headerSize_le t.masked content.length
    have hle : content.length ≤ dataRoom t payload.length := hbound
    have hframe := hroom.mono (show headerSize t.masked content.length + content.length ≤ _ by omega)
    dsimp only
    rcases emit_writes op' content (.inl {}) hframe with ⟨out', hemit, hw, hout, hfits, hle'⟩ | ⟨hemit, hw⟩
    · rw [hemit, hw, Option.bind_some, compress_emitted_message_none henc]
      exact ⟨hcalls _ _ (Does.frame rfl hfits hout hle'), rfl, rfl, fun _ => ⟨rfl, rfl⟩⟩
    · rw [hemit, hw]
      exact ⟨hcalls _ _ (Does.nothing rfl rfl), rfl, rfl, nofun⟩
  | closes code reason =>
    obtain ⟨hmax, hreason⟩ := hbound
    have hclose : (2 + if t.masked then 4 else 0) + (2 + reason.length) ≤
        messageRoom t payload.length + kWsMaxHeaderSize := by
      unfold messageRoom at hdata ⊢
      unfold kWsMaxHeaderSize
      split_ifs at hdata ⊢ <;> omega
    dsimp only
    rcases emitClose_sim code hmax (hroom.mono hclose) with ⟨out', content, hemit, hw, hout, hfits, hle'⟩ | ⟨hemit, hw⟩
    · rw [hemit, hw]
      exact ⟨hcalls _ _ (Does.frame rfl hfits hout hle'), rfl, rfl, nofun⟩
    · rw [hemit, hw]
      exact ⟨hcalls _ _ (Does.nothing rfl rfl), rfl, rfl, nofun⟩

end Rut.Ws
