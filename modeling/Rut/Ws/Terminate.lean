import Rut.Common.Utf8
import Rut.Pool.SlicePool
import Rut.Ws.Frame

/-!
# The inspection of WebSocket messages

Port of `ws_inspect` of `src/runtime/ws_terminate.cc` with what it calls. The fields of `WsInspector` that nobody
changes are the settings. The handler is a function of the message, the random numbers that become masking keys come
from a stream, and the decoder, the encoder and the JSON document are parameters. A call notes the messages it has
handed to the handler.
-/

set_option linter.all false
namespace Rut.Ws

open Lib (Memory.read Memory.write)
open Incremental

abbrev Buffer := Nat → UInt8

def kWsMaxCloseReasonBytes : Nat := kWsMaxControlPayload - 2
def kWsMaxMessageCapacity : Nat := Pool.kBulkSliceSize - kWsMaxHeaderSize
def kWsMaxClosePolicies : Nat := 4
def kWsMaxForwardTexts : Nat := 4

def kMaxBytes : Nat := 8192

/-- `ws_valid_text_payload`. -/
def ws_valid_text_payload (text : Str) : Bool := utf8_valid text

/-- `ws_valid_close_reason`. -/
def ws_valid_close_reason (reason : Str) : Bool :=
  decide (reason.length ≤ kWsMaxCloseReasonBytes) && ws_valid_text_payload reason

/-- `ws_valid_close_code`. -/
def ws_valid_close_code (code : Nat) : Bool :=
  (1000 ≤ code && code ≤ 1003) || (1007 ≤ code && code ≤ 1014) || (3000 ≤ code && code ≤ 4999)

/-- `decode_close_payload`: the status and the reason. -/
def decode_close_payload (payload : Str) : Option (Nat × Str) :=
  if payload.length > kWsMaxControlPayload then none
  else
    match payload with
    | [] => some (1005, [])
    | [_] => none
    | b₀ :: b₁ :: reason =>
      let code := b₀.toNat * 256 + b₁.toNat
      if ws_valid_close_code code && ws_valid_close_reason reason then some (code, reason) else none

/-- `WsFrameAction`, and a value that is none of these. -/
inductive WsFrameAction where
  | forward
  | drop
  | close
  | forwardText
  | closePolicy (i : Fin 4)
  | forwardTextPolicy (i : Fin 4)
  | forwardDynamic
  | closeDynamic
  | unknown
deriving DecidableEq

structure WsClosePolicy where
  code : Nat := 1000
  reason : Str := []
deriving DecidableEq

inductive WsTextSource where
  | literal
  | messageText
  | jsonString
  | jsonNumberText
  | jsonStringify
  | literalBinary
  | messageBytes
  | dynamic
deriving DecidableEq

structure WsTextRewrite where
  prefix_text : Str := []
  suffix_text : Str := []
  source_path : Str := []
  source : WsTextSource := .literal
deriving DecidableEq

structure WsHandlerOutput where
  payload : Str := []
  close_code : Nat := 1000
  opcode : WsOpcode := .text
  ready : Bool := false
deriving DecidableEq

/-- `WsMessageHandlerFn`, with what it publishes. -/
abbrev WsMessageHandlerFn := WsOpcode → Str → Bool → WsFrameAction × WsHandlerOutput

/-- What the rewrites use of `json::Document`: the string, the number and the serialised value at a path of a message.
Decoding does not make a string longer, and the workspace is bounded. -/
structure Json where
  string : Str → Str → Option Str
  number : Str → Str → Option Str
  stringify : Str → Str → Option Str
  string_le : ∀ {payload path text}, string payload path = some text → text.length ≤ payload.length
  number_le : ∀ {payload path text}, number payload path = some text → text.length ≤ payload.length
  stringify_le : ∀ {payload path text}, stringify payload path = some text → text.length ≤ kMaxBytes

/-- What is used of `ws_deflate.cc`, over codecs of type `D`. -/
structure Deflate (D : Type) where
  ws_inflate_begin : D → Nat → Option D
  ws_inflate_chunk : D → Str → Bool → Nat → Buffer → Option (D × Buffer × Nat)
  ws_deflate_payload : D → Str → Nat → Option (D × Option Str)

/-- `ws_deflate_wire_limit`. -/
def ws_deflate_wire_limit (decoded_limit : Nat) : Nat := decoded_limit + decoded_limit / 8 + 1024

/-- The fields of `WsInspector` that the caller sets. -/
structure WsSettings where
  masked : Bool := false
  from_client : Bool := false
  dynamic_output : Bool := false
  forward_text : WsTextRewrite := {}
  forward_texts : List WsTextRewrite := []
  max_message_size : Nat := 0
  close_reason : Str := []
  close_policies : List WsClosePolicy := []
  close_code : Nat := 1000
  reject_fragmented : Bool := false

/-- What the calls for one direction have in common. The capacities are numbers of 32 bits. -/
structure Tunnel (D : Type) extends WsSettings where
  out_cap : Nat
  msg_cap : Nat
  out_cap_lt : out_cap < 2 ^ 32
  msg_cap_lt : msg_cap < 2 ^ 32
  handler : WsMessageHandlerFn
  keys : Nat → Key
  json : Json
  deflate : Deflate D

/-- The fields of `WsInspector` that change. -/
structure WsInspector (D : Type) where
  decoder : Option D := none
  encoder : Option D := none
  compressed_message : Bool := false
  echo_close_reason : Str := []
  echo_close_code : Nat := 1000
  received_close : Bool := false
  assembler : WsMessageAssembler := {}
  message_len : Nat := 0
  partial_data_frame : Bool := false
  partial_header : WsFrameHeader := ⟨false, false, .continuation, .zero, 0, 0, false⟩
  partial_payload_len : Nat := 0

structure Output where
  bytes : Str := []
  drawn : Nat := 0
deriving DecidableEq

structure Engine (D : Type) where
  st : WsInspector D
  msg : Buffer
  out : Output
  calls : List (WsOpcode × Str) := []

inductive Flow where
  | next
  | stop
  | close
  | error
deriving DecidableEq

variable {D : Type}

/-! ## Output -/

/-- `emit_frame`. -/
def emit_frame (t : Tunnel D) (out : Output) (op : WsOpcode) (content : Str) (compressed : Bool) : Option Output :=
  let key := if t.masked then t.keys out.drawn else .zero
  match ws_write_header op true t.masked key content.length compressed with
  | none => none
  | some header =>
    if out.bytes.length + header.length + content.length > t.out_cap then none
    else some {
      bytes := out.bytes ++ header ++ (if t.masked then ws_unmask content key else content)
      drawn := out.drawn + if t.masked then 1 else 0 }

/-- `compress_emitted_message`. -/
def compress_emitted_message (t : Tunnel D) (st : WsInspector D) (before : Nat) (out : Output) :
    Option (WsInspector D × Output) :=
  match st.encoder with
  | none => some (st, out)
  | some encoder =>
    if out.bytes.length = before then some (st, out)
    else
      match ws_parse_header t.masked false (out.bytes.drop before) with
      | .done h body =>
        if (h.opcode ≠ .text ∧ h.opcode ≠ .binary) ∨ h.payload_len ≠ body.length then none
        else
          match t.deflate.ws_deflate_payload encoder (if t.masked then ws_unmask body h.mask_key else body) t.msg_cap with
          | none => none
          | some (encoder, none) => some ({ st with encoder := some encoder }, out)
          | some (encoder, some payload) =>
            if payload.length < h.payload_len then
              (emit_frame t { out with bytes := out.bytes.take before } h.opcode payload true).map
                fun out => ({ st with encoder := some encoder }, out)
            else some ({ st with encoder := some encoder }, out)
      | _ => none

/-! ## Verdicts -/

inductive Reply where
  | error
  | nothing
  | frame (op : WsOpcode) (content : Str)
  | closes (code : Nat) (reason : Str)
deriving DecidableEq

/-- `ws_valid_text_rewrite`. -/
def ws_valid_text_rewrite (r : WsTextRewrite) (max_size : Nat) : Bool :=
  let literal_size := r.prefix_text.length + r.suffix_text.length
  match r.source with
  | .dynamic => r.prefix_text == [] && r.suffix_text == [] && r.source_path == []
  | source =>
    (source != .messageBytes || (r.prefix_text == [] && r.suffix_text == [])) &&
    (if source = .jsonString ∨ source = .jsonNumberText ∨ source = .jsonStringify then
      decide (r.source_path.length ≤ kMaxBytes) else r.source_path == []) &&
    decide (literal_size ≤ kWsMaxMessageCapacity) && (max_size == 0 || decide (literal_size ≤ max_size)) &&
    (source == .literalBinary || (ws_valid_text_payload r.prefix_text && ws_valid_text_payload r.suffix_text))

def fitsMessage (t : Tunnel D) (size : Nat) : Bool :=
  decide (size ≤ kWsMaxMessageCapacity) && (t.max_message_size == 0 || decide (size ≤ t.max_message_size))

/-- `emit_json_string_frame` and its siblings: the text between the affixes. -/
def jsonText (t : Tunnel D) (source : WsTextSource) (path payload : Str) : Option Str :=
  if payload.length > kMaxBytes ∨ path.length > kMaxBytes then none
  else
    match source with
    | .jsonString => (t.json.string payload path).filter ws_valid_text_payload
    | .jsonNumberText => t.json.number payload path
    | .jsonStringify => t.json.stringify payload path
    | _ => none

/-- The verdict `ForwardText`. -/
def rewriteReply (t : Tunnel D) (r : WsTextRewrite) (payload : Str) : Reply :=
  let taken := if r.source = .messageText ∨ r.source = .messageBytes then payload else []
  let content := r.prefix_text ++ taken ++ r.suffix_text
  if r.source = .dynamic ∨ ws_valid_text_rewrite r t.max_message_size = false ∨
      (r.source = .messageText ∧ utf8_valid payload = false) ∨ fitsMessage t content.length = false then .error
  else if r.source = .jsonString ∨ r.source = .jsonNumberText ∨ r.source = .jsonStringify then
    match jsonText t r.source r.source_path payload with
    | none => .error
    | some text =>
      if fitsMessage t (r.prefix_text.length + text.length + r.suffix_text.length) then
        .frame .text (r.prefix_text ++ text ++ r.suffix_text)
      else .error
  else .frame (if r.source = .literalBinary ∨ r.source = .messageBytes then .binary else .text) content

def closeReply (code : Nat) (reason : Str) : Reply :=
  if ws_valid_close_code code && ws_valid_close_reason reason then .closes code reason else .error

def published (t : Tunnel D) (output : WsHandlerOutput) : Option WsHandlerOutput :=
  if t.forward_text.source = .dynamic ∧ t.dynamic_output ∧ output.ready then some output else none

def reply (t : Tunnel D) (msg_op : WsOpcode) (payload : Str) : Reply :=
  match t.handler msg_op payload t.from_client with
  | (.forward, _) => .frame msg_op payload
  | (.drop, _) => .nothing
  | (.close, _) => closeReply t.close_code t.close_reason
  | (.closePolicy i, _) =>
    match t.close_policies[i.val]? with
    | some policy => closeReply policy.code policy.reason
    | none => .error
  | (.forwardText, _) => rewriteReply t t.forward_text payload
  | (.forwardTextPolicy i, _) =>
    match t.forward_texts[i.val]? with
    | some rewrite => rewriteReply t rewrite payload
    | none => .error
  | (.forwardDynamic, output) =>
    match published t output with
    | some output =>
      if (output.opcode = .text ∨ output.opcode = .binary) ∧ fitsMessage t output.payload.length ∧
          (output.opcode = .text → ws_valid_text_payload output.payload) then .frame output.opcode output.payload
      else .error
    | none => .error
  | (.closeDynamic, output) =>
    match published t output with
    | some output => closeReply output.close_code output.payload
    | none => .error
  | (.unknown, _) => .error

def closeBody (code : Nat) (reason : Str) : Str := UInt8.ofNat (code / 256) :: UInt8.ofNat code :: reason

/-- The Close frame of a verdict, which loses its status when there is no room and no reason. -/
def emitClose (t : Tunnel D) (out : Output) (code : Nat) (reason : Str) : Option Output :=
  let header := 2 + if t.masked then 4 else 0
  if out.bytes.length + header + (2 + reason.length) > t.out_cap then
    if reason ≠ [] then none else emit_frame t out .close [] false
  else emit_frame t out .close (closeBody code reason) false

def deliver (t : Tunnel D) (e : Engine D) (msg_op : WsOpcode) (payload : Str) : Flow × Engine D :=
  if msg_op = .text ∧ utf8_valid payload = false then (.error, e)
  else
    let e := { e with calls := e.calls ++ [(msg_op, payload)] }
    match reply t msg_op payload with
    | .error => (.error, e)
    | .nothing => (.next, { e with st := { e.st with message_len := 0, compressed_message := false } })
    | .frame op content =>
      match (emit_frame t e.out op content false).bind (compress_emitted_message t e.st e.out.bytes.length) with
      | none => (.error, e)
      | some (st, out) => (.next, { e with st := { st with message_len := 0, compressed_message := false }, out := out })
    | .closes code reason =>
      match emitClose t e.out code reason with
      | none => (.error, e)
      | some out => (.close, { e with
          st := { e.st with
            echo_close_reason := reason, echo_close_code := code, received_close := false, message_len := 0 }
          out := out })

/-! ## Frames -/

namespace WsInspector

def header (t : Tunnel D) (st : WsInspector D) (p : Str) : Read UInt8 Unit WsFrameHeader :=
  if st.partial_data_frame then .done st.partial_header p else ws_parse_header t.masked st.decoder.isSome p

/-- `kCompressed`. -/
def compressed (st : WsInspector D) (h : WsFrameHeader) : Bool :=
  !h.opcode.isControl && if st.partial_data_frame ∨ h.opcode = .continuation then st.compressed_message else h.compressed

end WsInspector

/-- `kDecodedLimit`. -/
def decodedLimit (t : Tunnel D) : Nat :=
  if t.max_message_size ≠ 0 ∧ t.max_message_size < t.msg_cap then t.max_message_size else t.msg_cap

def refused (t : Tunnel D) (st : WsInspector D) (h : WsFrameHeader) : Bool :=
  !h.opcode.isControl &&
    ((t.reject_fragmented && (h.opcode == .continuation || !h.fin)) ||
      ((h.opcode == .continuation) != st.assembler.in_fragmented) ||
      if st.compressed h then
        let limit := ws_deflate_wire_limit (decodedLimit t)
        st.decoder.isNone || decide (h.payload_len > limit) ||
          decide (st.assembler.accumulated_len > limit - h.payload_len)
      else
        decide (st.message_len + h.payload_len > t.msg_cap) ||
          (t.max_message_size != 0 && decide (st.message_len + h.payload_len > t.max_message_size)))

def rewritten_size (t : Tunnel D) (original : Nat) (r : WsTextRewrite) : Nat :=
  match r.source with
  | .dynamic => max (if t.max_message_size ≠ 0 then t.max_message_size else kWsMaxMessageCapacity) kWsMaxControlPayload
  | .jsonStringify => r.prefix_text.length + r.suffix_text.length + kMaxBytes
  | .literal | .literalBinary => r.prefix_text.length + r.suffix_text.length
  | _ => r.prefix_text.length + r.suffix_text.length + original

def needed (t : Tunnel D) (st : WsInspector D) (h : WsFrameHeader) (frame_total : Nat) : Nat :=
  let original := if st.compressed h then decodedLimit t else st.message_len + h.payload_len
  let data_size := t.forward_texts.foldl (fun size r => max size (rewritten_size t original r))
    (max (rewritten_size t original t.forward_text) original)
  let reason_size := t.close_policies.foldl (fun size policy => max size policy.reason.length) t.close_reason.length
  let data_size := if reason_size ≠ 0 then max data_size (2 + reason_size) else data_size
  if h.opcode.isControl then frame_total else if h.fin then data_size + kWsMaxHeaderSize else 0

def controlFrame (t : Tunnel D) (e : Engine D) (h : WsFrameHeader) (payload : Str) : Flow × Engine D :=
  if h.opcode = .close then
    match decode_close_payload payload with
    | none => (.error, e)
    | some (code, reason) =>
      let e := { e with st := { e.st with echo_close_code := code, echo_close_reason := reason, received_close := true } }
      match emit_frame t e.out h.opcode payload false with
      | none => (.error, e)
      | some out => (.close, { e with out := out })
  else
    match emit_frame t e.out h.opcode payload false with
    | none => (.error, e)
    | some out => (.next, { e with out := out })

def endFrame (t : Tunnel D) (e : Engine D) (h : WsFrameHeader) (compressed : Bool) : Flow × Engine D :=
  let e := { e with st := { e.st with partial_data_frame := false, partial_payload_len := 0 } }
  let limit := if compressed then ws_deflate_wire_limit (decodedLimit t) else t.max_message_size
  match ws_message_feed e.st.assembler h limit with
  | (.error, assembler) => (.error, { e with st := { e.st with assembler := assembler } })
  | (status, assembler) =>
    let message_len := if compressed then e.st.message_len else e.st.message_len + h.payload_len
    let e := { e with st := { e.st with assembler := assembler, message_len := message_len } }
    match status with
    | .complete msg_op total =>
      deliver t e msg_op (Memory.read e.msg 0 (if compressed then e.st.message_len else total))
    | _ => (.next, e)

/-- Bytes of a payload are put into the message buffer, through the decoder where they are compressed. -/
def store (t : Tunnel D) (e : Engine D) (h : WsFrameHeader) (compressed last : Bool) (bytes : Str) : Option (Engine D) :=
  let offset := e.st.partial_payload_len
  let plain := if t.masked then ws_unmask_chunk bytes h.mask_key offset else bytes
  let fresh : Bool := !e.st.partial_data_frame && h.opcode != .continuation
  let e := if fresh then { e with st := { e.st with compressed_message := compressed } } else e
  if compressed then
    match e.st.decoder with
    | none => none
    | some decoder =>
      match if fresh then t.deflate.ws_inflate_begin decoder (decodedLimit t) else some decoder with
      | none => none
      | some decoder =>
        match t.deflate.ws_inflate_chunk decoder plain (h.fin && last) t.msg_cap e.msg with
        | none => none
        | some (decoder, msg, decoded) =>
          some { e with st := { e.st with decoder := some decoder, message_len := decoded }, msg := msg }
  else some { e with msg := Memory.write e.msg (e.st.message_len + offset) plain }

/-- The bytes of a data frame that have arrived, and how many they are with the header. -/
def dataFrame (t : Tunnel D) (e : Engine D) (h : WsFrameHeader) (p : Str) : Flow × Nat × Engine D :=
  let header_len := if e.st.partial_data_frame then 0 else h.header_len
  let compressed := e.st.compressed h
  let remain := h.payload_len - e.st.partial_payload_len
  let chunk := min remain (p.length - header_len)
  match store t e h compressed (decide (chunk = remain)) ((p.drop header_len).take chunk) with
  | none => (.error, 0, e)
  | some e =>
    let received := e.st.partial_payload_len + chunk
    if received < h.payload_len then
      (.stop, header_len + chunk, { e with st := { e.st with
        partial_payload_len := received, partial_data_frame := true, partial_header := h } })
    else
      let (flow, e) := endFrame t e h compressed
      (flow, header_len + chunk, e)

/-- A turn of the loop of `ws_inspect` on the input that is left: how it ends and how much it takes. -/
def turn (t : Tunnel D) (e : Engine D) (p : Str) : Flow × Nat × Engine D :=
  match e.st.header t p with
  | .stall _ => (.stop, 0, e)
  | .fail => (.error, 0, e)
  | .done h _ =>
    if refused t e.st h then (.error, 0, e)
    else
      let header_len := if e.st.partial_data_frame then 0 else h.header_len
      let frame_total := header_len + h.payload_len - e.st.partial_payload_len
      let wrote := e.out.bytes ≠ []
      if p.length < frame_total ∧ (h.opcode.isControl ∨ wrote) then (.stop, 0, e)
      else if wrote ∧ needed t e.st h frame_total > t.out_cap - e.out.bytes.length then (.stop, 0, e)
      else if h.opcode.isControl then
        let body := (p.drop header_len).take h.payload_len
        let (flow, e) := controlFrame t e h (if t.masked then ws_unmask body h.mask_key else body)
        (flow, if flow = .error then 0 else frame_total, e)
      else dataFrame t e h p

inductive WsInspectStatus where
  | ok
  | close
  | error
deriving DecidableEq

/-- The loop of `ws_inspect`. A turn takes a byte, or ends a frame whose bytes were all taken. -/
def inspectLoop (t : Tunnel D) : Nat → Engine D → Str → Nat → WsInspectStatus × Nat × Engine D
  | 0, e, _, consumed => (.ok, consumed, e)
  | fuel + 1, e, p, consumed =>
    match turn t e p with
    | (.next, n, e) => inspectLoop t fuel e (p.drop n) (consumed + n)
    | (.stop, n, e) => (.ok, consumed + n, e)
    | (.close, n, e) => (.close, consumed + n, e)
    | (.error, n, e) => (.error, consumed + n, e)

/-- `ws_inspect`: the status, the bytes consumed, and the inspector, the message buffer and the output after it. -/
def ws_inspect (t : Tunnel D) (st : WsInspector D) (msg : Buffer) (drawn : Nat) (input : Str) :
    WsInspectStatus × Nat × Engine D :=
  let e : Engine D := ⟨st, msg, ⟨[], drawn⟩, []⟩
  if t.close_policies.length > kWsMaxClosePolicies ∨ t.forward_texts.length > kWsMaxForwardTexts then (.error, 0, e)
  else inspectLoop t (input.length + 2) e input 0

end Rut.Ws
