import Rut.Ws.Terminate
import Rut.Ws.Wire

/-!
# The output of an inspection

What is written for a verdict, and that a frame for which `needed` has room is written whether or not other frames were
written before it.
-/

namespace Rut.Ws

open Incremental

variable {D : Type} {t : Tunnel D} {out : Output} {op : WsOpcode} {content payload reason : Str} {code : Nat}

def headerSize (masked : Bool) (n : Nat) : Nat := 2 + (lengthField n).2.length + if masked then 4 else 0

lemma length_lengthField (n : Nat) : (lengthField n).2.length ≤ 8 := by
  unfold lengthField
  split_ifs
  · exact Nat.zero_le _
  · rw [length_bigEndianBytes]
    omega
  · rw [length_bigEndianBytes]

lemma headerSize_le (masked : Bool) (n : Nat) : headerSize masked n ≤ kWsMaxHeaderSize := by
  have h := length_lengthField n
  unfold headerSize kWsMaxHeaderSize
  split_ifs <;> omega

lemma headerSize_control (masked : Bool) {n} (h : n ≤ kWsMaxControlPayload) :
    headerSize masked n = 2 + if masked then 4 else 0 := by
  rw [headerSize, lengthField_short h]
  rfl

lemma length_headerWire (fin compressed : Bool) (op : WsOpcode) (key : Option Key) (n : Nat) :
    (headerWire fin compressed op key n).length = headerSize key.isSome n := by
  unfold headerWire headerSize
  cases key with
  | none => simp; omega
  | some key => simp [Key.bytes]; omega

def sentFrame (t : Tunnel D) (drawn : Nat) (op : WsOpcode) (content : Str) : Frame :=
  ⟨true, false, op, if t.masked then some (t.keys drawn) else none, content⟩

lemma length_sentFrame (t : Tunnel D) (drawn : Nat) (op : WsOpcode) (content : Str) :
    (sentFrame t drawn op content).wire.length = headerSize t.masked content.length + content.length := by
  rw [Frame.wire, List.length_append, length_headerWire, Frame.body, sentFrame]
  cases t.masked with
  | false => rfl
  | true => exact congrArg (_ + ·) (length_ws_unmask content (t.keys drawn))

structure Fits (t : Tunnel D) (op : WsOpcode) (content : Str) : Prop where
  header : HeaderOk false true false op content.length
  room : headerSize t.masked content.length + content.length ≤ t.out_cap

lemma HeaderOk.plain {allow fin : Bool} {n : Nat} (h : HeaderOk allow fin false op n) (allow' : Bool) :
    HeaderOk allow' fin false op n := ⟨h.length, fun hc => absurd hc Bool.false_ne_true, h.control⟩

lemma sentFrame_wellFormed {drawn} (h : Fits t op content) : (sentFrame t drawn op content).WellFormed t.masked false := by
  refine ⟨?_, h.header⟩
  rw [sentFrame]
  cases t.masked <;> rfl

/-- `emit_frame` writes a frame if it has room. -/
lemma emit_frame_iff {out'} : emit_frame t out op content false = some out' ↔
      HeaderOk false true false op content.length ∧
      out.bytes.length + (headerSize t.masked content.length + content.length) ≤ t.out_cap ∧
      out' = ⟨out.bytes ++ (sentFrame t out.drawn op content).wire, out.drawn + if t.masked then 1 else 0⟩ := by
  have hkey : (if t.masked then some (if t.masked then t.keys out.drawn else Key.zero) else none) =
      if t.masked then some (t.keys out.drawn) else none := by cases t.masked <;> rfl
  have hsome : (if t.masked then some (t.keys out.drawn) else none).isSome = t.masked := by cases t.masked <;> rfl
  have hbody : (sentFrame t out.drawn op content).body =
      if t.masked then ws_unmask content (if t.masked then t.keys out.drawn else .zero) else content := by
    rw [Frame.body, sentFrame]
    cases t.masked <;> rfl
  unfold emit_frame
  dsimp only
  cases hw : ws_write_header op true t.masked (if t.masked then t.keys out.drawn else .zero) content.length false with
  | none =>
    refine iff_of_false (Option.some_ne_none _).symm ?_
    rintro ⟨hok, -⟩
    rw [ws_write_header_iff.mpr ⟨hok.plain true, rfl⟩] at hw
    cases hw
  | some w =>
    obtain ⟨hok, rfl⟩ := ws_write_header_iff.mp hw
    have hwire : out.bytes ++ headerWire true false op (if t.masked then some (t.keys out.drawn) else none) content.length ++
        (if t.masked then ws_unmask content (if t.masked then t.keys out.drawn else .zero) else content) =
        out.bytes ++ (sentFrame t out.drawn op content).wire := by
      rw [Frame.wire, hbody, List.append_assoc]
      rfl
    dsimp only
    rw [hkey, hwire, length_headerWire, hsome]
    by_cases hroom : out.bytes.length + headerSize t.masked content.length + content.length > t.out_cap
    · rw [if_pos hroom]
      refine iff_of_false (Option.some_ne_none _).symm ?_
      rintro ⟨-, hle, -⟩
      omega
    · rw [if_neg hroom, Option.some.injEq, eq_comm]
      exact ⟨fun h => ⟨hok.plain false, by omega, h⟩, fun h => h.2.2⟩

lemma Fits.emit (h : Fits t op content) (hroom : out.bytes = [] ∨
    headerSize t.masked content.length + content.length ≤ t.out_cap - out.bytes.length ∧ out.bytes.length ≤ t.out_cap) :
    emit_frame t out op content false =
      some ⟨out.bytes ++ (sentFrame t out.drawn op content).wire, out.drawn + if t.masked then 1 else 0⟩ := by
  refine emit_frame_iff.mpr ⟨h.header, ?_, rfl⟩
  rcases hroom with hnil | hroom
  · rw [hnil, List.length_nil, Nat.zero_add]
    exact h.room
  · omega

lemma emit_frame_none (h : ¬ Fits t op content) : emit_frame t out op content false = none := by
  cases hout : emit_frame t out op content false with
  | none => rfl
  | some out' =>
    obtain ⟨hok, hroom, -⟩ := emit_frame_iff.mp hout
    exact absurd ⟨hok, by omega⟩ h

/-! ## The room for a verdict -/

def dataRoom (t : Tunnel D) (original : Nat) : Nat :=
  t.forward_texts.foldl (fun size r => max size (rewritten_size t original r))
    (max (rewritten_size t original t.forward_text) original)

def reasonRoom (t : Tunnel D) : Nat :=
  t.close_policies.foldl (fun size policy => max size policy.reason.length) t.close_reason.length

lemma le_foldl_max {α : Type} (f : α → Nat) (l : List α) (init : Nat) :
    init ≤ l.foldl (fun size x => max size (f x)) init ∧ ∀ x ∈ l, f x ≤ l.foldl (fun size x => max size (f x)) init := by
  induction l generalizing init with
  | nil => exact ⟨Nat.le_refl _, fun x hx => absurd hx List.not_mem_nil⟩
  | cons a l ih =>
    obtain ⟨hinit, hmem⟩ := ih (max init (f a))
    refine ⟨(Nat.le_max_left ..).trans hinit, fun x hx => ?_⟩
    rcases List.mem_cons.mp hx with rfl | hx
    · exact (Nat.le_max_right ..).trans hinit
    · exact hmem x hx

lemma original_le (t : Tunnel D) (original : Nat) : original ≤ dataRoom t original :=
  (Nat.le_max_right ..).trans (le_foldl_max _ _ _).1

lemma forward_text_le (t : Tunnel D) (original : Nat) : rewritten_size t original t.forward_text ≤ dataRoom t original :=
  (Nat.le_max_left ..).trans (le_foldl_max _ _ _).1

lemma forward_texts_le {r : WsTextRewrite} (h : r ∈ t.forward_texts) (original : Nat) :
    rewritten_size t original r ≤ dataRoom t original := (le_foldl_max _ _ _).2 r h

lemma close_reason_le (t : Tunnel D) : t.close_reason.length ≤ reasonRoom t := (le_foldl_max _ _ _).1

lemma close_policy_le {policy : WsClosePolicy} (h : policy ∈ t.close_policies) : policy.reason.length ≤ reasonRoom t :=
  (le_foldl_max (fun policy : WsClosePolicy => policy.reason.length) _ _).2 policy h

/-- A verdict forwards no more than there is room for, and closes with a reason that there is room for. -/
def Reply.Bounded (t : Tunnel D) (original : Nat) : Reply → Prop
  | .frame _ content => content.length ≤ dataRoom t original
  | .closes _ reason =>
    reason.length ≤ kWsMaxCloseReasonBytes ∧ (reason.length ≤ reasonRoom t ∨ 2 + reason.length ≤ dataRoom t original)
  | _ => True

lemma jsonText_le {source path text} (h : jsonText t source path payload = some text) :
    text.length ≤ if source = .jsonStringify then kMaxBytes else payload.length := by
  unfold jsonText at h
  split_ifs at h
  cases source with
  | jsonString => exact t.json.string_le (Option.filter_eq_some_iff.mp h).1
  | jsonNumberText => exact t.json.number_le h
  | jsonStringify => exact t.json.stringify_le h
  | _ => cases h

/-- A rewritten message is not larger than `rewritten_size`. -/
lemma rewriteReply_bounded {r original} (hlen : payload.length = original)
    (hroom : rewritten_size t original r ≤ dataRoom t original) : (rewriteReply t r payload).Bounded t original := by
  subst hlen
  have hlen : ∀ text : Str, (r.prefix_text ++ text ++ r.suffix_text).length =
      r.prefix_text.length + r.suffix_text.length + text.length := by
    intro text
    rw [List.length_append, List.length_append]
    omega
  unfold rewriteReply
  generalize htaken : (if r.source = .messageText ∨ r.source = .messageBytes then payload else []) = taken
  by_cases herror : r.source = .dynamic ∨ ws_valid_text_rewrite r t.max_message_size = false ∨
      (r.source = .messageText ∧ utf8_valid payload = false) ∨
        fitsMessage t (r.prefix_text ++ taken ++ r.suffix_text).length = false
  · rw [if_pos herror]
    trivial
  rw [if_neg herror]
  by_cases hjson : r.source = .jsonString ∨ r.source = .jsonNumberText ∨ r.source = .jsonStringify
  · rw [if_pos hjson]
    split
    · trivial
    rename_i text htext
    have htext' := jsonText_le htext
    split_ifs
    · show (r.prefix_text ++ text ++ r.suffix_text).length ≤ _
      rw [hlen]
      refine (Nat.add_le_add_left htext' _).trans (Nat.le_trans (Nat.le_of_eq ?_) hroom)
      unfold rewritten_size
      rcases hjson with hsource | hsource | hsource
      · rw [hsource]
        rfl
      · rw [hsource]
        rfl
      · rw [hsource]
        rfl
    · trivial
  · rw [if_neg hjson]
    show (r.prefix_text ++ taken ++ r.suffix_text).length ≤ _
    rw [hlen, ← htaken]
    refine Nat.le_trans (Nat.le_of_eq ?_) hroom
    unfold rewritten_size
    cases hsource : r.source with
    | dynamic => exact absurd (.inl hsource) herror
    | jsonString => exact absurd (.inl hsource) hjson
    | jsonNumberText => exact absurd (.inr (.inl hsource)) hjson
    | jsonStringify => exact absurd (.inr (.inr hsource)) hjson
    | _ => rfl

lemma closeReply_bounded {original} (hroom : reason.length ≤ kWsMaxCloseReasonBytes →
    reason.length ≤ reasonRoom t ∨ 2 + reason.length ≤ dataRoom t original) :
    (closeReply code reason).Bounded t original := by
  unfold closeReply
  split_ifs with hvalid
  · rw [Bool.and_eq_true] at hvalid
    have hle := hvalid.2
    unfold ws_valid_close_reason at hle
    rw [Bool.and_eq_true, decide_eq_true_iff] at hle
    exact ⟨hle.1, hroom hle.1⟩
  · trivial

lemma published_room {output output'} (h : published t output = some output') (original : Nat) :
    max (if t.max_message_size ≠ 0 then t.max_message_size else kWsMaxMessageCapacity) kWsMaxControlPayload ≤
      dataRoom t original := by
  unfold published at h
  split_ifs at h with hdynamic
  have hle := forward_text_le t original
  unfold rewritten_size at hle
  rwa [hdynamic.1] at hle

lemma fitsMessage_le {size} (h : fitsMessage t size = true) :
    size ≤ if t.max_message_size ≠ 0 then t.max_message_size else kWsMaxMessageCapacity := by
  unfold fitsMessage at h
  rw [Bool.and_eq_true, decide_eq_true_iff, Bool.or_eq_true, beq_iff_eq, decide_eq_true_iff] at h
  split_ifs <;> omega

lemma reply_bounded (t : Tunnel D) (op : WsOpcode) (payload : Str) : (reply t op payload).Bounded t payload.length := by
  unfold reply
  cases t.handler op payload t.from_client with
  | mk action output =>
  cases action with
  | forward => exact original_le t _
  | drop => trivial
  | close => exact closeReply_bounded fun _ => .inl (close_reason_le t)
  | forwardText => exact rewriteReply_bounded rfl (forward_text_le t _)
  | closePolicy i =>
    dsimp only
    split
    · rename_i policy hp
      exact closeReply_bounded fun _ => .inl (close_policy_le (List.mem_of_getElem? hp))
    · trivial
  | forwardTextPolicy i =>
    dsimp only
    split
    · rename_i r hp
      exact rewriteReply_bounded rfl (forward_texts_le (List.mem_of_getElem? hp) _)
    · trivial
  | forwardDynamic =>
    dsimp only
    split
    · rename_i output' hp
      split_ifs with hok
      · exact (fitsMessage_le hok.2.1).trans ((Nat.le_max_left ..).trans (published_room hp _))
      · trivial
    · trivial
  | closeDynamic =>
    dsimp only
    split
    · rename_i output' hp
      refine closeReply_bounded fun hle => .inr ?_
      have hroom := (Nat.le_max_right ..).trans (published_room hp payload.length)
      unfold kWsMaxCloseReasonBytes at hle
      unfold kWsMaxControlPayload at hle hroom
      omega
    · trivial
  | unknown => trivial

end Rut.Ws
