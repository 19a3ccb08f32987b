import Rut.Ws.Segmentation

/-!
# Reassembly

The messages of a stream are told by its data frames alone: each ends with the first frame that has FIN, and control
frames may stand between them. What the handler is called with are these messages, whole and in order, and the message
buffer holds the one in progress.
-/

set_option linter.all false
namespace Rut.Ws

open Lib (Memory.read)
open Incremental

variable {D : Type} {t : Tunnel D} {st : WsInspector D} {m : Assembly} {msg : Buffer} {f : Frame} {as fs part : List Frame}
  {groups : List (List Frame)} {ws : List Event}

def payloads (fs : List Frame) : Str := (fs.map Frame.payload).flatten

def message (fs : List Frame) : WsOpcode × Str := ((fs.head?.map Frame.opcode).getD .continuation, payloads fs)

/-- The data frames of `fs` are those of whole messages, and of one that has begun. -/
structure Messages (fs : List Frame) (groups : List (List Frame)) (part : List Frame) : Prop where
  data : fs.filter (fun f => !f.opcode.isControl) = groups.flatten ++ part
  whole : ∀ g ∈ groups, ∃ first last, g = first ++ [last] ∧ (∀ f ∈ first, f.fin = false) ∧ last.fin = true
  begun : ∀ f ∈ part, f.fin = false

def Within (t : Tunnel D) (n : Nat) : Prop := n ≤ t.msg_cap ∧ (t.max_message_size ≠ 0 → n ≤ t.max_message_size)

lemma payloads_append (fs gs : List Frame) : payloads (fs ++ gs) = payloads fs ++ payloads gs := by
  rw [payloads, List.map_append, List.flatten_append]
  rfl

lemma payloads_concat (fs : List Frame) (f : Frame) : payloads (fs ++ [f]) = payloads fs ++ f.payload := by
  rw [payloads_append]
  exact congrArg _ (List.append_nil _)

namespace Messages

lemma control (h : Messages fs groups part) (hc : f.opcode.isControl = true) : Messages (fs ++ [f]) groups part where
  data := by
    rw [List.filter_append, h.data, List.filter_cons_of_neg (by rw [hc]; exact Bool.false_ne_true)]
    exact List.append_nil _
  whole := h.whole
  begun := h.begun

lemma filter_concat (h : Messages fs groups part) (hc : f.opcode.isControl = false) :
    (fs ++ [f]).filter (fun f => !f.opcode.isControl) = groups.flatten ++ (part ++ [f]) := by
  rw [List.filter_append, h.data, List.filter_cons_of_pos (by rw [hc]; rfl), List.append_assoc]
  rfl

lemma extend (h : Messages fs groups part) (hc : f.opcode.isControl = false) (hfin : f.fin = false) :
    Messages (fs ++ [f]) groups (part ++ [f]) where
  data := h.filter_concat hc
  whole := h.whole
  begun := by
    intro g hg
    rcases List.mem_append.mp hg with hg | hg
    · exact h.begun g hg
    · rw [List.mem_singleton.mp hg]
      exact hfin

lemma finish (h : Messages fs groups part) (hc : f.opcode.isControl = false) (hfin : f.fin = true) :
    Messages (fs ++ [f]) (groups ++ [part ++ [f]]) [] where
  data := by
    rw [h.filter_concat hc, List.flatten_append, List.append_nil]
    exact congrArg _ (List.append_nil _).symm
  whole := by
    intro g hg
    rcases List.mem_append.mp hg with hg | hg
    · exact h.whole g hg
    · rw [List.mem_singleton.mp hg]
      exact ⟨part, f, rfl, h.begun, hfin⟩
  begun := nofun

end Messages

/-! ## The machine -/

def assembly (part : List Frame) : Assembly := ⟨part.head?.map Frame.opcode, payloads part⟩

lemma assembly_extend (part : List Frame) (f : Frame) : (assembly part).extend f = assembly (part ++ [f]) := by
  unfold Assembly.extend assembly
  rw [payloads_concat]
  cases part <;> rfl

lemma message_concat (part : List Frame) (f : Frame) :
    message (part ++ [f]) = ((assembly part).opcode.getD f.opcode, (assembly part).payload ++ f.payload) := by
  unfold message assembly
  rw [payloads_concat]
  cases part <;> rfl

lemma writes_calls (t : Tunnel D) (op : WsOpcode) (content : Str) (next : Assembly ⊕ WsInspectStatus) :
    (writes t op content next).1.filterMap Event.call? = [] ∧
      ((writes t op content next).2 = next ∨ (writes t op content next).2 = .inr .error) := by
  unfold writes
  split_ifs
  · exact ⟨rfl, .inl rfl⟩
  · exact ⟨rfl, .inr rfl⟩

lemma verdict_calls (t : Tunnel D) (op : WsOpcode) (payload : Str) :
    (verdict t op payload).1.filterMap Event.call? = [] ∧ ∀ m', (verdict t op payload).2 = .inl m' → m' = {} := by
  have hwrites : ∀ op content next, (∀ m', next = .inl m' → m' = {}) →
      (writes t op content next).1.filterMap Event.call? = [] ∧
        ∀ m', (writes t op content next).2 = .inl m' → m' = {} := by
    intro op content next hnext
    obtain ⟨hcalls, hsame | herror⟩ := writes_calls t op content next
    · exact ⟨hcalls, fun m' hm' => hnext m' (hsame ▸ hm')⟩
    · refine ⟨hcalls, fun m' hm' => ?_⟩
      rw [herror] at hm'
      cases hm'
  unfold verdict
  split
  · exact ⟨rfl, nofun⟩
  · exact ⟨rfl, fun m' hm' => (Sum.inl.inj hm').symm⟩
  · exact hwrites _ _ _ fun m' hm' => (Sum.inl.inj hm').symm
  · unfold closesWith
    generalize (2 + if t.masked then 4 else 0) = header
    split_ifs
    · exact hwrites _ _ _ nofun
    · exact ⟨rfl, nofun⟩
    · exact hwrites _ _ _ nofun

lemma inspected_within {s r : Str} (hread : inspected t m s = .done f r) (hdata : f.opcode.isControl = false) :
    Within t (m.payload.length + f.payload.length) := by
  obtain ⟨h, r', hparse, hread⟩ := Reader.bind_eq_done.mp hread
  split_ifs at hread with haway
  · cases hread
  obtain ⟨body, r'', htake, hframe⟩ := Reader.bind_eq_done.mp hread
  obtain ⟨-, hlen⟩ := Reader.take_eq_done.mp htake
  obtain ⟨rfl, -⟩ := Reader.pure_eq_done.mp hframe
  obtain ⟨-, hcap, hmax⟩ := turnedAway_false (Bool.eq_false_of_not_eq_true haway) hdata
  rw [frame_payload (header_plain hparse).1, length_plain, hlen]
  exact ⟨hcap, hmax⟩

lemma inspects_messages {s r : Str} (hm : Messages fs groups part) (hg : ∀ g ∈ groups, Within t (payloads g).length)
    (hread : inspected t (assembly part) s = .done f r) :
    ∃ groups' part', Messages (fs ++ [f]) groups' part' ∧ (∀ g ∈ groups', Within t (payloads g).length) ∧
      groups.map message ++ (inspects t (assembly part) f).1.filterMap Event.call? <+: groups'.map message ∧
      ((inspects t (assembly part) f).2 ≠ .inr .error →
        groups.map message ++ (inspects t (assembly part) f).1.filterMap Event.call? = groups'.map message) ∧
      ∀ m', (inspects t (assembly part) f).2 = .inl m' → m' = assembly part' := by
  unfold inspects
  cases hcontrol : f.opcode.isControl with
  | true =>
    rw [if_pos rfl]
    have hpasses : (passes t (assembly part) f.opcode f.payload).1.filterMap Event.call? = [] ∧
        ∀ m', (passes t (assembly part) f.opcode f.payload).2 = .inl m' → m' = assembly part := by
      unfold passes
      split_ifs
      · exact ⟨rfl, nofun⟩
      · obtain ⟨hcalls, hnext | hnext⟩ := writes_calls t f.opcode f.payload (.inr .close)
        · exact ⟨hcalls, fun m' hm' => by rw [hnext] at hm'; cases hm'⟩
        · exact ⟨hcalls, fun m' hm' => by rw [hnext] at hm'; cases hm'⟩
      · obtain ⟨hcalls, hnext | hnext⟩ := writes_calls t f.opcode f.payload (.inl (assembly part))
        · exact ⟨hcalls, fun m' hm' => by rw [hnext] at hm'; cases hm'; rfl⟩
        · exact ⟨hcalls, fun m' hm' => by rw [hnext] at hm'; cases hm'⟩
    rw [hpasses.1, List.append_nil]
    exact ⟨groups, part, hm.control hcontrol, hg, List.prefix_refl _, fun _ => rfl, hpasses.2⟩
  | false =>
    rw [if_neg Bool.false_ne_true]
    cases hfin : f.fin with
    | true =>
      rw [if_pos rfl]
      refine ⟨groups ++ [part ++ [f]], [], hm.finish hcontrol hfin, ?_, ?_⟩
      · intro g hgmem
        rcases List.mem_append.mp hgmem with hgmem | hgmem
        · exact hg g hgmem
        · rw [List.mem_singleton.mp hgmem, payloads_concat, List.length_append]
          exact inspected_within hread hcontrol
      · rw [List.map_append, List.map_cons, List.map_nil, message_concat]
        unfold completes
        split_ifs
        · refine ⟨?_, fun hne => absurd rfl hne, nofun⟩
          rw [List.filterMap_nil, List.append_nil]
          exact List.prefix_append ..
        · obtain ⟨hcalls, hnext⟩ := verdict_calls t ((assembly part).opcode.getD f.opcode) ((assembly part).payload ++ f.payload)
          rw [List.filterMap_cons_some (show Event.call? (.call _ _) = some _ from rfl), hcalls]
          exact ⟨List.prefix_refl _, fun _ => rfl, fun m' hm' => hnext m' hm'⟩
    | false =>
      rw [if_neg Bool.false_ne_true, List.filterMap_nil, List.append_nil]
      refine ⟨groups, part ++ [f], hm.extend hcontrol hfin, hg, List.prefix_refl _, fun _ => rfl, ?_⟩
      rintro m' ⟨⟩
      exact assembly_extend part f

lemma path_messages (h : (inspection t).Path {} as ws m) :
    ∃ groups part, Messages as groups part ∧ (∀ g ∈ groups, Within t (payloads g).length) ∧
      ws.filterMap Event.call? = groups.map message ∧ m = assembly part := by
  induction h with
  | nil => exact ⟨[], [], ⟨rfl, nofun, nofun⟩, nofun, rfl, rfl⟩
  | snoc _ hr ha ih =>
    obtain ⟨groups, part, hm, hg, hcalls, rfl⟩ := ih
    obtain ⟨groups', part', hm', hg', -, heq, hnext⟩ := inspects_messages hm hg hr
    have ha' : inspects t (assembly part) _ = _ := ha
    rw [ha'] at heq hnext
    refine ⟨groups', part', hm', hg', ?_, hnext _ rfl⟩
    rw [List.filterMap_append, hcalls]
    exact heq nofun

lemma ended_messages {all : Str} {v} (h : (inspection t).Ended {} all as ws v) :
    ∃ groups part, Messages as groups part ∧ (∀ g ∈ groups, Within t (payloads g).length) ∧
      ws.filterMap Event.call? <+: groups.map message ∧ (v ≠ .error → ws.filterMap Event.call? = groups.map message) := by
  obtain ⟨m, as₁, ws₁, hpath, ⟨f, w, l, r, hr, ha, rfl, rfl⟩ | ⟨rfl, rfl, rfl⟩⟩ := h.path
  · obtain ⟨groups, part, hm, hg, hcalls, rfl⟩ := path_messages hpath
    obtain ⟨groups', part', hm', hg', hpre, heq, -⟩ := inspects_messages hm hg hr
    have ha' : inspects t (assembly part) f = _ := ha
    rw [ha'] at hpre heq
    rw [List.filterMap_append, hcalls]
    refine ⟨groups', part', hm', hg', hpre, fun hne => heq fun hv => ?_⟩
    exact hne (Sum.inr.inj hv)
  · obtain ⟨groups, part, hm, hg, hcalls, -⟩ := path_messages hpath
    rw [hcalls]
    exact ⟨groups, part, hm, hg, List.prefix_refl _, fun _ => rfl⟩

/-! ## Counters -/

namespace WsInspector

def stored (st : WsInspector D) : Nat := st.message_len + st.partial_payload_len

def frameLen (st : WsInspector D) : Nat := if st.partial_data_frame then st.partial_header.payload_len else 0

def remainder (st : WsInspector D) : Nat := st.frameLen - st.partial_payload_len

end WsInspector

/-- The counters and the message buffer, when the frames `part` of a message have arrived and `before` of the next. -/
structure Counters (t : Tunnel D) (st : WsInspector D) (msg : Buffer) (part : List Frame) (before : Str) : Prop where
  accumulated : st.assembler.accumulated_len = (payloads part).length
  message_len : st.message_len = st.assembler.accumulated_len
  total : st.assembler.accumulated_len + st.frameLen = st.stored + st.remainder
  within : st.stored + st.remainder ≤ t.msg_cap
  stored : ∃ seen, Memory.read msg 0 st.stored = payloads part ++ seen ∧
    ((st.partial_data_frame = false ∧ before = [] ∧ seen = []) ∨
      (st.partial_data_frame = true ∧ ∃ raw, ws_parse_header t.masked false before = .done st.partial_header raw ∧
        seen = plain t st.partial_header raw))

lemma Tracks.counters {before} (ht : Tracks t st msg (assembly part) before) : Counters t st msg part before := by
  have hlen : st.message_len = (payloads part).length := ht.message_len
  have hstored : Memory.read msg 0 (payloads part).length = payloads part := ht.stored
  have hbound : (payloads part).length ≤ t.msg_cap := ht.bound
  have haccumulated : st.assembler.accumulated_len = (payloads part).length := ht.accumulated
  cases hpart : st.partial_data_frame with
  | false =>
    obtain ⟨hnil, hzero⟩ := ht.framed.whole hpart
    have hframe : st.frameLen = 0 := by rw [WsInspector.frameLen, hpart, if_neg Bool.false_ne_true]
    refine ⟨haccumulated, by omega, ?_, ?_, [], ?_, .inl ⟨hpart, hnil, rfl⟩⟩
    · unfold WsInspector.stored WsInspector.remainder
      omega
    · unfold WsInspector.stored WsInspector.remainder
      omega
    · rw [WsInspector.stored, hzero, hlen, List.append_nil]
      exact hstored
  | true =>
    obtain ⟨raw, hparse, haway, hread⟩ := ht.part hpart
    obtain ⟨raw', hparse', hlen', hlt, hdata⟩ := ht.framed.part hpart
    rw [ht.decoder, Option.isSome_none, hparse] at hparse'
    cases hparse'
    obtain ⟨-, hcap, -⟩ := turnedAway_false haway hdata
    have hcap' : (payloads part).length + st.partial_header.payload_len ≤ t.msg_cap := hcap
    have hframe : st.frameLen = st.partial_header.payload_len := by rw [WsInspector.frameLen, hpart, if_pos rfl]
    refine ⟨haccumulated, by omega, ?_, ?_, plain t st.partial_header raw, ?_, .inr ⟨hpart, raw, hparse, rfl⟩⟩
    · unfold WsInspector.stored WsInspector.remainder
      omega
    · unfold WsInspector.stored WsInspector.remainder
      omega
    · rw [WsInspector.stored, hlen, Lib.Memory.read_add, hstored, Nat.zero_add, ← hlen']
      exact congrArg _ hread

/-- The loop of a call comes to its head with `e`, and has `p` left. -/
inductive Head (t : Tunnel D) (l : Leg D) : Engine D → Str → Prop where
  | start : Head t l ⟨l.st, l.msg, ⟨[], l.drawn⟩, []⟩ l.buffered
  | next {e e' : Engine D} {p : Str} {n : Nat} (h : Head t l e p) (hturn : turn t e p = (.next, n, e')) :
      Head t l e' (p.drop n)

lemma Head.reached {l e p} (hh : Head t l e p) (hr : Reached t l.received as ws l.buffered l.st l.msg .ok) :
    ∃ as' ws', Reached t l.received as' ws' p e.st e.msg .ok ∧ e.out.bytes.length ≤ t.out_cap := by
  induction hh with
  | start => exact ⟨as, ws, hr, Nat.zero_le _⟩
  | @next e e' p n _ hturn ih =>
    obtain ⟨as', ws', hr', hcap⟩ := ih
    cases hr' with
    | ok m before ht hres hs =>
      obtain ⟨hsim, -⟩ := turn_sim ht hcap p
      rw [hturn] at hsim
      cases hsim with
      | stops hflow => cases hflow
      | fails hflow => cases hflow
      | reads f r hread hdoes hflow hn ht' =>
        generalize hact : inspects t m f = act at hdoes hflow ht'
        obtain ⟨w, next⟩ := act
        obtain ⟨rfl, -⟩ := hn nofun
        rcases next with m' | status
        · exact ⟨_, _, .ok m' [] (ht' m' rfl) (hres.step hread hact) (hs.read hread), hdoes.room hcap⟩
        · cases status <;> cases hflow

lemma Reached.messages {all rest status} (h : Reached t all as ws rest st msg status) :
    ∃ groups part, Messages as groups part ∧ (∀ g ∈ groups, Within t (payloads g).length) ∧
      ws.filterMap Event.call? <+: groups.map message ∧
      (status ≠ .error → ws.filterMap Event.call? = groups.map message) := by
  cases h with
  | ok m before ht hres hs =>
    obtain ⟨groups, part, hm, hg, hcalls, -⟩ := path_messages hres.path
    rw [hcalls]
    exact ⟨groups, part, hm, hg, List.prefix_refl _, fun _ => rfl⟩
  | close hend hs => exact ended_messages hend
  | error r hend hs => exact ended_messages hend

lemma Reached.splits {all rest status} (h : Reached t all as ws rest st msg status) : ∃ r, Splits t all as r := by
  cases h with
  | ok m before ht hres hs => exact ⟨_, hs⟩
  | close hend hs => exact ⟨_, hs⟩
  | error r hend hs => exact ⟨r, hs⟩

end Rut.Ws
