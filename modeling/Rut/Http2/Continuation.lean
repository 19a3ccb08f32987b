import Rut.Http2.HeaderSync

/-!
# Header blocks in one frame or in several

A header block may come in one HEADERS frame or go on in CONTINUATION frames. The two ways through `handle_frame` take
the decisions about END_STREAM, refusal and trailers at different times, and keep them in the fields of header assembly
meanwhile. What comes of the block is the same up to these fields.
-/

set_option linter.all false
namespace Rut.Http2

variable {σ L : Type} {cb : Callbacks σ} {serve : Conn σ → L → Conn σ → Prop} {fits : Room} {c c' : Conn σ}

structure Assembly where
  hdrBlock : Str
  contStream : Nat
  contEndStream : Bool
  contDiscard : Bool
  contRefuse : Bool

def Conn.withAssembly (c : Conn σ) (x : Assembly) : Conn σ :=
  { c with
    hdrBlock := x.hdrBlock
    contStream := x.contStream
    contEndStream := x.contEndStream
    contDiscard := x.contDiscard
    contRefuse := x.contRefuse }

def Callbacks.Blind (cb : Callbacks σ) : Prop :=
  ∀ call f, cb call = some f → ∀ (c : Conn σ) (x : Assembly), ∃ y, f (c.withAssembly x) = (f c).withAssembly y

def Reply.withAssembly (r : Reply σ) (x : Assembly) : Reply σ := { r with conn := r.conn.withAssembly x }

structure Reply.Alike (r r' : Reply σ) : Prop where
  out : r'.out = r.out
  events : r'.events = r.events
  verdict : r'.verdict = r.verdict
  conn : ∃ x, r'.conn = r.conn.withAssembly x

namespace Reply.Alike

lemma of_with (r : Reply σ) (x : Assembly) : r.Alike (r.withAssembly x) := ⟨rfl, rfl, rfl, x, rfl⟩

lemma refl (r : Reply σ) : r.Alike r :=
  ⟨rfl, rfl, rfl, ⟨r.conn.hdrBlock, r.conn.contStream, r.conn.contEndStream, r.conn.contDiscard, r.conn.contRefuse⟩, rfl⟩

lemma trans {r r' r'' : Reply σ} (h : r.Alike r') (h' : r'.Alike r'') : r.Alike r'' := by
  obtain ⟨x, hx⟩ := h.conn
  obtain ⟨y, hy⟩ := h'.conn
  refine ⟨h'.out.trans h.out, h'.events.trans h.events, h'.verdict.trans h.verdict, y, ?_⟩
  rw [hy, hx]
  rfl

end Reply.Alike

/-! ## What does not read the assembly -/

section blind

variable (hcb : cb.Blind) (x : Assembly)
include hcb

lemma invoke_with (call : Call) (c : Conn σ) : cb.invoke call (c.withAssembly x) = (cb.invoke call c).withAssembly x := by
  unfold Callbacks.invoke
  cases hf : cb call with
  | none => rfl
  | some f =>
    obtain ⟨y, hy⟩ := hcb call f hf c x
    dsimp only
    rw [hy]
    rfl

omit hcb in
lemma clearPending_with (c : Conn σ) (id : Nat) :
    (c.withAssembly x).clearPendingUpload id = (c.clearPendingUpload id).withAssembly x := by
  unfold Conn.clearPendingUpload
  split_ifs with h₁ h₂ h₂
  · rfl
  · exact absurd h₁ h₂
  · exact absurd h₂ h₁
  · rfl

lemma resetKnownStream_with (c : Conn σ) (id : Nat) (e : Http2Error) :
    resetKnownStream cb fits (c.withAssembly x) id e = (resetKnownStream cb fits c id e).withAssembly x := by
  unfold resetKnownStream
  have hfind : (c.withAssembly x).findStream id = c.findStream id := rfl
  rw [hfind, clearPending_with]
  split
  · cases c.findStream id with
    | none => rfl
    | some i =>
      dsimp only
      have hclosed : ((c.clearPendingUpload id).withAssembly x).setState i .closed =
          ((c.clearPendingUpload id).setState i .closed).withAssembly x := rfl
      rw [hclosed, invoke_with hcb]
      rfl
  · rfl

lemma deliverHeaders_with (c : Conn σ) (id : Nat) (endStream refuse : Bool) (fields : List (Str × Str)) :
    deliverHeaders cb fits (c.withAssembly x) id endStream refuse fields =
      (deliverHeaders cb fits c id endStream refuse fields).withAssembly x := by
  unfold deliverHeaders
  have hfind : (c.withAssembly x).findStream id = c.findStream id := rfl
  have hclient : (c.withAssembly x).client = c.client := rfl
  rw [hclient, hfind]
  split
  · dsimp only
    cases c.findStream id with
    | none => split <;> rfl
    | some i => split <;> rfl
  · split
    · cases checkResponse fields endStream with
      | none => rfl
      | some informational =>
        cases informational with
        | false => exact invoke_with hcb x _ c
        | true =>
          cases c.findStream id with
          | none => exact invoke_with hcb x _ c
          | some i => exact invoke_with hcb x _ (c.setGotHeaders i false)
    · exact invoke_with hcb x _ c

lemma endTrailers_with (c : Conn σ) (id : Nat) (slot : Option Nat) (endStream bad : Bool) :
    endTrailers cb fits (c.withAssembly x) id slot endStream bad =
      (endTrailers cb fits c id slot endStream bad).withAssembly x := by
  unfold endTrailers
  cases slot with
  | none => exact resetKnownStream_with hcb x c id _
  | some i =>
    dsimp only
    have hstream : (c.withAssembly x).stream i = c.stream i := rfl
    have hend : (c.withAssembly x).endRemote i = (c.endRemote i).withAssembly x := rfl
    have hpending : ((c.endRemote i).withAssembly x).pending = (c.endRemote i).pending := rfl
    rw [hstream, hend, hpending]
    split
    · split
      · exact invoke_with hcb x _ _
      · rfl
    · exact resetKnownStream_with hcb x c id _

lemma finishHeaders_alike (hblock : x.hdrBlock = c.hdrBlock) (id : Nat) (endStream refuse : Bool) :
    (finishHeaders cb fits c id endStream refuse).Alike
      (finishHeaders cb fits (c.withAssembly x) id endStream refuse) := by
  unfold finishHeaders decodeBlock
  have hdec : (c.withAssembly x).hpackDec = c.hpackDec := rfl
  have hhdr : (c.withAssembly x).hdrBlock = c.hdrBlock := hblock
  rw [hdec, hhdr]
  cases Hpack.decodeHeaderBlock headerCaps c.hpackDec c.hdrBlock with
  | error => exact .of_with { conn := c, verdict := .error .compressionError } x
  | fault => exact .of_with { conn := c, verdict := .fault } x
  | ok st =>
    let d : Conn σ := { ({ c with hpackDec := st.dyn } : Conn σ).endBlock with contRefuse := false }
    have halike := Reply.Alike.of_with (deliverHeaders cb fits d id endStream refuse (blockFields st))
      ⟨[], 0, x.contEndStream, false, false⟩
    rw [← deliverHeaders_with hcb] at halike
    exact halike

lemma deliverTrailers_with {c} (hstream : x.contStream = c.contStream) (hend : x.contEndStream = c.contEndStream)
    (fields : List (Str × Str)) :
    deliverTrailers cb (c.withAssembly x) fields = (deliverTrailers cb c fields).withAssembly x := by
  have hs : (c.withAssembly x).contStream = c.contStream := hstream
  have he : (c.withAssembly x).contEndStream = c.contEndStream := hend
  unfold deliverTrailers
  rw [hs, he]
  split_ifs with h₁ h₂ h₂
  · exact invoke_with hcb x _ _
  · exact absurd h₁ h₂
  · exact absurd h₂ h₁
  · rfl

lemma endBlock_alike (fits : Room) (r : Reply σ) (id : Nat) (slot : Option Nat) (endStream bad : Bool) :
    (({ r with conn := r.conn.endBlock } : Reply σ).andThen fun c => endTrailers cb fits c id slot endStream bad).Alike
      (({ r.withAssembly x with conn := (r.withAssembly x).conn.endBlock } : Reply σ).andThen fun c =>
        endTrailers cb fits c id slot endStream bad) := by
  have halike := Reply.Alike.of_with (endTrailers cb fits r.conn.endBlock id slot endStream bad)
    ⟨[], 0, x.contEndStream, false, x.contRefuse⟩
  rw [← endTrailers_with hcb] at halike
  exact ⟨congrArg (r.out ++ ·) halike.out, congrArg (r.events ++ ·) halike.events, halike.verdict, halike.conn⟩

omit x in
lemma discardHeaders_alike (c : Conn σ) (discard refuse : Bool) (id : Nat) (slot : Option Nat) (endStream : Bool) :
    (discardHeaders cb c fun r bad => r.andThen fun c => endTrailers cb fits c id slot endStream bad).Alike
      (discardHeaders cb (c.withAssembly ⟨c.hdrBlock, c.contStream, c.contEndStream, discard, refuse⟩) fun r bad =>
        r.andThen fun c => endTrailers cb fits c id slot endStream bad) := by
  generalize hx : (⟨c.hdrBlock, c.contStream, c.contEndStream, discard, refuse⟩ : Assembly) = x
  have hdec : (c.withAssembly x).hpackDec = c.hpackDec := rfl
  have hhdr : (c.withAssembly x).hdrBlock = c.hdrBlock := hx ▸ rfl
  unfold discardHeaders decodeBlock
  rw [hdec, hhdr]
  cases Hpack.decodeHeaderBlock headerCaps c.hpackDec c.hdrBlock with
  | error => exact .of_with { conn := c, verdict := .error .compressionError } x
  | fault => exact .of_with { conn := c, verdict := .fault } x
  | ok st =>
    let d : Conn σ := { c with hpackDec := st.dyn }
    subst hx
    have halike := endBlock_alike hcb ⟨c.hdrBlock, c.contStream, c.contEndStream, discard, refuse⟩ fits
      (deliverTrailers cb d (blockFields st)) id slot endStream ((blockFields st).any badTrailer)
    rw [← deliverTrailers_with hcb _ (c := d) rfl rfl] at halike
    exact halike

end blind

/-! ## The last fragment -/

def completeBlock (cb : Callbacks σ) (fits : Room) (c : Conn σ) (id : Nat) : Reply σ :=
  if c.contDiscard then
    discardHeaders cb c fun r bad =>
      r.andThen fun c' => endTrailers cb fits c' id (c.findStream id) c.contEndStream bad
  else
    finishHeaders cb fits (if c.contEndStream then (c.findStream id).elim c c.endRemote else c) id c.contEndStream
      c.contRefuse

def lastFragment (cb : Callbacks σ) (fits : Room) (c : Conn σ) (id : Nat) (p : Str) : Reply σ :=
  match c.appendFragment p with
  | none => { conn := c, verdict := .error .compressionError }
  | some c => completeBlock cb fits c id

lemma appendFragment_full {p : Str} (h : kHeaderBlockCap < c.hdrBlock.length + p.length) : c.appendFragment p = none :=
  if_pos h

lemma appendFragment_room {p : Str} (h : ¬kHeaderBlockCap < c.hdrBlock.length + p.length) :
    c.appendFragment p = some { c with hdrBlock := c.hdrBlock ++ p } :=
  if_neg h

lemma lastFragment_full {id p} (h : kHeaderBlockCap < c.hdrBlock.length + p.length) :
    lastFragment cb fits c id p = { conn := c, verdict := .error .compressionError } := by
  unfold lastFragment
  rw [appendFragment_full h]

lemma lastFragment_room {id p} (h : ¬kHeaderBlockCap < c.hdrBlock.length + p.length) :
    lastFragment cb fits c id p = completeBlock cb fits { c with hdrBlock := c.hdrBlock ++ p } id := by
  unfold lastFragment
  rw [appendFragment_room h]

lemma appendFragment_none {p} (h : c.appendFragment p = none) : kHeaderBlockCap < c.hdrBlock.length + p.length := by
  unfold Conn.appendFragment at h
  split_ifs at h with hfull
  exact hfull

lemma lastFragment_append {p} (ha : c.appendFragment p = some c') (id : Nat) (q : Str) :
    (lastFragment cb fits c id (p ++ q)).Alike (lastFragment cb fits c' id q) := by
  obtain rfl := appendFragment_some ha
  have hlen : c.hdrBlock.length + (p ++ q).length = (c.hdrBlock ++ p).length + q.length := by
    rw [List.length_append, List.length_append, Nat.add_assoc]
  by_cases hfull : kHeaderBlockCap < c.hdrBlock.length + (p ++ q).length
  · rw [lastFragment_full hfull, lastFragment_full (hlen ▸ hfull)]
    exact .of_with { conn := c, verdict := .error .compressionError }
      ⟨c.hdrBlock ++ p, c.contStream, c.contEndStream, c.contDiscard, c.contRefuse⟩
  · rw [lastFragment_room hfull, lastFragment_room (hlen ▸ hfull)]
    rw [List.append_assoc]
    exact .refl _

/-- CONTINUATION frames of stream `id` that bring the rest `q` of a block, the last of them with END_HEADERS. -/
inductive Continues (id : Nat) : List (FrameHeader × Str) → Str → Prop where
  | last {h : FrameHeader} {q : Str} (htype : h.type = .continuation) (hstream : h.streamId = id)
      (hend : h.has kEndHeaders = true) : Continues id [(h, q)] q
  | more {h : FrameHeader} {p q : Str} {fs : List (FrameHeader × Str)} (htype : h.type = .continuation)
      (hstream : h.streamId = id) (hend : h.has kEndHeaders = false) (hmore : Continues id fs q) :
      Continues id ((h, p) :: fs) (p ++ q)

/-- Frames one after the other to `handle_frame`, behind `used` octets of output, up to the first error. -/
def handleAll (cb : Callbacks σ) (cap : Option Nat) : Nat → Conn σ → List (FrameHeader × Str) → Reply σ
  | _, c, [] => { conn := c }
  | used, c, (h, payload) :: fs =>
    let r := handleFrame cb (room cap used) c h payload
    if r.verdict = .ok then r.andThen fun c => handleAll cb cap (used + outLen r.out) c fs else r

lemma handleFrame_continuation {h} (payload : Str) (htype : h.type = .continuation)
    (hid : h.streamId = c.contStream) : handleFrame cb fits c h payload = handleContinuation cb fits c h payload := by
  unfold handleFrame
  rw [if_neg (fun hne => hne.2.elim (· htype) (· hid)), htype]

lemma handleContinuation_last {h} (payload : Str) (hz : c.contStream ≠ 0) (hend : h.has kEndHeaders = true) :
    handleContinuation cb fits c h payload = lastFragment cb fits c h.streamId payload := by
  unfold handleContinuation lastFragment completeBlock
  rw [if_neg hz]
  cases c.appendFragment payload with
  | none => rfl
  | some d =>
    dsimp only
    split_ifs with hdiscard hes
    · rfl
    · cases d.findStream h.streamId <;> rfl
    · rfl

lemma handleContinuation_more {h} (payload : Str) (hz : c.contStream ≠ 0) (hend : h.has kEndHeaders = false) :
    handleContinuation cb fits c h payload =
      (c.appendFragment payload).elim { conn := c, verdict := .error .compressionError } fun c => { conn := c } := by
  unfold handleContinuation
  rw [if_neg hz]
  cases c.appendFragment payload with
  | none => rfl
  | some d =>
    dsimp only
    rw [if_neg (by rw [hend]; exact Bool.false_ne_true)]
    rfl

lemma handleAll_kept {cap used h payload} (fs : List (FrameHeader × Str))
    {r} (hr : handleFrame cb (room cap used) c h payload = r) (hok : r.verdict = .ok) (hout : r.out = [])
    (hevents : r.events = []) : handleAll cb cap used c ((h, payload) :: fs) = handleAll cb cap used r.conn fs := by
  rw [handleAll, hr, if_pos hok, Reply.andThen, hout, hevents]
  rfl

lemma handleAll_continues {id fs q} (h : Continues id fs q)
    (cap : Option Nat) (used : Nat) (hid : c.contStream = id) (hz : id ≠ 0) :
    (lastFragment cb (room cap used) c id q).Alike (handleAll cb cap used c fs) := by
  induction h generalizing c with
  | @last h q htype hstream hend =>
    subst hid
    have heq : handleFrame cb (room cap used) c h q = lastFragment cb (room cap used) c c.contStream q := by
      rw [handleFrame_continuation q htype hstream, handleContinuation_last q hz hend, hstream]
    rw [handleAll, heq]
    split_ifs with hok
    · exact ⟨List.append_nil _, List.append_nil _, hok.symm, (Reply.Alike.refl _).conn⟩
    · exact .refl _
  | @more h p q fs htype hstream hend hmore ih =>
    subst hid
    have heq : handleFrame cb (room cap used) c h p = _ :=
      (handleFrame_continuation p htype hstream).trans (handleContinuation_more p hz hend)
    cases ha : c.appendFragment p with
    | none =>
      have hfull := appendFragment_none ha
      rw [ha] at heq
      rw [handleAll, heq, lastFragment_full (by rw [List.length_append]; omega)]
      exact .refl _
    | some d =>
      rw [ha] at heq
      have hstream' : d.contStream = c.contStream := by rw [appendFragment_some ha]
      rw [handleAll_kept fs heq rfl rfl rfl]
      exact (lastFragment_append ha _ q).trans (ih hstream')

/-! ## The first fragment -/

/-- The connection as a HEADERS frame of the stream in slot `i` leaves it to wait for the rest of its block. -/
def Conn.await (c : Conn σ) (h : FrameHeader) (i : Nat) (new : Bool) : Conn σ :=
  if (c.stream i).gotHeaders then { c.awaitBlock h.streamId (h.has kEndStream) with contDiscard := true }
  else
    { (c.setGotHeaders i true).awaitBlock h.streamId (h.has kEndStream) with contRefuse := refuses c h.streamId new }

lemma Conn.await_got {h : FrameHeader} {i : Nat} {new : Bool} (hgot : (c.stream i).gotHeaders = true) :
    c.await h i new = { c.awaitBlock h.streamId (h.has kEndStream) with contDiscard := true } := if_pos hgot

lemma Conn.await_new {h : FrameHeader} {i : Nat} {new : Bool} (hgot : ¬(c.stream i).gotHeaders = true) :
    c.await h i new = { (c.setGotHeaders i true).awaitBlock h.streamId (h.has kEndStream) with
        contRefuse := refuses c h.streamId new } := if_neg hgot

/-- The two ways of a block into `handle_frame`: the first fragment fails like the whole block, or it is kept and the
rest of the block completes it like the whole block. -/
structure Splits (cb : Callbacks σ) (fits : Room) (id : Nat) (q : Str) (whole first : Reply σ) : Prop where
  failed : first.verdict ≠ .ok → whole.Alike first
  kept : first.verdict = .ok → first.out = [] ∧ first.events = [] ∧ first.conn.contStream = id ∧
    whole.Alike (lastFragment cb fits first.conn id q)

lemma Splits.of_failed {id : Nat} {q : Str} {r : Reply σ} (h : r.verdict ≠ .ok) : Splits cb fits id q r r :=
  ⟨fun _ => .refl r, fun hok => absurd hok h⟩

lemma Conn.await_hdrBlock (h : FrameHeader) (i : Nat) (new : Bool) : (c.await h i new).hdrBlock = c.hdrBlock := by
  unfold Conn.await
  split_ifs <;> rfl

lemma completeBlock_discard (id : Nat) (h : c.contDiscard = true) : completeBlock cb fits c id =
      discardHeaders cb c fun r bad =>
        r.andThen fun c' => endTrailers cb fits c' id (c.findStream id) c.contEndStream bad := if_pos h

lemma completeBlock_finish {id i} (h : c.contDiscard = false) (hfind : c.findStream id = some i) :
    completeBlock cb fits c id =
      finishHeaders cb fits (if c.contEndStream then c.endRemote i else c) id c.contEndStream c.contRefuse := by
  unfold completeBlock
  rw [h, hfind]
  rfl

lemma handleKnownHeaders_full {h p} (i : Nat) (new : Bool) (hfull : kHeaderBlockCap < c.hdrBlock.length + p.length) :
    handleKnownHeaders cb fits c h p i new =
      { conn := if (c.stream i).gotHeaders then c else c.setGotHeaders i true
        verdict := .error .compressionError } := by
  unfold handleKnownHeaders
  dsimp only
  by_cases hgot : (c.stream i).gotHeaders = true
  · rw [if_pos hgot, if_pos hgot, appendFragment_full hfull]
  · rw [if_neg hgot, if_neg hgot, appendFragment_full (c := c.setGotHeaders i true) hfull]

lemma handleKnownHeaders_first {h p} (i : Nat) (new : Bool) (hend : h.has kEndHeaders = false)
    (hroom : ¬kHeaderBlockCap < c.hdrBlock.length + p.length) :
    handleKnownHeaders cb fits c h p i new = { conn := { c.await h i new with hdrBlock := c.hdrBlock ++ p } } := by
  have hmore : ¬h.has kEndHeaders = true := by rw [hend]; exact Bool.false_ne_true
  unfold handleKnownHeaders
  dsimp only
  by_cases hgot : (c.stream i).gotHeaders = true
  · rw [if_pos hgot, appendFragment_room hroom, Conn.await_got hgot]
    exact if_neg hmore
  · rw [if_neg hgot, appendFragment_room (c := c.setGotHeaders i true) hroom, Conn.await_new hgot]
    exact if_neg hmore

section whole

variable {h : FrameHeader} {p : Str} {i : Nat} (new : Bool)

lemma handleKnownHeaders_whole_full (hfull : kHeaderBlockCap < c.hdrBlock.length + p.length) :
    (handleKnownHeaders cb fits c h p i new).Alike
      { conn := c.await h i new, verdict := .error .compressionError } := by
  rw [handleKnownHeaders_full i new hfull]
  by_cases hgot : (c.stream i).gotHeaders = true
  · rw [if_pos hgot, Conn.await_got hgot]
    exact .of_with { conn := c, verdict := .error .compressionError }
      ⟨c.hdrBlock, h.streamId, h.has kEndStream, true, c.contRefuse⟩
  · rw [if_neg hgot, Conn.await_new hgot]
    exact .of_with { conn := c.setGotHeaders i true, verdict := .error .compressionError }
      ⟨c.hdrBlock, h.streamId, h.has kEndStream, c.contDiscard, refuses c h.streamId new⟩

variable (hcb : cb.Blind) (hfind : c.findStream h.streamId = some i) (hend : h.has kEndHeaders = true)
include hcb hfind hend

lemma handleKnownHeaders_whole_got (hroom : ¬kHeaderBlockCap < c.hdrBlock.length + p.length)
    (hgot : (c.stream i).gotHeaders = true) : (handleKnownHeaders cb fits c h p i new).Alike
      (completeBlock cb fits { c.await h i new with hdrBlock := c.hdrBlock ++ p } h.streamId) := by
  let d : Conn σ := ({ c with hdrBlock := c.hdrBlock ++ p } : Conn σ).awaitBlock h.streamId (h.has kEndStream)
  have hwhole : handleKnownHeaders cb fits c h p i new =
      discardHeaders cb d fun r bad =>
        r.andThen fun c => endTrailers cb fits c h.streamId (some i) (h.has kEndStream) bad := by
    unfold handleKnownHeaders
    rw [if_pos hgot, appendFragment_room hroom]
    exact if_pos hend
  rw [hwhole, Conn.await_got hgot, completeBlock_discard _ rfl, ← hfind]
  exact discardHeaders_alike hcb d true c.contRefuse h.streamId _ (h.has kEndStream)

lemma handleKnownHeaders_whole_new (hdiscard : c.contDiscard = false)
    (hroom : ¬kHeaderBlockCap < c.hdrBlock.length + p.length) (hgot : ¬(c.stream i).gotHeaders = true) :
    (handleKnownHeaders cb fits c h p i new).Alike
      (completeBlock cb fits { c.await h i new with hdrBlock := c.hdrBlock ++ p } h.streamId) := by
  let d : Conn σ := { c.setGotHeaders i true with hdrBlock := c.hdrBlock ++ p }
  let d' : Conn σ := if h.has kEndStream then d.endRemote i else d
  have hwhole : handleKnownHeaders cb fits c h p i new =
      finishHeaders cb fits d' h.streamId (h.has kEndStream) (refuses d' h.streamId new) := by
    unfold handleKnownHeaders
    dsimp only
    rw [if_neg hgot, appendFragment_room (c := c.setGotHeaders i true) hroom]
    exact if_pos hend
  have hrefuses : refuses d' h.streamId new = refuses c h.streamId new := by
    unfold d'
    split_ifs <;> rfl
  have hd' : d'.hdrBlock = c.hdrBlock ++ p := by
    unfold d'
    split_ifs <;> rfl
  let x : Assembly := ⟨c.hdrBlock ++ p, h.streamId, h.has kEndStream, c.contDiscard, refuses c h.streamId new⟩
  have hfind' : (c.setGotHeaders i true).findStream h.streamId = some i := by
    rw [← hfind]
    exact findStream_modify c i _ (fun _ => rfl) fun _ => rfl
  have hended : (if h.has kEndStream then (d.withAssembly x).endRemote i else d.withAssembly x) = d'.withAssembly x := by
    unfold d'
    split_ifs <;> rfl
  have hcomplete : completeBlock cb fits (d.withAssembly x) h.streamId =
      finishHeaders cb fits (d'.withAssembly x) h.streamId (h.has kEndStream) (refuses c h.streamId new) := by
    rw [completeBlock_finish (c := d.withAssembly x) hdiscard hfind', ← hended]
    rfl
  have halike : (finishHeaders cb fits d' h.streamId (h.has kEndStream) (refuses c h.streamId new)).Alike _ :=
    finishHeaders_alike hcb x hd'.symm h.streamId (h.has kEndStream) (refuses c h.streamId new)
  rw [hwhole, hrefuses, Conn.await_new hgot]
  rw [← hcomplete] at halike
  exact halike

lemma handleKnownHeaders_whole (hdiscard : c.contDiscard = false) :
    (handleKnownHeaders cb fits c h p i new).Alike (lastFragment cb fits (c.await h i new) h.streamId p) := by
  have hblock : (c.await h i new).hdrBlock = c.hdrBlock := c.await_hdrBlock h i new
  by_cases hfull : kHeaderBlockCap < c.hdrBlock.length + p.length
  · rw [lastFragment_full (by rw [hblock]; exact hfull)]
    exact handleKnownHeaders_whole_full new hfull
  rw [lastFragment_room (by rw [hblock]; exact hfull), hblock]
  by_cases hgot : (c.stream i).gotHeaders = true
  · exact handleKnownHeaders_whole_got new hcb hfind hend hfull hgot
  · exact handleKnownHeaders_whole_new new hcb hfind hend hdiscard hfull hgot

end whole

lemma findStream_alloc {id i} (h : c.allocStream id = some (i, c')) (hnone : c.findStream id = none) :
    c'.findStream id = some i := by
  have hother : ∀ s ∈ c.streams, ¬(s.id == id && s.state != .closed) = true := by
    intro s hs
    rw [List.findIdx?_eq_none_iff.mp hnone s hs]
    exact Bool.false_ne_true
  have hfresh : ((c.freshStream id).id == id && (c.freshStream id).state != .closed) = true := by
    simp [Conn.freshStream]
  obtain ⟨ss, rfl, ⟨s, hs, -, rfl⟩ | ⟨rfl, rfl⟩⟩ := allocStream_spec h
  · have hlt : i < c.streams.length := (List.getElem?_eq_some_iff.mp hs).1
    refine List.findIdx?_eq_some_iff_getElem.mpr ⟨by rw [List.length_set]; exact hlt, ?_, fun j hj => ?_⟩
    · rw [List.getElem_set_self]
      exact hfresh
    · rw [List.getElem_set_ne (by omega)]
      exact hother _ (List.getElem_mem _)
  · refine List.findIdx?_eq_some_iff_getElem.mpr ⟨by simp, ?_, fun j hj => ?_⟩
    · rw [List.getElem_concat_length rfl]
      exact hfresh
    · rw [List.getElem_append_left hj]
      exact hother _ (List.getElem_mem _)

def Conn.HasSlot (c : Conn σ) : Prop := c.streams.any Conn.reusable = true ∨ c.streams.length < kMaxStreams

lemma allocStream_some (h : c.HasSlot) (id : Nat) : ∃ i c', c.allocStream id = some (i, c') := by
  cases ha : c.allocStream id with
  | some r => exact ⟨r.1, r.2, rfl⟩
  | none =>
    obtain ⟨hreuse, hfull⟩ := allocStream_none ha
    rcases h with h | h
    · exact absurd h (by rw [hreuse]; exact Bool.false_ne_true)
    · exact absurd h (Nat.not_lt.mpr hfull)

lemma handleKnownHeaders_splits (hcb : cb.Blind) {h₁ h₂ p q i} (new : Bool)
    (hfind : c.findStream h₁.streamId = some i) (hdiscard : c.contDiscard = false) (hid : h₂.streamId = h₁.streamId)
    (hstream : h₂.has kEndStream = h₁.has kEndStream) (h₁end : h₁.has kEndHeaders = true)
    (h₂end : h₂.has kEndHeaders = false) : Splits cb fits h₁.streamId q (handleKnownHeaders cb fits c h₁ (p ++ q) i new)
      (handleKnownHeaders cb fits c h₂ p i new) := by
  by_cases hfull : kHeaderBlockCap < c.hdrBlock.length + p.length
  · rw [handleKnownHeaders_full i new hfull, handleKnownHeaders_full i new (by rw [List.length_append]; omega)]
    exact .of_failed Verdict.noConfusion
  · have hawait : c.await h₂ i new = c.await h₁ i new := by
      unfold Conn.await
      rw [hid, hstream]
    have happend : (c.await h₁ i new).appendFragment p = some { c.await h₁ i new with hdrBlock := c.hdrBlock ++ p } := by
      rw [appendFragment_room (by rw [Conn.await_hdrBlock]; exact hfull), Conn.await_hdrBlock]
    have hstream' : (c.await h₁ i new).contStream = h₁.streamId := by
      unfold Conn.await
      split_ifs <;> rfl
    rw [handleKnownHeaders_first i new h₂end hfull, hawait]
    refine ⟨fun hne => absurd rfl hne, fun _ => ⟨rfl, rfl, hstream', ?_⟩⟩
    exact (handleKnownHeaders_whole new hcb hfind h₁end hdiscard).trans (lastFragment_append happend _ q)

/-- A HEADERS frame with the whole block, and one that ends the same way with its first fragment only. -/
structure Fragments (h₁ h₂ : FrameHeader) (payload₁ payload₂ p q : Str) : Prop where
  type₁ : h₁.type = .headers
  type₂ : h₂.type = .headers
  streamId : h₂.streamId = h₁.streamId
  endStream : h₂.has kEndStream = h₁.has kEndStream
  endHeaders₁ : h₁.has kEndHeaders = true
  endHeaders₂ : h₂.has kEndHeaders = false
  block₁ : stripPadding h₁ payload₁ true = some (p ++ q)
  block₂ : stripPadding h₂ payload₂ true = some p

lemma handleHeaders_splits (hcb : cb.Blind) {h₁ h₂ payload₁ payload₂ p q}
    (hfs : Fragments h₁ h₂ payload₁ payload₂ p q) (hdiscard : c.contDiscard = false) (hclient : c.client = false)
    (hslot : c.HasSlot) :
    Splits cb fits h₁.streamId q (handleHeaders cb fits c h₁ payload₁) (handleHeaders cb fits c h₂ payload₂) := by
  unfold handleHeaders
  rw [hfs.streamId, hfs.block₁, hfs.block₂, hclient]
  by_cases hodd : h₁.streamId = 0 ∨ h₁.streamId % 2 = 0
  · rw [if_pos hodd, if_pos hodd]
    exact .of_failed Verdict.noConfusion
  rw [if_neg hodd, if_neg hodd]
  dsimp only
  cases hfind : c.findStream h₁.streamId with
  | some i =>
    exact handleKnownHeaders_splits hcb false hfind hdiscard hfs.streamId hfs.endStream hfs.endHeaders₁ hfs.endHeaders₂
  | none =>
    by_cases hlast : h₁.streamId ≤ c.lastStreamId
    · rw [if_pos hlast, if_pos hlast]
      exact .of_failed Verdict.noConfusion
    rw [if_neg hlast, if_neg hlast]
    obtain ⟨i, d, hd⟩ := allocStream_some hslot h₁.streamId
    rw [hd]
    have hdiscard' : d.contDiscard = false := by
      rw [← Conn.Keeps.allocStream hd]
      exact hdiscard
    have hfind' : d.findStream h₁.streamId = some i := findStream_alloc hd hfind
    exact handleKnownHeaders_splits (c := { d with lastStreamId := h₁.streamId }) hcb true hfind' hdiscard'
      hfs.streamId hfs.endStream hfs.endHeaders₁ hfs.endHeaders₂

/-! ## Between two blocks -/

def Conn.Rests (c : Conn σ) : Prop := c.contStream = 0 → c.contDiscard = false

lemma Conn.Keeps.rests (h : c.Keeps c') (hr : c.Rests) : c'.Rests := by
  rw [← h]
  exact hr

lemma decodeBlock_rests {k} (hr : c.Rests)
    (hk : ∀ d fields, (k { c with hpackDec := d } fields).conn.Rests) : (decodeBlock c k).conn.Rests := by
  unfold decodeBlock
  cases Hpack.decodeHeaderBlock headerCaps c.hpackDec c.hdrBlock with
  | error => exact hr
  | fault => exact hr
  | ok st => exact hk _ _

lemma finishHeaders_rests (hr : c.Rests) (id : Nat) (endStream refuse : Bool) :
    (finishHeaders cb fits c id endStream refuse).conn.Rests :=
  decodeBlock_rests hr fun _ _ => (Conn.Keeps.deliverHeaders _ _ _ _ _).rests fun _ => rfl

lemma discardHeaders_rests (hr : c.Rests) (id : Nat) (slot : Option Nat) (endStream : Bool) :
    (discardHeaders cb c fun r bad => r.andThen fun c => endTrailers cb fits c id slot endStream bad).conn.Rests :=
  decodeBlock_rests hr fun _ _ => (Conn.Keeps.endTrailers _ _ _ _ _).rests fun _ => rfl

lemma handleKnownHeaders_rests {h} (hid : h.streamId ≠ 0) (hr : c.Rests) (p : Str) (i : Nat) (new : Bool) :
    (handleKnownHeaders cb fits c h p i new).conn.Rests := by
  unfold handleKnownHeaders
  dsimp only
  split
  · cases ha : c.appendFragment p with
    | none => exact hr
    | some d =>
      dsimp only
      split
      · exact discardHeaders_rests (fun hz => absurd hz hid) _ _ _
      · exact fun hz => absurd hz hid
  · cases ha : (c.setGotHeaders i true).appendFragment p with
    | none => exact hr
    | some d =>
      obtain rfl := appendFragment_some ha
      dsimp only
      split
      · refine finishHeaders_rests ?_ _ _ _
        split <;> exact hr
      · exact fun hz => absurd hz hid

lemma handleHeaders_rests (hr : c.Rests) (h : FrameHeader) (payload : Str) :
    (handleHeaders cb fits c h payload).conn.Rests := by
  unfold handleHeaders
  by_cases hodd : h.streamId = 0 ∨ h.streamId % 2 = 0
  · rw [if_pos hodd]
    exact hr
  rw [if_neg hodd]
  have hid : h.streamId ≠ 0 := fun hz => hodd (.inl hz)
  cases stripPadding h payload true with
  | none => exact hr
  | some p =>
    cases c.findStream h.streamId with
    | some i => exact handleKnownHeaders_rests hid hr p i false
    | none =>
      dsimp only
      split
      · unfold handleStaleHeaders
        split
        · exact hr
        cases c.appendFragment p with
        | none => exact hr
        | some d =>
          dsimp only
          split
          · exact decodeBlock_rests (fun hz => absurd hz hid) fun _ _ =>
              (Conn.Keeps.resetKnownStream _ _ _).rests fun _ => rfl
          · exact fun hz => absurd hz hid
      split
      · exact hr
      cases ha : c.allocStream h.streamId with
      | none => exact hr
      | some r =>
        obtain ⟨i, d⟩ := r
        have hd : d.Rests := (Conn.Keeps.allocStream ha).rests hr
        exact handleKnownHeaders_rests (c := { d with lastStreamId := h.streamId }) hid hd p i true

lemma handleContinuation_rests (hr : c.Rests) (h : FrameHeader) (payload : Str) :
    (handleContinuation cb fits c h payload).conn.Rests := by
  unfold handleContinuation
  split
  · exact hr
  next hz =>
  cases ha : c.appendFragment payload with
  | none => exact hr
  | some d =>
    have hd : d.contStream ≠ 0 := by
      rw [appendFragment_some ha]
      exact hz
    dsimp only
    split
    · split
      · exact discardHeaders_rests (fun h => absurd h hd) _ _ _
      · refine finishHeaders_rests (fun h => absurd h ?_) _ _ _
        split
        · cases d.findStream _ <;> exact hd
        · exact hd
    · exact fun h => absurd h hd

lemma Conn.Rests.frame (hr : c.Rests) (h : FrameHeader) (payload : Str) :
    (handleFrame cb fits c h payload).conn.Rests := by
  by_cases hh : h.type = .headers
  · unfold handleFrame
    split
    · exact hr
    rw [hh]
    exact handleHeaders_rests hr h payload
  by_cases hc : h.type = .continuation
  · unfold handleFrame
    split
    · exact hr
    rw [hc]
    exact handleContinuation_rests hr h payload
  exact (handleFrame_keeps payload hh hc).rests hr

lemma Conn.Rests.step (hserve : ∀ c l c', serve c l c' → c.Keeps c') {s s' a}
    (hr : s.conn.Rests) (h : EngineStep cb serve s a s') : s'.conn.Rests := by
  cases s with
  | idle c =>
    obtain ⟨cap, input, seen, sent, rfl, heq, -⟩ | ⟨l, rfl, hs⟩ := idle_cases h
    · rw [heq]
      exact hr
    · exact (hserve _ _ _ hs).rests hr
  | busy cap p =>
    obtain ⟨rfl, ⟨-, heq⟩ | ⟨x, -, hx, -, -, heq⟩⟩ := turn_cases h
    · rw [heq]
      exact (Conn.Keeps.flush _ _).rests hr
    · rw [heq]
      refine Conn.Rests.frame ?_ _ _
      rw [hx]
      exact (Conn.Keeps.flush _ _).rests hr

/-! ## One frame or several -/

lemma handleFrame_headers {h} (payload : Str) (hcont : c.contStream = 0) (htype : h.type = .headers) :
    handleFrame cb fits c h payload = handleHeaders cb fits c h payload := by
  unfold handleFrame
  rw [if_neg fun hne => hne.1 hcont, htype]

lemma handleHeaders_ok {h payload} (hok : (handleHeaders cb fits c h payload).verdict = .ok) : h.streamId ≠ 0 := by
  intro hz
  unfold handleHeaders at hok
  rw [if_pos (.inl hz)] at hok
  cases hok

/-- The frames of a header block are transparent: in every state of a run of a server that is between two blocks and has
a slot for a fresh stream, `handle_frame` does the same with a block in one HEADERS frame as with a HEADERS frame and
CONTINUATION frames, whatever the fragments and the padding are, and leaves the connection the same up to the fields of
header assembly. -/
theorem continuation_transparent (hcb : cb.Blind) (hserve : ∀ c l c', serve c l c' → c.Keeps c')
    {decBuf encBuf : Str} {app : σ} {t : List (Entry σ L)} {s : Engine σ}
    (hrun : EngineRun cb serve (Conn.init decBuf encBuf app) t s) (hclient : s.conn.client = false)
    (hcont : s.conn.contStream = 0) (hslot : s.conn.HasSlot) {h₁ h₂ : FrameHeader}
    {payload₁ payload₂ p q : Str} (hfs : Fragments h₁ h₂ payload₁ payload₂ p q) {fs : List (FrameHeader × Str)}
    (hrest : Continues h₁.streamId fs q) (cap : Option Nat) (used : Nat) :
    (handleFrame cb (room cap used) s.conn h₁ payload₁).Alike (handleAll cb cap used s.conn ((h₂, payload₂) :: fs)) := by
  have hrests : s.conn.Rests := by
    clear hclient hcont hslot
    induction hrun with
    | nil => exact fun _ => rfl
    | snoc _ hs ih => exact ih.step hserve hs
  have hsplits : Splits cb (room cap used) h₁.streamId q _ _ :=
    handleHeaders_splits hcb hfs (hrests hcont) hclient hslot
  have hfirst : handleFrame cb (room cap used) s.conn h₂ payload₂ = _ := handleFrame_headers payload₂ hcont hfs.type₂
  rw [handleFrame_headers payload₁ hcont hfs.type₁]
  by_cases hok : (handleHeaders cb (room cap used) s.conn h₂ payload₂).verdict = .ok
  · obtain ⟨hout, hevents, hstream, halike⟩ := hsplits.kept hok
    have hid : h₁.streamId ≠ 0 := hfs.streamId ▸ handleHeaders_ok hok
    rw [handleAll_kept fs hfirst hok hout hevents]
    exact halike.trans (handleAll_continues hrest cap used hstream hid)
  · rw [handleAll, hfirst, if_neg hok]
    exact hsplits.failed hok

def countingCallbacks : Callbacks Nat := fun _ => some fun c => { c with app := c.app + 1 }

def wholeHead : FrameHeader × Str := (⟨5, .headers, kEndHeaders + kEndStream, 1⟩, [0x40, 1, ch 'a', 1, ch 'b'])

def firstFragment : FrameHeader × Str := (⟨4, .headers, kEndStream + kPadded, 1⟩, [1, 0x40, 1, 0])

def moreFragments : List (FrameHeader × Str) :=
  [(⟨2, .continuation, 0, 1⟩, [ch 'a', 1]), (⟨1, .continuation, kEndHeaders, 1⟩, [ch 'b'])]

theorem wholeHead_fragments :
    ∃ p, process countingCallbacks (some 100) (Conn.init [] [] 0) kClientPreface = some p ∧
      (handleFrame countingCallbacks (room none 0) p.conn wholeHead.1 wholeHead.2).events =
        [.call (.headers 1 [([ch 'a'], [ch 'b'])] true)] ∧
      (handleFrame countingCallbacks (room none 0) p.conn wholeHead.1 wholeHead.2).Alike
        (handleAll countingCallbacks none 0 p.conn (firstFragment :: moreFragments)) := by
  have hcall : (process countingCallbacks (some 100) (Conn.init [] [] 0) kClientPreface).map (fun p =>
      (p.status, p.conn.client, p.conn.contStream, p.conn.streams.length,
        (handleFrame countingCallbacks (room none 0) p.conn wholeHead.1 wholeHead.2).events)) =
      some (.open, false, 0, 0, [.call (.headers 1 [([ch 'a'], [ch 'b'])] true)]) := by
    decide
  obtain ⟨p, hp, heq⟩ := Option.map_eq_some_iff.mp hcall
  obtain ⟨hopen, hclient, hcont, hlen, hevents⟩ : p.status = .open ∧ p.conn.client = false ∧ p.conn.contStream = 0 ∧
      p.conn.streams.length = 0 ∧ _ = _ := by
    simpa only [Prod.mk.injEq] using heq
  have hrun := (process_run (L := Empty) (fun _ _ _ => False) hp hopen).1
  have hslot : p.conn.HasSlot := .inr (by rw [hlen]; decide)
  have hfs : Fragments wholeHead.1 firstFragment.1 wholeHead.2 firstFragment.2 [0x40, 1] ([ch 'a', 1] ++ [ch 'b']) :=
    ⟨rfl, rfl, rfl, rfl, rfl, rfl, rfl, rfl⟩
  have hrest : Continues 1 moreFragments ([ch 'a', 1] ++ [ch 'b']) := .more rfl rfl rfl (.last rfl rfl rfl)
  have hblind : countingCallbacks.Blind := by
    intro call f hf c x
    cases hf
    exact ⟨x, rfl⟩
  exact ⟨p, hp, hevents,
    continuation_transparent hblind (fun _ _ _ h => h.elim) hrun hclient hcont hslot hfs hrest none 0⟩

end Rut.Http2
