import Rut.Http2.Conn
import Rut.Lib.Trace

/-!
# The outbound pump

Port of `h2_pump_outbound` and `h2_close_stream` of `include/rut/runtime/callbacks_h2.h`. A call writes at most one
DATA frame of the staged response body. A run mixes such calls with changes of the connection that leave the staged
body alone; `pump_exact` says what the frames of a run are.
-/

namespace Rut.Http2

variable {σ : Type} {c c' : Conn σ} {cap : Nat}

/-- `H2PumpStatus`. -/
inductive PumpStatus where
  | blocked
  | produced
  | invalid
deriving DecidableEq

structure DataFrame where
  streamId : Nat
  payload : Str
  endStream : Bool
deriving DecidableEq

/-- The octets of a DATA frame (`http2_write_data`). -/
def DataFrame.bytes (f : DataFrame) : Str :=
  FrameHeader.bytes ⟨f.payload.length, .data, if f.endStream then kEndStream else 0, f.streamId⟩ ++ f.payload

/-- The octets that fit in one frame: the rest of the body, cut to the peer's frame size, both windows and the room. -/
def pumpLen (c : Conn σ) (i cap remaining : Nat) : Nat :=
  let n := min remaining c.peerSettings.maxFrameSize
  let n := if c.connSendWindow < n then c.connSendWindow.toNat else n
  let n := if (c.stream i).sendWindow < n then (c.stream i).sendWindow.toNat else n
  min n (cap - kFrameHeaderSize)

/-- Both windows and the staged body after `n` octets have been sent on the stream in slot `i`. -/
def Conn.send (c : Conn σ) (i n : Nat) (final : Bool) : Conn σ :=
  { c.modifyStream i fun s => { s with sendWindow := s.sendWindow - n } with
    outboundBodyOffset := c.outboundBodyOffset + n
    connSendWindow := c.connSendWindow - n
    outboundFinalStaged := final }

/-- `h2_pump_outbound` with room for `cap` octets. -/
def h2PumpOutbound (c : Conn σ) (cap : Nat) : Conn σ × Option DataFrame × PumpStatus :=
  if c.outboundStream = 0 ∨ c.outboundFinalStaged then (c, none, .blocked)
  else
    match c.outboundBody with
    | none => (c, none, .invalid)
    | some body =>
      if body.length ≤ c.outboundBodyOffset then (c, none, .invalid)
      else
        match (c.findStream c.outboundStream).filter fun i =>
            (c.stream i).state == .open || (c.stream i).state == .halfClosedRemote with
        | none => (c, none, .invalid)
        | some i =>
          if c.connSendWindow ≤ 0 ∨ (c.stream i).sendWindow ≤ 0 ∨ cap < kFrameHeaderSize + 1 then (c, none, .blocked)
          else
            let remaining := body.length - c.outboundBodyOffset
            let n := pumpLen c i cap remaining
            if n = 0 then (c, none, .blocked)
            else
              (c.send i n (n == remaining),
                some ⟨c.outboundStream, (body.drop c.outboundBodyOffset).take n, n == remaining⟩, .produced)

/-- `h2_close_stream`: our side of a stream is done. -/
def h2CloseStream (c : Conn σ) (id : Nat) : Conn σ :=
  (c.findStream id).elim c fun i =>
    c.setState i (if (c.stream i).state = .halfClosedRemote then .closed else .halfClosedLocal)

/-- What a frame of the pump is bounded by when it is written: the frame size and both windows. -/
structure DataFrame.Fits (c : Conn σ) (f : DataFrame) : Prop where
  frameSize : f.payload.length ≤ c.peerSettings.maxFrameSize
  connWindow : (f.payload.length : Int) ≤ c.connSendWindow
  streamWindow : ∃ i, c.findStream f.streamId = some i ∧ (f.payload.length : Int) ≤ (c.stream i).sendWindow

lemma pumpLen_le (c : Conn σ) (i cap remaining : Nat) (hconn : 0 < c.connSendWindow)
    (hstream : 0 < (c.stream i).sendWindow) :
    pumpLen c i cap remaining ≤ remaining ∧ pumpLen c i cap remaining ≤ c.peerSettings.maxFrameSize ∧
      (pumpLen c i cap remaining : Int) ≤ c.connSendWindow ∧
      (pumpLen c i cap remaining : Int) ≤ (c.stream i).sendWindow ∧
      pumpLen c i cap remaining ≤ cap - kFrameHeaderSize := by
  unfold pumpLen
  dsimp only
  split_ifs <;> omega

lemma h2PumpOutbound_cases (c : Conn σ) (cap : Nat) :
    (∃ status, status ≠ .produced ∧ h2PumpOutbound c cap = (c, none, status)) ∨
    ∃ body i n, c.outboundBody = some body ∧ c.outboundFinalStaged = false ∧ c.outboundStream ≠ 0 ∧
      c.findStream c.outboundStream = some i ∧ 0 < n ∧ n ≤ body.length - c.outboundBodyOffset ∧
      n ≤ c.peerSettings.maxFrameSize ∧ (n : Int) ≤ c.connSendWindow ∧ (n : Int) ≤ (c.stream i).sendWindow ∧
      kFrameHeaderSize + n ≤ cap ∧ h2PumpOutbound c cap = (c.send i n (n == body.length - c.outboundBodyOffset),
          some ⟨c.outboundStream, (body.drop c.outboundBodyOffset).take n, n == body.length - c.outboundBodyOffset⟩,
          .produced) := by
  unfold h2PumpOutbound
  split
  · exact .inl ⟨_, by decide, rfl⟩
  · next hown =>
    cases hbody : c.outboundBody with
    | none => exact .inl ⟨_, by decide, rfl⟩
    | some body =>
      dsimp only
      split
      · exact .inl ⟨_, by decide, rfl⟩
      · cases hfind : (c.findStream c.outboundStream).filter fun i =>
            (c.stream i).state == .open || (c.stream i).state == .halfClosedRemote with
        | none => exact .inl ⟨_, by decide, rfl⟩
        | some i =>
          dsimp only
          split
          · exact .inl ⟨_, by decide, rfl⟩
          · next hopen =>
            split
            · exact .inl ⟨_, by decide, rfl⟩
            · next hpos =>
              obtain ⟨hslot, -⟩ := Option.filter_eq_some_iff.mp hfind
              push Not at hown hopen
              obtain ⟨h₁, h₂, h₃, h₄, h₅⟩ :=
                pumpLen_le c i cap (body.length - c.outboundBodyOffset) hopen.1 hopen.2.1
              refine .inr ⟨body, i, _, rfl, by simpa using hown.2, hown.1, hslot, Nat.pos_of_ne_zero hpos, h₁, h₂, h₃, h₄,
                by omega, rfl⟩

/-! ## Runs of the pump -/

/-- The connections agree on the staged body, and the peer's frame size is one that `parse_settings` accepts. -/
structure Conn.KeepsStaged (c c' : Conn σ) : Prop where
  outboundStream : c'.outboundStream = c.outboundStream
  outboundBody : c'.outboundBody = c.outboundBody
  outboundBodyOffset : c'.outboundBodyOffset = c.outboundBodyOffset
  outboundFinalStaged : c'.outboundFinalStaged = c.outboundFinalStaged
  maxFrameSize : c'.peerSettings.maxFrameSize ≤ kMaxAllowedFrameSize

structure Conn.Staged (c : Conn σ) (id : Nat) (body : Str) : Prop where
  outboundStream : c.outboundStream = id
  outboundBody : c.outboundBody = some body
  outboundBodyOffset : c.outboundBodyOffset = 0
  outboundFinalStaged : c.outboundFinalStaged = false
  maxFrameSize : c.peerSettings.maxFrameSize ≤ kMaxAllowedFrameSize

inductive PumpAction where
  | pump (cap : Nat)
  | other
deriving DecidableEq

inductive PumpStep : Conn σ → PumpAction → Conn σ → Prop where
  | pump (c : Conn σ) (cap : Nat) : PumpStep c (.pump cap) (h2PumpOutbound c cap).1
  | other {c c' : Conn σ} (h : c.KeepsStaged c') : PumpStep c .other c'

def pumped : Conn σ × PumpAction → Option DataFrame
  | (c, .pump cap) => (h2PumpOutbound c cap).2.1
  | (_, .other) => none

def pumpedFrames (t : List (Conn σ × PumpAction)) : List DataFrame := t.filterMap pumped

/-- The state of a run of the pump that has written `frames`. -/
structure PumpInv (id : Nat) (body : Str) (frames : List DataFrame) (c : Conn σ) : Prop where
  outboundStream : c.outboundStream = id
  outboundBody : c.outboundBody = some body
  maxFrameSize : c.peerSettings.maxFrameSize ≤ kMaxAllowedFrameSize
  sent : frames.flatMap (·.payload) = body.take c.outboundBodyOffset
  going : c.outboundFinalStaged = false → ∀ f ∈ frames, f.endStream = false
  done : c.outboundFinalStaged = true → c.outboundBodyOffset = body.length ∧
    ∃ before last, frames = before ++ [last] ∧ last.endStream = true ∧ ∀ f ∈ before, f.endStream = false

lemma PumpInv.init {id : Nat} {body : Str} (h : c.Staged id body) : PumpInv id body [] c where
  outboundStream := h.outboundStream
  outboundBody := h.outboundBody
  maxFrameSize := h.maxFrameSize
  sent := by rw [h.outboundBodyOffset, List.take_zero, List.flatMap_nil]
  going := fun _ f hf => absurd hf List.not_mem_nil
  done := fun hdone => by rw [h.outboundFinalStaged] at hdone; cases hdone

lemma PumpInv.other {id body frames} (hinv : PumpInv id body frames c)
    (h : c.KeepsStaged c') : PumpInv id body frames c' where
  outboundStream := h.outboundStream.trans hinv.outboundStream
  outboundBody := h.outboundBody.trans hinv.outboundBody
  maxFrameSize := h.maxFrameSize
  sent := by rw [h.outboundBodyOffset, hinv.sent]
  going := by
    rw [h.outboundFinalStaged]
    exact hinv.going
  done := by
    rw [h.outboundFinalStaged, h.outboundBodyOffset]
    exact hinv.done

/-- A frame of `n` octets goes on with the body; it is the last one if the body ends with it. -/
lemma PumpInv.send {id body frames} (hinv : PumpInv id body frames c)
    (hgoing : c.outboundFinalStaged = false) (i : Nat) {n} (hpos : 0 < n) : PumpInv id body
      (frames ++ [⟨id, (body.drop c.outboundBodyOffset).take n, n == body.length - c.outboundBodyOffset⟩])
      (c.send i n (n == body.length - c.outboundBodyOffset)) where
  outboundStream := hinv.outboundStream
  outboundBody := hinv.outboundBody
  maxFrameSize := hinv.maxFrameSize
  sent := by
    rw [List.flatMap_append, hinv.sent, List.flatMap_singleton]
    exact List.take_add.symm
  going := by
    intro hnot f hf
    rcases List.mem_append.mp hf with hf | hf
    · exact hinv.going hgoing f hf
    · cases List.mem_singleton.mp hf
      exact hnot
  done := by
    intro hlast
    have heq : n = body.length - c.outboundBodyOffset := beq_iff_eq.mp hlast
    refine ⟨?_, frames, _, rfl, hlast, hinv.going hgoing⟩
    change c.outboundBodyOffset + n = body.length
    omega

lemma PumpInv.step {id body frames a} (hinv : PumpInv id body frames c) (h : PumpStep c a c') :
    PumpInv id body (frames ++ (pumped (c, a)).toList) c' := by
  cases h with
  | other h =>
    rw [pumped, Option.toList_none, List.append_nil]
    exact hinv.other h
  | pump cap =>
    obtain ⟨status, -, heq⟩ | ⟨body', i, n, hbody, hgoing, -, -, hpos, -, -, -, -, -, heq⟩ :=
      h2PumpOutbound_cases c cap
    · rw [pumped, heq, Option.toList_none, List.append_nil]
      exact hinv
    · cases hbody.symm.trans hinv.outboundBody
      rw [pumped, heq, Option.toList_some, hinv.outboundStream]
      exact hinv.send hgoing i hpos

lemma PumpInv.run {id body t} (hstaged : c.Staged id body)
    (h : Lib.Trace PumpStep c t c') : PumpInv id body (pumpedFrames t) c' := by
  induction h with
  | nil => exact .init hstaged
  | @snoc t s s' a _ hs ih =>
    have happ : pumpedFrames (t ++ [(s, a)]) = pumpedFrames t ++ (pumped (s, a)).toList := by
      rw [pumpedFrames, List.filterMap_append]
      cases hp : pumped (s, a) with
      | none => rw [List.filterMap_cons_none hp]; rfl
      | some f => rw [List.filterMap_cons_some hp]; rfl
    rw [happ]
    exact ih.step hs

lemma pumped_fits {e : Conn σ × PumpAction} {f} (h : pumped e = some f) :
    f.Fits e.1 ∧ f.streamId = e.1.outboundStream ∧ f.payload ≠ [] := by
  obtain ⟨c, a⟩ := e
  cases a with
  | other => cases h
  | pump cap =>
    obtain ⟨status, -, heq⟩ | ⟨body, i, n, -, -, -, hfind, hpos, hn, hsize, hconn, hstream, -, heq⟩ :=
      h2PumpOutbound_cases c cap
    · rw [pumped, heq] at h
      cases h
    · rw [pumped, heq] at h
      cases h
      have hlen : ((body.drop c.outboundBodyOffset).take n).length = n := by
        rw [List.length_take, List.length_drop]
        omega
      refine ⟨⟨?_, ?_, i, hfind, ?_⟩, rfl, ?_⟩
      · exact hlen.symm ▸ hsize
      · exact hlen.symm ▸ hconn
      · exact hlen.symm ▸ hstream
      · intro hnil
        rw [← List.length_eq_zero_iff] at hnil
        exact hpos.ne' (hlen.symm.trans hnil)

lemma DataFrame.parse_bytes (f : DataFrame) (hlen : f.payload.length ≤ kMaxAllowedFrameSize) :
    parseFrameHeader f.bytes = some
        ⟨f.payload.length, .data, if f.endStream then kEndStream else 0, f.streamId % 2 ^ 31⟩ ∧
      f.bytes.drop kFrameHeaderSize = f.payload := by
  constructor
  · have hfit : f.payload.length % 2 ^ 24 = f.payload.length :=
      Nat.mod_eq_of_lt (Nat.lt_of_le_of_lt hlen (by decide))
    rw [bytes, parseFrameHeader_bytes, hfit]
    cases f.endStream <;> rfl
  · have hhead : ∀ h : FrameHeader, h.bytes.length = kFrameHeaderSize := by
      intro h
      rfl
    rw [bytes, ← hhead ⟨f.payload.length, .data, if f.endStream then kEndStream else 0, f.streamId⟩]
    exact List.drop_left

/-- The pump sends a staged body exactly. In every run, each frame carries octets of the body, within the frame size
and the windows at the time it is written, and is a well-formed frame of the stream; the frames carry a prefix of the
body; until the pump is done no frame ends the stream, and then they carry the whole body and the last one, alone,
ends the stream. -/
theorem pump_exact {c c' : Conn σ} {id : Nat} {body : Str} {t : List (Conn σ × PumpAction)}
    (hstaged : c.Staged id body) (h : Lib.Trace PumpStep c t c') :
    (∀ e ∈ t, ∀ f, pumped e = some f → f.Fits e.1 ∧ f.payload ≠ [] ∧ f.streamId = id ∧
      parseFrameHeader f.bytes = some
        ⟨f.payload.length, .data, if f.endStream then kEndStream else 0, id % 2 ^ 31⟩ ∧
      f.bytes.drop kFrameHeaderSize = f.payload) ∧
    (pumpedFrames t).flatMap (·.payload) <+: body ∧
    (c'.outboundFinalStaged = false → ∀ f ∈ pumpedFrames t, f.endStream = false) ∧
    (c'.outboundFinalStaged = true → (pumpedFrames t).flatMap (·.payload) = body ∧
      ∃ before last, pumpedFrames t = before ++ [last] ∧ last.endStream = true ∧
        ∀ f ∈ before, f.endStream = false) := by
  have hinv := PumpInv.run hstaged h
  refine ⟨?_, ?_, hinv.going, ?_⟩
  · intro e he f hf
    obtain ⟨t₁, t₂, -, hbefore⟩ := h.mem he
    have hinv₁ := PumpInv.run hstaged hbefore
    obtain ⟨hfits, hid, hne⟩ := pumped_fits hf
    rw [hinv₁.outboundStream] at hid
    obtain ⟨hparse, hdrop⟩ := f.parse_bytes (hfits.frameSize.trans hinv₁.maxFrameSize)
    rw [hid] at hparse
    exact ⟨hfits, hne, hid, hparse, hdrop⟩
  · rw [hinv.sent]
    exact List.take_prefix _ _
  · intro hdone
    obtain ⟨hall, hframes⟩ := hinv.done hdone
    refine ⟨?_, hframes⟩
    rw [hinv.sent, hall, List.take_length]

def stagedConn : Conn Unit :=
  { Conn.init [] [] () with
    streams := [{ id := 1, state := .halfClosedRemote, sendWindow := 3 }]
    outboundStream := 1
    outboundBody := some [1, 2, 3, 4] }

/-- The pump sends three octets, a window update comes in, and the pump sends the last one. -/
theorem stagedConn_pumped :
    let t := [(stagedConn, PumpAction.pump 100), ((h2PumpOutbound stagedConn 100).1, .other),
      ((h2PumpOutbound stagedConn 100).1.modifyStream 0 fun s => { s with sendWindow := 5 }, .pump 100)]
    pumpedFrames t = [⟨1, [1, 2, 3], false⟩, ⟨1, [4], true⟩] ∧ (pumpedFrames t).flatMap (·.payload) = [1, 2, 3, 4] := by
  intro t
  have hrun : Lib.Trace PumpStep stagedConn t (h2PumpOutbound (t[2].1) 100).1 :=
    .snoc (.snoc (.snoc .nil (.pump _ _)) (.other ⟨rfl, rfl, rfl, rfl, by decide⟩)) (.pump _ _)
  have hstaged : stagedConn.Staged 1 [1, 2, 3, 4] := ⟨rfl, rfl, rfl, rfl, by decide⟩
  exact ⟨by decide, ((pump_exact hstaged hrun).2.2.2 (by decide)).1⟩

end Rut.Http2
