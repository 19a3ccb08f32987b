import Rut.Http.ChunkedStream
import Rut.Http.HeaderValidation
import Rut.Http.ResponseParts

/-!
# Bounded responses

Port of `BoundedJsonResponse` of `src/runtime/https_fetch.cc`. The bytes of a response are gathered until its head is
complete; its body ends at its length, at the end of the chunked coding, or when the connection is closed. `verdict`
says of a whole response what the reader says of it, and `arrival` is the reader that has received it.
-/

set_option linter.all false
namespace Rut.Callout

open Http Http.Chunked

inductive Result where
  | more
  | complete
  | error
deriving DecidableEq

def kMaxBody : Nat := 8192
def kMaxWire : Nat := 16384

/-- `BoundedJsonResponse`. The bytes up to `wire_len_` and up to `body_len_` are the lists. -/
structure BoundedJsonResponse where
  wire : Str := []
  body : Str := []
  offset : Nat := 0
  expected : Nat := 0
  authorization : Bool
  callout : Bool := false
  status : Nat := 0
  headers : Bool := false
  chunked : Bool := false
  sized : Bool := false
  chunks : ChunkedParser := .reset
  result : Result := .more
deriving DecidableEq

structure HeadCounts where
  transfer : Nat := 0
  type : Nat := 0
  encoding : Nat := 0
deriving DecidableEq

def transferEncodingText : Str :=
  lit ['T','r','a','n','s','f','e','r','-','E','n','c','o','d','i','n','g']

/-- The type in a `Content-Type`, without its parameters. -/
def mediaType (value : Str) : Str := (value.takeWhile (· != ch ';')).rdropWhile isOws

def countHeader (authorization : Bool) (n : HeadCounts) (h : Header) : Option HeadCounts :=
  if authorization && httpHeaderNameEqCi h.name (lit ['C','o','n','n','e','c','t','i','o','n']) &&
      !httpHeaderNameEqCi h.value (lit ['c','l','o','s','e']) &&
      !httpHeaderNameEqCi h.value (lit ['k','e','e','p','-','a','l','i','v','e']) then none
  else if httpHeaderNameEqCi h.name transferEncodingText then
    if n.transfer + 1 ≠ 1 ∨ !httpHeaderNameEqCi h.value (lit ['c','h','u','n','k','e','d']) then none
    else some { n with transfer := n.transfer + 1 }
  else if httpHeaderNameEqCi h.name
      (lit ['C','o','n','t','e','n','t','-','E','n','c','o','d','i','n','g']) then
    if n.encoding + 1 ≠ 1 ∨ !httpHeaderNameEqCi h.value (lit ['i','d','e','n','t','i','t','y']) then none
    else some { n with encoding := n.encoding + 1 }
  else if httpHeaderNameEqCi h.name (lit ['C','o','n','t','e','n','t','-','T','y','p','e']) then
    if n.type + 1 ≠ 1 then none
    else if !authorization &&
        !httpHeaderNameEqCi (mediaType h.value) (lit "application/json".toList) &&
        !httpHeaderNameEqCi (mediaType h.value) (lit "application/jwk-set+json".toList) then none
    else some { n with type := n.type + 1 }
  else some n

namespace BoundedJsonResponse

variable (r : BoundedJsonResponse)

def reset (authorization : Bool) : BoundedJsonResponse := { authorization }

/-- `reset_callout`. -/
def reset_callout : BoundedJsonResponse := { reset true with callout := true }

def refuses (response : ParsedResponse) (header_end : Nat) : Bool :=
  decide (header_end > 8192) || (!r.authorization && response.statusCode != 200) ||
    (r.callout && (decide (response.statusCode < 200) || decide (response.statusCode > 599))) ||
    (r.authorization && !r.callout && response.statusCode != 200 && response.statusCode != 401 &&
      response.statusCode != 403) ||
    response.headersTruncated || decide (response.contentLengthCount > 1) ||
    (decide (response.contentLength > kMaxBody) && !(r.callout && response.statusCode == 304))

/-- The part of `consume` for a complete head, which ends with an error or goes on with the body. -/
def acceptHead (response : ParsedResponse) (header_end : Nat) : Except BoundedJsonResponse BoundedJsonResponse :=
  if r.refuses response header_end then .error r
  else
    match response.headers.foldlM (countHeader r.authorization) {} with
    | none => .error r
    | some n =>
      if (!r.authorization && n.type != 1) || (n.transfer != 0 && response.hasContentLength) then .error r
      else
        let r := { r with
          status := response.statusCode, headers := true, chunked := n.transfer != 0,
          sized := response.hasContentLength, expected := response.contentLength }
        if r.callout && (r.status == 204 || r.status == 205 || r.status == 304) then
          if r.chunked || (r.status != 304 && r.expected != 0) then .error r
          else .ok { r with sized := true, expected := 0, offset := header_end, chunks := .reset }
        else .ok { r with offset := header_end, chunks := .reset }

def fed : ChunkedParser × FeedResult := feed r.chunks (r.wire.drop r.offset)

def absorb : BoundedJsonResponse :=
  { r with
    chunks := r.fed.1
    body := r.body ++ ((r.wire.drop r.offset).drop r.fed.2.outStart).take r.fed.2.outLen
    offset := r.offset + r.fed.2.consumed }

/-- The loop of `consume` over the chunks. -/
def chunkLoop : Nat → BoundedJsonResponse → BoundedJsonResponse × Result
  | 0, r => (r, .error)
  | steps + 1, r =>
    if r.fed.2.outLen > kMaxBody - r.body.length then ({ r with chunks := r.fed.1 }, .error)
    else
      match r.fed.2.status with
      | .error => (r.absorb, .error)
      | .done => (r.absorb, if r.absorb.offset = r.wire.length then .complete else .error)
      | .needMore => (r.absorb, .more)
      | .data => if r.fed.2.consumed = 0 then (r.absorb, .error) else chunkLoop steps r.absorb

/-- The part of `consume` for the body. -/
def consumeBody : BoundedJsonResponse × Result :=
  if r.chunked then chunkLoop (kMaxWire + 1) r
  else
    let kAvailable := r.wire.length - r.offset
    if kAvailable > kMaxBody - r.body.length ∨ (r.sized ∧ kAvailable > r.expected - r.body.length) then (r, .error)
    else
      let r := { r with body := r.body ++ r.wire.drop r.offset, offset := r.wire.length }
      (r, if r.sized ∧ r.body.length = r.expected then .complete else .more)

def consume : BoundedJsonResponse × Result :=
  if r.headers then r.consumeBody
  else
    match parseResponse r.wire with
    | .error => (r, .error)
    | .incomplete => (r, if r.wire.length ≥ 8192 then .error else .more)
    | .complete response header_end =>
      match r.acceptHead response header_end with
      | .error r => (r, .error)
      | .ok r => r.consumeBody

def append (bytes : Str) : BoundedJsonResponse :=
  if r.result ≠ .more ∨ bytes.length > kMaxWire - r.wire.length then { r with result := .error }
  else
    let out := { r with wire := r.wire ++ bytes }.consume
    { out.1 with result := out.2 }

def finish : BoundedJsonResponse :=
  if r.result = .complete then r
  else { r with result := if r.result = .more ∧ r.headers ∧ !r.sized ∧ !r.chunked then .complete else .error }

/-- `body()`. -/
def bodyView : Str := if r.result = .complete then r.body else []

def appendAll (segs : List Str) : BoundedJsonResponse := segs.foldl append r

def AllMore : BoundedJsonResponse → List Str → Prop
  | _, [] => True
  | r, seg :: segs => (r.append seg).result = .more ∧ AllMore (r.append seg) segs

end BoundedJsonResponse

inductive Profile where
  | json
  | authorization
  | callout
deriving DecidableEq

def Profile.fresh : Profile → BoundedJsonResponse
  | .json => .reset false
  | .authorization => .reset true
  | .callout => .reset_callout

/-! ## Whole responses -/

/-- The verdict on a chunked body of which the decoder says `status`. -/
def chunkVerdict (status : ChunkStatus) (atEnd : Bool) : Result :=
  match status with
  | .needMore => .more
  | .done => if atEnd then .complete else .error
  | .data => .error
  | .error => .error

/-- The verdict on the bytes behind a head, whose framing is in `r`. -/
def bodyVerdict (r : BoundedJsonResponse) (b : Str) : Result :=
  if r.chunked then
    if kMaxBody < (run .reset b).body.length then .error
    else chunkVerdict (run .reset b).status (decide ((run .reset b).consumed = b.length))
  else if kMaxBody < b.length ∨ (r.sized ∧ r.expected < b.length) then .error
  else if r.sized ∧ b.length = r.expected then .complete
  else .more

/-- The reader with the body in `b`. -/
def withBody (r : BoundedJsonResponse) (b wire : Str) (offset : Nat) : BoundedJsonResponse :=
  if r.chunked then { r with wire, body := (run .reset b).body, offset, chunks := (run .reset b).parser }
  else { r with wire, body := b, offset }

inductive HeadVerdict where
  | undecided (result : Result)
  | refused (status : Nat)
  | accepted (r : BoundedJsonResponse) (header_end : Nat)

def headVerdict (p : Profile) (w : Str) : HeadVerdict :=
  match parseResponse w with
  | .error => .undecided .error
  | .incomplete => .undecided (if w.length ≥ 8192 then .error else .more)
  | .complete response header_end =>
    match p.fresh.acceptHead response header_end with
    | .error r => .refused r.status
    | .ok r => .accepted r header_end

def verdict (p : Profile) (w : Str) : Result :=
  match headVerdict p w with
  | .undecided result => result
  | .refused _ => .error
  | .accepted r header_end => bodyVerdict r (w.drop header_end)

def statusOf (p : Profile) (w : Str) : Nat :=
  match headVerdict p w with
  | .undecided _ => 0
  | .refused status => status
  | .accepted r _ => r.status

def arrival (p : Profile) (w : Str) : BoundedJsonResponse :=
  match headVerdict p w with
  | .undecided _ => { p.fresh with wire := w, result := verdict p w }
  | .refused _ => { p.fresh with wire := w, result := verdict p w }
  | .accepted r header_end => { withBody r (w.drop header_end) w w.length with result := verdict p w }

structure Arrived (p : Profile) (w : Str) (r : BoundedJsonResponse) : Prop where
  result : r.result = verdict p w
  status : r.status = statusOf p w
  state : verdict p w ≠ .error → r = arrival p w

/-! ## The body -/

section body

variable {r : BoundedJsonResponse} {w : Str}

lemma chunkLoop_status (steps : Nat) (r : BoundedJsonResponse) : (r.chunkLoop steps).1.status = r.status := by
  induction steps generalizing r with
  | zero => rfl
  | succ steps ih =>
    rw [BoundedJsonResponse.chunkLoop]
    by_cases hlong : r.fed.2.outLen > kMaxBody - r.body.length
    · rw [if_pos hlong]
    · rw [if_neg hlong]
      cases r.fed.2.status with
      | error => rfl
      | done => rfl
      | needMore => rfl
      | data =>
        by_cases hzero : r.fed.2.consumed = 0
        · rw [if_pos hzero]
          rfl
        · rw [if_neg hzero]
          exact ih r.absorb

lemma absorb_data (wf : r.chunks.Wf) (hst : r.fed.2.status = .data) :
    r.absorb.chunks.Wf ∧ 0 < r.fed.2.consumed ∧ r.fed.2.consumed ≤ (r.wire.drop r.offset).length ∧
      r.absorb.wire.drop r.absorb.offset = (r.wire.drop r.offset).drop r.fed.2.consumed ∧
      r.absorb.body.length = r.body.length + r.fed.2.outLen ∧
      ∃ piece, piece.length = r.fed.2.outLen ∧ r.absorb.body = r.body ++ piece ∧ run r.chunks (r.wire.drop r.offset) =
          (run r.absorb.chunks (r.absorb.wire.drop r.absorb.offset)).after piece r.fed.2.consumed := by
  obtain ⟨wf', k, m, hk, hspec⟩ := feedLoop_spec (r.wire.drop r.offset) 0 wf
  have hregion := feedLoop_region (r.wire.drop r.offset) r.chunks 0
  rw [← feed, ← BoundedJsonResponse.fed] at hk hspec wf' hregion
  rw [if_pos hst] at hspec hregion
  obtain ⟨hpos, hm, hkpos, hkle, hrun⟩ := hspec
  have hdrop : r.absorb.wire.drop r.absorb.offset = (r.wire.drop r.offset).drop r.fed.2.consumed := by
    rw [List.drop_drop]
    rfl
  have hpiece : (((r.wire.drop r.offset).drop r.fed.2.outStart).take r.fed.2.outLen).length = r.fed.2.outLen := by
    rw [List.length_take, List.length_drop]
    omega
  refine ⟨wf', by omega, by omega, hdrop, ?_, _, hpiece, rfl, ?_⟩
  · rw [BoundedJsonResponse.absorb, List.length_append, hpiece]
  · rw [hrun, hdrop, hm, hk, Nat.zero_add, Nat.zero_add]
    rfl

def readOut (r : BoundedJsonResponse) (o : Outcome) : BoundedJsonResponse :=
  { r with chunks := o.parser, body := r.body ++ o.body, offset := r.offset + o.consumed }

lemma readOut_absorb {piece} (h : r.absorb.body = r.body ++ piece) (o : Outcome) :
    readOut r.absorb o = readOut r (o.after piece r.fed.2.consumed) := by
  have hoffset : r.absorb.offset = r.offset + r.fed.2.consumed := rfl
  rw [readOut, readOut, h, hoffset, Outcome.after_parser, Outcome.after_body, Outcome.after_consumed, List.append_assoc,
    Nat.add_assoc]
  rfl

lemma chunkLoop_spec {n} (wf : r.chunks.Wf) (hsteps : (r.wire.drop r.offset).length < n)
    (hbody : r.body.length ≤ kMaxBody) :
    (kMaxBody < r.body.length + (run r.chunks (r.wire.drop r.offset)).body.length → (r.chunkLoop n).2 = .error) ∧
      (r.body.length + (run r.chunks (r.wire.drop r.offset)).body.length ≤ kMaxBody → r.chunkLoop n =
          (readOut r (run r.chunks (r.wire.drop r.offset)), chunkVerdict (run r.chunks (r.wire.drop r.offset)).status
              (decide (r.offset + (run r.chunks (r.wire.drop r.offset)).consumed = r.wire.length)))) := by
  induction n generalizing r with
  | zero => exact absurd hsteps (Nat.not_lt_zero _)
  | succ n ih =>
    rw [BoundedJsonResponse.chunkLoop]
    by_cases hst : r.fed.2.status = .data
    · obtain ⟨wf', hpos, hle, hdrop, hlength, piece, hpiece, hadd, hrun⟩ := absorb_data wf hst
      rw [hrun, Outcome.after_body, Outcome.after_status, Outcome.after_consumed, List.length_append, hpiece]
      by_cases hlong : r.fed.2.outLen > kMaxBody - r.body.length
      · rw [if_pos hlong]
        exact ⟨fun _ => rfl, fun hfits => by omega⟩
      · obtain ⟨hover, hfits⟩ := ih (r := r.absorb) wf' (by rw [hdrop, List.length_drop]; omega) (by omega)
        rw [hlength, Nat.add_assoc] at hover hfits
        rw [if_neg hlong, hst]
        dsimp only
        rw [if_neg (by omega)]
        refine ⟨hover, fun hroom => ?_⟩
        have hoffset : r.absorb.offset = r.offset + r.fed.2.consumed := rfl
        rw [hfits hroom, readOut_absorb hadd, hoffset, Nat.add_assoc]
        rfl
    · obtain ⟨wf', k, m, hk, hspec⟩ := feedLoop_spec (r.wire.drop r.offset) 0 wf
      have hregion := feedLoop_region (r.wire.drop r.offset) r.chunks 0
      rw [← feed, ← BoundedJsonResponse.fed] at hk hspec wf' hregion
      rw [if_neg hst] at hspec hregion
      rw [hregion, if_neg (by omega), hspec]
      refine ⟨fun hover => absurd hover (by simpa using hbody), fun _ => ?_⟩
      have hread : r.absorb = readOut r ⟨r.fed.1, [], k, r.fed.2.status⟩ := by
        rw [BoundedJsonResponse.absorb, readOut, hregion, hk, List.take_zero, Nat.zero_add]
      have hoffset : r.absorb.offset = r.offset + k := by
        rw [hread]
        rfl
      rw [hoffset, hread]
      cases hcase : r.fed.2.status with
      | data => exact absurd hcase hst
      | error => rfl
      | needMore => rfl
      | done =>
        dsimp only [chunkVerdict]
        simp only [decide_eq_true_eq]

def Receiving (r : BoundedJsonResponse) (b : Str) : Prop :=
  if r.chunked then (run .reset b).status = .needMore ∧ (run .reset b).body.length ≤ kMaxBody
  else b.length ≤ kMaxBody ∧ (r.sized = true → b.length ≤ r.expected)

lemma receiving_nil (r : BoundedJsonResponse) : Receiving r [] := by
  unfold Receiving
  split_ifs
  · exact ⟨rfl, Nat.zero_le _⟩
  · exact ⟨Nat.zero_le _, fun _ => Nat.zero_le _⟩

lemma receiving_of_more {b} (h : bodyVerdict r b = .more) : Receiving r b := by
  unfold bodyVerdict at h
  unfold Receiving
  split_ifs at h ⊢ with hchunked hlong hbad hend
  · refine ⟨?_, Nat.not_lt.mp hlong⟩
    cases hst : (run .reset b).status with
    | needMore => rfl
    | data => rw [hst] at h; cases h
    | error => rw [hst] at h; cases h
    | done =>
      rw [hst, chunkVerdict] at h
      split_ifs at h
  · obtain ⟨hmax, hsized⟩ := not_or.mp hbad
    exact ⟨Nat.not_lt.mp hmax, fun hs => Nat.not_lt.mp fun hlt => hsized ⟨hs, hlt⟩⟩

lemma chunkVerdict_ok {status atEnd} (h : chunkVerdict status atEnd ≠ .error) : status = .needMore ∨ atEnd = true := by
  cases status with
  | needMore => exact .inl rfl
  | data => exact absurd rfl h
  | error => exact absurd rfl h
  | done =>
    rw [chunkVerdict] at h
    split_ifs at h with hend
    · exact .inr hend
    · exact absurd rfl h

section consume

variable {b : Str} {offset : Nat}

lemma consumeBody_chunked (hchunked : r.chunked = true) (hopen : Receiving r b) (hoffset : offset ≤ w.length)
    (hwire : w.length ≤ kMaxWire) : (withBody r b w offset).consumeBody.2 = bodyVerdict r (b ++ w.drop offset) ∧
      (withBody r b w offset).consumeBody.1.status = r.status ∧ (bodyVerdict r (b ++ w.drop offset) ≠ .error →
        (withBody r b w offset).consumeBody.1 = withBody r (b ++ w.drop offset) w w.length) := by
  rw [Receiving, if_pos hchunked] at hopen
  obtain ⟨hmore, hbody⟩ := hopen
  have hrun : run .reset (b ++ w.drop offset) =
      (run (run .reset b).parser (w.drop offset)).after (run .reset b).body b.length := by
    rw [run_append, if_pos hmore, (run_consumed .reset b).2 hmore]
  have hstate : ∀ b offset, withBody r b w offset =
      { r with wire := w, body := (run .reset b).body, offset, chunks := (run .reset b).parser } := by
    intro b offset
    rw [withBody, if_pos hchunked]
  have hconsume : (withBody r b w offset).consumeBody = (withBody r b w offset).chunkLoop (kMaxWire + 1) := by
    rw [hstate, BoundedJsonResponse.consumeBody, if_pos hchunked]
  have hbytes : (withBody r b w offset).body = (run .reset b).body := by rw [hstate]
  have hchunks : (withBody r b w offset).chunks = (run .reset b).parser := by rw [hstate]
  have hrest : (withBody r b w offset).wire.drop (withBody r b w offset).offset = w.drop offset := by rw [hstate]
  obtain ⟨hover, hfits⟩ := chunkLoop_spec (r := withBody r b w offset) (n := kMaxWire + 1)
    (by rw [hchunks]; exact run_wf b Reachable.reset.wf) (by rw [hrest, List.length_drop]; omega) (by rw [hbytes]; exact hbody)
  rw [← hconsume, hbytes, hchunks, hrest] at hover hfits
  have hlength : (run .reset (b ++ w.drop offset)).body.length =
      (run .reset b).body.length + (run (run .reset b).parser (w.drop offset)).body.length := by
    rw [hrun, Outcome.after_body, List.length_append]
  refine ⟨?_, by rw [hconsume, chunkLoop_status, hstate], ?_⟩
  · rw [bodyVerdict, if_pos hchunked, hlength]
    by_cases hlong : kMaxBody < (run .reset b).body.length + (run (run .reset b).parser (w.drop offset)).body.length
    · rw [if_pos hlong]
      exact hover hlong
    · have hatEnd : ((run .reset (b ++ w.drop offset)).consumed = (b ++ w.drop offset).length) =
          ((withBody r b w offset).offset + (run (run .reset b).parser (w.drop offset)).consumed =
            (withBody r b w offset).wire.length) := by
        rw [hrun, hstate, Outcome.after_consumed, List.length_append, List.length_drop]
        apply propext
        dsimp only
        omega
      rw [if_neg hlong, hfits (Nat.not_lt.mp hlong), hrun, Outcome.after_status, ← hrun]
      simp only [hatEnd]
  · intro hok
    rw [bodyVerdict, if_pos hchunked, hlength] at hok
    split_ifs at hok with hlong
    · exact absurd rfl hok
    -- Without an error all of the wire was consumed.
    have hend : (run .reset (b ++ w.drop offset)).consumed = (b ++ w.drop offset).length := by
      rcases chunkVerdict_ok hok with hneed | hdone
      · exact (run_consumed _ _).2 hneed
      · simpa using hdone
    rw [hrun, Outcome.after_consumed, List.length_append, List.length_drop] at hend
    have hlast : offset + (run (run .reset b).parser (w.drop offset)).consumed = w.length := by omega
    rw [hfits (Nat.not_lt.mp hlong)]
    rw [readOut, hstate b offset, hstate (b ++ w.drop offset) w.length, hrun, Outcome.after_parser, Outcome.after_body]
    rw [hlast]

lemma consumeBody_plain (hchunked : r.chunked = false) (hopen : Receiving r b) :
    (withBody r b w offset).consumeBody.2 = bodyVerdict r (b ++ w.drop offset) ∧
      (withBody r b w offset).consumeBody.1.status = r.status ∧ (bodyVerdict r (b ++ w.drop offset) ≠ .error →
        (withBody r b w offset).consumeBody.1 = withBody r (b ++ w.drop offset) w w.length) := by
  have hplain : ¬r.chunked = true := by rw [hchunked]; exact Bool.false_ne_true
  rw [Receiving, if_neg hplain] at hopen
  obtain ⟨hmax, hsized⟩ := hopen
  have hstate : ∀ b offset, withBody r b w offset = { r with wire := w, body := b, offset } := by
    intro b offset
    rw [withBody, if_neg hplain]
  have herror : (w.length - offset > kMaxBody - b.length ∨ (r.sized = true ∧ w.length - offset > r.expected - b.length)) ↔
      (kMaxBody < (b ++ w.drop offset).length ∨ (r.sized = true ∧ r.expected < (b ++ w.drop offset).length)) := by
    rw [List.length_append, List.length_drop]
    refine or_congr (by omega) (and_congr_right fun hs => ?_)
    have := hsized hs
    omega
  rw [hstate, hstate, bodyVerdict, if_neg hplain, BoundedJsonResponse.consumeBody, if_neg hplain]
  by_cases hbad : w.length - offset > kMaxBody - b.length ∨ (r.sized = true ∧ w.length - offset > r.expected - b.length)
  · rw [if_pos hbad, if_pos (herror.mp hbad)]
    exact ⟨rfl, rfl, fun h => absurd rfl h⟩
  · rw [if_neg hbad, if_neg (mt herror.mpr hbad)]
    exact ⟨rfl, rfl, fun _ => rfl⟩

lemma consumeBody_spec (hopen : Receiving r b) (hoffset : offset ≤ w.length) (hwire : w.length ≤ kMaxWire) :
    (withBody r b w offset).consumeBody.2 = bodyVerdict r (b ++ w.drop offset) ∧
      (withBody r b w offset).consumeBody.1.status = r.status ∧ (bodyVerdict r (b ++ w.drop offset) ≠ .error →
        (withBody r b w offset).consumeBody.1 = withBody r (b ++ w.drop offset) w w.length) := by
  cases hchunked : r.chunked with
  | true => exact consumeBody_chunked hchunked hopen hoffset hwire
  | false => exact consumeBody_plain hchunked hopen

end consume

end body

/-! ## Arrival -/

lemma acceptHead_wire (r : BoundedJsonResponse) (response : ParsedResponse) (header_end : Nat) (w : Str) :
    ({ r with wire := w } : BoundedJsonResponse).acceptHead response header_end =
      ((r.acceptHead response header_end).mapError fun r => { r with wire := w }).map fun r => { r with wire := w } := by
  unfold BoundedJsonResponse.acceptHead
  have hrefuses : ({ r with wire := w } : BoundedJsonResponse).refuses response header_end = r.refuses response header_end := rfl
  rw [hrefuses]
  split_ifs
  · rfl
  · dsimp only
    cases response.headers.foldlM (countHeader r.authorization) {} with
    | none => rfl
    | some n =>
      dsimp only
      split_ifs <;> rfl

lemma acceptHead_ok {p : Profile} {response header_end r} (h : p.fresh.acceptHead response header_end = .ok r) :
    r.headers = true ∧ r.body = [] ∧ r.offset = header_end ∧ r.chunks = .reset ∧ r.result = .more := by
  have hbody : p.fresh.body = [] := by cases p <;> rfl
  have hresult : p.fresh.result = .more := by cases p <;> rfl
  unfold BoundedJsonResponse.acceptHead at h
  split_ifs at h
  cases hcount : response.headers.foldlM (countHeader p.fresh.authorization) {} with
  | none =>
    rw [hcount] at h
    cases h
  | some n =>
    rw [hcount] at h
    dsimp only at h
    split_ifs at h
    · cases h
      exact ⟨rfl, hbody, rfl, rfl, hresult⟩
    · cases h
      exact ⟨rfl, hbody, rfl, rfl, hresult⟩

section arrival

variable {p : Profile} {w seg : Str} {r : BoundedJsonResponse} {header_end : Nat}

lemma withBody_nil {response} (h : p.fresh.acceptHead response header_end = .ok r) :
    { r with wire := w } = withBody r [] w header_end := by
  obtain ⟨-, hbody, hoffset, hchunks, -⟩ := acceptHead_ok h
  have hrun : run .reset [] = ⟨.reset, [], 0, .needMore⟩ := rfl
  rw [withBody, hrun]
  split_ifs
  · rw [← hbody, ← hoffset, ← hchunks]
  · rw [← hbody, ← hoffset]

lemma withBody_result (r : BoundedJsonResponse) (b w : Str) (offset : Nat) :
    (withBody r b w offset).result = r.result ∧ (withBody r b w offset).headers = r.headers ∧
      (withBody r b w offset).sized = r.sized ∧ (withBody r b w offset).chunked = r.chunked ∧
      (withBody r b w offset).wire = w := by
  unfold withBody
  split_ifs <;> exact ⟨rfl, rfl, rfl, rfl, rfl⟩

lemma withBody_wire (r : BoundedJsonResponse) (b w w' : Str) (offset : Nat) :
    { withBody r b w offset with wire := w', result := r.result } = withBody r b w' offset := by
  unfold withBody
  split_ifs <;> rfl

lemma headVerdict_cases (p : Profile) (w : Str) : (∃ result, headVerdict p w = .undecided result ∧
      (parseResponse w = .error ∧ result = .error ∨
        parseResponse w = .incomplete ∧ result = if w.length ≥ 8192 then .error else .more)) ∨
      ∃ response header_end, parseResponse w = .complete response header_end ∧
        ((∃ r, p.fresh.acceptHead response header_end = .error r ∧ headVerdict p w = .refused r.status) ∨
          ∃ r, p.fresh.acceptHead response header_end = .ok r ∧ headVerdict p w = .accepted r header_end) := by
  unfold headVerdict
  cases hp : parseResponse w with
  | error => exact .inl ⟨.error, rfl, .inl ⟨rfl, rfl⟩⟩
  | incomplete => exact .inl ⟨_, rfl, .inr ⟨rfl, rfl⟩⟩
  | complete response header_end =>
    refine .inr ⟨response, header_end, rfl, ?_⟩
    dsimp only
    cases hok : p.fresh.acceptHead response header_end with
    | error r => exact .inl ⟨r, rfl, rfl⟩
    | ok r => exact .inr ⟨r, rfl, rfl⟩

lemma headVerdict_accepted (h : headVerdict p w = .accepted r header_end) :
    ∃ response, parseResponse w = .complete response header_end ∧ p.fresh.acceptHead response header_end = .ok r := by
  rcases headVerdict_cases p w with ⟨result, heq, -⟩ | ⟨response, n, hp, ⟨r', -, heq⟩ | ⟨r', hok, heq⟩⟩
  · rw [heq] at h
    cases h
  · rw [heq] at h
    cases h
  · rw [heq] at h
    cases h
    exact ⟨response, hp, hok⟩

lemma arrival_accepted (h : headVerdict p w = .accepted r header_end) :
    arrival p w = { withBody r (w.drop header_end) w w.length with result := verdict p w } := by
  rw [arrival, h]

lemma headVerdict_append (h : headVerdict p w = .accepted r header_end) (seg : Str) :
    headVerdict p (w ++ seg) = .accepted r header_end ∧ header_end ≤ w.length := by
  obtain ⟨response, hp, hok⟩ := headVerdict_accepted h
  obtain ⟨happend, hle⟩ := parseResponse_append hp seg
  rw [headVerdict, happend]
  dsimp only
  rw [hok]
  exact ⟨rfl, hle⟩

def settled (c : BoundedJsonResponse × Result) : BoundedJsonResponse := { c.1 with result := c.2 }

lemma consume_accepted (h : headVerdict p w = .accepted r header_end) {b offset} (hopen : Receiving r b)
    (hoffset : offset ≤ w.length) (hwire : w.length ≤ kMaxWire) (hbody : b ++ w.drop offset = w.drop header_end) :
    Arrived p w (settled (withBody r b w offset).consumeBody) := by
  obtain ⟨hresult, hstatus, hstate⟩ := consumeBody_spec hopen hoffset hwire
  have hverdict : verdict p w = bodyVerdict r (w.drop header_end) := by rw [verdict, h]
  rw [hbody, ← hverdict] at hresult hstate
  refine ⟨hresult, by rw [statusOf, h]; exact hstatus, fun hok => ?_⟩
  rw [arrival_accepted h, settled, hstate hok, hresult]

lemma consume_fresh (hwire : w.length ≤ kMaxWire) :
    Arrived p w (settled ({ p.fresh with wire := w } : BoundedJsonResponse).consume) := by
  have hheaders : ¬({ p.fresh with wire := w } : BoundedJsonResponse).headers = true := by
    cases p <;> exact Bool.false_ne_true
  have hstatus : p.fresh.status = 0 := by cases p <;> rfl
  rw [BoundedJsonResponse.consume, if_neg hheaders]
  rcases headVerdict_cases p w with ⟨result, heq, hparse⟩ | ⟨response, n, hp, hhead⟩
  · have hverdict : verdict p w = result := by rw [verdict, heq]
    have harrival : arrival p w = { p.fresh with wire := w, result := verdict p w } := by rw [arrival, heq]
    have hzero : statusOf p w = p.fresh.status := by rw [statusOf, heq, hstatus]
    rcases hparse with ⟨hp, rfl⟩ | ⟨hp, rfl⟩
    · rw [hp]
      exact ⟨hverdict.symm, hzero.symm, fun _ => by rw [harrival, hverdict]; rfl⟩
    · rw [hp]
      exact ⟨hverdict.symm, hzero.symm, fun _ => by rw [harrival, hverdict]; rfl⟩
  · rw [hp]
    dsimp only
    rw [acceptHead_wire]
    rcases hhead with ⟨r, herr, heq⟩ | ⟨r, hok, heq⟩
    · have hverdict : verdict p w = .error := by rw [verdict, heq]
      rw [herr]
      exact ⟨hverdict.symm, by rw [statusOf, heq]; rfl, fun h => absurd hverdict h⟩
    · have hle := (headVerdict_append heq []).2
      have hspec := consume_accepted heq (receiving_nil r) hle hwire (List.nil_append _)
      rw [← withBody_nil hok] at hspec
      rw [hok]
      exact hspec

lemma arrival_wire (p : Profile) (w : Str) : (arrival p w).wire = w ∧ (arrival p w).result = verdict p w := by
  unfold arrival
  cases headVerdict p w with
  | undecided result => exact ⟨rfl, rfl⟩
  | refused status => exact ⟨rfl, rfl⟩
  | accepted r header_end => exact ⟨(withBody_result r _ w _).2.2.2.2, rfl⟩

lemma consume_arrival (hmore : verdict p w = .more) (hwire : (w ++ seg).length ≤ kMaxWire) :
    Arrived p (w ++ seg) (settled ({ arrival p w with wire := w ++ seg } : BoundedJsonResponse).consume) := by
  have hresult : p.fresh.result = .more := by cases p <;> rfl
  rcases headVerdict_cases p w with ⟨result, heq, -⟩ | ⟨response, n, hp, ⟨r, -, heq⟩ | ⟨r, hok, heq⟩⟩
  · have hstate : ({ arrival p w with wire := w ++ seg } : BoundedJsonResponse) = { p.fresh with wire := w ++ seg } := by
      rw [arrival, heq, hmore, ← hresult]
    rw [hstate]
    exact consume_fresh hwire
  · rw [verdict, heq] at hmore
    cases hmore
  · obtain ⟨hnext, hle⟩ := headVerdict_append heq seg
    obtain ⟨hheaders, -, -, -, hr⟩ := acceptHead_ok hok
    have hbody : bodyVerdict r (w.drop n) = .more := by rwa [verdict, heq] at hmore
    have hstate : ({ arrival p w with wire := w ++ seg } : BoundedJsonResponse) =
        withBody r (w.drop n) (w ++ seg) w.length := by
      rw [arrival_accepted heq, hmore, ← hr]
      exact withBody_wire ..
    have hhead : (withBody r (w.drop n) (w ++ seg) w.length).headers = true := by
      rw [(withBody_result ..).2.1, hheaders]
    rw [hstate, BoundedJsonResponse.consume, if_pos hhead]
    refine consume_accepted hnext (receiving_of_more hbody) ?_ hwire ?_
    · rw [List.length_append]
      exact Nat.le_add_right _ _
    · rw [List.drop_left, List.drop_append_of_le_length hle]

lemma append_arrival (hmore : verdict p w = .more) (hwire : (w ++ seg).length ≤ kMaxWire) :
    Arrived p (w ++ seg) ((arrival p w).append seg) := by
  obtain ⟨hw, hresult⟩ := arrival_wire p w
  have hroom : ¬((arrival p w).result ≠ .more ∨ seg.length > kMaxWire - (arrival p w).wire.length) := by
    rw [hresult, hw, hmore]
    rw [List.length_append] at hwire
    exact not_or.mpr ⟨not_not.mpr rfl, by omega⟩
  rw [BoundedJsonResponse.append, if_neg hroom, hw]
  exact consume_arrival hmore hwire

lemma appendAll_arrival {segs} (hmore : verdict p w = .more) (hopen : (arrival p w).AllMore segs)
    (hwire : (w ++ segs.flatten).length ≤ kMaxWire) :
    (arrival p w).appendAll segs = arrival p (w ++ segs.flatten) ∧ verdict p (w ++ segs.flatten) = .more := by
  induction segs generalizing w with
  | nil =>
    rw [List.flatten_nil, List.append_nil]
    exact ⟨rfl, hmore⟩
  | cons seg segs ih =>
    rw [List.flatten_cons, ← List.append_assoc] at hwire ⊢
    obtain ⟨hfirst, hrest⟩ := hopen
    have hroom : (w ++ seg).length ≤ kMaxWire := by
      rw [List.length_append] at hwire
      omega
    have harrived := append_arrival hmore hroom
    have hresult := harrived.result
    rw [hfirst] at hresult
    have hnext := harrived.state (by rw [← hresult]; exact fun h => by cases h)
    rw [hnext] at hrest
    obtain ⟨hall, hverdict⟩ := ih hresult.symm hrest hwire
    refine ⟨?_, hverdict⟩
    change ((arrival p w).append seg).appendAll segs = _
    rw [hnext, hall]

end arrival

/-! ## The body of a message -/

def IsChunkedField (h : Header) : Prop :=
  httpHeaderNameEqCi h.name transferEncodingText = true ∧
    httpHeaderNameEqCi h.value (lit ['c','h','u','n','k','e','d']) = true

/-- The body of the message in `w`. It ends with its length, with the chunked coding, or with `w`. -/
inductive MessageBody (w : Str) : Str → Prop where
  | sized {response : ParsedResponse} {header_end : Nat} (hhead : parseResponse w = .complete response header_end)
    (hsized : response.hasContentLength = true) (hlength : (w.drop header_end).length = response.contentLength) :
    MessageBody w (w.drop header_end)
  | chunked {response : ParsedResponse} {header_end : Nat} {chunks : List Chunk} {last : LastChunk}
    {trailers : List TrailerLine} (hhead : parseResponse w = .complete response header_end)
    (hfield : ∃ h ∈ response.headers, IsChunkedField h) (hcoding : w.drop header_end = encode chunks last trailers) :
    MessageBody w (chunks.flatMap Chunk.data)
  | closed {response : ParsedResponse} {header_end : Nat} (hhead : parseResponse w = .complete response header_end)
    (hsized : response.hasContentLength = false)
    (hfield : ∀ h ∈ response.headers, httpHeaderNameEqCi h.name transferEncodingText = false) :
    MessageBody w (w.drop header_end)
  | bodiless {response : ParsedResponse} {header_end : Nat} (hhead : parseResponse w = .complete response header_end)
    (hstatus : response.statusCode = 204 ∨ response.statusCode = 205 ∨ response.statusCode = 304)
    (hend : w.drop header_end = []) : MessageBody w []

section message

variable {p : Profile} {w : Str} {r : BoundedJsonResponse} {response : ParsedResponse} {header_end : Nat}

lemma countHeader_transfer {authorization n m h} (hc : countHeader authorization n h = some m) :
    IsChunkedField h ∧ m.transfer ≠ 0 ∨
      httpHeaderNameEqCi h.name transferEncodingText = false ∧ m.transfer = n.transfer := by
  unfold countHeader at hc
  split_ifs at hc with hconn hte hbad hce hbad' hct htype
  · cases hc
    obtain ⟨-, hvalue⟩ := not_or.mp hbad
    exact .inl ⟨⟨hte, by simpa using hvalue⟩, Nat.succ_ne_zero _⟩
  all_goals
    cases hc
    exact .inr ⟨by simpa using hte, rfl⟩

lemma countHeaders_transfer {authorization n m} {hs : List Header}
    (hc : hs.foldlM (countHeader authorization) n = some m) :
    (m.transfer ≠ 0 → n.transfer ≠ 0 ∨ ∃ h ∈ hs, IsChunkedField h) ∧
      (m.transfer = 0 → n.transfer = 0 ∧ ∀ h ∈ hs, httpHeaderNameEqCi h.name transferEncodingText = false) := by
  induction hs generalizing n with
  | nil =>
    cases hc
    exact ⟨.inl, fun h => ⟨h, List.forall_mem_nil _⟩⟩
  | cons h hs ih =>
    obtain ⟨n', hfirst, hrest⟩ := Option.bind_eq_some_iff.mp hc
    obtain ⟨hsome, hnone⟩ := ih hrest
    rcases countHeader_transfer hfirst with ⟨hfield, hpos⟩ | ⟨hno, hsame⟩
    · refine ⟨fun _ => .inr ⟨h, List.mem_cons_self, hfield⟩, fun hzero => absurd (hnone hzero).1 hpos⟩
    · rw [hsame] at hsome hnone
      refine ⟨fun hm => ?_, fun hzero => ?_⟩
      · rcases hsome hm with hn | ⟨g, hg, hfield⟩
        · exact .inl hn
        · exact .inr ⟨g, List.mem_cons_of_mem _ hg, hfield⟩
      · obtain ⟨hn, hall⟩ := hnone hzero
        exact ⟨hn, List.forall_mem_cons.mpr ⟨hno, hall⟩⟩

lemma acceptHead_framing (hok : p.fresh.acceptHead response header_end = .ok r) :
    (r.chunked = true → ∃ h ∈ response.headers, IsChunkedField h) ∧
      (r.chunked = false → ∀ h ∈ response.headers, httpHeaderNameEqCi h.name transferEncodingText = false) ∧
      (r.sized = response.hasContentLength ∧ r.expected = response.contentLength ∨
        (response.statusCode = 204 ∨ response.statusCode = 205 ∨ response.statusCode = 304) ∧ r.sized = true ∧
          r.expected = 0) := by
  unfold BoundedJsonResponse.acceptHead at hok
  split_ifs at hok
  cases hcount : response.headers.foldlM (countHeader p.fresh.authorization) {} with
  | none =>
    rw [hcount] at hok
    cases hok
  | some n =>
    obtain ⟨hsome, hnone⟩ := countHeaders_transfer hcount
    have hfield : (n.transfer != 0) = true → ∃ h ∈ response.headers, IsChunkedField h := fun hc =>
      (hsome (by simpa using hc)).resolve_left fun h => h rfl
    have hfree : (n.transfer != 0) = false →
        ∀ h ∈ response.headers, httpHeaderNameEqCi h.name transferEncodingText = false := fun hc =>
      (hnone (by simpa using hc)).2
    rw [hcount] at hok
    dsimp only at hok
    split_ifs at hok with hbad hstatus hframed
    · cases hok
      have hcode : response.statusCode = 204 ∨ response.statusCode = 205 ∨ response.statusCode = 304 := by
        simpa [or_assoc] using (Bool.and_eq_true_iff.mp hstatus).2
      exact ⟨hfield, hfree, .inr ⟨hcode, rfl, rfl⟩⟩
    · cases hok
      exact ⟨hfield, hfree, .inl ⟨rfl, rfl⟩⟩

lemma chunked_complete {b} (hchunked : r.chunked = true) (h : bodyVerdict r b = .complete) :
    (∃ chunks last trailers, b = encode chunks last trailers ∧ (run .reset b).body = chunks.flatMap Chunk.data) ∧
      (run .reset b).body.length ≤ kMaxBody := by
  rw [bodyVerdict, if_pos hchunked] at h
  split_ifs at h with hlong
  refine ⟨?_, Nat.not_lt.mp hlong⟩
  cases hst : (run .reset b).status with
  | needMore => rw [hst] at h; cases h
  | data => rw [hst] at h; cases h
  | error => rw [hst] at h; cases h
  | done =>
    rw [hst, chunkVerdict] at h
    split_ifs at h with hend
    exact run_done_encode hst (by simpa using hend)

lemma plain_ok {b} (hchunked : ¬r.chunked = true) (h : bodyVerdict r b ≠ .error) :
    b.length ≤ kMaxBody ∧ (bodyVerdict r b = .complete → r.sized = true ∧ b.length = r.expected) := by
  rw [bodyVerdict, if_neg hchunked] at h ⊢
  split_ifs at h ⊢ with hbad hend
  · exact absurd rfl h
  · exact ⟨Nat.not_lt.mp (not_or.mp hbad).1, fun _ => hend⟩
  · exact ⟨Nat.not_lt.mp (not_or.mp hbad).1, fun hc => by cases hc⟩

lemma arrival_body (hacc : headVerdict p w = .accepted r header_end)
    (hdone : verdict p w = .complete ∨ verdict p w ≠ .error ∧ r.sized = false ∧ r.chunked = false) :
    MessageBody w (arrival p w).body ∧ (arrival p w).body.length ≤ kMaxBody := by
  obtain ⟨response, hparse, hok⟩ := headVerdict_accepted hacc
  obtain ⟨hcoded, hfree, hframing⟩ := acceptHead_framing hok
  have hverdict : verdict p w = bodyVerdict r (w.drop header_end) := by rw [verdict, hacc]
  rw [arrival_accepted hacc]
  rw [hverdict] at hdone
  by_cases hchunked : r.chunked = true
  · have hcomplete : bodyVerdict r (w.drop header_end) = .complete :=
      hdone.resolve_right fun h => by rw [h.2.2] at hchunked; cases hchunked
    obtain ⟨⟨chunks, last, trailers, hcoding, hbody⟩, hmax⟩ := chunked_complete hchunked hcomplete
    rw [withBody, if_pos hchunked]
    refine ⟨?_, hmax⟩
    rw [hbody]
    exact .chunked hparse (hcoded hchunked) hcoding
  · have hne : bodyVerdict r (w.drop header_end) ≠ .error := by
      rcases hdone with h | h
      · rw [h]
        exact fun h => by cases h
      · exact h.1
    obtain ⟨hmax, hend⟩ := plain_ok hchunked hne
    have hfields := hfree (by simpa using hchunked)
    rw [withBody, if_neg hchunked]
    refine ⟨?_, hmax⟩
    rcases hdone with hcomplete | ⟨-, hunsized, -⟩
    · obtain ⟨hsized, hlength⟩ := hend hcomplete
      rcases hframing with ⟨hhas, hexpected⟩ | ⟨hstatus, -, hzero⟩
      · exact .sized hparse (by rw [← hhas]; exact hsized) (by rw [hlength, hexpected])
      · have hnil : w.drop header_end = [] := List.length_eq_zero_iff.mp (by rw [hlength, hzero])
        rw [hnil]
        exact .bodiless hparse hstatus hnil
    · rcases hframing with ⟨hhas, -⟩ | ⟨-, hsized, -⟩
      · exact .closed hparse (by rw [← hhas]; exact hunsized) hfields
      · rw [hunsized] at hsized
        cases hsized

structure Agree (w : Str) (r r' : BoundedJsonResponse) : Prop where
  result : r.result = r'.result
  status : r.status = r'.status
  body : r.result = .complete →
    r.bodyView = r'.bodyView ∧ MessageBody w r.bodyView ∧ r.bodyView.length ≤ kMaxBody

lemma fresh_arrival (p : Profile) : arrival p [] = p.fresh ∧ verdict p [] = .more := by
  cases p <;> exact ⟨rfl, rfl⟩

lemma finish_status (r : BoundedJsonResponse) : r.finish.status = r.status ∧ r.finish.body = r.body := by
  unfold BoundedJsonResponse.finish
  split_ifs <;> exact ⟨rfl, rfl⟩

lemma finish_body (h : (arrival p w).finish.result = .complete) :
    MessageBody w (arrival p w).body ∧ (arrival p w).body.length ≤ kMaxBody := by
  have hresult := (arrival_wire p w).2
  rcases headVerdict_cases p w with ⟨result, heq, hparse⟩ | ⟨response, n, -, ⟨r, -, heq⟩ | ⟨r, -, heq⟩⟩
  · -- Without a head the response is not complete, and it does not become so.
    have hverdict : verdict p w = result := by rw [verdict, heq]
    have hheaders : (arrival p w).headers = false := by
      rw [arrival, heq]
      cases p <;> rfl
    have hopen : (arrival p w).result ≠ .complete := by
      rw [hresult, hverdict]
      rcases hparse with ⟨-, rfl⟩ | ⟨-, rfl⟩
      · exact fun h => by cases h
      · split_ifs <;> exact fun h => by cases h
    rw [BoundedJsonResponse.finish, if_neg hopen, hheaders] at h
    simp at h
  · rw [BoundedJsonResponse.finish, hresult, verdict, heq] at h
    simp at h
  · refine arrival_body heq ?_
    by_cases hcomplete : verdict p w = .complete
    · exact .inl hcomplete
    · rw [BoundedJsonResponse.finish, hresult, if_neg hcomplete] at h
      split_ifs at h with hclosed
      obtain ⟨hmore, -, hsized, hchunked⟩ := hclosed
      obtain ⟨-, -, hs, hc, -⟩ := withBody_result r (w.drop n) w w.length
      rw [arrival_accepted heq] at hsized hchunked
      rw [hs] at hsized
      rw [hc] at hchunked
      have hne : verdict p w ≠ .error := by
        rw [hmore]
        exact fun h => by cases h
      exact .inr ⟨hne, by simpa using hsized, by simpa using hchunked⟩

lemma Arrived.agree {r'} (h : Arrived p w r) (h' : Arrived p w r') : Agree w r r' ∧ Agree w r.finish r'.finish := by
  by_cases hbad : verdict p w = .error
  · have hresult := h.result.trans hbad
    have hresult' := h'.result.trans hbad
    have hstatus := h.status.trans h'.status.symm
    have hfinish : ∀ {q : BoundedJsonResponse}, q.result = .error → q.finish.result = .error := by
      intro q hq
      simp [BoundedJsonResponse.finish, hq]
    refine ⟨⟨hresult.trans hresult'.symm, hstatus, fun hc => ?_⟩,
      ⟨(hfinish hresult).trans (hfinish hresult').symm, ?_, fun hc => ?_⟩⟩
    · rw [hresult] at hc
      cases hc
    · rw [(finish_status r).1, (finish_status r').1, hstatus]
    · rw [hfinish hresult] at hc
      cases hc
  · obtain rfl := h.state hbad
    obtain rfl := h'.state hbad
    refine ⟨⟨rfl, rfl, fun hc => ⟨rfl, ?_⟩⟩, ⟨rfl, rfl, fun hc => ⟨rfl, ?_⟩⟩⟩
    · rw [BoundedJsonResponse.bodyView, if_pos hc]
      exact finish_body (by rw [BoundedJsonResponse.finish, if_pos hc, hc])
    · rw [BoundedJsonResponse.bodyView, if_pos hc, (finish_status _).2]
      exact finish_body hc

/-- The bytes of a response are judged as a whole, however they are cut into segments. -/
theorem response_segmentation (p : Profile) (segs : List Str) (last : Str)
    (hwire : (segs.flatten ++ last).length ≤ kMaxWire) (hmore : p.fresh.AllMore segs) :
    Agree (segs.flatten ++ last) ((p.fresh.appendAll segs).append last) (p.fresh.append (segs.flatten ++ last)) ∧
      Agree (segs.flatten ++ last) ((p.fresh.appendAll segs).append last).finish
        (p.fresh.append (segs.flatten ++ last)).finish := by
  obtain ⟨hfresh, hempty⟩ := fresh_arrival p
  have hroom : ([] ++ segs.flatten).length ≤ kMaxWire := by
    rw [List.length_append] at hwire
    rw [List.nil_append]
    omega
  obtain ⟨hall, hopen⟩ := appendAll_arrival hempty (by rw [hfresh]; exact hmore) hroom
  rw [hfresh, List.nil_append] at hall
  have hsplit := append_arrival hopen hwire
  have hwhole : Arrived p ([] ++ (segs.flatten ++ last)) ((arrival p []).append (segs.flatten ++ last)) :=
    append_arrival hempty hwire
  rw [hfresh, List.nil_append] at hwhole
  rw [hall]
  exact hsplit.agree hwhole

def cutResponse : List Str :=
  [lit "HTTP/1.1 200 OK\r\nTransfer-Encoding: chu".toList, lit "nked\r\n\r\n2\r\n\x7b".toList, lit "\x7d\r\n0\r\n\r".toList]

theorem cutResponse_whole :
    (Profile.callout.fresh.append (cutResponse.flatten ++ [ch '\n'])).result = .complete ∧
      Agree (cutResponse.flatten ++ [ch '\n']) ((Profile.callout.fresh.appendAll cutResponse).append [ch '\n'])
        (Profile.callout.fresh.append (cutResponse.flatten ++ [ch '\n'])) := by
  unfold cutResponse
  rw [String.toList_ofList, String.toList_ofList, String.toList_ofList]
  exact ⟨by decide +kernel, (response_segmentation .callout [_, _, _] [ch '\n'] (by decide +kernel)
    ⟨by decide +kernel, by decide +kernel, by decide +kernel, trivial⟩).1⟩

end message

end Rut.Callout
