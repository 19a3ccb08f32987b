import Rut.Common.Types

/-!
# The chunked transfer decoder

Port of `src/runtime/chunked_parser.cc` and `include/rut/runtime/chunked_parser.h`. One call of `feed` runs the loop
`while (pos < in_len)` over the bytes it is given; `switch` is the body of that loop and `Action` lists the ways in
which the body can end. The size accumulator keeps the source's type `u32`; positions are `Nat`, bounded by `in_len`.
-/

namespace Rut.Http.Chunked

/-- Result code of `feed` (`ChunkStatus`). -/
inductive ChunkStatus where
  | needMore
  | data
  | done
  | error
deriving DecidableEq

/-- Decoder position inside the coding (`ChunkedParser::State`). -/
inductive State where
  | size
  | sizeLF
  | extension
  | data
  | dataCR
  | dataLF
  | trailer
  | trailerLF
  | trailerLine
  | trailerLineLF
  | complete
deriving DecidableEq

/-- The resumable decoder (`ChunkedParser`). -/
structure ChunkedParser where
  state : State
  chunkRemaining : UInt32
  hasDigits : Bool
deriving DecidableEq

/-- The decoder at the start of a body (`ChunkedParser::reset`). -/
def ChunkedParser.reset : ChunkedParser := ⟨.size, 0, false⟩

/-- Value of a hex digit, `none` for the source's `-1` (`hex_val`). -/
def hexVal (c : UInt8) : Option UInt32 :=
  if ch '0' ≤ c ∧ c ≤ ch '9' then some (c - ch '0').toUInt32
  else if ch 'a' ≤ c ∧ c ≤ ch 'f' then some (10 + (c - ch 'a').toUInt32)
  else if ch 'A' ≤ c ∧ c ≤ ch 'F' then some (10 + (c - ch 'A').toUInt32)
  else none

/-- How one turn of the loop of `feed` ends. -/
inductive Action where
  | advance (p : ChunkedParser)
  | reject
  | deliver
  | finish (p : ChunkedParser)
  | stop
deriving DecidableEq

/-- The `switch (state)` of `feed` at byte `c`. -/
def switch (p : ChunkedParser) (c : UInt8) : Action :=
  match p.state with
  | .size =>
    match hexVal c with
    | some v =>
      if p.chunkRemaining > 0x0FFFFFFF then .reject
      else .advance { p with chunkRemaining := (p.chunkRemaining <<< 4) ||| v, hasDigits := true }
    | none =>
      if c = ch '\r' then
        if p.hasDigits then .advance { p with state := .sizeLF } else .reject
      else if c = ch ';' then
        if p.hasDigits then .advance { p with state := .extension } else .reject
      else .reject
  | .sizeLF =>
    if c ≠ ch '\n' then .reject
    else if p.chunkRemaining = 0 then .advance { p with state := .trailer }
    else .advance { p with state := .data }
  | .extension =>
    if c = ch '\r' then .advance { p with state := .sizeLF } else .advance p
  | .data => .deliver
  | .dataCR =>
    if c ≠ ch '\r' then .reject else .advance { p with state := .dataLF }
  | .dataLF =>
    if c ≠ ch '\n' then .reject
    else .advance { state := .size, chunkRemaining := 0, hasDigits := false }
  | .trailer =>
    if c = ch '\r' then .advance { p with state := .trailerLF }
    else .advance { p with state := .trailerLine }
  | .trailerLF =>
    if c ≠ ch '\n' then .reject else .finish { p with state := .complete }
  | .trailerLine =>
    if c = ch '\r' then .advance { p with state := .trailerLineLF } else .advance p
  | .trailerLineLF =>
    if c ≠ ch '\n' then .reject else .advance { p with state := .trailer }
  | .complete => .stop

/-- The decoder after handing out `n` data bytes (the `State::Data` arm of `feed`). -/
def ChunkedParser.deliver (p : ChunkedParser) (n : Nat) : ChunkedParser :=
  let remaining := p.chunkRemaining - UInt32.ofNat n
  { p with chunkRemaining := remaining, state := if remaining = 0 then .dataCR else p.state }

/-- What one call of `feed` reports. The region is only written on `data`. -/
structure FeedResult where
  status : ChunkStatus
  consumed : Nat
  outStart : Nat := 0
  outLen : Nat := 0
deriving DecidableEq

/-- The loop of `feed` at position `pos`, on the bytes `input[pos..in_len)`. -/
def feedLoop : List UInt8 → ChunkedParser → Nat → ChunkedParser × FeedResult
  | [], p, pos => (p, { status := .needMore, consumed := pos })
  | c :: rest, p, pos =>
    match switch p c with
    | .advance p' => feedLoop rest p' (pos + 1)
    | .reject => (p, { status := .error, consumed := pos })
    | .deliver =>
      let avail := (c :: rest).length
      let n := min avail p.chunkRemaining.toNat
      (p.deliver n, { status := .data, consumed := pos + n, outStart := pos, outLen := n })
    | .finish p' => (p', { status := .done, consumed := pos + 1 })
    | .stop => (p, { status := .done, consumed := pos })

/-- One call on `input` (`ChunkedParser::feed`). -/
def feed (p : ChunkedParser) (input : List UInt8) : ChunkedParser × FeedResult :=
  feedLoop input p 0

/-- The decoders that calls of `feed` lead to from `reset`. -/
inductive Reachable : ChunkedParser → Prop where
  | reset : Reachable .reset
  | feed {p} (input : List UInt8) : Reachable p → Reachable (feed p input).1

/-- What a caller has after feeding some input: the decoder, the decoded bytes, the number of
bytes consumed and the status that ended the feeding. -/
structure Outcome where
  parser : ChunkedParser
  body : List UInt8
  consumed : Nat
  status : ChunkStatus
deriving DecidableEq

def Outcome.after (o : Outcome) (body : List UInt8) (consumed : Nat) : Outcome :=
  { o with body := body ++ o.body, consumed := consumed + o.consumed }

/-- The caller's loop on one segment: feed again from the consumed position as long as a data region
was handed out. -/
def drainLoop : Nat → ChunkedParser → List UInt8 → Outcome
  | 0, p, _ => ⟨p, [], 0, .needMore⟩
  | fuel + 1, p, input =>
    let p' := (feed p input).1
    let r := (feed p input).2
    if r.status = .data then
      (drainLoop fuel p' (input.drop r.consumed)).after
        ((input.drop r.outStart).take r.outLen) r.consumed
    else ⟨p', [], r.consumed, r.status⟩

/-- Feed one segment until the decoder wants more input, is done or reports an error. -/
def drain (p : ChunkedParser) (input : List UInt8) : Outcome :=
  drainLoop (input.length + 1) p input

def drainAll : ChunkedParser → List (List UInt8) → Outcome
  | p, [] => ⟨p, [], 0, .needMore⟩
  | p, seg :: segs =>
    let o := drain p seg
    if o.status = .needMore then (drainAll o.parser segs).after o.body o.consumed else o

end Rut.Http.Chunked
