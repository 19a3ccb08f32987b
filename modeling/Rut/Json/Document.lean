import Rut.Json.Grammar

/-!
# The node pool of a document

Port of `Document` in `include/rut/runtime/json.h`: parsing into nodes that link to each other by their index. An index
`kNone` is `none`. The position `p` is kept as the bytes from `p` on, and the depth of `parse_value` as the levels left
under `kMaxDepth`. A loop takes a turn for each byte of the text or for each node of the pool.
-/

namespace Rut.Json

structure Node where
  kind : Kind := .null
  start : Nat := 0
  stop : Nat := 0
  child : Option Nat := none
  next : Option Nat := none
  key : Option Nat := none

/-- `Document`, without its scratch buffers. -/
structure Document where
  nodes : Nat → Node
  count : Nat
  source : Str
  rest : Str
  valid : Bool

namespace Document

/-- The position `p`. -/
def p (d : Document) : Nat := d.source.length - d.rest.length

/-- `valid = false`. -/
def fail (d : Document) : Document := { d with valid := false }

/-- The reading position moved on to the bytes `rest`. -/
def goto (d : Document) (rest : Str) : Document := { d with rest := rest }

/-- Another content of node `id`. -/
def setNode (d : Document) (id : Nat) (n : Node) : Document := { d with nodes := Function.update d.nodes id n }

/-- `whitespace`. -/
def skip (d : Document) : Document := d.goto (whitespace d.rest)

def raw (d : Document) (i : Nat) : Str := (d.source.drop (d.nodes i).start).take ((d.nodes i).stop - (d.nodes i).start)

def string (d : Document) (i : Nat) (w : Writer) : Option Writer :=
  if d.count ≤ i ∨ kMaxNodes ≤ i then none
  else if (d.nodes i).kind ≠ .string then none
  else (decode (d.source.drop (d.nodes i).start) w).map Prod.snd

/-- What `string` decodes into one of the scratch buffers. -/
def content (d : Document) (i : Nat) : Option Str := (d.string i (.fresh kMaxBytes)).map Writer.out

/-- `key_equal`, where a node without a key equals none. -/
def keyEqual (d : Document) (a : Option Nat) (b : Nat) : Bool :=
  match a.bind d.content, d.content b with
  | some x, some y => x == y
  | _, _ => false

def nameTaken (d : Document) (key : Nat) : Nat → Option Nat → Bool
  | _, none => false
  | 0, some _ => false
  | turns + 1, some n => d.keyEqual (d.nodes n).key key || nameTaken d key turns (d.nodes n).next

def memberName (value : Document → Document × Option Nat) (id : Nat) (d : Document) : Document × Option Nat :=
  match take (ch '"') d.skip.rest with
  | none => (d.skip.fail, none)
  | some _ =>
    match value d.skip with
    | (d, none) => (d.fail, none)
    | (d, some key) =>
      match take (ch ':') d.skip.rest with
      | none => (d.skip.fail, some key)
      | some rest =>
        let d := d.skip.goto rest
        (if d.nameTaken key d.count (d.nodes id).child then d.fail else d, some key)

/-- A node linked behind the node `last`, or else as the first child of node `id`. -/
def link (d : Document) (id : Nat) (last : Option Nat) (child : Nat) : Document :=
  match last with
  | none => d.setNode id { d.nodes id with child := some child }
  | some last => d.setNode last { d.nodes last with next := some child }

/-- The loop of `parse_value` over the values between brackets. -/
def itemsLoop (value : Document → Document × Option Nat) (obj : Bool) (id : Nat) :
    Nat → Option Nat → Document → Document
  | 0, _, d => d.fail
  | turns + 1, last, d =>
    let (d, key) := if obj then memberName value id d else (d, none)
    if !d.valid then d
    else
      match value d with
      | (d, none) => d.fail
      | (d, some child) =>
        let d := ((d.setNode child { d.nodes child with key := key }).link id last child).skip
        match take (closing obj) d.rest with
        | some rest => d.goto rest
        | none =>
          match take (ch ',') d.rest with
          | none => d.fail
          | some rest => itemsLoop value obj id turns (some child) (d.goto rest)

/-- The branches of `parse_value` for the values without children: the kind of the node and the
bytes behind the value. -/
def token (c : UInt8) (rest : Str) : Kind × Option Str :=
  if c = ch '"' then (.string, (decode rest (.fresh kMaxBytes)).map Prod.fst)
  else if c = ch 'n' then (.null, literal nullToken rest)
  else if c = ch 't' then (.boolean, literal trueToken rest)
  else if c = ch 'f' then (.boolean, literal falseToken rest)
  else (.number, number rest)

/-- The branches of `parse_value` by the next byte `c`, for the new node `id`. -/
def parseBody (value : Document → Document × Option Nat) (id : Nat) (c : UInt8) (d : Document) : Document :=
  if c = ch '[' ∨ c = ch '{' then
    let obj := c == ch '{'
    let d := ((d.setNode id { d.nodes id with kind := (container obj).kind }).goto d.rest.tail).skip
    match take (closing obj) d.rest with
    | some rest => d.goto rest
    | none => itemsLoop value obj id (d.source.length + 1) none d
  else
    match token c d.rest with
    | (kind, none) => (d.setNode id { d.nodes id with kind := kind }).fail
    | (kind, some rest) => (d.setNode id { d.nodes id with kind := kind }).goto rest

def alloc (d : Document) : Document := { d.setNode d.count { start := d.p } with count := d.count + 1 }

/-- `nodes[id].end = p; return valid ? id : kNone`. -/
def finish (d : Document) (id : Nat) : Document × Option Nat :=
  let d := d.setNode id { d.nodes id with stop := d.p }
  (d, if d.valid then some id else none)

/-- `parse_value`, with this many levels left. -/
def parseValue : Nat → Document → Document × Option Nat
  | 0, d => (d.skip.fail, none)
  | left + 1, d =>
    match d.skip.rest with
    | [] => (d.skip.fail, none)
    | c :: _ =>
      if d.skip.count = kMaxNodes then (d.skip.fail, none)
      else (parseBody (parseValue left) d.count c d.skip.alloc).finish d.count

/-- `parse`: the document and what is returned. -/
def parse (d : Document) (s : Str) : Document × Bool :=
  let d := { d with source := s, count := 0, rest := s, valid := decide (s.length ≤ kMaxBytes) }
  if !d.valid then (d, false)
  else
    match d.parseValue (kMaxDepth + 1) with
    | (d, none) => (d, false)
    | (d, some _) =>
      let d := d.skip
      ({ d with valid := d.valid && d.rest.isEmpty }, d.valid && d.rest.isEmpty)

end Document

end Rut.Json
