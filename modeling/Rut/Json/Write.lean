import Rut.Json.Document

/-!
# Operations on documents

Port of the rest of `include/rut/runtime/json.h`: `Document::at`, `index`, `pointer` and `write`,
`integer`, `write_integer` and `apply`. The output is a `Writer`; a function that answers false is
`none`, what it wrote before is then never read.
-/

namespace Rut.Json

namespace Document

/-- The loop of `size`. -/
def sizeLoop (d : Document) : Nat → Option Nat → Nat
  | _, none => 0
  | 0, some _ => 0
  | turns + 1, some n => d.sizeLoop turns (d.nodes n).next + 1

def size (d : Document) (id : Nat) : Nat := d.sizeLoop d.count (d.nodes id).child

/-- The loop of `at`. -/
def atLoop (d : Document) : Nat → Option Nat → Option Nat
  | 0, n => n
  | _ + 1, none => none
  | index + 1, some n => d.atLoop index (d.nodes n).next

/-- `at`. -/
def atIndex (d : Document) (id index : Nat) : Option Nat := d.atLoop index (d.nodes id).child

/-- The loop of `index`. -/
def indexLoop : Nat → Str → Option Nat
  | n, [] => some n
  | n, c :: s =>
    if c < ch '0' ∨ ch '9' < c ∨ 429496729 < n then none
    else if n = 429496729 ∧ 5 < c.toNat - (ch '0').toNat then none
    else indexLoop (n * 10 + (c.toNat - (ch '0').toNat)) s

def index (s : Str) : Option Nat :=
  if s = [] ∨ 1 < s.length ∧ s.head? = some (ch '0') then none else indexLoop 0 s

/-- The loop of `pointer` over the bytes of a reference token. -/
def tokenLoop : Str → Writer → Option (Str × Writer)
  | [], token => some ([], token)
  | [c], token =>
    if c = ch '/' then some ([c], token) else if c = ch '~' then none else some ([], token.put c)
  | c :: e :: rest, token =>
    if c = ch '/' then some (c :: e :: rest, token)
    else if c = ch '~' then
      if e = ch '0' then tokenLoop rest (token.put (ch '~'))
      else if e = ch '1' then tokenLoop rest (token.put (ch '/'))
      else none
    else tokenLoop (e :: rest) (token.put c)

/-- The search for a member by its decoded name: `none` when a name cannot be decoded, and else the
member, if there is one. -/
def findMember (d : Document) (name : Str) : Nat → Option Nat → Option (Option Nat)
  | _, none => some none
  | 0, some _ => some none
  | turns + 1, some n =>
    match (d.nodes n).key.bind d.content with
    | none => none
    | some key => if key = name then some (some n) else d.findMember name turns (d.nodes n).next

/-- The node a reference token selects in node `id`. -/
def step (d : Document) (id : Nat) (token : Str) : Option Nat :=
  match (d.nodes id).kind with
  | .array => (index token).bind fun n => d.atIndex id n
  | .object => (d.findMember token d.count (d.nodes id).child).join
  | _ => none

/-- The loop of `pointer`. -/
def pointerLoop (d : Document) : Nat → Nat → Str → Option Nat
  | _, id, [] => some id
  | 0, _, _ :: _ => none
  | turns + 1, id, c :: path =>
    if c ≠ ch '/' then none
    else
      match tokenLoop path (.fresh kMaxBytes) with
      | none => none
      | some (rest, token) =>
        match token.done with
        | none => none
        | some token =>
          match d.step id token.out with
          | none => none
          | some id => d.pointerLoop turns id rest

def pointer (d : Document) (path : Str) : Option Nat :=
  if kMaxBytes < path.length then none else d.pointerLoop path.length 0 path

/-- The arguments of `write` behind the writer. -/
structure Edit where
  replace : Option Nat := none
  value : Str := []
  remove : Bool := false
  append : Option Nat := none

def writeName (d : Document) (obj : Bool) (child : Nat) (w : Writer) : Option Writer :=
  if obj then
    match (d.nodes child).key.bind d.content with
    | none => none
    | some name => (quote name w).map fun w => w.put (ch ':')
  else some w

/-- The loop of `write` over the children of a node, which tells in the end whether it wrote none. -/
def writeLoop (d : Document) (e : Edit) (value : Nat → Writer → Option Writer) (obj : Bool) :
    Nat → Option Nat → Bool → Writer → Option (Bool × Writer)
  | _, none, first, w => some (first, w)
  | 0, some _, _, _ => none
  | turns + 1, some child, first, w =>
    if e.replace = some child ∧ e.remove = true then d.writeLoop e value obj turns (d.nodes child).next first w
    else
      match d.writeName obj child (if first then w else w.put (ch ',')) with
      | none => none
      | some w =>
        match value child w with
        | none => none
        | some w => d.writeLoop e value obj turns (d.nodes child).next false w

def writeContainer (d : Document) (e : Edit) (value : Nat → Writer → Option Writer) (obj : Bool) (id : Nat) (w : Writer) :
    Option Writer :=
  match d.writeLoop e value obj d.count (d.nodes id).child true (w.put (opening obj)) with
  | none => none
  | some (first, w) =>
    let w := if e.append = some id then (if first then w else w.put (ch ',')).text e.value else w
    (w.put (closing obj)).done

/-- `write`, with this many levels left. -/
def write (d : Document) (e : Edit) : Nat → Nat → Writer → Option Writer
  | 0, _, _ => none
  | levels + 1, id, w =>
    if e.replace = some id then (if e.remove then w else w.text e.value).done
    else
      match (d.nodes id).kind with
      | .object => d.writeContainer e (d.write e levels) true id w
      | .array => d.writeContainer e (d.write e levels) false id w
      | .string =>
        match d.content id with
        | none => none
        | some s => quote s w
      | _ => (w.text (d.raw id)).done

/-- `write` from the root. -/
def writeRoot (d : Document) (e : Edit) (w : Writer) : Option Writer := d.write e (kMaxDepth + 1) 0 w

end Document

/-! ## Numbers -/

/-- The loop of `integer` over the digits. -/
def integerLoop (limit : Nat) : Nat → Str → Option Nat
  | n, [] => some n
  | n, c :: s =>
    if c < ch '0' ∨ ch '9' < c then none
    else if (limit - (c.toNat - (ch '0').toNat)) / 10 < n then none
    else integerLoop limit (n * 10 + (c.toNat - (ch '0').toNat)) s

def integer (s : Str) : Option Int :=
  match take (ch '-') s with
  | some digits => if digits = [] then none else (integerLoop (2 ^ 63) 0 digits).map fun n => -(n : Int)
  | none => if s = [] then none else (integerLoop (2 ^ 63 - 1) 0 s).map fun n => (n : Int)

/-- `write_integer`, for a 64-bit number. -/
def writeInteger (value : Int) (w : Writer) : Writer :=
  let w := if value < 0 then w.put (ch '-') else w
  w.puts (Nat.toDigits 10 value.natAbs |>.map ch)

/-! ## Apply -/

/-- `Op`; the operations that other helpers carry out are `other`. -/
inductive Op where
  | parse
  | quote
  | integer
  | boolean
  | null
  | emptyObject
  | emptyArray
  | member
  | element
  | get
  | set
  | remove
  | append
  | asString
  | asNumber
  | asBool
  | asInt
  | count
  | kindName
  | keys
  | atIndex
  | number
  | asI32
  | requireObject
  | stringify
  | other
  deriving DecidableEq

/-- What `apply` hands back: the writer, the view and the scalar. -/
structure Answer where
  out : Writer
  view : Str := []
  scalar : Option Int := none

namespace Document

def kindText : Kind → Str
  | .null => nullToken
  | .boolean => lit ['b','o','o','l','e','a','n']
  | .number => lit ['n','u','m','b','e','r']
  | .string => lit ['s','t','r','i','n','g']
  | .array => lit ['a','r','r','a','y']
  | .object => lit ['o','b','j','e','c','t']

/-- The loop of `Op::Keys`. -/
def keysLoop (d : Document) : Nat → Option Nat → Bool → Writer → Option Writer
  | _, none, _, w => some w
  | 0, some _, _, _ => none
  | turns + 1, some n, first, w =>
    match (d.nodes n).key.bind fun key => d.write {} (kMaxDepth + 1) key (if first then w else w.put (ch ',')) with
    | none => none
    | some w => d.keysLoop turns (d.nodes n).next false w

/-- `Op::Member` on a document parsed: a member of that name gets the value, and else a member is
added that is put together in a buffer of its own. -/
def applyMember (d : Document) (b c : Str) (w : Writer) : Option Writer :=
  if (d.nodes 0).kind ≠ .object then none
  else
    match d.findMember b d.count (d.nodes 0).child with
    | none => none
    | some (some n) => d.writeRoot { replace := some n, value := c } w
    | some none =>
      match quote b (.fresh kMaxBytes) with
      | none => none
      | some member =>
        match ((member.put (ch ':')).text c).done with
        | none => none
        | some member => d.writeRoot { value := member.out, append := some 0 } w

/-- `Op::Set`, `Op::Remove` and `Op::Append` on a document parsed. -/
def applyPointed (d : Document) (op : Op) (b c : Str) (w : Writer) : Option Writer :=
  match d.pointer b with
  | none => none
  | some id =>
    if op = .remove ∧ id = 0 then none
    else if op = .append then
      if (d.nodes id).kind = .array then d.writeRoot { value := c, append := some id } w else none
    else d.writeRoot { replace := some id, value := c, remove := decide (op = .remove) } w

/-- The operations of `apply` on a document parsed from `a`. -/
def applyParsed (d : Document) (op : Op) (a b c : Str) (number : Int) (w : Writer) : Option Answer :=
  let kind := (d.nodes 0).kind
  match op with
  | .parse => some { out := w, view := a }
  | .number => if kind = .number then some { out := w, view := d.raw 0 } else none
  | .stringify => (d.writeRoot {} w).map fun w => { out := w }
  | .get => (d.pointer b).map fun id => { out := w, view := d.raw id }
  | .atIndex =>
    if kind ≠ .array ∨ number < 0 ∨ kMaxNodes < number.toNat then none
    else (d.atIndex 0 number.toNat).map fun id => { out := w, view := d.raw id }
  | .asString => if kind = .string then (d.string 0 w).map fun w => { out := w } else none
  | .asNumber => if kind = .number then some { out := w, view := d.raw 0 } else none
  | .asBool =>
    if kind = .boolean then some { out := w, scalar := some (if d.raw 0 = trueToken then 1 else 0) } else none
  | .requireObject => if kind = .object then some { out := w, view := a } else none
  | .asInt => if kind = .number then (integer (d.raw 0)).map fun n => { out := w, scalar := some n } else none
  | .asI32 =>
    if kind = .number then
      ((integer (d.raw 0)).filter fun n => decide (-2147483648 ≤ n ∧ n ≤ 2147483647)).map fun n =>
        { out := w, scalar := some n }
    else none
  | .count =>
    if kind = .array ∨ kind = .object then some { out := w, scalar := some (d.size 0) } else none
  | .kindName => some { out := w, view := kindText kind }
  | .keys =>
    if kind = .object then
      match d.keysLoop d.count (d.nodes 0).child true (w.put (ch '[')) with
      | none => none
      | some w => (w.put (ch ']')).done.map fun w => { out := w }
    else none
  | .member => (d.applyMember b c w).map fun w => { out := w }
  | .element =>
    if kind = .array then (d.writeRoot { value := b, append := some 0 } w).map fun w => { out := w } else none
  | .set | .remove | .append => (d.applyPointed op b c w).map fun w => { out := w }
  | _ => none

def newText (op : Op) (b c : Str) : Option Str :=
  match op with
  | .set | .append | .member => some c
  | .element => some b
  | _ => none

def apply (d : Document) (op : Op) (a b c : Str) (number : Int) (w : Writer) : Option Answer :=
  match op with
  | .quote => (quote a w).map fun w => { out := w }
  | .integer => (writeInteger number w).done.map fun w => { out := w }
  | .boolean => (w.text (if number ≠ 0 then trueToken else falseToken)).done.map fun w => { out := w }
  | .null => (w.text nullToken).done.map fun w => { out := w }
  | .emptyObject => (w.text (lit ['\x7b','\x7d'])).done.map fun w => { out := w }
  | .emptyArray => (w.text (lit ['[',']'])).done.map fun w => { out := w }
  | op =>
    let (d, new) := match newText op b c with
      | none => (d, true)
      | some s => d.parse s
    if new = false then none
    else
      let (d, old) := d.parse a
      if old = false then none else d.applyParsed op a b c number w

end Document

end Rut.Json
