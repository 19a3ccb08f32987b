import Rut.Lib.Loop
import Rut.Route.Method

/-!
# The segment trie

Port of `include/rut/runtime/route_trie.h` and `src/runtime/route_trie.cc`. Nodes live in a pool and refer to each other
by index. A fixed-size vector is the list of its elements below its length. Indices that the source takes from the pool
are in range; `node` and `getD` give a default elsewhere. `u16` indices into a pool of 4097 nodes do not wrap.
-/

set_option linter.all false
namespace Rut.Route

open Lib

/-- Fan-out of a node (`TrieNode::kMaxChildren`). -/
def kMaxChildren : Nat := 128

/-- Size of the node pool (`RouteTrie::kMaxNodes`). -/
def kMaxNodes : Nat := 4097

/-- Depth of the trie (`RouteTrie::kMaxPathSegments`). -/
def kMaxPathSegments : Nat := 64

/-- Capacity of a parameter array (`kMaxRouteParams`). -/
def kMaxRouteParams : Nat := 16

/-- A captured parameter (`RouteParam`). -/
structure RouteParam where
  name : Str
  value : Str
deriving DecidableEq

/-- Child list of a node (`TrieNode::Children`). Its first `paramCount` entries are the parameter
children once an insertion is published. -/
structure Children where
  data : List Nat := []
  paramCount : Nat := 0
  methodMask : Nat := 0
deriving DecidableEq

/-- A node of the pool (`TrieNode`). -/
structure TrieNode where
  segment : Str := []
  children : Children := {}
  routeIdxByMethod : Slot → RouteIdx := fun _ => kInvalidRoute

/-- The trie (`RouteTrie`). -/
structure RouteTrie where
  nodes : List TrieNode
  methodMask : Nat
  needsBacktracking : Bool

def nodeAt (nodes : List TrieNode) (i : Nat) : TrieNode := nodes.getD i {}

/-- The trie that holds the root only (`RouteTrie::clear`). -/
def RouteTrie.clear : RouteTrie where
  nodes := [{}]
  methodMask := 0
  needsBacktracking := false

/-! ## Segments -/

/-- Push a segment unless it is empty, `none` when the vector is full. -/
def pushSegment (cur : Str) (out : List Str) : Option (List Str) :=
  if cur = [] then some out
  else if out.length < kMaxPathSegments then some (out ++ [cur])
  else none

/-- The loop of `tokenize_segments` with the bytes since `start` in `cur`. The second component is the
returned count, `kMaxPathSegments + 1` on overflow. -/
def tokenizeLoop : Str → Str → List Str → List Str × Nat
  | [], cur, out =>
    match pushSegment cur out with
    | some out' => (out', out'.length)
    | none => (out, kMaxPathSegments + 1)
  | b :: path, cur, out =>
    if b = ch '/' then
      match pushSegment cur out with
      | some out' => tokenizeLoop path [] out'
      | none => (out, kMaxPathSegments + 1)
    else tokenizeLoop path (cur ++ [b]) out

/-- Split a path into its non-empty segments (`RouteTrie::tokenize_segments`). -/
def tokenizeSegments (path : Str) : List Str × Nat := tokenizeLoop path [] []

/-- A segment that captures (`RouteTrie::is_param_segment`). -/
def isParamSegment (segment : Str) : Bool := segment.head? == some (ch ':')

/-- The first child from position `firstChild` on with the given segment (`RouteTrie::find_child`). -/
def findChild (nodes : List TrieNode) (parent : Nat) (segment : Str) (firstChild : Nat) : Option Nat :=
  if segment = [] then none
  else
    ((nodeAt nodes parent).children.data.drop firstChild).find? fun c =>
      (nodeAt nodes c).segment == segment

/-! ## Insertion -/

/-- The variables of `insert` in its segment loop. -/
structure InsertState where
  nodes : List TrieNode
  pushedParents : List Nat
  visited : List Nat
  cur : Nat

def pushChild (child : Nat) (node : TrieNode) : TrieNode :=
  { node with children := { node.children with data := node.children.data ++ [child] } }

/-- One turn of the segment loop of `insert`, `none` when a capacity is exceeded. -/
def insertSegment (st : InsertState) (seg : Str) : Option InsertState :=
  match findChild st.nodes st.cur seg 0 with
  | some child => some { st with cur := child, visited := st.visited ++ [child] }
  | none =>
    if kMaxNodes ≤ st.nodes.length ∨
        kMaxChildren ≤ (nodeAt st.nodes st.cur).children.data.length then none
    else
      let child := st.nodes.length
      some
        { nodes := (st.nodes ++ [({ segment := seg } : TrieNode)]).modify st.cur (pushChild child)
          pushedParents := st.pushedParents ++ [st.cur]
          visited := st.visited ++ [child]
          cur := child }

/-- The segment loop of `insert`. An error carries the state in which a capacity was exceeded. -/
def insertSegments : List Str → InsertState → Except InsertState InsertState
  | [], st => .ok st
  | seg :: segs, st =>
    match insertSegment st seg with
    | none => .error st
    | some st' => insertSegments segs st'

def popChild (node : TrieNode) : TrieNode :=
  { node with children := { node.children with data := node.children.data.dropLast } }

/-- Undo a failed insertion (`rollback`). -/
def rollback (savedNodesLen : Nat) (st : InsertState) : List TrieNode :=
  (st.pushedParents.reverse.foldl (fun nodes p => nodes.modify p popChild) st.nodes).take savedNodesLen

/-- Move the last child behind the parameter children if it is one itself. -/
def Children.publishLast (isParam : Nat → Bool) (c : Children) : Children :=
  match c.data.getLast? with
  | none => c
  | some child =>
    if isParam child then
      { c with
        data := c.data.take c.paramCount ++ child :: (c.data.drop c.paramCount).dropLast
        paramCount := c.paramCount + 1 }
    else c

def isParamNode (nodes : List TrieNode) (i : Nat) : Bool := isParamSegment (nodeAt nodes i).segment

def Children.competing (c : Children) : Bool := c.paramCount != 0 && decide (1 < c.data.length)

def publishNode (isParam : Nat → Bool) (node : TrieNode) : TrieNode :=
  { node with children := node.children.publishLast isParam }

/-- Publish the parameter partition of one parent and note whether its children compete. -/
def publishParent (acc : List TrieNode × Bool) (parent : Nat) : List TrieNode × Bool :=
  let nodes := acc.1.modify parent (publishNode (isParamNode acc.1))
  (nodes, acc.2 || (nodeAt nodes parent).children.competing)

def recordRoute (slot : Slot) (routeIdx : RouteIdx) (node : TrieNode) : TrieNode :=
  if node.routeIdxByMethod slot = kInvalidRoute then
    { node with routeIdxByMethod := Function.update node.routeIdxByMethod slot routeIdx }
  else node

def addMethod (bit : Nat) (node : TrieNode) : TrieNode :=
  { node with children := { node.children with methodMask := node.children.methodMask ||| bit } }

/-- Insert a route, returning the result and the new trie (`RouteTrie::insert`). -/
def RouteTrie.insert (t : RouteTrie) (path : Str) (methodChar : UInt8) (routeIdx : RouteIdx) :
    Bool × RouteTrie :=
  match methodSlot methodChar with
  | none => (false, t)
  | some slot =>
    let (segs, n) := tokenizeSegments path
    if n > kMaxPathSegments then (false, t)
    else
      match insertSegments segs { nodes := t.nodes, pushedParents := [], visited := [0], cur := 0 } with
      | .error st => (false, { t with nodes := rollback t.nodes.length st })
      | .ok st =>
        let nodes := st.nodes.modify st.cur (recordRoute slot routeIdx)
        let (nodes, needsBacktracking) :=
          st.pushedParents.foldl publishParent (nodes, t.needsBacktracking)
        let methodBit := 1 <<< slot.val
        (true,
          { nodes := st.visited.foldl (fun nodes i => nodes.modify i (addMethod methodBit)) nodes
            methodMask := t.methodMask ||| methodBit
            needsBacktracking := needsBacktracking })

/-! ## Matching -/

/-- A terminal of a node (`Terminal`). -/
structure Terminal where
  routeIdx : RouteIdx
  methodSpecific : Bool

/-- The terminal for a slot, falling back to any (`pick_terminal`). -/
def pickTerminal (node : TrieNode) (slot : Slot) : Terminal :=
  if slot ≠ anySlot ∧ node.routeIdxByMethod slot ≠ kInvalidRoute then
    ⟨node.routeIdxByMethod slot, true⟩
  else ⟨node.routeIdxByMethod anySlot, false⟩

/-- The variables of the streaming loop. `rest` are the bytes of the path from `position` on. -/
structure StreamState where
  current : Nat
  winner : RouteIdx
  rest : Str
  captured : List RouteParam
  winnerCaptures : Nat

def noteTerminal (terminal : Terminal) (st : StreamState) : StreamState :=
  if terminal.routeIdx ≠ kInvalidRoute then
    { st with winner := terminal.routeIdx, winnerCaptures := st.captured.length }
  else st

def selectChild (nodes : List TrieNode) (current : Nat) (value : Str) : Option Nat :=
  match (nodeAt nodes current).children.data with
  | [only] => some only
  | _ => findChild nodes current value 0

/-- One turn of the streaming loop of `match_key`. -/
def streamStep (nodes : List TrieNode) (wantSlot : Slot) (cap : Nat) (st : StreamState) :
    StreamState ⊕ StreamState :=
  let node := nodeAt nodes st.current
  let st := noteTerminal (pickTerminal node wantSlot) st
  if node.children.data = [] then .inr st
  else
    let rest := st.rest.dropWhile (· == ch '/')
    if rest = [] then .inr st
    else
      let value := rest.takeWhile (· != ch '/')
      let rest := rest.dropWhile (· != ch '/')
      match selectChild nodes st.current value with
      | none => .inr st
      | some child =>
        let name := (nodeAt nodes child).segment
        if isParamSegment name then
          let captured :=
            if st.captured.length < cap then st.captured ++ [⟨name.tail, value⟩] else st.captured
          .inl { st with current := child, rest := rest, captured := captured }
        else if name = value then .inl { st with current := child, rest := rest }
        else .inr st

/-- The streaming path of `match_key`: each turn but the last consumes a segment. -/
def RouteTrie.matchStreaming (t : RouteTrie) (path : Str) (wantSlot : Slot) (cap : Nat) :
    RouteIdx × List RouteParam :=
  let start : StreamState :=
    { current := 0, winner := kInvalidRoute, rest := path, captured := [], winnerCaptures := 0 }
  match loop (streamStep t.nodes wantSlot (min cap kMaxRouteParams)) (path.length + 1) start with
  | some st => (st.winner, st.captured.take st.winnerCaptures)
  | none => (kInvalidRoute, [])

/-- A frame of the depth-first search (`Frame`). -/
structure Frame where
  node : Nat := 0
  depth : Nat := 0
  nextChild : Nat := 0
  staticSegments : Nat := 0
  staticMask : Nat := 0
deriving DecidableEq

/-- The best terminal so far (`Candidate`). -/
structure Candidate where
  routeIdx : RouteIdx := kInvalidRoute
  depth : Nat := 0
  staticSegments : Nat := 0
  staticMask : Nat := 0
  methodSpecific : Bool := false
deriving DecidableEq

/-- The variables of the depth-first search. The top of the stack is the head of the list. -/
structure DfsState where
  stack : List Frame
  best : Candidate
  bestPath : List Nat

/-- The comparison of `consider`. -/
def improves (best : Candidate) (terminal : Terminal) (f : Frame) : Bool :=
  best.routeIdx = kInvalidRoute || f.depth > best.depth ||
    (f.depth = best.depth && f.staticSegments > best.staticSegments) ||
    (f.depth = best.depth && f.staticSegments = best.staticSegments &&
      f.staticMask > best.staticMask) ||
    (f.depth = best.depth && f.staticSegments = best.staticSegments &&
      f.staticMask = best.staticMask && terminal.methodSpecific && !best.methodSpecific)

/-- Take the terminal of the top frame if it improves on the best one (`consider`). -/
def consider (terminal : Terminal) (f : Frame) (cap : Nat) (st : DfsState) : DfsState :=
  if terminal.routeIdx = kInvalidRoute then st
  else if improves st.best terminal f then
    { st with
      best :=
        { routeIdx := terminal.routeIdx, depth := f.depth, staticSegments := f.staticSegments,
          staticMask := f.staticMask, methodSpecific := terminal.methodSpecific }
      bestPath :=
        if cap ≠ 0 ∧ f.depth ≠ f.staticSegments then (st.stack.reverse.map Frame.node).drop 1
        else st.bestPath }
  else st

def staticBit (depth : Nat) : Nat := if depth < 64 then 1 <<< (63 - depth) else 0

/-- The inner loop over parameter children from position `next` on: the next eligible child and the
position behind it. -/
def nextParam (nodes : List TrieNode) (eligible : Nat) : List Nat → Nat → Option (Nat × Nat)
  | [], _ => none
  | child :: children, next =>
    if (nodeAt nodes child).children.methodMask &&& eligible = 0 then
      nextParam nodes eligible children (next + 1)
    else some (child, next + 1)

def visitParams (nodes : List TrieNode) (eligible : Nat) (f : Frame) (below : List Frame)
    (st : DfsState) : DfsState ⊕ DfsState :=
  let children := (nodeAt nodes f.node).children
  match nextParam nodes eligible
      ((children.data.take children.paramCount).drop (f.nextChild - 1)) f.nextChild with
  | some (child, next) =>
    .inl
      { st with
        stack :=
          { node := child, depth := f.depth + 1, nextChild := 0, staticSegments := f.staticSegments,
            staticMask := f.staticMask } :: { f with nextChild := next } :: below }
  | none => .inl { st with stack := below }

/-- One turn of the depth-first search of `match_key`. -/
def dfsStep (nodes : List TrieNode) (segs : List Str) (wantSlot : Slot) (eligible cap : Nat)
    (st : DfsState) : DfsState ⊕ DfsState :=
  match st.stack with
  | [] => .inr st
  | f :: below =>
    let node := nodeAt nodes f.node
    if f.nextChild = 0 then
      let st := consider (pickTerminal node wantSlot) f cap st
      if st.best.routeIdx ≠ kInvalidRoute ∧ st.best.depth = segs.length ∧
          st.best.staticSegments = st.best.depth then .inr st
      else if segs.length ≤ f.depth then .inl { st with stack := below }
      else
        let f := { f with nextChild := 1 }
        match findChild nodes f.node (segs.getD f.depth []) node.children.paramCount with
        | some literal =>
          .inl
            { st with
              stack :=
                { node := literal, depth := f.depth + 1, nextChild := 0,
                  staticSegments := f.staticSegments + 1,
                  staticMask := f.staticMask ||| staticBit (f.depth + 1) } :: f :: below }
        | none => visitParams nodes eligible f below st
    else visitParams nodes eligible f below st

/-- The parameters on the winning path, at most `cap` of them. -/
def capturedParams (nodes : List TrieNode) (cap : Nat) (bestPath : List Nat) (segs : List Str) :
    List RouteParam :=
  ((bestPath.zip segs).filterMap fun (i, value) =>
    let name := (nodeAt nodes i).segment
    if isParamSegment name then some ⟨name.tail, value⟩ else none).take cap

/-- More turns than any search takes: every frame has at most `kMaxChildren + 2` of them. -/
def dfsFuel : Nat := (kMaxChildren + 2) * (kMaxChildren + 4) ^ kMaxPathSegments + 1

/-- The depth-first search of `match_key`. -/
def RouteTrie.matchDfs (t : RouteTrie) (path : Str) (wantSlot : Slot) (cap : Nat) :
    RouteIdx × List RouteParam :=
  let segs := (tokenizeSegments path).1
  let eligible := 1 ||| (1 <<< wantSlot.val)
  let start : DfsState := { stack := [{}], best := {}, bestPath := [] }
  match loop (dfsStep t.nodes segs wantSlot eligible cap) dfsFuel start with
  | some st =>
    let captures := st.best.routeIdx ≠ kInvalidRoute ∧ st.best.staticSegments ≠ st.best.depth
    (st.best.routeIdx,
      if captures then
        capturedParams t.nodes (min cap kMaxRouteParams) (st.bestPath.take st.best.depth) segs
      else [])
  | none => (kInvalidRoute, [])

/-- Match with captures. A capacity of 0 also stands for null output arguments
(`RouteTrie::match_key`). -/
def RouteTrie.matchKeyParams (t : RouteTrie) (path : Str) (methodKey : UInt8) (cap : Nat) :
    RouteIdx × List RouteParam :=
  match methodKeySlot methodKey with
  | none => (kInvalidRoute, [])
  | some wantSlot =>
    if t.methodMask &&& (1 ||| (1 <<< wantSlot.val)) = 0 then (kInvalidRoute, [])
    else if t.needsBacktracking = false then t.matchStreaming path wantSlot cap
    else t.matchDfs path wantSlot cap

/-- Match without captures (`RouteTrie::match_key`). -/
def RouteTrie.matchKey (t : RouteTrie) (path : Str) (methodKey : UInt8) : RouteIdx :=
  (t.matchKeyParams path methodKey 0).1

end Rut.Route
