import Rut.Lib.Loop
import Rut.Route.Canon
import Rut.Route.Method

/-!
# The adaptive radix trie

Port of `include/rut/runtime/route_art.h` and `src/runtime/route_art.cc`. Nodes of four sizes live in four pools; a
child reference is the packed pair of node type and pool index. Edges are views into the paths of the routes and are
modelled by their bytes. A pointer to a child slot (`cur_patch_site`) names the slot. The failed paths of `insert`
restore a snapshot of the pools, so they return the trie unchanged.
-/

set_option linter.all false
namespace Rut.Route

open Lib

/-- Node sizes (`ArtNodeType`). -/
inductive ArtNodeType where
  | n4
  | n16
  | n48
  | n256
deriving DecidableEq

/-- Packed child reference (`ArtChildRef`); `kArtInvalidChildRef` is an absent one. -/
structure ArtChildRef where
  type : ArtNodeType
  idx : Nat
deriving DecidableEq

/-- Edge label and terminals of a node (`ArtNodeHeader`). -/
structure ArtNodeHeader where
  edge : Str := []
  routeIdxByMethod : Slot → RouteIdx := fun _ => kInvalidRoute

/-- `ArtNode4` and `ArtNode16`: keys and children in insertion order. -/
structure ArtListNode where
  hdr : ArtNodeHeader := {}
  entries : List (UInt8 × ArtChildRef) := []

/-- `ArtNode48`: 1-based positions into the children, 0 for absent. -/
structure ArtNode48 where
  hdr : ArtNodeHeader := {}
  childIndex : UInt8 → Nat := fun _ => 0
  children : List ArtChildRef := []

/-- `ArtNode256`: one child per byte. -/
structure ArtNode256 where
  hdr : ArtNodeHeader := {}
  children : UInt8 → Option ArtChildRef := fun _ => none

inductive ArtNode where
  | n4 (n : ArtListNode)
  | n16 (n : ArtListNode)
  | n48 (n : ArtNode48)
  | n256 (n : ArtNode256)

/-- How a match may end (`ArtMatchMode`). -/
inductive ArtMatchMode where
  | bytePrefix
  | segmentPrefix
deriving DecidableEq

/-- The trie (`ArtTrie`): each pool is the list of its nodes below its length. -/
structure ArtTrie where
  n4Pool : List ArtListNode
  n16Pool : List ArtListNode
  n48Pool : List ArtNode48
  n256Pool : List ArtNode256
  rootRef : ArtChildRef
  matchMode : ArtMatchMode
  isUniformN4 : Bool

def kMaxN4 : Nat := 256
def kMaxN16 : Nat := 64
def kMaxN48 : Nat := 32
def kMaxN256 : Nat := 8

/-- The trie that holds an empty root (`ArtTrie::clear`). -/
def ArtTrie.clear (mode : ArtMatchMode) : ArtTrie where
  n4Pool := [{}]
  n16Pool := []
  n48Pool := []
  n256Pool := []
  rootRef := ⟨.n4, 0⟩
  matchMode := mode
  isUniformN4 := true

/-! ## Nodes -/

def allBytes : List UInt8 := (List.range 256).map UInt8.ofNat

def ArtNode.type : ArtNode → ArtNodeType
  | .n4 _ => .n4
  | .n16 _ => .n16
  | .n48 _ => .n48
  | .n256 _ => .n256

def ArtNode.hdr : ArtNode → ArtNodeHeader
  | .n4 n => n.hdr
  | .n16 n => n.hdr
  | .n48 n => n.hdr
  | .n256 n => n.hdr

def ArtNode.setHdr (hdr : ArtNodeHeader) : ArtNode → ArtNode
  | .n4 n => .n4 { n with hdr := hdr }
  | .n16 n => .n16 { n with hdr := hdr }
  | .n48 n => .n48 { n with hdr := hdr }
  | .n256 n => .n256 { n with hdr := hdr }

/-- Linear scan of the keys (`find_in_n4`, `find_in_n16`). -/
def findInEntries (entries : List (UInt8 × ArtChildRef)) (b : UInt8) : Option ArtChildRef :=
  (entries.find? fun entry => entry.1 == b).map Prod.snd

/-- Child for a byte (`find_in_n4`, `find_in_n16`, `find_in_n48`, `find_in_n256`). -/
def ArtNode.find (b : UInt8) : ArtNode → Option ArtChildRef
  | .n4 n => findInEntries n.entries b
  | .n16 n => findInEntries n.entries b
  | .n48 n => if n.childIndex b = 0 then none else n.children[n.childIndex b - 1]?
  | .n256 n => n.children b

def ArtNode.entries : ArtNode → List (UInt8 × ArtChildRef)
  | .n4 n => n.entries
  | .n16 n => n.entries
  | .n48 n => allBytes.filterMap fun b =>
      if n.childIndex b = 0 then none else (n.children[n.childIndex b - 1]?).map (b, ·)
  | .n256 n => allBytes.filterMap fun b => (n.children b).map (b, ·)

/-- A fresh node of the type (`ArtNode4{}` and so on). -/
def ArtNode.empty : ArtNodeType → ArtNode
  | .n4 => .n4 {}
  | .n16 => .n16 {}
  | .n48 => .n48 {}
  | .n256 => .n256 {}

def ArtTrie.node (t : ArtTrie) (ref : ArtChildRef) : Option ArtNode :=
  match ref.type with
  | .n4 => (t.n4Pool[ref.idx]?).map .n4
  | .n16 => (t.n16Pool[ref.idx]?).map .n16
  | .n48 => (t.n48Pool[ref.idx]?).map .n48
  | .n256 => (t.n256Pool[ref.idx]?).map .n256

def ArtTrie.store (t : ArtTrie) (ref : ArtChildRef) : ArtNode → ArtTrie
  | .n4 n => { t with n4Pool := t.n4Pool.set ref.idx n }
  | .n16 n => { t with n16Pool := t.n16Pool.set ref.idx n }
  | .n48 n => { t with n48Pool := t.n48Pool.set ref.idx n }
  | .n256 n => { t with n256Pool := t.n256Pool.set ref.idx n }

/-- Header of a node (`ArtTrie::header`). -/
def ArtTrie.header (t : ArtTrie) (ref : ArtChildRef) : ArtNodeHeader :=
  ((t.node ref).map ArtNode.hdr).getD {}

/-- Child of a node for a byte (`ArtTrie::find_child`). -/
def ArtTrie.findChild (t : ArtTrie) (parent : ArtChildRef) (b : UInt8) : Option ArtChildRef :=
  (t.node parent).bind (ArtNode.find b)

/-- Terminal for a slot, falling back to any (`ArtTrie::pick_terminal`). -/
def artPickTerminal (h : ArtNodeHeader) (slot : Slot) : RouteIdx :=
  if slot ≠ anySlot ∧ h.routeIdxByMethod slot ≠ kInvalidRoute then h.routeIdxByMethod slot
  else h.routeIdxByMethod anySlot

/-! ## Allocation and children -/

def ArtNodeType.cap : ArtNodeType → Nat
  | .n4 => kMaxN4
  | .n16 => kMaxN16
  | .n48 => kMaxN48
  | .n256 => kMaxN256

def ArtTrie.poolLen (t : ArtTrie) : ArtNodeType → Nat
  | .n4 => t.n4Pool.length
  | .n16 => t.n16Pool.length
  | .n48 => t.n48Pool.length
  | .n256 => t.n256Pool.length

def ArtTrie.push (t : ArtTrie) : ArtNodeType → ArtTrie
  | .n4 => { t with n4Pool := t.n4Pool ++ [{}] }
  | .n16 => { t with n16Pool := t.n16Pool ++ [{}], isUniformN4 := false }
  | .n48 => { t with n48Pool := t.n48Pool ++ [{}], isUniformN4 := false }
  | .n256 => { t with n256Pool := t.n256Pool ++ [{}], isUniformN4 := false }

def ArtTrie.alloc (t : ArtTrie) (k : ArtNodeType) : Option (ArtTrie × ArtChildRef) :=
  if k.cap ≤ t.poolLen k then none else some (t.push k, ⟨k, t.poolLen k⟩)

def ArtTrie.allocN4 (t : ArtTrie) : Option (ArtTrie × ArtChildRef) := t.alloc .n4

def ArtTrie.allocN16 (t : ArtTrie) : Option (ArtTrie × ArtChildRef) := t.alloc .n16

def ArtTrie.allocN48 (t : ArtTrie) : Option (ArtTrie × ArtChildRef) := t.alloc .n48

def ArtTrie.allocN256 (t : ArtTrie) : Option (ArtTrie × ArtChildRef) := t.alloc .n256

def indexEntries (entries : List (UInt8 × ArtChildRef)) : UInt8 → Nat :=
  (entries.zipIdx).foldl (fun index (entry, k) => Function.update index entry.1 (k + 1)) fun _ => 0

/-- Add a child under an unused byte, upgrading a full parent to the next size
(`ArtTrie::add_child`). Returns the parent's reference, `none` when a pool is exhausted. -/
def ArtTrie.addChild (t : ArtTrie) (parent : ArtChildRef) (b : UInt8) (child : ArtChildRef) :
    Option (ArtTrie × ArtChildRef) :=
  match t.node parent with
  | none => none
  | some (.n4 n) =>
    if n.entries.length < 4 then
      some (t.store parent (.n4 { n with entries := n.entries ++ [(b, child)] }), parent)
    else
      t.allocN16.map fun (t, newRef) =>
        (t.store newRef (.n16 { hdr := n.hdr, entries := n.entries ++ [(b, child)] }), newRef)
  | some (.n16 n) =>
    if n.entries.length < 16 then
      some (t.store parent (.n16 { n with entries := n.entries ++ [(b, child)] }), parent)
    else
      t.allocN48.map fun (t, newRef) =>
        (t.store newRef (.n48
          { hdr := n.hdr
            childIndex := Function.update (indexEntries n.entries) b 17
            children := n.entries.map Prod.snd ++ [child] }), newRef)
  | some (.n48 n) =>
    if n.children.length < 48 then
      some (t.store parent (.n48
        { n with
          children := n.children ++ [child]
          childIndex := Function.update n.childIndex b (n.children.length + 1) }), parent)
    else
      t.allocN256.map fun (t, newRef) =>
        (t.store newRef (.n256
          { hdr := n.hdr
            children := Function.update (fun byte => ArtNode.find byte (.n48 n)) b (some child) }), newRef)
  | some (.n256 n) =>
    some (t.store parent (.n256 { n with children := Function.update n.children b (some child) }), parent)

/-! ## Insertion -/

/-- A slot that holds a child reference (`cur_patch_site`). -/
inductive PatchSite where
  | root
  | n4 (node j : Nat)
  | n16 (node j : Nat)
  | n48 (node j : Nat)
  | n256 (node : Nat) (b : UInt8)
deriving DecidableEq

/-- The slot of `cur` that holds the child for a byte. -/
def ArtTrie.childSite (t : ArtTrie) (cur : ArtChildRef) (b : UInt8) : Option PatchSite :=
  match t.node cur with
  | none => none
  | some (.n4 n) => (n.entries.findIdx? fun entry => entry.1 == b).map (.n4 cur.idx)
  | some (.n16 n) => (n.entries.findIdx? fun entry => entry.1 == b).map (.n16 cur.idx)
  | some (.n48 n) => some (.n48 cur.idx (n.childIndex b - 1))
  | some (.n256 _) => some (.n256 cur.idx b)

def ArtListNode.setChild (j : Nat) (ref : ArtChildRef) (n : ArtListNode) : ArtListNode :=
  { n with entries := n.entries.modify j fun entry => (entry.1, ref) }

def ArtTrie.patch (t : ArtTrie) (ref : ArtChildRef) : Option PatchSite → ArtTrie
  | none => t
  | some .root => { t with rootRef := ref }
  | some (.n4 i j) => { t with n4Pool := t.n4Pool.modify i (ArtListNode.setChild j ref) }
  | some (.n16 i j) => { t with n16Pool := t.n16Pool.modify i (ArtListNode.setChild j ref) }
  | some (.n48 i j) =>
    { t with n48Pool := t.n48Pool.modify i fun n => { n with children := n.children.set j ref } }
  | some (.n256 i b) =>
    { t with
      n256Pool := t.n256Pool.modify i fun n =>
        { n with children := Function.update n.children b (some ref) } }

def ArtTrie.setHeader (t : ArtTrie) (ref : ArtChildRef) (hdr : ArtNodeHeader) : ArtTrie :=
  match t.node ref with
  | none => t
  | some n => t.store ref (n.setHdr hdr)

def commonLength : Str → Str → Nat
  | a :: e, b :: p => if a = b then commonLength e p + 1 else 0
  | _, _ => 0

/-- Move children onto a node one by one, `none` when a pool is exhausted. -/
def ArtTrie.addChildren (t : ArtTrie) (ref : ArtChildRef) :
    List (UInt8 × ArtChildRef) → Option (ArtTrie × ArtChildRef)
  | [] => some (t, ref)
  | (b, child) :: entries =>
    match t.addChild ref b child with
    | none => none
    | some (t, ref) => t.addChildren ref entries

/-- Split the edge of `child` behind `k` bytes: a new tail takes the rest of the edge, the terminals and
the children; `child` keeps the first `k` bytes and the tail as only child. -/
def ArtTrie.splitEdge (t : ArtTrie) (child : ArtChildRef) (k : Nat) : Option (ArtTrie × ArtChildRef) :=
  match t.node child with
  | none => none
  | some n =>
    let e := n.hdr.edge
    match t.allocN4 with
    | none => none
    | some (t, tail) =>
      let t := t.setHeader tail { edge := e.drop k, routeIdxByMethod := n.hdr.routeIdxByMethod }
      match t.addChildren tail n.entries with
      | none => none
      | some (t, tailRef) =>
        let t := t.store child ((ArtNode.empty child.type).setHdr { edge := e.take k })
        t.addChild child (e.getD k 0) tailRef

/-- The variables of the descent of `insert`; `rest` are the bytes of the path from `i` on. -/
structure ArtInsertState where
  trie : ArtTrie
  cur : ArtChildRef
  site : Option PatchSite
  rest : Str

def appendLeaf (st : ArtInsertState) (b : UInt8) : Option (ArtTrie × ArtChildRef) :=
  match st.trie.allocN4 with
  | none => none
  | some (t, leaf) =>
    let t := t.setHeader leaf { edge := st.rest }
    match t.addChild st.cur b leaf with
    | none => none
    | some (t, newParent) =>
      some (if newParent ≠ st.cur then t.patch newParent st.site else t, leaf)

/-- One turn of the descent of `insert`. It leaves with the node for the terminal, or without one when
a pool is exhausted. -/
def artInsertStep (st : ArtInsertState) : ArtInsertState ⊕ Option (ArtTrie × ArtChildRef) :=
  match st.rest with
  | [] => .inr (some (st.trie, st.cur))
  | b :: _ =>
    match st.trie.findChild st.cur b with
    | none => .inr (appendLeaf st b)
    | some child =>
      let e := (st.trie.header child).edge
      let k := commonLength e st.rest
      if k = e.length then
        .inl { st with cur := child, site := st.trie.childSite st.cur b, rest := st.rest.drop k }
      else
        match st.trie.splitEdge child k with
        | none => .inr none
        | some (t, newChild) =>
          .inl
            { st with
              trie := if newChild ≠ child then t.patch newChild st.site else t
              cur := newChild
              rest := st.rest.drop k }

def ArtNodeHeader.record (slot : Slot) (routeIdx : RouteIdx) (h : ArtNodeHeader) : ArtNodeHeader :=
  if h.routeIdxByMethod slot = kInvalidRoute then
    { h with routeIdxByMethod := Function.update h.routeIdxByMethod slot routeIdx }
  else h

/-- Insert a route, returning the result and the new trie (`ArtTrie::insert`). Each turn of the descent
consumes a byte. -/
def ArtTrie.insert (t : ArtTrie) (path : Str) (methodChar : UInt8) (routeIdx : RouteIdx) :
    Bool × ArtTrie :=
  match methodSlot methodChar with
  | none => (false, t)
  | some slot =>
    let p := finalizePathCanonical path
    match loop artInsertStep (p.length + 1)
        { trie := t, cur := t.rootRef, site := some .root, rest := p } with
    | some (some (t', cur)) => (true, t'.setHeader cur ((t'.header cur).record slot routeIdx))
    | some none => (false, t)
    | none => (false, t)

/-! ## Matching -/

/-- A terminal counts in the byte mode everywhere, in the segment mode at the end of the path or in
front of a slash. -/
def atBoundary (mode : ArtMatchMode) (rest : Str) : Bool :=
  mode = .bytePrefix || rest = [] || rest.head? = some (ch '/')

/-- The variables of the descent of `match_canonical_key`. -/
structure ArtMatchState (ι : Type) where
  cur : ι
  best : RouteIdx
  rest : Str

/-- One turn of the general loop of `match_canonical_key`; its inlined switches are those of
`find_child` and `header`. -/
def artMatchStep (t : ArtTrie) (wantSlot : Slot) (st : ArtMatchState ArtChildRef) :
    ArtMatchState ArtChildRef ⊕ RouteIdx :=
  match st.rest with
  | [] => .inr st.best
  | b :: _ =>
    match t.findChild st.cur b with
    | none => .inr st.best
    | some child =>
      let h := t.header child
      if st.rest.length < h.edge.length then .inr st.best
      else if h.edge ≠ st.rest.take h.edge.length then .inr st.best
      else
        let rest := st.rest.drop h.edge.length
        let candidate := artPickTerminal h wantSlot
        .inl
          { cur := child
            best :=
              if candidate ≠ kInvalidRoute ∧ atBoundary t.matchMode rest then candidate else st.best
            rest := rest }

/-- One turn of the loop for tries of Node4 only, on indices of the Node4 pool. -/
def artMatchUniformStep (t : ArtTrie) (wantSlot : Slot) (st : ArtMatchState Nat) :
    ArtMatchState Nat ⊕ RouteIdx :=
  match st.rest with
  | [] => .inr st.best
  | b :: _ =>
    match findInEntries (t.n4Pool.getD st.cur {}).entries b with
    | none => .inr st.best
    | some child =>
      let h := (t.n4Pool.getD child.idx {}).hdr
      if st.rest.length < h.edge.length then .inr st.best
      else if h.edge ≠ st.rest.take h.edge.length then .inr st.best
      else
        let rest := st.rest.drop h.edge.length
        let candidate := artPickTerminal h wantSlot
        .inl
          { cur := child.idx
            best :=
              if candidate ≠ kInvalidRoute ∧ atBoundary t.matchMode rest then candidate else st.best
            rest := rest }

/-- The general loop of `match_canonical_key`. -/
def ArtTrie.matchGeneral (t : ArtTrie) (path : Str) (wantSlot : Slot) : RouteIdx :=
  (loop (artMatchStep t wantSlot) (path.length + 1)
    { cur := t.rootRef, best := artPickTerminal (t.header t.rootRef) wantSlot, rest := path }).getD
    kInvalidRoute

/-- The loop of `match_canonical_key` for tries of Node4 only. -/
def ArtTrie.matchUniform (t : ArtTrie) (path : Str) (wantSlot : Slot) : RouteIdx :=
  (loop (artMatchUniformStep t wantSlot) (path.length + 1)
    { cur := t.rootRef.idx
      best := artPickTerminal (t.n4Pool.getD t.rootRef.idx {}).hdr wantSlot
      rest := path }).getD kInvalidRoute

/-- Route of a canonical path (`ArtTrie::match_canonical_key`). -/
def ArtTrie.matchCanonicalKey (t : ArtTrie) (path : Str) (methodKey : UInt8) : RouteIdx :=
  match methodKeySlot methodKey with
  | none => kInvalidRoute
  | some wantSlot =>
    if t.isUniformN4 then t.matchUniform path wantSlot else t.matchGeneral path wantSlot

end Rut.Route
