import Rut.Common.Types
import Rut.Lib.Bits

/-!
# Huffman coding of HPACK

Port of the Huffman part of `src/runtime/hpack.cc`: the code table of RFC 7541, the decode trie built from
it (`build_trie`), the nibble automaton built from the trie (`build_fsm`), `huffman_encode` and
`huffman_decode`. The trie arrays of the source are the list of the nodes in use, its `-1` is `none`. An
access outside of an object is a `fault` of the model.
-/

namespace Rut.Hpack

open Lib

/-- Result of a function of the source that reads or writes memory: a value, the failure it reports, or an
access outside of the object it was given. -/
inductive Outcome (α : Type) where
  | ok (a : α)
  | error
  | fault
deriving DecidableEq

def Outcome.bind {α β : Type} (x : Outcome α) (f : α → Outcome β) : Outcome β :=
  match x with
  | .ok a => f a
  | .error => .error
  | .fault => .fault

instance : Monad Outcome where
  pure := .ok
  bind := .bind

/-- A row of the code table (`HuffCode`). -/
structure HuffCode where
  code : Nat
  bits : Nat
deriving DecidableEq

/-- Octets and the symbol EOS (`kSymCount`). -/
abbrev kSymCount : Nat := 257

abbrev Sym := Fin kSymCount

def kHuff : List HuffCode :=
  [⟨0x1ff8, 13⟩, ⟨0x7fffd8, 23⟩, ⟨0xfffffe2, 28⟩, ⟨0xfffffe3, 28⟩, ⟨0xfffffe4, 28⟩, ⟨0xfffffe5, 28⟩,
    ⟨0xfffffe6, 28⟩, ⟨0xfffffe7, 28⟩, ⟨0xfffffe8, 28⟩, ⟨0xffffea, 24⟩, ⟨0x3ffffffc, 30⟩,
    ⟨0xfffffe9, 28⟩, ⟨0xfffffea, 28⟩, ⟨0x3ffffffd, 30⟩, ⟨0xfffffeb, 28⟩, ⟨0xfffffec, 28⟩,
    ⟨0xfffffed, 28⟩, ⟨0xfffffee, 28⟩, ⟨0xfffffef, 28⟩, ⟨0xffffff0, 28⟩, ⟨0xffffff1, 28⟩,
    ⟨0xffffff2, 28⟩, ⟨0x3ffffffe, 30⟩, ⟨0xffffff3, 28⟩, ⟨0xffffff4, 28⟩, ⟨0xffffff5, 28⟩,
    ⟨0xffffff6, 28⟩, ⟨0xffffff7, 28⟩, ⟨0xffffff8, 28⟩, ⟨0xffffff9, 28⟩, ⟨0xffffffa, 28⟩,
    ⟨0xffffffb, 28⟩, ⟨0x14, 6⟩, ⟨0x3f8, 10⟩, ⟨0x3f9, 10⟩, ⟨0xffa, 12⟩, ⟨0x1ff9, 13⟩, ⟨0x15, 6⟩,
    ⟨0xf8, 8⟩, ⟨0x7fa, 11⟩, ⟨0x3fa, 10⟩, ⟨0x3fb, 10⟩, ⟨0xf9, 8⟩, ⟨0x7fb, 11⟩, ⟨0xfa, 8⟩, ⟨0x16, 6⟩,
    ⟨0x17, 6⟩, ⟨0x18, 6⟩, ⟨0x0, 5⟩, ⟨0x1, 5⟩, ⟨0x2, 5⟩, ⟨0x19, 6⟩, ⟨0x1a, 6⟩, ⟨0x1b, 6⟩, ⟨0x1c, 6⟩,
    ⟨0x1d, 6⟩, ⟨0x1e, 6⟩, ⟨0x1f, 6⟩, ⟨0x5c, 7⟩, ⟨0xfb, 8⟩, ⟨0x7ffc, 15⟩, ⟨0x20, 6⟩, ⟨0xffb, 12⟩,
    ⟨0x3fc, 10⟩, ⟨0x1ffa, 13⟩, ⟨0x21, 6⟩, ⟨0x5d, 7⟩, ⟨0x5e, 7⟩, ⟨0x5f, 7⟩, ⟨0x60, 7⟩, ⟨0x61, 7⟩,
    ⟨0x62, 7⟩, ⟨0x63, 7⟩, ⟨0x64, 7⟩, ⟨0x65, 7⟩, ⟨0x66, 7⟩, ⟨0x67, 7⟩, ⟨0x68, 7⟩, ⟨0x69, 7⟩,
    ⟨0x6a, 7⟩, ⟨0x6b, 7⟩, ⟨0x6c, 7⟩, ⟨0x6d, 7⟩, ⟨0x6e, 7⟩, ⟨0x6f, 7⟩, ⟨0x70, 7⟩, ⟨0x71, 7⟩,
    ⟨0x72, 7⟩, ⟨0xfc, 8⟩, ⟨0x73, 7⟩, ⟨0xfd, 8⟩, ⟨0x1ffb, 13⟩, ⟨0x7fff0, 19⟩, ⟨0x1ffc, 13⟩,
    ⟨0x3ffc, 14⟩, ⟨0x22, 6⟩, ⟨0x7ffd, 15⟩, ⟨0x3, 5⟩, ⟨0x23, 6⟩, ⟨0x4, 5⟩, ⟨0x24, 6⟩, ⟨0x5, 5⟩,
    ⟨0x25, 6⟩, ⟨0x26, 6⟩, ⟨0x27, 6⟩, ⟨0x6, 5⟩, ⟨0x74, 7⟩, ⟨0x75, 7⟩, ⟨0x28, 6⟩, ⟨0x29, 6⟩,
    ⟨0x2a, 6⟩, ⟨0x7, 5⟩, ⟨0x2b, 6⟩, ⟨0x76, 7⟩, ⟨0x2c, 6⟩, ⟨0x8, 5⟩, ⟨0x9, 5⟩, ⟨0x2d, 6⟩, ⟨0x77, 7⟩,
    ⟨0x78, 7⟩, ⟨0x79, 7⟩, ⟨0x7a, 7⟩, ⟨0x7b, 7⟩, ⟨0x7ffe, 15⟩, ⟨0x7fc, 11⟩, ⟨0x3ffd, 14⟩,
    ⟨0x1ffd, 13⟩, ⟨0xffffffc, 28⟩, ⟨0xfffe6, 20⟩, ⟨0x3fffd2, 22⟩, ⟨0xfffe7, 20⟩, ⟨0xfffe8, 20⟩,
    ⟨0x3fffd3, 22⟩, ⟨0x3fffd4, 22⟩, ⟨0x3fffd5, 22⟩, ⟨0x7fffd9, 23⟩, ⟨0x3fffd6, 22⟩, ⟨0x7fffda, 23⟩,
    ⟨0x7fffdb, 23⟩, ⟨0x7fffdc, 23⟩, ⟨0x7fffdd, 23⟩, ⟨0x7fffde, 23⟩, ⟨0xffffeb, 24⟩, ⟨0x7fffdf, 23⟩,
    ⟨0xffffec, 24⟩, ⟨0xffffed, 24⟩, ⟨0x3fffd7, 22⟩, ⟨0x7fffe0, 23⟩, ⟨0xffffee, 24⟩, ⟨0x7fffe1, 23⟩,
    ⟨0x7fffe2, 23⟩, ⟨0x7fffe3, 23⟩, ⟨0x7fffe4, 23⟩, ⟨0x1fffdc, 21⟩, ⟨0x3fffd8, 22⟩, ⟨0x7fffe5, 23⟩,
    ⟨0x3fffd9, 22⟩, ⟨0x7fffe6, 23⟩, ⟨0x7fffe7, 23⟩, ⟨0xffffef, 24⟩, ⟨0x3fffda, 22⟩, ⟨0x1fffdd, 21⟩,
    ⟨0xfffe9, 20⟩, ⟨0x3fffdb, 22⟩, ⟨0x3fffdc, 22⟩, ⟨0x7fffe8, 23⟩, ⟨0x7fffe9, 23⟩, ⟨0x1fffde, 21⟩,
    ⟨0x7fffea, 23⟩, ⟨0x3fffdd, 22⟩, ⟨0x3fffde, 22⟩, ⟨0xfffff0, 24⟩, ⟨0x1fffdf, 21⟩, ⟨0x3fffdf, 22⟩,
    ⟨0x7fffeb, 23⟩, ⟨0x7fffec, 23⟩, ⟨0x1fffe0, 21⟩, ⟨0x1fffe1, 21⟩, ⟨0x3fffe0, 22⟩, ⟨0x1fffe2, 21⟩,
    ⟨0x7fffed, 23⟩, ⟨0x3fffe1, 22⟩, ⟨0x7fffee, 23⟩, ⟨0x7fffef, 23⟩, ⟨0xfffea, 20⟩, ⟨0x3fffe2, 22⟩,
    ⟨0x3fffe3, 22⟩, ⟨0x3fffe4, 22⟩, ⟨0x7ffff0, 23⟩, ⟨0x3fffe5, 22⟩, ⟨0x3fffe6, 22⟩, ⟨0x7ffff1, 23⟩,
    ⟨0x3ffffe0, 26⟩, ⟨0x3ffffe1, 26⟩, ⟨0xfffeb, 20⟩, ⟨0x7fff1, 19⟩, ⟨0x3fffe7, 22⟩, ⟨0x7ffff2, 23⟩,
    ⟨0x3fffe8, 22⟩, ⟨0x1ffffec, 25⟩, ⟨0x3ffffe2, 26⟩, ⟨0x3ffffe3, 26⟩, ⟨0x3ffffe4, 26⟩,
    ⟨0x7ffffde, 27⟩, ⟨0x7ffffdf, 27⟩, ⟨0x3ffffe5, 26⟩, ⟨0xfffff1, 24⟩, ⟨0x1ffffed, 25⟩,
    ⟨0x7fff2, 19⟩, ⟨0x1fffe3, 21⟩, ⟨0x3ffffe6, 26⟩, ⟨0x7ffffe0, 27⟩, ⟨0x7ffffe1, 27⟩,
    ⟨0x3ffffe7, 26⟩, ⟨0x7ffffe2, 27⟩, ⟨0xfffff2, 24⟩, ⟨0x1fffe4, 21⟩, ⟨0x1fffe5, 21⟩,
    ⟨0x3ffffe8, 26⟩, ⟨0x3ffffe9, 26⟩, ⟨0xffffffd, 28⟩, ⟨0x7ffffe3, 27⟩, ⟨0x7ffffe4, 27⟩,
    ⟨0x7ffffe5, 27⟩, ⟨0xfffec, 20⟩, ⟨0xfffff3, 24⟩, ⟨0xfffed, 20⟩, ⟨0x1fffe6, 21⟩, ⟨0x3fffe9, 22⟩,
    ⟨0x1fffe7, 21⟩, ⟨0x1fffe8, 21⟩, ⟨0x7ffff3, 23⟩, ⟨0x3fffea, 22⟩, ⟨0x3fffeb, 22⟩, ⟨0x1ffffee, 25⟩,
    ⟨0x1ffffef, 25⟩, ⟨0xfffff4, 24⟩, ⟨0xfffff5, 24⟩, ⟨0x3ffffea, 26⟩, ⟨0x7ffff4, 23⟩,
    ⟨0x3ffffeb, 26⟩, ⟨0x7ffffe6, 27⟩, ⟨0x3ffffec, 26⟩, ⟨0x3ffffed, 26⟩, ⟨0x7ffffe7, 27⟩,
    ⟨0x7ffffe8, 27⟩, ⟨0x7ffffe9, 27⟩, ⟨0x7ffffea, 27⟩, ⟨0x7ffffeb, 27⟩, ⟨0xffffffe, 28⟩,
    ⟨0x7ffffec, 27⟩, ⟨0x7ffffed, 27⟩, ⟨0x7ffffee, 27⟩, ⟨0x7ffffef, 27⟩, ⟨0x7fffff0, 27⟩,
    ⟨0x3ffffee, 26⟩, ⟨0x3fffffff, 30⟩]

def huffCode (s : Sym) : HuffCode := kHuff.getD s ⟨0, 0⟩

def kEosSym : Sym := 256

def octetSym (b : UInt8) : Sym := ⟨b.toNat, Nat.lt_succ_of_lt b.toNat_lt⟩

def HuffCode.word (c : HuffCode) : List Bool := natBits c.bits c.code

/-! ## Trie -/

structure HuffNode where
  child : Bool → Option Nat := fun _ => none
  sym : Option Sym := none

/-- The decode trie (`HuffTrie`). -/
structure HuffTrie where
  nodes : List HuffNode

def HuffTrie.node (t : HuffTrie) (i : Nat) : HuffNode := t.nodes.getD i {}

def HuffTrie.addChild (t : HuffTrie) (node : Nat) (bit : Bool) : HuffTrie :=
  let c := t.nodes.length
  let nodes := t.nodes.modify node fun n => { n with child := Function.update n.child bit (some c) }
  ⟨nodes ++ [({} : HuffNode)]⟩

def HuffTrie.grow (t : HuffTrie) (node : Nat) : List Bool → HuffTrie × Nat
  | [] => (t, node)
  | bit :: bits =>
    match (t.node node).child bit with
    | some c => t.grow c bits
    | none => (t.addChild node bit).grow t.nodes.length bits

def HuffTrie.insert (t : HuffTrie) (s : Sym) : HuffTrie :=
  let (t, node) := t.grow 0 (huffCode s).word
  ⟨t.nodes.modify node fun n => { n with sym := some s }⟩

def buildTrie : HuffTrie := (List.finRange kSymCount).foldl HuffTrie.insert ⟨[{}]⟩

def kTrie : HuffTrie := buildTrie

/-! ## Automaton -/

/-- An entry of the automaton for a state and a nibble: `next`, `sym` and `fail`. -/
structure FsmEntry where
  next : Option Nat
  sym : Option Sym
  fail : Bool

/-- The loop of `build_fsm` over the bits of a nibble. -/
def fsmLoop (t : HuffTrie) : List Bool → Nat → Option Sym → Bool → FsmEntry
  | [], cur, emitted, failed => ⟨some cur, emitted, failed⟩
  | bit :: bits, cur, emitted, failed =>
    match (t.node cur).child bit with
    | none => ⟨none, emitted, failed⟩
    | some c =>
      match (t.node c).sym with
      | none => fsmLoop t bits c emitted failed
      | some s => if s = kEosSym then fsmLoop t bits 0 emitted true else fsmLoop t bits 0 (some s) failed

/-- The entry of the automaton (`build_fsm`); rows beyond the trie keep their initial values. -/
def fsmEntry (t : HuffTrie) (n v : Nat) : FsmEntry :=
  if n < t.nodes.length then fsmLoop t (natBits 4 v) n none false
  else ⟨some 0, none, false⟩

/-- The nodes along the ones below a node, at most `depth` of them. -/
def onesBelow (t : HuffTrie) : Nat → Nat → List Nat
  | 0, _ => []
  | depth + 1, node =>
    match (t.node node).child true with
    | none => []
    | some c => c :: onesBelow t depth c

/-- States at which the input may end (`pad_ok`). -/
def padOk (t : HuffTrie) (n : Nat) : Bool := n == 0 || (onesBelow t 7 0).contains n

/-! ## Decoder and encoder -/

/-- Go on at a state of the automaton; `-1` is outside of its table. -/
def gotoState (next : Option Nat) (out : Str) : Outcome (Nat × Str) :=
  match next with
  | some node => .ok (node, out)
  | none => .fault

def nibbleStep (t : HuffTrie) (cap : Nat) (node : Nat) (out : Str) (v : Nat) : Outcome (Nat × Str) :=
  let e := fsmEntry t node v
  if e.fail then .error
  else
    match e.sym with
    | none => gotoState e.next out
    | some s => if cap ≤ out.length then .error else gotoState e.next (out ++ [UInt8.ofNat s.val])

/-- The loop of `huffman_decode` over `len` octets from `src` on. -/
def huffmanLoop (t : HuffTrie) (cap : Nat) : Nat → Str → Nat → Str → Outcome (Nat × Str)
  | 0, _, node, out => .ok (node, out)
  | _ + 1, [], _, _ => .fault
  | len + 1, b :: src, node, out =>
    (nibbleStep t cap node out (b.toNat / 16)).bind fun (node, out) =>
      (nibbleStep t cap node out (b.toNat % 16)).bind fun (node, out) => huffmanLoop t cap len src node out

/-- The body of `huffman_decode` for the automaton of a trie. The result is an `i32`: a length beyond it is
negative, which the caller takes for an error. -/
def huffmanDecodeWith (t : HuffTrie) (cap : Nat) (src : Str) (len : Nat) : Outcome Str :=
  (huffmanLoop t cap len src 0 []).bind fun (node, out) =>
    if !padOk t node then .error else if out.length < 2 ^ 31 then .ok out else .error

/-- `huffman_decode` on `len` octets from `src` on. -/
def huffmanDecode (cap : Nat) (src : Str) (len : Nat) : Outcome Str := huffmanDecodeWith kTrie cap src len

def huffmanEncodedLen (src : Str) : Nat :=
  ((src.map fun b => (huffCode (octetSym b)).bits).sum + 7) / 8 % 2 ^ 32

def flushBits (acc nbits : Nat) (out : Str) : Nat × Str :=
  if 8 ≤ nbits then flushBits acc (nbits - 8) (out ++ [UInt8.ofNat (acc >>> (nbits - 8))]) else (nbits, out)

/-- The loop of `huffman_encode`; the accumulator is a `u64`. -/
def encodeLoop : Str → Nat → Nat → Str → Nat × Nat × Str
  | [], acc, nbits, out => (acc, nbits, out)
  | b :: src, acc, nbits, out =>
    let c := huffCode (octetSym b)
    let acc := (acc <<< c.bits ||| c.code) % 2 ^ 64
    let (nbits, out) := flushBits acc (nbits + c.bits) out
    encodeLoop src acc nbits out

/-- `huffman_encode`, as the octets it writes. -/
def huffmanEncode (src : Str) : Str :=
  let (acc, nbits, out) := encodeLoop src 0 0 []
  if 0 < nbits then
    let pad := 8 - nbits
    out ++ [UInt8.ofNat ((acc <<< pad ||| (2 ^ pad - 1)) % 2 ^ 64)]
  else out

end Rut.Hpack
