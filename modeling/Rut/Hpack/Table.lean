import Rut.Hpack.Codec

/-!
# Tables of HPACK

Port of the static table and of `DynamicTable` of `src/runtime/hpack.cc` and `include/rut/runtime/hpack.h`. The
octets of the dynamic table are packed in `buf` in the order of insertion; what lies behind them is left over
from earlier entries. Names and values found in the tables are views into them.
-/

namespace Rut.Hpack

/-- The static table (`kStatic`). -/
def kStatic : List (Str × Str) :=
  [(lit [':','a','u','t','h','o','r','i','t','y'], lit []),
    (lit [':','m','e','t','h','o','d'], lit ['G','E','T']),
    (lit [':','m','e','t','h','o','d'], lit ['P','O','S','T']),
    (lit [':','p','a','t','h'], lit ['/']),
    (lit [':','p','a','t','h'], lit ['/','i','n','d','e','x','.','h','t','m','l']),
    (lit [':','s','c','h','e','m','e'], lit ['h','t','t','p']),
    (lit [':','s','c','h','e','m','e'], lit ['h','t','t','p','s']),
    (lit [':','s','t','a','t','u','s'], lit ['2','0','0']),
    (lit [':','s','t','a','t','u','s'], lit ['2','0','4']),
    (lit [':','s','t','a','t','u','s'], lit ['2','0','6']),
    (lit [':','s','t','a','t','u','s'], lit ['3','0','4']),
    (lit [':','s','t','a','t','u','s'], lit ['4','0','0']),
    (lit [':','s','t','a','t','u','s'], lit ['4','0','4']),
    (lit [':','s','t','a','t','u','s'], lit ['5','0','0']),
    (lit ['a','c','c','e','p','t','-','c','h','a','r','s','e','t'], lit []),
    (lit ['a','c','c','e','p','t','-','e','n','c','o','d','i','n','g'], lit ['g',
      'z','i','p',',',' ','d','e','f','l','a','t','e']),
    (lit ['a','c','c','e','p','t','-','l','a','n','g','u','a','g','e'], lit []),
    (lit ['a','c','c','e','p','t','-','r','a','n','g','e','s'], lit []),
    (lit ['a','c','c','e','p','t'], lit []),
    (lit ['a','c','c','e','s','s','-','c','o','n','t','r','o','l','-','a','l',
      'l','o','w','-','o','r','i','g','i','n'], lit []),
    (lit ['a','g','e'], lit []),
    (lit ['a','l','l','o','w'], lit []),
    (lit ['a','u','t','h','o','r','i','z','a','t','i','o','n'], lit []),
    (lit ['c','a','c','h','e','-','c','o','n','t','r','o','l'], lit []),
    (lit ['c','o','n','t','e','n','t','-','d','i','s','p','o','s','i','t','i',
      'o','n'], lit []),
    (lit ['c','o','n','t','e','n','t','-','e','n','c','o','d','i','n','g'], lit []),
    (lit ['c','o','n','t','e','n','t','-','l','a','n','g','u','a','g','e'], lit []),
    (lit ['c','o','n','t','e','n','t','-','l','e','n','g','t','h'], lit []),
    (lit ['c','o','n','t','e','n','t','-','l','o','c','a','t','i','o','n'], lit []),
    (lit ['c','o','n','t','e','n','t','-','r','a','n','g','e'], lit []),
    (lit ['c','o','n','t','e','n','t','-','t','y','p','e'], lit []),
    (lit ['c','o','o','k','i','e'], lit []),
    (lit ['d','a','t','e'], lit []),
    (lit ['e','t','a','g'], lit []),
    (lit ['e','x','p','e','c','t'], lit []),
    (lit ['e','x','p','i','r','e','s'], lit []),
    (lit ['f','r','o','m'], lit []),
    (lit ['h','o','s','t'], lit []),
    (lit ['i','f','-','m','a','t','c','h'], lit []),
    (lit ['i','f','-','m','o','d','i','f','i','e','d','-','s','i','n','c','e'],
      lit []),
    (lit ['i','f','-','n','o','n','e','-','m','a','t','c','h'], lit []),
    (lit ['i','f','-','r','a','n','g','e'], lit []),
    (lit ['i','f','-','u','n','m','o','d','i','f','i','e','d','-','s','i','n',
      'c','e'], lit []),
    (lit ['l','a','s','t','-','m','o','d','i','f','i','e','d'], lit []),
    (lit ['l','i','n','k'], lit []),
    (lit ['l','o','c','a','t','i','o','n'], lit []),
    (lit ['m','a','x','-','f','o','r','w','a','r','d','s'], lit []),
    (lit ['p','r','o','x','y','-','a','u','t','h','e','n','t','i','c','a','t',
      'e'], lit []),
    (lit ['p','r','o','x','y','-','a','u','t','h','o','r','i','z','a','t','i',
      'o','n'], lit []),
    (lit ['r','a','n','g','e'], lit []),
    (lit ['r','e','f','e','r','e','r'], lit []),
    (lit ['r','e','f','r','e','s','h'], lit []),
    (lit ['r','e','t','r','y','-','a','f','t','e','r'], lit []),
    (lit ['s','e','r','v','e','r'], lit []),
    (lit ['s','e','t','-','c','o','o','k','i','e'], lit []),
    (lit ['s','t','r','i','c','t','-','t','r','a','n','s','p','o','r','t','-',
      's','e','c','u','r','i','t','y'], lit []),
    (lit ['t','r','a','n','s','f','e','r','-','e','n','c','o','d','i','n','g'],
      lit []),
    (lit ['u','s','e','r','-','a','g','e','n','t'], lit []),
    (lit ['v','a','r','y'], lit []),
    (lit ['v','i','a'], lit []),
    (lit ['w','w','w','-','a','u','t','h','e','n','t','i','c','a','t','e'], lit [])]

def kStaticCount : Nat := kStatic.length

def kHardCap : Nat := 4096
def kByteCap : Nat := kHardCap
def kMaxEntries : Nat := 128

/-- An entry: its octets in `buf` (`DynamicTable::Entry`). -/
structure DynEntry where
  off : Nat
  nlen : Nat
  vlen : Nat
deriving DecidableEq

/-- The dynamic table, the oldest entry first (`DynamicTable`). -/
structure DynamicTable where
  buf : Str
  ents : List DynEntry
  byteUsed : Nat
  tableSize : Nat
  maxSize : Nat
  hardMax : Nat
deriving DecidableEq

namespace DynamicTable

/-- `DynamicTable::init` on a buffer. -/
def init (buf : Str) (settingsMax : Nat) : DynamicTable :=
  let hardMax := if settingsMax ≤ kHardCap then settingsMax else kHardCap
  { buf, ents := [], byteUsed := 0, tableSize := 0, maxSize := hardMax, hardMax }

/-- `dyn_clear`. -/
def clear (d : DynamicTable) : DynamicTable := { d with ents := [], byteUsed := 0, tableSize := 0 }

/-- `dyn_evict_oldest`. -/
def evictOldest (d : DynamicTable) : DynamicTable :=
  match d.ents with
  | [] => d
  | old :: ents =>
    let blen := old.nlen + old.vlen
    { d with
      buf := (d.buf.drop blen).take (d.byteUsed - blen) ++ d.buf.drop (d.byteUsed - blen)
      ents := ents.map fun e => { e with off := e.off - blen }
      byteUsed := d.byteUsed - blen
      tableSize := d.tableSize - (old.nlen + old.vlen + 32) }

/-- Evict while a condition holds, at most `fuel` times. -/
def evictWhile (full : DynamicTable → Bool) : Nat → DynamicTable → DynamicTable
  | 0, d => d
  | fuel + 1, d => if full d then evictWhile full fuel d.evictOldest else d

/-- `dyn_set_max_size`. -/
def setMaxSize (d : DynamicTable) (m : Nat) : DynamicTable :=
  evictWhile (fun d => m < d.tableSize) d.ents.length { d with maxSize := m }

/-- `dyn_add`; a copy beyond the buffer is a fault. -/
def add (d : DynamicTable) (name value : Str) : Outcome DynamicTable :=
  let cost := (name.length + value.length + 32) % 2 ^ 32
  if d.maxSize < cost then .ok d.clear
  else
    let full (d : DynamicTable) : Bool := d.maxSize < d.tableSize + cost || kMaxEntries ≤ d.ents.length
    let d := evictWhile full d.ents.length d
    let off := d.byteUsed
    let stop := off + name.length + value.length
    if kByteCap < stop then .fault
    else .ok
      { d with
        buf := d.buf.take off ++ name ++ value ++ d.buf.drop stop
        ents := d.ents ++ [⟨off, name.length % 2 ^ 16, value.length % 2 ^ 16⟩]
        byteUsed := stop
        tableSize := d.tableSize + cost }

end DynamicTable

/-- A view: into constant storage, into the output of the decoder, or into the dynamic table. -/
inductive View where
  | const (s : Str)
  | out (off len : Nat)
  | table (off len : Nat)
deriving DecidableEq

def View.read (out : Str) (d : DynamicTable) : View → Str
  | .const s => s
  | .out off len => (out.drop off).take len
  | .table off len => (d.buf.drop off).take len

/-- `dyn_get`: the newest entry has the index 0. -/
def dynGet (d : DynamicTable) (i : Nat) : Option (View × View) :=
  (d.ents.reverse[i]?).map fun e => (.table e.off e.nlen, .table (e.off + e.nlen) e.vlen)

def resolveFull (d : DynamicTable) (idx : Nat) : Option (View × View) :=
  if idx = 0 then none
  else if idx ≤ kStaticCount then (kStatic[idx - 1]?).map fun e => (.const e.1, .const e.2)
  else dynGet d (idx - kStaticCount - 1)

def resolveName (d : DynamicTable) (idx : Nat) : Option View := (resolveFull d idx).map Prod.fst

def DynamicTable.entry (d : DynamicTable) (e : DynEntry) : Str × Str :=
  ((d.buf.drop e.off).take e.nlen, (d.buf.drop (e.off + e.nlen)).take e.vlen)

def findIndex {α : Type} (p : α → Bool) (l : List α) : Nat :=
  match l.findIdx? p with
  | some i => i + 1
  | none => 0

def staticFindFull (name value : Str) : Nat := findIndex (fun e => e == (name, value)) kStatic

def staticFindName (name : Str) : Nat := findIndex (fun e => e.1 == name) kStatic

def dynFind (d : DynamicTable) (p : Str × Str → Bool) : Nat :=
  match d.ents.reverse.findIdx? fun e => p (d.entry e) with
  | some j => kStaticCount + 1 + j
  | none => 0

def dynFindFull (d : DynamicTable) (name value : Str) : Nat := dynFind d fun e => e == (name, value)

def dynFindName (d : DynamicTable) (name : Str) : Nat := dynFind d fun e => e.1 == name

end Rut.Hpack
