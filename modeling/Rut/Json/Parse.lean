import Rut.Json.Document
import Rut.Json.Reader

/-!
# The pool holds the tree

`Document::parse` against the reader of trees: at every level the nodes taken from the pool are the
values read, linked as the tree is, and everything taken before is left as it was. Node indices
follow the order in which a text names its values, so that the indices a tree takes are known from
where it starts.
-/

namespace Rut.Json

namespace Document

def limits (d : Document) : Limits := ⟨d.source.length, kMaxNodes, true⟩

structure Sane (d : Document) : Prop where
  suffix : d.rest <:+ d.source
  bytes : d.source.length ≤ kMaxBytes
  room : d.count ≤ kMaxNodes

def slice (s : Str) (m : Span) : Str := (s.drop m.start).take (m.stop - m.start)

/-- Node `id` stands for a value or a name of this shape at this place of the source. -/
structure Shows (d : Document) (id : Nat) (mark : Span) (shape : Shape) : Prop where
  kind : (d.nodes id).kind = shape.kind
  start : (d.nodes id).start = mark.start
  stop : (d.nodes id).stop = mark.stop
  text : shape ≠ .array → shape ≠ .object → ScalarText (slice d.source mark) shape

/-- The nodes from `base` on are the values of a forest, and `head` is the first of them. A member
name has the index before the one of its value, and the values inside a value the indices behind. -/
def Holds (d : Document) : Forest Span → Nat → Option Nat → Prop
  | .nil, _, head => head = none
  | .cons name mark shape children next, base, head =>
    head = some (base + name.toList.length) ∧
    (d.nodes (base + name.toList.length)).key = name.map (fun _ => base) ∧
    (∀ n ∈ name, d.Shows base n.1 (.string n.2)) ∧
    d.Shows (base + name.toList.length) mark shape ∧
    d.Holds children (base + name.toList.length + 1) (d.nodes (base + name.toList.length)).child ∧
    d.Holds next (base + name.toList.length + 1 + children.size) (d.nodes (base + name.toList.length)).next

variable {d d' : Document} {id : Nat} {mark : Span} {shape : Shape} {f : Forest Span} {base : Nat} {head : Option Nat}

lemma Sane.drop (h : d.Sane) : d.source.drop d.p = d.rest := by
  obtain ⟨t, ht⟩ := h.suffix
  have hp : d.p = t.length := by
    rw [p, ← ht, List.length_append]
    omega
  rw [hp, ← ht, List.drop_left]

lemma Shows.congr (h : d.Shows id mark shape) (hsource : d'.source = d.source)
    (hkind : (d'.nodes id).kind = (d.nodes id).kind) (hstart : (d'.nodes id).start = (d.nodes id).start)
    (hstop : (d'.nodes id).stop = (d.nodes id).stop) : d'.Shows id mark shape := by
  obtain ⟨h₁, h₂, h₃, h₄⟩ := h
  exact ⟨hkind.trans h₁, hstart.trans h₂, hstop.trans h₃, hsource ▸ h₄⟩

lemma Holds.congr (h : d.Holds f base head) (hsource : d'.source = d.source)
    (hnodes : ∀ i, base ≤ i → i < base + f.size → d'.nodes i = d.nodes i) : d'.Holds f base head := by
  induction f generalizing base head with
  | nil => exact h
  | cons name mark shape children next ihc ihn =>
    obtain ⟨hhead, hkey, hname, hshows, hchildren, hnext⟩ := h
    rw [Forest.size] at hnodes
    have hid := hnodes (base + name.toList.length) (by omega) (by omega)
    refine ⟨hhead, by rw [hid, hkey], ?_, ?_, ?_, ?_⟩
    · intro n hn
      have hbase := hnodes base (by omega) (by omega)
      exact (hname n hn).congr hsource (by rw [hbase]) (by rw [hbase]) (by rw [hbase])
    · exact hshows.congr hsource (by rw [hid]) (by rw [hid]) (by rw [hid])
    · rw [hid]
      exact ihc hchildren fun i hlow hhigh => hnodes i (by omega) (by omega)
    · rw [hid]
      exact ihn hnext fun i hlow hhigh => hnodes i (by omega) (by omega)

lemma Shows.string {name} (h : d.Shows id mark (.string name)) (hd : d.Sane) (hid : id < d.count) (w : Writer) :
    d.string id w = w.emit name := by
  have htext := h.text (by simp) (by simp)
  have hroom := hd.room
  generalize ht : slice d.source mark = t at htext
  cases htext with
  | string hstring =>
    have hsplit : d.source.drop mark.start = t ++ (d.source.drop mark.start).drop (mark.stop - mark.start) := by
      rw [← ht, slice, List.take_append_drop]
    rw [Document.string, if_neg (by omega), if_neg (by rw [h.kind]; simp [Shape.kind]), h.start]
    cases hemit : w.emit name with
    | some w' => rw [decode_iff.2 ⟨t, name, hsplit, hstring, hemit⟩, Option.map_some]
    | none =>
      cases hdecode : decode (d.source.drop mark.start) w with
      | none => rfl
      | some r =>
        obtain ⟨t', content, hsplit', hstring', hemit'⟩ := decode_iff.1 hdecode
        obtain ⟨rfl, -⟩ := hstring.unique hstring' (hsplit.symm.trans hsplit')
        rw [hemit] at hemit'
        cases hemit'

lemma Shows.length_le {name} (h : d.Shows id mark (.string name)) (hd : d.Sane) : name.length ≤ kMaxBytes := by
  have htext := h.text (by simp) (by simp)
  have hbytes := hd.bytes
  generalize ht : slice d.source mark = t at htext
  cases htext with
  | string hstring =>
    have hle := hstring.length
    have hslice := congrArg List.length ht
    rw [slice, List.length_take, List.length_drop] at hslice
    omega

lemma Shows.content {name} (h : d.Shows id mark (.string name)) (hd : d.Sane) (hid : id < d.count) :
    d.content id = some name := by
  rw [Document.content, h.string hd hid, Writer.emit_fresh (h.length_le hd)]
  rfl

/-! ## The chain of the items parsed so far -/

/-- Following `next` from `head` visits these nodes. -/
def Chain (d : Document) : List Nat → Option Nat → Prop
  | [], head => head = none
  | n :: ids, head => head = some n ∧ d.Chain ids (d.nodes n).next

/-- The items of node `id` so far: a chain of nodes behind it that ends with `last`, with the names
`seen` in an object. -/
structure Linked (d : Document) (id : Nat) (last : Option Nat) (obj : Bool) (seen : List Str) (ids : List Nat) : Prop where
  chain : d.Chain ids (d.nodes id).child
  last : ids.getLast? = last
  nodup : ids.Nodup
  range : ∀ n ∈ ids, id < n ∧ n < d.count
  names : obj = true → List.Forall₂ (fun n s => (d.nodes n).key.bind d.content = some s) ids seen

variable {ids : List Nat} {last : Option Nat} {obj : Bool} {seen : List Str}

lemma Chain.congr (h : d.Chain ids head) (hnext : ∀ n ∈ ids, (d'.nodes n).next = (d.nodes n).next) :
    d'.Chain ids head := by
  induction ids generalizing head with
  | nil => exact h
  | cons n ids ih =>
    refine ⟨h.1, ?_⟩
    rw [hnext n (by simp)]
    exact ih h.2 fun m hm => hnext m (by simp [hm])

lemma Chain.snoc {n child} (h : d.Chain (ids ++ [n]) head) (hnext : (d'.nodes n).next = some child)
    (hsame : ∀ m ∈ ids, (d'.nodes m).next = (d.nodes m).next) (hchild : (d'.nodes child).next = none) :
    d'.Chain (ids ++ [n] ++ [child]) head := by
  induction ids generalizing head with
  | nil => exact ⟨h.1, hnext, hchild⟩
  | cons m ids ih =>
    refine ⟨h.1, ?_⟩
    rw [hsame m (by simp)]
    exact ih h.2 fun i hi => hsame i (by simp [hi])

lemma content_lt {k s} (h : d.content k = some s) : k < d.count := by
  rw [content, string] at h
  split at h
  next => cases h
  next hk => omega

lemma content_congr {k s} (h : d.content k = some s) (hsource : d'.source = d.source)
    (hnode : (d'.nodes k).kind = (d.nodes k).kind ∧ (d'.nodes k).start = (d.nodes k).start) (hcount : d.count ≤ d'.count) :
    d'.content k = some s := by
  rw [content, string] at h ⊢
  rw [hsource, hnode.1, hnode.2]
  split at h
  next => cases h
  next hk => rwa [if_neg (by omega)]

lemma nameTaken_eq {key turns} (h : d.Chain ids head) (hturns : ids.length ≤ turns) :
    d.nameTaken key turns head = ids.any fun n => d.keyEqual (d.nodes n).key key := by
  induction ids generalizing head turns with
  | nil =>
    cases h
    cases turns <;> rfl
  | cons n ids ih =>
    obtain ⟨rfl, hnext⟩ := h
    cases turns with
    | zero => cases hturns
    | succ turns => rw [nameTaken, List.any_cons, ih hnext (by simpa using hturns)]

lemma Linked.nameTaken {key m} (h : d.Linked id last true seen ids) (hkey : d.content key = some m) :
    d.nameTaken key d.count (d.nodes id).child = seen.contains m := by
  have hlen : ids.length ≤ d.count := by
    have hsub : ids ⊆ List.range d.count := fun n hn => List.mem_range.2 (h.range n hn).2
    have := (List.subperm_of_subset h.nodup hsub).length_le
    rwa [List.length_range] at this
  rw [nameTaken_eq h.chain hlen]
  have hnames := h.names rfl
  clear h hlen
  induction hnames with
  | nil => rfl
  | @cons n s ids seen hn _ ih =>
    rw [List.any_cons, ih, List.contains_cons, keyEqual, hn, hkey, Bool.beq_comm]

/-! ## Names -/

structure Parsed (d : Document) (r : Document × Option Nat) (v : Value Span) (used : Nat) (rest : Str) : Prop where
  id : r.2 = some d.count
  valid : r.1.valid = true
  count : r.1.count = used
  rest : r.1.rest = rest
  source : r.1.source = d.source
  same : ∀ i < d.count, r.1.nodes i = d.nodes i
  next : (r.1.nodes d.count).next = none
  shows : r.1.Shows d.count v.mark v.shape
  holds : r.1.Holds v.children (d.count + 1) (r.1.nodes d.count).child

def Simulates (lim : Limits) (parse : Document → Document × Option Nat) (read : Nat → Str → Read (Value Span)) : Prop :=
  ∀ d : Document, d.Sane → d.valid = true → d.limits = lim →
    match read d.count d.rest with
    | none => (parse d).2 = none ∧ (parse d).1.valid = false
    | some (v, used, rest) => d.Parsed (parse d) v used rest

structure Named (d : Document) (r : Document × Option Nat) (name : Option (Span × Str)) (used : Nat) (rest : Str) :
    Prop where
  key : r.2 = name.map fun _ => d.count
  valid : r.1.valid = true
  count : r.1.count = used
  rest : r.1.rest = rest
  source : r.1.source = d.source
  same : ∀ i < d.count, r.1.nodes i = d.nodes i
  shows : ∀ n ∈ name, r.1.Shows d.count n.1 (.string n.2)

variable {lim : Limits} {left : Nat} {parse : Document → Document × Option Nat} {read : Nat → Str → Read (Value Span)}

lemma suffix_whitespace (s : Str) : whitespace s <:+ s := List.dropWhile_suffix _

lemma suffix_take {c s rest} (h : take c s = some rest) : rest <:+ s := by
  rw [take_eq_some.1 h]
  exact List.suffix_cons c rest

lemma Sane.goto (h : d.Sane) {rest : Str} (hrest : rest <:+ d.rest) : (d.goto rest).Sane :=
  ⟨hrest.trans h.suffix, h.bytes, h.room⟩

lemma Sane.skip (h : d.Sane) : d.skip.Sane := h.goto (suffix_whitespace _)

lemma Sane.length (h : d.Sane) (hlim : d.limits = lim) : d.rest.length ≤ lim.length := by
  rw [← hlim]
  exact h.suffix.length_le

lemma Parsed.sane (hsound : lim.SoundValue left read) (hd : d.Sane) (hlim : d.limits = lim) {v used rest} (hread : read d.count d.rest = some (v, used, rest)) {r}
    (h : d.Parsed r v used rest) : r.1.Sane ∧ r.1.limits = lim ∧ used = d.count + v.size := by
  obtain ⟨w, t, htext, -, -, hused, hroom, -⟩ := hsound _ _ _ _ _ (hd.length hlim) hread
  have hnodes : lim.nodes = kMaxNodes := by rw [← hlim]; rfl
  refine ⟨⟨?_, ?_, ?_⟩, ?_, hused⟩
  · rw [h.rest, h.source]
    refine List.IsSuffix.trans ?_ hd.suffix
    rw [htext, ← List.append_assoc]
    exact List.suffix_append _ _
  · rw [h.source]
    exact hd.bytes
  · rw [h.count, ← hnodes]
    exact hroom (by rw [hnodes]; exact hd.room)
  · rw [limits, h.source]
    exact hlim

lemma Linked.congr (h : d.Linked id last obj seen ids) (hid : id < d.count) (hsource : d'.source = d.source)
    (hsame : ∀ i < d.count, d'.nodes i = d.nodes i) (hcount : d.count ≤ d'.count) : d'.Linked id last obj seen ids := by
  refine ⟨?_, h.last, h.nodup, fun n hn => ⟨(h.range n hn).1, by have := (h.range n hn).2; omega⟩, ?_⟩
  · rw [hsame id hid]
    exact h.chain.congr fun n hn => by rw [hsame n (h.range n hn).2]
  · intro hobj
    refine List.Forall₂.imp ?_ ((List.forall₂_and_left ids seen).2 ⟨fun n hn => (h.range n hn).2, h.names hobj⟩)
    rintro n s ⟨hn, hs⟩
    rw [hsame n hn]
    rw [Option.bind_eq_some_iff] at hs ⊢
    obtain ⟨k, hk, hcontent⟩ := hs
    have hlt := content_lt hcontent
    exact ⟨k, hk, content_congr hcontent hsource (by rw [hsame k hlt]; exact ⟨rfl, rfl⟩) hcount⟩

lemma memberName_spec (hsim : Simulates lim parse read) (hsound : lim.SoundValue left read) (hd : d.Sane)
    (hvalid : d.valid = true) (hlim : d.limits = lim) (hid : id < d.count) (hlinked : d.Linked id last true seen ids) :
    match lim.readName read true seen d.count d.rest with
    | none => (memberName parse id d).1.valid = false
    | some (name, used, rest) => d.Named (memberName parse id d) name used rest := by
  have hparse := hsim d.skip hd.skip hvalid hlim
  have hskip : d.skip.rest = whitespace d.rest := rfl
  have hcount : d.skip.count = d.count := rfl
  rw [hskip, hcount] at hparse
  simp only [Limits.readName, memberName, hskip]
  cases hquote : take (ch '"') (whitespace d.rest) with
  | none => rfl
  | some s =>
    generalize parse d.skip = r at hparse
    obtain ⟨d₁, key⟩ := r
    cases hread : read d.count (whitespace d.rest) with
    | none =>
      rw [hread] at hparse
      obtain ⟨rfl, -⟩ := hparse
      rfl
    | some x =>
      obtain ⟨⟨mark, shape, children⟩, used, rest⟩ := x
      rw [hread] at hparse
      obtain ⟨hsane, hlim₁, hused⟩ := Parsed.sane hsound hd.skip hlim hread hparse
      obtain ⟨m, rfl⟩ := hsound.string (hd.skip.length hlim) (take_eq_some.1 hquote) hread
      obtain ⟨rfl, hvalid₁, rfl, rfl, hsource, hsame, hnext, hshows, -⟩ := hparse
      simp only [hcount, Value.size] at hsource hsame hshows hused ⊢
      have hcolon : d₁.skip.rest = whitespace d₁.rest := rfl
      simp only [hcolon]
      cases hc : take (ch ':') (whitespace d₁.rest) with
      | none => rfl
      | some rest =>
        -- the pool looks for the name among the items linked so far
        have hlinked₁ : (d₁.skip.goto rest).Linked id last true seen ids :=
          hlinked.congr hid hsource hsame (by rw [Document.goto, Document.skip, Document.goto]; simp only; omega)
        have hcontent : (d₁.skip.goto rest).content d.count = some m :=
          Shows.content (hshows.congr rfl rfl rfl rfl : (d₁.skip.goto rest).Shows d.count mark (.string m))
            (hsane.skip.goto (suffix_take hc)) (by rw [Document.goto, Document.skip, Document.goto]; simp only; omega)
        have htaken := hlinked₁.nameTaken hcontent
        simp only [htaken, ← hlim, limits, Bool.true_and]
        cases hseen : seen.contains m with
        | true => rfl
        | false =>
          refine ⟨rfl, hvalid₁, rfl, rfl, hsource, hsame, ?_⟩
          rintro n ⟨⟩
          exact hshows.congr rfl rfl rfl rfl

lemma itemName_spec (hsim : Simulates lim parse read) (hsound : lim.SoundValue left read) (hd : d.Sane)
    (hvalid : d.valid = true) (hlim : d.limits = lim) (hid : id < d.count) (hlinked : d.Linked id last obj seen ids) :
    match lim.readName read obj seen d.count d.rest with
    | none => (if obj then memberName parse id d else (d, none)).1.valid = false
    | some (name, used, rest) => d.Named (if obj then memberName parse id d else (d, none)) name used rest := by
  cases obj with
  | true => exact memberName_spec hsim hsound hd hvalid hlim hid hlinked
  | false => exact ⟨rfl, hvalid, rfl, rfl, rfl, fun _ _ => rfl, by simp⟩

lemma Named.sane (hsound : lim.SoundValue left read) (hd : d.Sane) (hlim : d.limits = lim) {name used rest}
    (hread : lim.readName read obj seen d.count d.rest = some (name, used, rest)) {r}
    (h : d.Named r name used rest) : r.1.Sane ∧ r.1.limits = lim ∧ used = d.count + name.toList.length := by
  obtain ⟨n, htext, -, hused, hroom, -⟩ := Limits.readName_sound hsound (hd.length hlim) hread
  have hnodes : lim.nodes = kMaxNodes := by rw [← hlim]; rfl
  refine ⟨⟨?_, ?_, ?_⟩, ?_, hused⟩
  · rw [h.rest, h.source]
    refine List.IsSuffix.trans ?_ hd.suffix
    rw [htext]
    exact List.suffix_append _ _
  · rw [h.source]
    exact hd.bytes
  · rw [h.count, ← hnodes]
    exact hroom (by rw [hnodes]; exact hd.room)
  · rw [limits, h.source]
    exact hlim

/-! ## The loop -/

def target (id : Nat) (last : Option Nat) : Nat := last.getD id

def linked (n : Node) (last head : Option Nat) : Node :=
  match last with
  | none => { n with child := head }
  | some _ => { n with next := head }

lemma link_eq (d : Document) (id : Nat) (last : Option Nat) (child : Nat) :
    d.link id last child = d.setNode (target id last) (linked (d.nodes (target id last)) last (some child)) := by
  cases last <;> rfl

/-- The items were parsed into the nodes from the next one on, and linked. -/
structure Looped (d : Document) (id : Nat) (last : Option Nat) (d' : Document) (f : Forest Span) (used : Nat) (rest : Str) :
    Prop where
  valid : d'.valid = true
  count : d'.count = used
  rest : d'.rest = rest
  source : d'.source = d.source
  same : ∀ i < d.count, i ≠ target id last → d'.nodes i = d.nodes i
  link : ∃ head, d'.nodes (target id last) = linked (d.nodes (target id last)) last head ∧ d'.Holds f d.count head

def addItem (d : Document) (id : Nat) (last key : Option Nat) (child : Nat) : Document :=
  (d.setNode child { d.nodes child with key := key }).link id last child

@[simp] lemma addItem_child {key child} (h : target id last ≠ child) :
    (d.addItem id last key child).nodes child = { d.nodes child with key := key } := by
  rw [addItem, link_eq]
  simp [setNode, Function.update_of_ne h.symm]

lemma addItem_target {key child} (h : target id last ≠ child) :
    (d.addItem id last key child).nodes (target id last) = linked (d.nodes (target id last)) last (some child) := by
  rw [addItem, link_eq]
  simp [setNode, Function.update_of_ne h]

lemma addItem_other {key child i} (ht : i ≠ target id last) (hc : i ≠ child) :
    (d.addItem id last key child).nodes i = d.nodes i := by
  rw [addItem, link_eq]
  simp [setNode, Function.update_of_ne ht, Function.update_of_ne hc]

lemma eq_with_next {n : Node} (h : n.next = none) : n = { n with next := none } := by
  obtain ⟨kind, start, stop, child, next, key⟩ := n
  cases h
  rfl

@[simp] lemma linked_same (n : Node) (last head : Option Nat) :
    (linked n last head).kind = n.kind ∧ (linked n last head).start = n.start ∧ (linked n last head).stop = n.stop ∧
      (linked n last head).key = n.key := by
  cases last <;> exact ⟨rfl, rfl, rfl, rfl⟩

lemma addItem_text {key child} (h : target id last ≠ child) (i : Nat) :
    ((d.addItem id last key child).nodes i).kind = (d.nodes i).kind ∧
      ((d.addItem id last key child).nodes i).start = (d.nodes i).start ∧
      ((d.addItem id last key child).nodes i).stop = (d.nodes i).stop := by
  rcases eq_or_ne i child with rfl | hc
  · rw [addItem_child h]
    exact ⟨rfl, rfl, rfl⟩
  · rcases eq_or_ne i (target id last) with rfl | ht
    · obtain ⟨hkind, hstart, hstop, -⟩ := linked_same (d.nodes (target id last)) last (some child)
      rw [addItem_target h]
      exact ⟨hkind, hstart, hstop⟩
    · rw [addItem_other ht hc]
      exact ⟨rfl, rfl, rfl⟩

lemma addItem_key {key child i} (h : target id last ≠ child) (hi : i ≠ child) :
    ((d.addItem id last key child).nodes i).key = (d.nodes i).key := by
  rcases eq_or_ne i (target id last) with rfl | ht
  · rw [addItem_target h]
    exact (linked_same _ _ _).2.2.2
  · rw [addItem_other ht hi]

lemma addItem_source (d : Document) (id : Nat) (last key : Option Nat) (child : Nat) :
    (d.addItem id last key child).source = d.source ∧ (d.addItem id last key child).count = d.count ∧
      (d.addItem id last key child).valid = d.valid ∧ (d.addItem id last key child).rest = d.rest := by
  rw [addItem, link_eq]
  exact ⟨rfl, rfl, rfl, rfl⟩

lemma Linked.target_lt (h : d.Linked id last obj seen ids) (hid : id < d.count) : target id last < d.count := by
  cases hlast : last with
  | none => exact hid
  | some l =>
    have hl := h.last
    rw [hlast] at hl
    exact (h.range l (List.mem_of_getLast? hl)).2

lemma Linked.addItem {name : Option (Span × Str)} {key child} (h : d.Linked id last obj seen ids)
    (hid : id < child) (hcount : child < d.count) (hnew : ∀ n ∈ ids, n < child) (hnext : (d.nodes child).next = none)
    (hname : obj = true → ∃ m, (name.map Prod.snd).toList = [m] ∧ key.bind d.content = some m) :
    (d.addItem id last key child).Linked id (some child) obj (seen ++ (name.map Prod.snd).toList) (ids ++ [child]) := by
  obtain ⟨hsource, hcount', -, -⟩ := addItem_source d id last key child
  have htarget : target id last < child := by
    cases hlast : last with
    | none => exact hid
    | some l =>
      have hl := h.last
      rw [hlast] at hl
      exact hnew l (List.mem_of_getLast? hl)
  have hne : target id last ≠ child := by omega
  have hend : ((d.addItem id last key child).nodes child).next = none := by rw [addItem_child hne]; exact hnext
  refine ⟨?_, by simp, ?_, ?_, ?_⟩
  · rcases List.eq_nil_or_concat ids with rfl | ⟨ids, l, rfl⟩
    · -- the first item
      have hlast := h.last
      subst hlast
      exact ⟨congrArg Node.child (addItem_target hne), hend⟩
    · have hlast := h.last
      rw [List.concat_eq_append, List.getLast?_concat] at hlast
      subst hlast
      rw [List.concat_eq_append] at h ⊢
      have hlid : id ≠ l := by have := (h.range l (by simp)).1; omega
      have hl : ((d.addItem id (some l) key child).nodes l).next = some child :=
        congrArg Node.next (addItem_target hne)
      rw [addItem_other (by exact hlid) (by omega)]
      apply h.chain.snoc hl _ hend
      intro m hm
      have hml : m ≠ l := by
        rintro rfl
        have := h.nodup
        rw [List.nodup_append] at this
        exact this.2.2 m hm m (by simp) rfl
      rw [addItem_other (by exact hml) (by have := hnew m (by simp [hm]); omega)]
  · rw [List.nodup_append]
    refine ⟨h.nodup, by simp, ?_⟩
    rintro n hn m hm rfl
    simp only [List.mem_singleton] at hm
    have := hnew n hn
    omega
  · intro n hn
    rw [hcount']
    rcases List.mem_append.1 hn with hn | hn
    · exact h.range n hn
    · simp only [List.mem_singleton] at hn
      subst hn
      exact ⟨hid, hcount⟩
  · intro hobj
    have hcontent : ∀ {k s}, d.content k = some s → (d.addItem id last key child).content k = some s := by
      intro k s hs
      obtain ⟨hkind, hstart, -⟩ := @addItem_text d id last key child hne k
      exact content_congr hs hsource ⟨hkind, hstart⟩ hcount'.ge
    obtain ⟨m, hm, hkey⟩ := hname hobj
    rw [hm]
    apply List.rel_append
    · refine List.Forall₂.imp ?_ ((List.forall₂_and_left ids seen).2 ⟨hnew, h.names hobj⟩)
      rintro n s ⟨hn, hs⟩
      rw [addItem_key hne (by omega)]
      rw [Option.bind_eq_some_iff] at hs ⊢
      obtain ⟨k, hk, hk'⟩ := hs
      exact ⟨k, hk, hcontent hk'⟩
    · refine .cons ?_ .nil
      rw [addItem_child hne]
      rw [Option.bind_eq_some_iff] at hkey ⊢
      obtain ⟨k, hk, hk'⟩ := hkey
      exact ⟨k, hk, hcontent hk'⟩

lemma holds_item {d₁ d₂ name v key head}
    (hname : d.Named (d₁, key) name d₁.count d₁.rest) (hvalue : d₁.Parsed (d₂, some d₁.count) v d₂.count d₂.rest)
    (htarget : target id last < d.count) (hcount₁ : d₁.count = d.count + name.toList.length)
    (hcount₂ : d₂.count = d₁.count + v.size) (hsource : d'.source = d₂.source)
    (hsame : ∀ i < d₂.count, i ≠ d₁.count → d'.nodes i = (d₂.addItem id last key d₁.count).nodes i)
    (hchild : d'.nodes d₁.count = { (d₂.addItem id last key d₁.count).nodes d₁.count with next := head })
    (hholds : d'.Holds f d₂.count head) :
    (∀ i < d.count, i ≠ target id last → d'.nodes i = d.nodes i) ∧
      ∃ head, d'.nodes (target id last) = linked (d.nodes (target id last)) last head ∧
        d'.Holds (.item name v f) d.count head := by
  have hne : target id last ≠ d₁.count := by omega
  rw [addItem_child hne] at hchild
  rw [Value.size] at hcount₂
  -- the nodes taken for the name and inside the value are as they were parsed
  have hinside : ∀ i, d.count ≤ i → i < d₂.count → i ≠ d₁.count → d'.nodes i = d₂.nodes i := by
    intro i hlow hhigh hi
    rw [hsame i hhigh hi, addItem_other (by omega) hi]
  refine ⟨?_, some d₁.count, ?_, ?_⟩
  · intro i hi ht
    rw [hsame i (by omega) (by omega), addItem_other ht (by omega), hvalue.same i (by omega), hname.same i hi]
  · rw [hsame _ (by omega) hne, addItem_target hne, hvalue.same _ (by omega), hname.same _ htarget]
  · have hsource₂ := hvalue.source
    refine ⟨by rw [hcount₁], ?_, ?_, ?_, ?_, ?_⟩
    · rw [← hcount₁, hchild, ← hname.key]
    · intro n hn
      have hlt : d.count < d₁.count := by rw [hcount₁, hn]; simp
      have hkey : d'.nodes d.count = d₁.nodes d.count := by
        rw [hinside d.count (Nat.le_refl _) (by omega) (by omega), hvalue.same _ hlt]
      exact (hname.shows n hn).congr (hsource.trans hsource₂) (by rw [hkey]) (by rw [hkey]) (by rw [hkey])
    · rw [← hcount₁]
      exact hvalue.shows.congr hsource (by rw [hchild]) (by rw [hchild]) (by rw [hchild])
    · rw [← hcount₁, hchild]
      exact hvalue.holds.congr hsource fun i hlow hhigh => hinside i (by omega) (by omega) (by omega)
    · rw [← hcount₁, hchild, Nat.add_right_comm, Nat.add_assoc, ← hcount₂]
      exact hholds

lemma Linked.goOn {d₁ d₂ name v key}
    (h : d.Linked id last obj seen ids) (hsane : d₁.Sane) (hname : d.Named (d₁, key) name d₁.count d₁.rest)
    (hvalue : d₁.Parsed (d₂, some d₁.count) v d₂.count d₂.rest) (hid : id < d.count)
    (hcount₁ : d₁.count = d.count + name.toList.length) (hcount₂ : d₂.count = d₁.count + v.size)
    (hobj : obj = true → ∃ n, name = some n) :
    (d₂.addItem id last key d₁.count).Linked id (some d₁.count) obj (seen ++ (name.map Prod.snd).toList)
      (ids ++ [d₁.count]) := by
  rw [Value.size] at hcount₂
  have hlinked : d₂.Linked id last obj seen ids := by
    apply h.congr hid (hvalue.source.trans hname.source) _ (show d.count ≤ d₂.count by omega)
    intro i hi
    rw [hvalue.same i (by omega), hname.same i hi]
  apply hlinked.addItem (by omega) (by omega) _ hvalue.next
  · intro hobj'
    obtain ⟨n, rfl⟩ := hobj hobj'
    have hlt : d.count < d₁.count := by rw [hcount₁]; simp
    have hcontent := (hname.shows n rfl).content hsane hlt
    have hkey := hname.key
    simp only [Option.map_some] at hkey
    refine ⟨n.2, rfl, ?_⟩
    rw [hkey, Option.bind_some]
    have hsame := hvalue.same d.count hlt
    exact content_congr hcontent hvalue.source (by rw [hsame]; exact ⟨rfl, rfl⟩) (show d₁.count ≤ d₂.count by omega)
  · intro n hn
    have := (h.range n hn).2
    omega

lemma itemsLoop_spec (hsim : Simulates lim parse read) (hsound : lim.SoundValue left read) (turns : Nat) (hd : d.Sane)
    (hvalid : d.valid = true) (hlim : d.limits = lim) (hid : id < d.count) (hlinked : d.Linked id last obj seen ids) :
    match lim.readItems read obj turns seen d.count d.rest with
    | none => (itemsLoop parse obj id turns last d).valid = false
    | some (f, used, rest) => d.Looped id last (itemsLoop parse obj id turns last d) f used rest := by
  induction turns generalizing d last seen ids with
  | zero => rfl
  | succ turns ih =>
    have hname := itemName_spec hsim hsound hd hvalid hlim hid hlinked
    rw [itemsLoop, Limits.readItems]
    generalize (if obj = true then memberName parse id d else (d, none)) = r at hname
    obtain ⟨d₁, key⟩ := r
    cases hreadName : lim.readName read obj seen d.count d.rest with
    | none =>
      rw [hreadName] at hname
      simp only at hname
      simp [hname]
    | some x =>
      obtain ⟨name, used₁, rest₁⟩ := x
      rw [hreadName] at hname
      obtain ⟨hd₁, hlim₁, hused₁⟩ := Named.sane hsound hd hlim hreadName hname
      obtain rfl := hname.count
      obtain rfl := hname.rest
      have hvalid₁ := hname.valid
      simp only at hname hused₁ hd₁ hlim₁ hvalid₁
      have hvalue := hsim d₁ hd₁ hvalid₁ hlim₁
      simp only [hvalid₁, Bool.not_true, Bool.false_eq_true, if_false]
      generalize parse d₁ = r at hvalue
      obtain ⟨d₂, child⟩ := r
      cases hread : read d₁.count d₁.rest with
      | none =>
        rw [hread] at hvalue
        obtain ⟨rfl, -⟩ := hvalue
        rfl
      | some x =>
        obtain ⟨v, used₂, rest₂⟩ := x
        rw [hread] at hvalue
        obtain ⟨hd₂, hlim₂, hused₂⟩ := Parsed.sane hsound hd₁ hlim₁ hread hvalue
        obtain rfl := hvalue.id
        obtain rfl := hvalue.count
        obtain rfl := hvalue.rest
        have hvalid₂ := hvalue.valid
        simp only at hvalue hused₂ hd₂ hlim₂ hvalid₂ ⊢
        have htarget := hlinked.target_lt hid
        have hsource₂ : d₂.source = d.source := hvalue.source.trans hname.source
        obtain ⟨hsource₃, hcount₃, hvalid₃, hrest₃⟩ := addItem_source d₂ id last key d₁.count
        have hadd : (d₂.setNode d₁.count { d₂.nodes d₁.count with key := key }).link id last d₁.count =
            d₂.addItem id last key d₁.count := rfl
        have hskip : (d₂.addItem id last key d₁.count).skip.rest = whitespace d₂.rest := by rw [← hrest₃]; rfl
        rw [hadd, hskip]
        cases hclose : take (closing obj) (whitespace d₂.rest) with
        | some rest =>
          -- the last item: nothing is linked behind it
          have hend : (d₂.addItem id last key d₁.count).nodes d₁.count =
              { (d₂.addItem id last key d₁.count).nodes d₁.count with next := none } := by
            apply eq_with_next
            rw [addItem_child (by omega)]
            exact hvalue.next
          have hnil : ((d₂.addItem id last key d₁.count).skip.goto rest).Holds .nil d₂.count none := rfl
          have hsource : ((d₂.addItem id last key d₁.count).skip.goto rest).source = d₂.source := hsource₃
          obtain ⟨hsame, hlink⟩ := holds_item hname hvalue htarget hused₁ hused₂ hsource (fun _ _ _ => rfl) hend hnil
          exact ⟨hvalid₃.trans hvalid₂, hcount₃, rfl, hsource₃.trans hsource₂, hsame, hlink⟩
        | none =>
          cases hcomma : take (ch ',') (whitespace d₂.rest) with
          | none => rfl
          | some rest =>
            simp only
            have hd₄ : ((d₂.addItem id last key d₁.count).skip.goto rest).Sane := by
              have hd₃ : (d₂.addItem id last key d₁.count).Sane :=
                ⟨by rw [hrest₃, hsource₃]; exact hd₂.suffix, by rw [hsource₃]; exact hd₂.bytes,
                  by rw [hcount₃]; exact hd₂.room⟩
              apply hd₃.skip.goto
              rw [hskip]
              exact suffix_take hcomma
            have hlim₄ : ((d₂.addItem id last key d₁.count).skip.goto rest).limits = lim := by
              rw [← hlim₂, limits, limits, ← hsource₃]
              rfl
            have hobj : obj = true → ∃ n, name = some n := by
              rintro rfl
              obtain ⟨n, -, hn, -⟩ := Limits.readName_sound hsound (hd.length hlim) hreadName
              cases hn
              exact ⟨_, rfl⟩
            have hlinked₄ : ((d₂.addItem id last key d₁.count).skip.goto rest).Linked id (some d₁.count) obj
                (seen ++ (name.map Prod.snd).toList) (ids ++ [d₁.count]) :=
              (hlinked.goOn hd₁ hname hvalue hid hused₁ hused₂ hobj).congr (by omega) rfl (fun _ _ => rfl) (Nat.le_refl _)
            have hcount₄ : ((d₂.addItem id last key d₁.count).skip.goto rest).count = d₂.count := hcount₃
            have hmore := ih hd₄ (hvalid₃.trans hvalid₂) hlim₄ (by omega) hlinked₄
            rw [hcount₄, show ((d₂.addItem id last key d₁.count).skip.goto rest).rest = rest from rfl] at hmore
            cases hreadMore : lim.readItems read obj turns (seen ++ (name.map Prod.snd).toList) d₂.count rest with
            | none =>
              rw [hreadMore] at hmore
              exact hmore
            | some x =>
              rw [hreadMore] at hmore
              obtain ⟨hvalid₅, hcount₅, hrest₅, hsource₅, hsame₅, head, hhead, hholds⟩ := hmore
              rw [hcount₄] at hsame₅ hholds
              obtain ⟨hsame, hlink⟩ := holds_item hname hvalue htarget hused₁ hused₂ (hsource₅.trans hsource₃) hsame₅
                hhead hholds
              exact ⟨hvalid₅, hcount₅, hrest₅, hsource₅.trans (hsource₃.trans hsource₂), hsame, hlink⟩

/-! ## Values -/

lemma decode_scratch {s} (hs : s.length ≤ kMaxBytes) :
    (decode s (.fresh kMaxBytes)).map Prod.fst = (decode s (.fresh s.length)).map Prod.fst := by
  have hcap : ∀ cap cap' rest, s.length ≤ cap' → (decode s (.fresh cap)).map Prod.fst = some rest →
      (decode s (.fresh cap')).map Prod.fst = some rest := by
    intro cap cap' rest hle h
    rw [Option.map_eq_some_iff] at h
    obtain ⟨⟨rest, w⟩, hdecode, rfl⟩ := h
    obtain ⟨t, content, rfl, ht, -⟩ := decode_iff.1 hdecode
    have hlen : content.length ≤ cap' := by
      have := ht.length
      rw [List.length_append] at hle
      omega
    rw [decode_iff.2 ⟨t, content, rfl, ht, Writer.emit_fresh hlen⟩]
    rfl
  rw [Option.ext_iff]
  intro rest
  exact ⟨hcap _ _ rest (Nat.le_refl _), hcap _ _ rest hs⟩

lemma token_eq {c s} (hs : s.length ≤ kMaxBytes) :
    match readScalar c s with
    | none => (token c s).2 = none
    | some (shape, rest) => token c s = (shape.kind, some rest) := by
  rw [readScalar, token, decode_scratch hs]
  split_ifs
  · cases decode s (.fresh s.length) <;> rfl
  · cases literal nullToken s <;> rfl
  · cases literal trueToken s <;> rfl
  · cases literal falseToken s <;> rfl
  · cases number s <;> rfl

lemma finish_invalid {body : Document} (h : body.valid = false) (id : Nat) :
    (body.finish id).2 = none ∧ (body.finish id).1.valid = false := by
  have hvalid : (body.finish id).1.valid = false := h
  refine ⟨?_, hvalid⟩
  rw [finish] at hvalid ⊢
  rw [hvalid]
  rfl

/-- The end of `parse_value`, for a value whose node is complete up to its end. -/
lemma finish_parsed {body : Document} {v used rest} (hvalid : body.valid = true)
    (hcount : body.count = used) (hrest : body.rest = rest) (hsource : body.source = d.source)
    (hsame : ∀ i < d.count, body.nodes i = d.nodes i) (hnext : (body.nodes d.count).next = none)
    (hkind : (body.nodes d.count).kind = v.shape.kind) (hstart : (body.nodes d.count).start = v.mark.start)
    (hstop : body.p = v.mark.stop)
    (htext : v.shape ≠ .array → v.shape ≠ .object → ScalarText (slice d.source v.mark) v.shape)
    (hholds : body.Holds v.children (d.count + 1) (body.nodes d.count).child) :
    d.Parsed (body.finish d.count) v used rest := by
  have hid : (body.finish d.count).1.nodes d.count = { body.nodes d.count with stop := body.p } := Function.update_self ..
  have hother : ∀ i, i ≠ d.count → (body.finish d.count).1.nodes i = body.nodes i :=
    fun i hi => Function.update_of_ne hi _ _
  refine ⟨?_, hvalid, hcount, hrest, hsource, ?_, ?_, ⟨?_, ?_, ?_, ?_⟩, ?_⟩
  · exact if_pos hvalid
  · intro i hi
    rw [hother i (by omega), hsame i hi]
  · rw [hid]
    exact hnext
  · rw [hid]
    exact hkind
  · rw [hid]
    exact hstart
  · rw [hid]
    exact hstop
  · intro harray hobject
    exact (congrArg (slice · v.mark) hsource).symm ▸ htext harray hobject
  · rw [hid]
    exact hholds.congr rfl fun i hlow _ => hother i (by omega)

lemma Sane.slice (h : d.Sane) {t after} (ht : d.rest = t ++ after) :
    slice d.source (d.limits.span d.rest after) = t := by
  have hlen := h.suffix.length_le
  rw [ht, List.length_append] at hlen
  have hdrop := h.drop
  rw [p] at hdrop
  rw [Document.slice, Limits.span]
  simp only [limits]
  rw [hdrop, ht, List.length_append, List.take_append_of_le_length (by omega), List.take_of_length_le (by omega)]

lemma alloc_nodes (d : Document) (kind : Kind) (rest : Str) :
    let body := (d.alloc.setNode d.count { d.alloc.nodes d.count with kind := kind }).goto rest
    body.nodes d.count = { start := d.p, kind := kind } ∧ (∀ i, i ≠ d.count → body.nodes i = d.nodes i) ∧
      body.count = d.count + 1 ∧ body.source = d.source ∧ body.valid = d.valid ∧ body.rest = rest := by
  refine ⟨?_, ?_, rfl, rfl, rfl, rfl⟩
  · simp [goto, setNode, alloc]
  · intro i hi
    simp [goto, setNode, alloc, Function.update_of_ne hi]

lemma parseScalar_spec (parse : Document → Document × Option Nat) {c} {tail : Str} (hd : d.Sane) (hvalid : d.valid = true) (hlim : d.limits = lim)
    (hrest : d.rest = c :: tail) (hopen : ¬ (c = ch '[' ∨ c = ch '{')) :
    match readScalar c (c :: tail) with
    | none => (parseBody parse d.count c d.alloc).valid = false
    | some (shape, after) =>
      d.Parsed ((parseBody parse d.count c d.alloc).finish d.count) ⟨lim.span (c :: tail) after, shape, .nil⟩
        (d.count + 1) after := by
  have hlen : (c :: tail).length ≤ kMaxBytes := by
    rw [← hrest]
    exact hd.suffix.length_le.trans hd.bytes
  have htoken := token_eq (c := c) hlen
  have hbody : parseBody parse d.count c d.alloc = _ := if_neg hopen
  have halloc : d.alloc.rest = c :: tail := hrest
  rw [hbody, halloc]
  cases hread : readScalar c (c :: tail) with
  | none =>
    rw [hread] at htoken
    generalize token c (c :: tail) = r at htoken
    obtain ⟨kind, after⟩ := r
    cases htoken
    rfl
  | some x =>
    obtain ⟨shape, after⟩ := x
    rw [hread] at htoken
    rw [htoken]
    obtain ⟨hnode, hother, hcount, hsource, hvalid', -⟩ := alloc_nodes d shape.kind after
    obtain ⟨t, ht, hscalar⟩ := readScalar_sound hread
    apply finish_parsed (hvalid'.trans hvalid) hcount rfl hsource
    · intro i hi
      exact hother i (by omega)
    · rw [hnode]
    · rw [hnode]
    · rw [hnode, ← hrest, ← hlim]
      rfl
    · rw [← hlim]
      rfl
    · intro _ _
      rw [← hlim, ← hrest, hd.slice (hrest.trans ht)]
      exact hscalar
    · rw [hnode]
      rfl

lemma parseContainer_spec {c} {tail : Str} (hsim : Simulates lim parse read) (hsound : lim.SoundValue left read)
    (hd : d.Sane) (hvalid : d.valid = true) (hlim : d.limits = lim) (hrest : d.rest = c :: tail)
    (hopen : c = ch '[' ∨ c = ch '{') (hfull : d.count ≠ kMaxNodes) :
    match lim.readContainer read (c == ch '{') (d.count + 1) tail with
    | none => (parseBody parse d.count c d.alloc).valid = false
    | some (f, used, after) =>
      d.Parsed ((parseBody parse d.count c d.alloc).finish d.count)
        ⟨lim.span (c :: tail) after, container (c == ch '{'), f⟩ used after := by
  have hbody : parseBody parse d.count c d.alloc = _ := if_pos hopen
  rw [hbody]
  generalize (c == ch '{') = obj
  have htail : d.alloc.rest.tail = tail := by
    rw [show d.alloc.rest = d.rest from rfl, hrest]
    rfl
  simp only [htail]
  obtain ⟨hnode, hother, hcount, hsource, hvalid', hrest'⟩ := alloc_nodes d (container obj).kind tail
  generalize (d.alloc.setNode d.count { d.alloc.nodes d.count with kind := (container obj).kind }).goto tail = b
    at hnode hother hcount hsource hvalid' hrest'
  have hskip : b.skip.rest = whitespace tail := by rw [← hrest']; rfl
  have hstart : d.p = (lim.span (c :: tail) tail).start := by
    rw [← hlim, ← hrest]
    rfl
  have htext : container obj ≠ .array → container obj ≠ .object →
      ∀ m, ScalarText (slice d.source m) (container obj) := by
    intro harray hobject
    cases obj
    · exact absurd rfl harray
    · exact absurd rfl hobject
  rw [hskip, Limits.readContainer]
  cases hclose : take (closing obj) (whitespace tail) with
  | some after =>
    apply finish_parsed
    · exact hvalid'.trans hvalid
    · exact hcount
    · rfl
    · exact hsource
    · intro i hi
      exact hother i (by omega)
    · exact congrArg Node.next hnode
    · exact congrArg Node.kind hnode
    · exact (congrArg Node.start hnode).trans hstart
    · rw [← hlim, limits, ← hsource]
      rfl
    · exact fun harray hobject => htext harray hobject _
    · exact congrArg Node.child hnode
  | none =>
    have hb : b.skip.Sane := by
      apply Sane.skip
      refine ⟨?_, ?_, ?_⟩
      · rw [hrest', hsource]
        refine List.IsSuffix.trans ?_ hd.suffix
        rw [hrest]
        exact List.suffix_cons c tail
      · rw [hsource]
        exact hd.bytes
      · have := hd.room
        omega
    have hlim' : b.skip.limits = lim := by
      rw [← hlim, limits, limits, ← hsource]
      rfl
    have hlinked : b.skip.Linked d.count none obj [] [] :=
      ⟨congrArg Node.child hnode, rfl, List.nodup_nil, by simp, fun _ => .nil⟩
    have hloop := itemsLoop_spec hsim hsound (lim.length + 1) hb (hvalid'.trans hvalid) hlim'
      (show d.count < b.count by omega) hlinked
    have hturns : b.skip.source.length = lim.length := by rw [← hlim']; rfl
    rw [hskip, show b.skip.count = d.count + 1 from hcount] at hloop
    simp only [hturns]
    cases hread : lim.readItems read obj (lim.length + 1) [] (d.count + 1) (whitespace tail) with
    | none =>
      rw [hread] at hloop
      exact hloop
    | some x =>
      rw [hread] at hloop
      obtain ⟨hvalid₁, hcount₁, hrest₁, hsource₁, hsame₁, head, hhead, hholds⟩ := hloop
      have hnode₁ : (itemsLoop parse obj d.count (lim.length + 1) none b.skip).nodes d.count =
          { b.nodes d.count with child := head } := hhead
      rw [hnode] at hnode₁
      apply finish_parsed hvalid₁ hcount₁ hrest₁ (hsource₁.trans hsource)
      · intro i hi
        rw [hsame₁ i (show i < b.count by omega) (show i ≠ d.count by omega)]
        exact hother i (by omega)
      · rw [hnode₁]
      · rw [hnode₁]
      · rw [hnode₁]
        exact hstart
      · rw [p, hrest₁, hsource₁, hturns]
        rfl
      · exact fun harray hobject => htext harray hobject _
      · rw [hnode₁, ← hcount]
        exact hholds

lemma Parsed.of_skip {r : Document × Option Nat} {v : Value Span} {used : Nat} {rest : Str}
    (h : d.skip.Parsed r v used rest) : d.Parsed r v used rest :=
  ⟨h.id, h.valid, h.count, h.rest, h.source, h.same, h.next, h.shows, h.holds⟩

lemma parseValue_spec (lim : Limits) (left : Nat) : Simulates lim (parseValue left) (lim.readValue left) := by
  induction left with
  | zero => exact fun d _ _ _ => ⟨rfl, rfl⟩
  | succ left ih =>
    intro d hd hvalid hlim
    rw [Limits.readValue, parseValue]
    have hskip : d.skip.rest = whitespace d.rest := rfl
    have hnodes : lim.nodes = kMaxNodes := by rw [← hlim]; rfl
    have hcount : d.skip.count = d.count := rfl
    rw [hskip]
    cases hrest : whitespace d.rest with
    | nil => exact ⟨rfl, rfl⟩
    | cons c tail =>
      have hrest' : d.skip.rest = c :: tail := hrest
      simp only [Limits.readHere, hnodes, hcount]
      rcases eq_or_ne d.count kMaxNodes with hfull | hfull
      · rw [if_pos hfull, if_pos hfull]
        exact ⟨rfl, rfl⟩
      · rw [if_neg hfull, if_neg hfull]
        rcases em (c = ch '[' ∨ c = ch '{') with hopen | hopen
        · rw [if_pos hopen]
          have hbody := parseContainer_spec ih (Limits.readValue_sound lim left) hd.skip hvalid hlim hrest' hopen hfull
          rw [hcount] at hbody
          cases hread : lim.readContainer (lim.readValue left) (c == ch '{') (d.count + 1) tail with
          | none =>
            rw [hread] at hbody
            exact finish_invalid hbody d.count
          | some x =>
            rw [hread] at hbody
            exact hbody.of_skip
        · rw [if_neg hopen]
          have hbody := parseScalar_spec (parseValue left) hd.skip hvalid hlim hrest' hopen
          cases hread : readScalar c (c :: tail) with
          | none =>
            rw [hread] at hbody
            exact finish_invalid hbody d.count
          | some x =>
            rw [hread] at hbody
            exact hbody.of_skip

/-! ## Texts -/

/-- The pool is the tree: the root is node 0, and there are no other nodes than those of the tree. -/
structure Represents (d : Document) (tree : Value Span) : Prop where
  count : d.count = tree.size
  root : d.Shows 0 tree.mark tree.shape
  children : d.Holds tree.children 1 (d.nodes 0).child

/-- `parse` answers what a reader with the limits of the document reads. -/
lemma parse_spec (d : Document) (s : Str) (hs : s.length ≤ kMaxBytes) :
    match Limits.readText ⟨s.length, kMaxNodes, true⟩ (kMaxDepth + 1) s with
    | none => (d.parse s).2 = false
    | some tree => (d.parse s).2 = true ∧ (d.parse s).1.Represents tree ∧ (d.parse s).1.Sane ∧ (d.parse s).1.source = s := by
  have hsane : Sane { d with source := s, count := 0, rest := s, valid := true } :=
    ⟨List.suffix_refl s, hs, Nat.zero_le _⟩
  have hvalue := parseValue_spec ⟨s.length, kMaxNodes, true⟩ (kMaxDepth + 1) _ hsane rfl rfl
  have hsound := Limits.readValue_sound ⟨s.length, kMaxNodes, true⟩ (kMaxDepth + 1)
  rw [parse, Limits.readText]
  simp only [hs, decide_true, Bool.not_true, Bool.false_eq_true, if_false] at hvalue ⊢
  generalize parseValue (kMaxDepth + 1) _ = r at hvalue
  obtain ⟨d₁, id⟩ := r
  cases hread : Limits.readValue ⟨s.length, kMaxNodes, true⟩ (kMaxDepth + 1) 0 s with
  | none =>
    rw [hread] at hvalue
    obtain ⟨rfl, -⟩ := hvalue
    rfl
  | some x =>
    obtain ⟨tree, used, rest⟩ := x
    rw [hread] at hvalue
    obtain ⟨hd₁, -, hused⟩ := Parsed.sane hsound hsane rfl hread hvalue
    obtain ⟨rfl, hvalid, rfl, rfl, hsource, -, -, hshows, hholds⟩ := hvalue
    have hskip : d₁.skip.rest = whitespace d₁.rest := rfl
    have hvalid₁ : d₁.skip.valid = true := hvalid
    simp only [hskip, hvalid₁, Bool.true_and]
    cases hend : whitespace d₁.rest with
    | nil =>
      refine ⟨rfl, ⟨?_, ?_, ?_⟩, ?_, hsource⟩
      · exact hused.trans (Nat.zero_add _)
      · exact hshows.congr rfl rfl rfl rfl
      · exact hholds.congr rfl fun _ _ _ => rfl
      · exact ⟨List.nil_suffix, hd₁.bytes, hd₁.room⟩
    | cons c s => rfl

lemma parse_long (d : Document) {s} (hs : ¬ s.length ≤ kMaxBytes) : (d.parse s).2 = false := by
  rw [parse]
  simp only [hs, decide_false, Bool.not_false, if_true]

/-- What `parse` reads: the texts of the grammar within the limits. -/
lemma parse_iff (d : Document) (s : Str) : (d.parse s).2 = true ↔ ∃ tree, ParseTree s tree ∧ WithinLimits s tree := by
  rcases em (s.length ≤ kMaxBytes) with hs | hs
  · have hspec := d.parse_spec s hs
    have hiff := fun tree => @Limits.readText_iff ⟨s.length, kMaxNodes, true⟩ (kMaxDepth + 1) s rfl tree
    cases hread : Limits.readText ⟨s.length, kMaxNodes, true⟩ (kMaxDepth + 1) s with
    | none =>
      rw [hread] at hspec
      refine iff_of_false (by rw [hspec]; simp) ?_
      rintro ⟨tree, htree, hlimits⟩
      have := (hiff tree).2 ⟨htree, Nat.lt_succ_of_le hlimits.depth, hlimits.nodes, fun _ => hlimits.distinct⟩
      rw [hread] at this
      cases this
    | some tree =>
      rw [hread] at hspec
      obtain ⟨htree, hheight, hsize, hdistinct⟩ := (hiff tree).1 hread
      exact iff_of_true hspec.1 ⟨tree, htree, hs, Nat.le_of_lt_succ hheight, hsize, hdistinct rfl⟩
  · refine iff_of_false (by rw [d.parse_long hs]; simp) ?_
    rintro ⟨tree, -, hlimits⟩
    exact hs hlimits.bytes

lemma parse_represents {s} (h : (d.parse s).2 = true) {tree} (htree : ParseTree s tree) :
    (d.parse s).1.Represents tree ∧ (d.parse s).1.Sane ∧ (d.parse s).1.source = s := by
  have hs : s.length ≤ kMaxBytes := by
    by_contra hs
    rw [d.parse_long hs] at h
    cases h
  have hspec := d.parse_spec s hs
  cases hread : Limits.readText ⟨s.length, kMaxNodes, true⟩ (kMaxDepth + 1) s with
  | none =>
    rw [hread] at hspec
    rw [hspec] at h
    cases h
  | some tree' =>
    rw [hread] at hspec
    have hsame := ((@Limits.readText_iff ⟨s.length, kMaxNodes, true⟩ (kMaxDepth + 1) s rfl tree').1 hread).1.unique htree
    subst hsame
    exact hspec.2

/-- A document accepts exactly the JSON texts that are well-formed UTF-8 and within its limits, and
its nodes are then the parse tree of the text. -/
theorem parse_accepts_exactly (d : Document) (s : Str) :
    ((d.parse s).2 = true ↔ ∃ tree, ParseTree s tree ∧ WellFormed s ∧ WithinLimits s tree) ∧
      ((d.parse s).2 = true → ∀ tree, ParseTree s tree → (d.parse s).1.Represents tree) := by
  constructor
  · rw [parse_iff]
    constructor
    · rintro ⟨tree, htree, hlimits⟩
      exact ⟨tree, htree, htree.wellFormed, hlimits⟩
    · rintro ⟨tree, htree, -, hlimits⟩
      exact ⟨tree, htree, hlimits⟩
  · intro h tree htree
    exact (parse_represents h htree).1

def blank : Document := ⟨fun _ => {}, 0, [], [], true⟩

example : (blank.parse (lit ['{','"','a','"',':','[','1',']','}'])).2 = true := by decide +kernel

/-- A name and an escaped alias of it are duplicates. -/
example : (blank.parse (lit ['{','"','a','"',':','1',',','"','\\','u','0','0','6','1','"',':','2','}'])).2 =
    false := by decide +kernel

end Document

end Rut.Json
