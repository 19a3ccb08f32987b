import Rut.Json.Rewrite

/-!
# Update operations

`apply` for the operations that change a document, against the update of the value it stands for.
-/

namespace Rut.Json

inductive Update where
  | set
  | remove
  | append
  | member
  | element
  | stringify
  deriving DecidableEq

namespace Update

/-- The operation of `apply`. -/
def op : Update → Op
  | set => .set
  | remove => .remove
  | append => .append
  | member => .member
  | element => .element
  | stringify => .stringify

def pointed : Update → Bool
  | set | remove | append => true
  | _ => false

def change (b : Str) (new : Value Unit) : Update → Value Unit → Option (Option (Value Unit))
  | set => fun _ => some (some new)
  | remove => fun _ => some none
  | append => Value.appendElement new
  | member => Value.upsert b new
  | element => Value.appendElement new
  | stringify => fun v => some (some v)

/-- The reference tokens to the target: those of the pointer `b`, or none for the root. -/
def Target (u : Update) (b : Str) (tokens : List Str) : Prop :=
  if u.pointed then PointerText b tokens else tokens = []

def New (u : Update) (b c : Str) (new : Value Unit) : Prop := ∀ t ∈ Document.newText u.op b c, Denotes t new

def Updated (u : Update) (b c : Str) (v v' : Value Unit) : Prop :=
  ∃ tokens new, u.Target b tokens ∧ u.New b c new ∧ v.update (u.change b new) tokens = some (some v')

end Update

def Accepted (s : Str) : Prop := ∃ tree, ParseTree s tree ∧ WithinLimits s tree

inductive Refused (u : Update) (a b c : Str) : Prop where
  | text : ¬ Accepted a → Refused u a b c
  | value {t} : t ∈ Document.newText u.op b c → ¬ Accepted t → Refused u a b c
  /-- There is no target, or it has the wrong kind. -/
  | target {v} :
    Denotes a v →
    (∀ tokens new, u.Target b tokens → u.New b c new → v.update (u.change b new) tokens = none) →
    Refused u a b c
  /-- The root cannot be removed. -/
  | root : u = .remove → b = [] → Refused u a b c
  | pointer : u.pointed = true → kMaxBytes < b.length → Refused u a b c
  /-- The name of a new member is no text. -/
  | name : u = .member → ¬ WellFormed b → Refused u a b c
  /-- The new member does not fit the buffer it is put together in. -/
  | buffer : u = .member → kMaxBytes < (stringText b).length + 1 + c.length → Refused u a b c

def verbatim (t : Str) (v : Value Unit) : Value (Option Str) := ⟨some t, v.shape, v.children.map fun _ => none⟩

lemma verbatim_text (t : Str) (v : Value Unit) : (verbatim t v).text = t := rfl

lemma verbatim_erase (t : Str) (v : Value Unit) : (verbatim t v).map (fun _ => ()) = v := by
  rw [verbatim, Value.map, Forest.map_map, Forest.map_unit]

lemma verbatim_printable {t v} (h : Denotes t v) : (verbatim t v).Printable := by
  have herase := verbatim_erase t v
  rw [← herase] at h
  exact h

def appended (obj : Bool) (name : Option Str) (new v : Value Unit) : Option (Value Unit) :=
  if v.shape = container obj then some (v.append (name.map fun n => ((), n)) new) else some v

lemma snoc_map {ρ σ} (e : ρ → σ) (f : Forest ρ) (name : Option (ρ × Str)) (new : Value ρ) :
    (f.snoc name new).map e = (f.map e).snoc (name.map fun n => (e n.1, n.2)) (new.map e) := by
  induction f with
  | nil => rfl
  | cons n mark shape children next _ ihn =>
    rw [Forest.snoc, Forest.map, ihn]
    rfl

lemma append_map {ρ σ} (e : ρ → σ) (v : Value ρ) (name : Option (ρ × Str)) (new : Value ρ) :
    (v.append name new).map e = (v.map e).append (name.map fun n => (e n.1, n.2)) (new.map e) := by
  rw [Value.append, Value.append, Value.map, snoc_map]
  rfl

lemma appending_erase (obj : Bool) (name : Option Str) (t : Str) (new : Value Unit) (v : Value Span) :
    (appending obj (name.map fun n => (none, n)) (verbatim t new) (v.map fun _ => none)).map (fun v => v.map fun _ => ()) =
      appended obj name new (v.map fun _ => ()) := by
  have herase := verbatim_erase t new
  rcases em (v.shape = container obj) with hshape | hshape
  · have hleft : appending obj (name.map fun n => (none, n)) (verbatim t new) (v.map fun _ => none) =
        some ((v.map fun _ => none).append (name.map fun n => (none, n)) (verbatim t new)) := if_pos ⟨rfl, hshape⟩
    have hright : appended obj name new (v.map fun _ => ()) =
        some ((v.map fun _ => ()).append (name.map fun n => ((), n)) new) := if_pos hshape
    rw [hleft, hright, Option.map_some, append_map, herase, Value.map_map]
    cases name <;> rfl
  · have hleft : appending obj (name.map fun n => (none, n)) (verbatim t new) (v.map fun _ => none) =
        some (v.map fun _ => none) := if_neg fun h => hshape h.2
    have hright : appended obj name new (v.map fun _ => ()) = some (v.map fun _ => ()) := if_neg hshape
    rw [hleft, hright, Option.map_some, Value.map_map]

namespace Document

variable {d : Document} {tree : Value Span} {a b c : Str}

lemma Represents.stands (h : d.Represents tree) (htree : ParseTree a tree) : d.Stands 0 tree := by
  obtain ⟨w, t, w', -, -, ht, -⟩ := htree
  exact ⟨h.root, h.children, by rw [h.count]; omega, ht.printable⟩

lemma Stands.locate {id t v u tokens} (h : d.Stands id v) (hu : v.locate tokens id = some (t, u)) : d.Stands t u := by
  induction tokens generalizing id v with
  | nil =>
    cases hu
    exact h
  | cons token tokens ih =>
    rw [Value.locate] at hu
    split at hu
    next => cases hu
    next i hi =>
      split at hu
      next => cases hu
      next child w hc =>
        obtain ⟨obj, hstand⟩ := h.children hi
        exact ih (hstand.locate hc) hu

lemma writeRoot_update {e target g g' v'} (hmeans : Means d e target g) (hd : d.Sane)
    (hs : d.Stands 0 tree) (hheight : tree.children.height ≤ kMaxDepth) (hkeeps : KeepsText g)
    (hg : ∀ v : Value Span, (g (v.map fun _ => none)).map (fun v => v.map fun _ => ()) = g' (v.map fun _ => ()))
    (hv' : (tree.map fun _ => ()).patch target g' 0 = some v') :
    ∃ text, Denotes text v' ∧ ∀ w, d.writeRoot e w = w.emit text := by
  have hmap : ((tree.map fun _ => none).patch target g 0).map (fun v => v.map fun _ => ()) =
      (tree.map fun _ => ()).patch target g' 0 := Value.patch_map _ _ hg 0 tree
  rw [hv', Option.map_eq_some_iff] at hmap
  obtain ⟨u, hu, rfl⟩ := hmap
  refine ⟨u.text, (hs.printable.patch hkeeps 0 u hu).denotes, fun w => ?_⟩
  rw [writeRoot_eq hmeans hd hs hheight, hu]
  rfl

lemma patch_inside {v : Value Unit} {id} (g : Value Unit → Option (Value Unit)) (hid : id ≠ 0) :
    v.patch (some id) g 0 = some { v with children := v.children.patch (some id) g 1 } := by
  rw [Value.patch, if_neg (by simpa using hid)]

lemma applyMember_extra (hkind : (d.nodes 0).kind = .object) (hfind : d.findMember b d.count (d.nodes 0).child = some none)
    (hwf : WellFormed b) (w : Writer) :
    d.applyMember b c w = ((Writer.fresh kMaxBytes).emit (memberText (some ((), b)) ++ c)).bind fun member =>
      d.writeRoot { value := member.out, append := some 0 } w := by
  obtain ⟨cps, hcps⟩ := hwf
  have hextra : ((Writer.fresh kMaxBytes).emit (quoted cps)).bind (fun m => ((m.put (ch ':')).text c).done) =
      (Writer.fresh kMaxBytes).emit (memberText (some ((), b)) ++ c) := by
    simp [memberText, stringText_utf8 hcps]
  rw [applyMember, if_neg (by simpa using hkind), hfind, ← hextra]
  simp only [quote_utf8 hcps]
  cases (Writer.fresh kMaxBytes).emit (quoted cps) with
  | none => rfl
  | some m =>
    simp only [Option.bind_some]
    cases ((m.put (ch ':')).text c).done <;> rfl

/-- How an operation ends: it writes a text that stands for the updated value, if there is room, or
it is refused. -/
def Exact (u : Update) (a b c : Str) (run : Writer → Option Writer) : Prop :=
  (∃ v v' text, Denotes a v ∧ u.Updated b c v v' ∧ Denotes text v' ∧ ∀ w, run w = w.emit text) ∨
    (Refused u a b c ∧ ∀ w, run w = none)

section
variable (hd : d.Sane) (htree : ParseTree a tree) (hs : d.Stands 0 tree) (hheight : tree.children.height ≤ kMaxDepth)
include hd hs

lemma pointer_some {id} (h : d.pointer b = some id) :
    (∃ tokens, PointerText b tokens) ∧ ∀ tokens, PointerText b tokens → ∃ u, tree.locate tokens 0 = some (id, u) := by
  rw [pointer] at h
  split at h
  next => cases h
  next hlen =>
    refine ⟨pointerLoop_sound h, fun tokens htokens => ?_⟩
    rw [pointerLoop_eq hd hs htokens (Nat.le_refl _) (by omega), Option.map_eq_some_iff] at h
    obtain ⟨⟨id, u⟩, hu, rfl⟩ := h
    exact ⟨u, hu⟩

include htree

lemma pointer_none {u} (hu : u.pointed = true) (h : d.pointer b = none) : Refused u a b c := by
  rw [pointer] at h
  split at h
  next hlen => exact .pointer hu hlen
  next hlen =>
    refine .target htree.erase fun tokens new htokens _ => ?_
    rw [Update.Target, if_pos hu] at htokens
    rw [pointerLoop_eq hd hs htokens (Nat.le_refl _) (by omega), Option.map_eq_none_iff] at h
    apply Value.update_none 0
    intro t w hw
    rw [Value.locate_map, h] at hw
    cases hw

include hheight

/-- `Op::Set`. -/
lemma applySet_exact {new} (hnew : Denotes c new) : Exact .set a b c (d.applyPointed .set b c) := by
  have hNew : Update.set.New b c new := by rintro t ⟨⟩; exact hnew
  cases hp : d.pointer b with
  | none =>
    refine .inr ⟨pointer_none hd htree hs rfl hp, fun w => ?_⟩
    rw [applyPointed, hp]
  | some id =>
    obtain ⟨⟨tokens, htokens⟩, hlocate⟩ := pointer_some hd hs hp
    obtain ⟨u, hu⟩ := hlocate tokens htokens
    have hupdate : (tree.map fun _ => ()).update (Update.set.change b new) tokens =
        some ((tree.map fun _ => ()).patch (some id) (fun _ => some new) 0) := by
      apply Value.update_patch (u := u.map fun _ => ())
      · rw [Value.locate_map, hu]
        rfl
      · rfl
    obtain ⟨v', hv'⟩ : ∃ v', (tree.map fun _ => ()).patch (some id) (fun _ => some new) 0 = some v' := by
      rw [Value.patch]
      split <;> exact ⟨_, rfl⟩
    obtain ⟨text, htext, hwrite⟩ := writeRoot_update (g := fun _ => some (verbatim c new)) .replace hd hs hheight
      (by rintro v - u ⟨⟩; exact verbatim_printable hnew) (fun v => by rw [Option.map_some, verbatim_erase]) hv'
    refine .inl ⟨_, v', text, htree.erase, ⟨tokens, new, htokens, hNew, ?_⟩, htext, fun w => ?_⟩
    · rw [hupdate, hv']
    · rw [← hwrite, applyPointed, hp]
      rfl

/-- `Op::Remove`, which does not remove the root. -/
lemma applyRemove_exact : Exact .remove a b c (d.applyPointed .remove b c) := by
  cases hp : d.pointer b with
  | none =>
    refine .inr ⟨pointer_none hd htree hs rfl hp, fun w => ?_⟩
    rw [applyPointed, hp]
  | some id =>
    obtain ⟨⟨tokens, htokens⟩, hlocate⟩ := pointer_some hd hs hp
    obtain ⟨u, hu⟩ := hlocate tokens htokens
    rcases eq_or_ne id 0 with rfl | hid
    · -- a token leads below the root, so that the pointer is empty
      have hb : b = [] := by
        cases htokens with
        | nil => rfl
        | cons =>
          rw [Value.locate] at hu
          split at hu
          next => cases hu
          next =>
            split at hu
            next => cases hu
            next child w hc =>
              have hchild := Forest.locate_range hc
              have hinside := Value.locate_range hu
              omega
      refine .inr ⟨.root rfl hb, fun w => ?_⟩
      rw [applyPointed, hp]
      rfl
    · have hupdate : (tree.map fun _ => ()).update (Update.remove.change b (tree.map fun _ => ())) tokens =
          some ((tree.map fun _ => ()).patch (some id) (fun _ => none) 0) := by
        apply Value.update_patch (u := u.map fun _ => ())
        · rw [Value.locate_map, hu]
          rfl
        · rfl
      obtain ⟨text, htext, hwrite⟩ := writeRoot_update (g := fun _ => none) .remove hd hs hheight
        (by rintro v - u ⟨⟩) (fun _ => rfl) (patch_inside (fun _ => none) hid)
      refine .inl ⟨_, _, text, htree.erase, ⟨tokens, tree.map fun _ => (), htokens, by rintro t ⟨⟩, ?_⟩, htext, fun w => ?_⟩
      · rw [hupdate, patch_inside _ hid]
      · rw [← hwrite, applyPointed, hp]
        simp only [true_and, if_neg hid]
        rfl

omit htree in
/-- An item more in the array or object that node `id` is. -/
lemma append_exact (name : Option Str) (tokens : List Str) {obj new t id u G} (hname : name.isSome = obj)
    (hwf : ∀ n ∈ name, WellFormed n) (hnew : Denotes t new) (hu : tree.locate tokens 0 = some (id, u))
    (hkind : (d.nodes id).kind = (container obj).kind)
    (hG : ∀ v, v.shape = container obj → G v = some (some (v.append (name.map fun n => ((), n)) new))) :
    ∃ v' text, (tree.map fun _ => ()).update G tokens = some (some v') ∧ Denotes text v' ∧
      ∀ w, d.writeRoot { value := memberText (name.map fun n => ((), n)) ++ t, append := some id } w = w.emit text := by
  have hshape : u.shape = container obj := by
    have hshows := (hs.locate hu).shows.kind
    rw [hkind] at hshows
    cases hv : u.shape <;> rw [hv] at hshows <;> cases obj <;> first | rfl | cases hshows
  have hupdate : (tree.map fun _ => ()).update G tokens =
      some ((tree.map fun _ => ()).patch (some id) (appended obj name new) 0) := by
    apply Value.update_patch (u := u.map fun _ => ())
    · rw [Value.locate_map, hu]
      rfl
    · rw [hG _ hshape, appended, if_pos (by exact hshape)]
  obtain ⟨v', hv'⟩ : ∃ v', (tree.map fun _ => ()).patch (some id) (appended obj name new) 0 = some v' := by
    rw [Value.patch, appended]
    split_ifs <;> exact ⟨_, rfl⟩
  have hkeeps : KeepsText (appending obj (name.map fun n => (none, n)) (verbatim t new)) := by
    apply appending_keepsText
    · rw [Option.isSome_map, hname]
    · intro n hn
      rw [Option.mem_def, Option.map_eq_some_iff] at hn
      obtain ⟨m, hm, rfl⟩ := hn
      exact hwf m hm
    · exact verbatim_printable hnew
  obtain ⟨text, htext, hwrite⟩ := writeRoot_update (.append hkind) hd hs hheight hkeeps
    (appending_erase obj name t new) hv'
  refine ⟨v', text, by rw [hupdate, hv'], htext, fun w => ?_⟩
  rw [← hwrite, verbatim_text]
  cases name <;> rfl

/-- `Op::Append`. -/
lemma applyAppend_exact {new} (hnew : Denotes c new) : Exact .append a b c (d.applyPointed .append b c) := by
  cases hp : d.pointer b with
  | none =>
    refine .inr ⟨pointer_none hd htree hs rfl hp, fun w => ?_⟩
    rw [applyPointed, hp]
  | some id =>
    obtain ⟨⟨tokens, htokens⟩, hlocate⟩ := pointer_some hd hs hp
    rcases eq_or_ne (d.nodes id).kind .array with hkind | hkind
    · obtain ⟨u, hu⟩ := hlocate tokens htokens
      obtain ⟨v', text, hupdate, htext, hwrite⟩ := append_exact hd hs hheight none tokens rfl (by simp) hnew hu
        hkind (G := Value.appendElement new) fun v hv => if_pos hv
      refine .inl ⟨_, v', text, htree.erase, ⟨tokens, new, htokens, by rintro t ⟨⟩; exact hnew, hupdate⟩, htext, fun w => ?_⟩
      rw [← hwrite, applyPointed, hp]
      simp [hkind, memberText]
    · refine .inr ⟨.target htree.erase fun tokens new htokens _ => ?_, fun w => ?_⟩
      · obtain ⟨u, hu⟩ := hlocate tokens htokens
        apply Value.update_none 0
        intro t w hw
        rw [Value.locate_map, hu] at hw
        cases hw
        refine if_neg fun hshape => hkind ?_
        rw [(hs.locate hu).shows.kind]
        exact congrArg Shape.kind hshape
      · rw [applyPointed, hp]
        simp [hkind]

/-- `Op::Element`. -/
lemma applyElement_exact {new} (hnew : Denotes b new) :
    Exact .element a b c fun w => if (d.nodes 0).kind = .array then d.writeRoot { value := b, append := some 0 } w else none := by
  rcases eq_or_ne (d.nodes 0).kind .array with hkind | hkind
  · obtain ⟨v', text, hupdate, htext, hwrite⟩ := append_exact hd hs hheight none [] rfl (by simp)
      hnew rfl hkind (G := Value.appendElement new) fun v hv => if_pos hv
    refine .inl ⟨_, v', text, htree.erase, ⟨[], new, rfl, by rintro t ⟨⟩; exact hnew, hupdate⟩, htext, fun w => ?_⟩
    simp only [if_pos hkind, ← hwrite]
    rfl
  · refine .inr ⟨.target htree.erase fun tokens new htokens _ => ?_, fun w => if_neg hkind⟩
    obtain rfl : tokens = [] := htokens
    refine if_neg fun hshape => hkind ?_
    rw [hs.shows.kind]
    exact congrArg Shape.kind hshape

/-- `Op::Stringify`. -/
lemma applyStringify_exact : Exact .stringify a b c (d.writeRoot {}) := by
  have hsame : (tree.map fun _ => ()).patch none some 0 = some (tree.map fun _ => ()) := by
    rw [Value.patch, if_neg (by simp), Forest.patch_outside]
    simp
  obtain ⟨text, htext, hwrite⟩ := writeRoot_update (g := some) .nothing hd hs hheight
    (by rintro v hv u ⟨⟩; exact hv) (fun v => by rw [Option.map_some, Value.map_map]) hsame
  exact .inl ⟨_, _, text, htree.erase, ⟨[], tree.map fun _ => (), rfl, by rintro t ⟨⟩, rfl⟩, htext, hwrite⟩

/-- `Op::Member`. -/
lemma applyMember_exact {new} (hnew : Denotes c new) : Exact .member a b c (d.applyMember b c) := by
  have hNew : Update.member.New b c new := by rintro t ⟨⟩; exact hnew
  rcases ne_or_eq (d.nodes 0).kind .object with hkind | hkind
  · refine .inr ⟨.target htree.erase fun tokens new htokens _ => ?_, fun w => if_pos hkind⟩
    obtain rfl : tokens = [] := htokens
    refine if_neg fun hshape => hkind ?_
    rw [hs.shows.kind]
    exact congrArg Shape.kind hshape
  · have hshape : tree.shape = .object := by
      have hshows := hs.shows.kind
      rw [hkind] at hshows
      cases hv : tree.shape <;> rw [hv] at hshows <;> first | rfl | cases hshows
    have hstand : d.Stand true tree.children 1 (d.nodes 0).child := hs.items hshape
    have hturns : tree.children.length ≤ d.count := by
      have := hstand.room
      have := length_le_size tree.children
      omega
    have hfind := findMember_eq hd hstand hturns b
    have hpos' := Forest.position_map (fun _ => ()) b tree.children
    cases hpos : tree.children.position b with
    | some i =>
      -- a member of that name is there, and gets the value
      obtain ⟨⟨n, u⟩, hu⟩ := Forest.locate_position hpos 1
      rw [hpos, Option.bind_some, hu, Option.map_some] at hfind
      have hn : n ≠ 0 := by
        have := Forest.locate_range hu
        omega
      have hupdate : (tree.children.map fun _ => ()).updateAt (fun _ => some (some new)) i =
          some ((tree.children.map fun _ => ()).patch (some n) (fun _ => some new) 1) := by
        apply Forest.updateAt_patch (u := u.map fun _ => ()) (k := n) _ (Nat.le_refl n) (Nat.lt_succ_of_le (Nat.le_add_right _ _))
        · rw [Value.patch, if_pos rfl]
        · rw [Forest.locate_map, hu]
          rfl
      obtain ⟨text, htext, hwrite⟩ := writeRoot_update (g := fun _ => some (verbatim c new)) .replace hd hs hheight
        (by rintro v - u ⟨⟩; exact verbatim_printable hnew) (fun v => by rw [Option.map_some, verbatim_erase])
        (patch_inside (fun _ => some new) hn)
      refine .inl ⟨_, _, text, htree.erase, ⟨[], new, rfl, hNew, ?_⟩, htext, fun w => ?_⟩
      · have hupsert : Value.upsert b new (tree.map fun _ => ()) =
            ((tree.children.map fun _ => ()).updateAt (fun _ => some (some new)) i).map fun f =>
              some { (tree.map fun _ => ()) with children := f } := by
          rw [Value.upsert, if_pos (by exact hshape), show (tree.map fun _ => ()).children.position b = some i from
            hpos'.trans hpos]
          rfl
        rw [Value.update, Update.change, hupsert, hupdate]
        rfl
      · rw [← hwrite, applyMember, if_neg (by simpa using hkind), hfind]
        rfl
    | none =>
      rw [hpos, Option.bind_none] at hfind
      rcases em (WellFormed b) with hwf | hwf
      · have hlen : (memberText (some ((), b)) ++ c).length = (stringText b).length + 1 + c.length := by
          simp [memberText]
          omega
        rcases Nat.lt_or_ge kMaxBytes ((stringText b).length + 1 + c.length) with hfull | hroom
        · refine .inr ⟨.buffer rfl hfull, fun w => ?_⟩
          rw [applyMember_extra hkind hfind hwf, Writer.emit_of_full, Option.bind_none]
          simp only [Writer.fresh_out, Writer.fresh_cap, hlen, List.length_nil]
          omega
        · obtain ⟨v', text, hupdate, htext, hwrite⟩ := append_exact hd hs hheight (some b) [] rfl
            (by rintro n ⟨⟩; exact hwf) hnew rfl hkind (G := fun v => some (some (v.append (some ((), b)) new)))
            fun _ _ => rfl
          refine .inl ⟨_, v', text, htree.erase, ⟨[], new, rfl, hNew, ?_⟩, htext, fun w => ?_⟩
          · rw [← hupdate, Value.update, Value.update, Update.change, Value.upsert, if_pos (by exact hshape),
              show (tree.map fun _ => ()).children.position b = none from hpos'.trans hpos]
          · rw [← hwrite, applyMember_extra hkind hfind hwf, Writer.emit_fresh (by omega)]
            rfl
      · refine .inr ⟨.name rfl hwf, fun w => ?_⟩
        have hquote : quote b (.fresh kMaxBytes) = none := by
          rw [Option.eq_none_iff_forall_ne_some]
          intro out hout
          exact hwf (quoteLoop_sound hout)
        rw [applyMember, if_neg (by simpa using hkind), hfind]
        simp only [hquote]

end

lemma Exact.congr {u run run'} (h : Exact u a b c run) (heq : ∀ w, run' w = run w) : Exact u a b c run' := by
  obtain rfl : run' = run := funext heq
  exact h

lemma applyParsed_exact (u : Update) (number : Int) (hd : d.Sane) (htree : ParseTree a tree) (hs : d.Stands 0 tree)
    (hheight : tree.children.height ≤ kMaxDepth) {new} (hnew : u.New b c new) :
    Exact u a b c fun w => (d.applyParsed u.op a b c number w).map Answer.out := by
  have hout : ∀ r : Option Writer, (r.map fun w => ({ out := w } : Answer)).map Answer.out = r := by
    intro r
    cases r <;> rfl
  cases u with
  | set => exact (applySet_exact hd htree hs hheight (hnew c rfl)).congr fun w => hout _
  | remove => exact (applyRemove_exact hd htree hs hheight).congr fun w => hout _
  | append => exact (applyAppend_exact hd htree hs hheight (hnew c rfl)).congr fun w => hout _
  | member => exact (applyMember_exact hd htree hs hheight (hnew c rfl)).congr fun w => hout _
  | element =>
    refine (applyElement_exact hd htree hs hheight (hnew b rfl)).congr fun w => ?_
    simp only [Update.op, applyParsed]
    split
    next => exact hout _
    next => rfl
  | stringify => exact (applyStringify_exact hd htree hs hheight).congr fun w => hout _

lemma apply_update (d : Document) (u : Update) (a b c : Str) (number : Int) (w : Writer) : d.apply u.op a b c number w =
      (((newText u.op b c).elim (some d) fun t => if (d.parse t).2 then some (d.parse t).1 else none).bind fun d =>
          if (d.parse a).2 then (d.parse a).1.applyParsed u.op a b c number w else none) := by
  -- the two parses, each of which may refuse
  have hlast : ∀ d : Document,
      (if (d.parse a).2 = false then none else (d.parse a).1.applyParsed u.op a b c number w) =
        if (d.parse a).2 then (d.parse a).1.applyParsed u.op a b c number w else none := by
    intro d
    rcases d.parse a with ⟨d, old⟩
    cases old <;> rfl
  have hboth : ∀ t : Str,
      (if (d.parse t).2 = false then none
        else if ((d.parse t).1.parse a).2 = false then none
          else ((d.parse t).1.parse a).1.applyParsed u.op a b c number w) =
        (if (d.parse t).2 then some (d.parse t).1 else none).bind fun d =>
          if (d.parse a).2 then (d.parse a).1.applyParsed u.op a b c number w else none := by
    intro t
    rcases d.parse t with ⟨d, new⟩
    cases new
    case false => rfl
    case true => exact hlast d
  cases u
  case set => exact hboth c
  case append => exact hboth c
  case member => exact hboth c
  case element => exact hboth b
  case remove => exact hlast d
  case stringify => exact hlast d

lemma accepted_iff (d : Document) (s : Str) : (d.parse s).2 = true ↔ Accepted s := d.parse_iff s

lemma apply_exact (d : Document) (u : Update) (a b c : Str) (number : Int) :
    Exact u a b c fun w => (d.apply u.op a b c number w).map Answer.out := by
  -- the operation itself, once its new value is parsed
  have hrun : ∀ (d : Document) (new : Value Unit), u.New b c new → Exact u a b c fun w =>
      (if (d.parse a).2 then (d.parse a).1.applyParsed u.op a b c number w else none).map Answer.out := by
    intro d new hnew
    rcases em ((d.parse a).2 = true) with hparse | hparse
    · obtain ⟨tree, htree, hlimits⟩ := (d.accepted_iff a).1 hparse
      obtain ⟨hrep, hsane, -⟩ := parse_represents hparse htree
      simp only [if_pos hparse]
      exact applyParsed_exact u number hsane htree (hrep.stands htree) hlimits.depth hnew
    · exact .inr ⟨.text fun h => hparse ((d.accepted_iff a).2 h), fun w => by simp only [if_neg hparse, Option.map_none]⟩
  simp only [apply_update]
  cases hnew : newText u.op b c with
  | none => exact hrun d ⟨(), .null, .nil⟩ (by rintro t ht; rw [hnew] at ht; cases ht)
  | some t =>
    simp only [Option.elim_some]
    rcases em ((d.parse t).2 = true) with hparse | hparse
    · obtain ⟨tree, htree, -⟩ := (d.accepted_iff t).1 hparse
      simp only [if_pos hparse, Option.bind_some]
      refine hrun _ (tree.map fun _ => ()) ?_
      intro t' ht'
      rw [hnew] at ht'
      cases ht'
      exact htree.erase
    · refine .inr ⟨.value hnew fun h => hparse ((d.accepted_iff t).2 h), fun w => ?_⟩
      simp only [if_neg hparse, Option.bind_none, Option.map_none]

/-- Updates are exact: an operation that answers true has written a text that stands for the value
with the requested change, and one that answers false was refused or its output did not fit. -/
theorem updates_are_exact (d : Document) (u : Update) (a b c : Str) (number : Int) (w : Writer) :
    (∀ answer, d.apply u.op a b c number w = some answer →
      ∃ v v' text, Denotes a v ∧ u.Updated b c v v' ∧ Denotes text v' ∧ answer.out.out = w.out ++ text) ∧
    (d.apply u.op a b c number w = none →
      Refused u a b c ∨ ∃ v v' text, Denotes a v ∧ u.Updated b c v v' ∧ Denotes text v' ∧
        (∀ w, (d.apply u.op a b c number w).map Answer.out = w.emit text) ∧
        ¬ (w.ok = true ∧ w.out.length + text.length ≤ w.cap)) := by
  rcases d.apply_exact u a b c number with ⟨v, v', text, hv, hupdated, htext, hrun⟩ | ⟨hrefused, hrun⟩
  · constructor
    · intro answer hanswer
      have hemit := hrun w
      simp only [hanswer, Option.map_some] at hemit
      exact ⟨v, v', text, hv, hupdated, htext, (Writer.emit_eq_some hemit.symm).2.1⟩
    · intro hnone
      refine .inr ⟨v, v', text, hv, hupdated, htext, hrun, ?_⟩
      have hemit := hrun w
      simp only [hnone, Option.map_none] at hemit
      rw [← Writer.emit_isSome, ← hemit]
      simp
  · constructor
    · intro answer hanswer
      have hnone := hrun w
      simp only [hanswer, Option.map_some] at hnone
      cases hnone
    · exact fun _ => .inl hrefused

/-- The value `1` is accepted and the empty pointer selects it, but it is not removed. -/
theorem root_not_removed :
    (blank.apply .remove (lit ['1']) [] [] 0 (.fresh kMaxBytes)).isNone = true ∧ Accepted (lit ['1']) ∧
      PointerText [] [] ∧ Denotes (lit ['1']) ⟨(), .number (lit ['1']), .nil⟩ ∧
      Value.update (fun _ => some none) [] (⟨(), .number (lit ['1']), .nil⟩ : Value Unit) = some none := by
  have hnumber : NumberText (lit ['1']) :=
    ⟨[], lit ['1'], [], [], rfl, .inl rfl, .inr ⟨ch '1', [], rfl, by decide, by decide, by simp⟩, .inl rfl, .inl rfl⟩
  refine ⟨by decide, (blank.accepted_iff _).1 (by decide), .nil, ?_, rfl⟩
  exact ⟨[], lit ['1'], [], rfl, by simp [Space], .scalar (.number hnumber), by simp [Space]⟩

end Document

end Rut.Json
