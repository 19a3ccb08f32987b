import Rut.Json.Pointer

/-!
# Writing a changed document

`Document::write` against `Forest.patch`: what it writes is the text of the tree changed at one
node, where the new value stands verbatim.
-/

namespace Rut.Json.Document

/-- What the arguments of `write` ask for: the node that changes, and how. -/
inductive Means (d : Document) : Edit → Option Nat → (Value (Option Str) → Option (Value (Option Str))) → Prop where
  | nothing {g} : Means d {} none g
  | replace {id new} :
    Means d { replace := some id, value := new.text } (some id) (fun _ => some new)
  | remove {id c} :
    Means d { replace := some id, value := c, remove := true } (some id) (fun _ => none)
  | append {id obj name new} :
    (d.nodes id).kind = (container obj).kind →
    Means d { value := memberText name ++ new.text, append := some id } (some id) (appending obj name new)

def separated (first : Bool) (ts : List Str) : Str := if first then commas ts else ts.flatMap fun t => ch ',' :: t

lemma separated_cons (first : Bool) (t : Str) (ts : List Str) :
    separated first (t :: ts) = (if first then [] else [ch ',']) ++ (t ++ separated false ts) := by
  cases first <;> simp [separated, commas]

lemma commas_snoc (ts : List Str) (t : Str) :
    commas (ts ++ [t]) = commas ts ++ ((if ts.isEmpty then [] else [ch ',']) ++ t) := by
  cases ts with
  | nil => simp [commas]
  | cons s ts => simp [commas]

lemma texts_snoc (f : Forest (Option Str)) (name : Option (Option Str × Str)) (new : Value (Option Str)) :
    (f.snoc name new).texts = f.texts ++ [memberText name ++ new.text] := by
  induction f with
  | nil => rfl
  | cons n mark shape children next _ ihn =>
    rw [Forest.snoc, Forest.texts, ihn]
    rfl

variable {d : Document} {e : Edit} {target : Option Nat} {g : Value (Option Str) → Option (Value (Option Str))}
  {id base turns levels : Nat} {head : Option Nat} {f : Forest Span} {v : Value Span} {obj : Bool}

lemma Means.skips (h : Means d e target g) (id : Nat) (v : Value (Option Str)) :
    (e.replace = some id ∧ e.remove = true) ↔ v.patch target g id = none := by
  rw [Value.patch]
  cases h with
  | nothing => simp
  | @replace k =>
    rcases eq_or_ne k id with rfl | hne
    · simp
    · simp [hne]
  | @remove k =>
    rcases eq_or_ne k id with rfl | hne
    · simp
    · simp [hne]
  | @append k obj name new =>
    split
    · rw [appending]
      split <;> simp
    · simp

/-- The texts of the children written by the loop, followed by what depends on whether there were any. -/
def Writes (d : Document) (e : Edit) (levels : Nat) (obj : Bool) (turns : Nat) (head : Option Nat) (ts : List Str) : Prop :=
  ∀ first w, ∀ k : Bool → Str,
    (d.writeLoop e (d.write e levels) obj turns head first w).bind (fun r => r.2.emit (k r.1)) =
      w.emit (separated first ts ++ k (first && ts.isEmpty))

lemma writeContainer_eq {ts} (h : d.Writes e levels obj d.count (d.nodes id).child ts) (w : Writer) :
    d.writeContainer e (d.write e levels) obj id w =
      w.emit (opening obj :: (commas ts ++ ((if e.append = some id then (if ts.isEmpty then [] else [ch ',']) ++ e.value
        else []) ++ [closing obj]))) := by
  have hloop := h true (w.put (opening obj)) fun first =>
    (if e.append = some id then (if first then [] else [ch ',']) ++ e.value else []) ++ [closing obj]
  rw [Writer.emit_put] at hloop
  rw [writeContainer]
  simp only [separated, Bool.true_and, if_true] at hloop
  rw [← hloop]
  cases d.writeLoop e (d.write e levels) obj d.count (d.nodes id).child true (w.put (opening obj)) with
  | none => rfl
  | some r =>
    simp only [Option.bind_some, Writer.done_eq, Writer.emit_put]
    split_ifs <;> simp

lemma Shows.raw {mark shape} (h : d.Shows id mark shape) : d.raw id = slice d.source mark := by
  rw [Document.raw, h.start, h.stop]
  rfl

lemma write_other (h : Means d e target g) (hs : d.Stands id v) (hd : d.Sane) (hid : target ≠ some id)
    (hloop : ∀ obj, v.shape = container obj → d.Writes e levels obj d.count (d.nodes id).child
      ((v.children.map fun _ => none).patch target g (id + 1)).texts) (w : Writer) : d.write e (levels + 1) id w =
      w.emit (v.shape.text ((v.children.map fun _ => none).patch target g (id + 1)).texts) := by
  have hreplace : e.replace ≠ some id ∧ e.append ≠ some id := by
    cases h with
    | nothing => simp
    | replace => exact ⟨hid, by simp⟩
    | remove => exact ⟨hid, by simp⟩
    | append => exact ⟨by simp, hid⟩
  have hcontainer : ∀ obj, v.shape = container obj → d.writeContainer e (d.write e levels) obj id w =
      w.emit (opening obj :: (commas ((v.children.map fun _ => none).patch target g (id + 1)).texts ++ [closing obj])) := by
    intro obj hshape
    rw [writeContainer_eq (hloop obj hshape), if_neg hreplace.2, List.nil_append]
  have htext := hs.shows.text
  have hcontent := hs.shows
  have hprint := hs.printable
  have hroom := hs.room
  rw [write, if_neg hreplace.1, hs.shows.kind, hs.shows.raw]
  obtain ⟨mark, shape, children⟩ := v
  simp only [Value.size] at htext hcontent hroom hcontainer ⊢
  cases shape with
  | object => exact hcontainer true rfl
  | array => exact hcontainer false rfl
  | null =>
    generalize slice d.source mark = t at htext
    cases htext (by simp) (by simp)
    simp [Shape.kind, Shape.text]
  | boolean b =>
    generalize slice d.source mark = t at htext
    cases htext (by simp) (by simp) <;> simp [Shape.kind, Shape.text]
  | number lexeme =>
    generalize slice d.source mark = t at htext
    cases htext (by simp) (by simp)
    simp [Shape.kind, Shape.text]
  | string content =>
    obtain ⟨cps, hcps⟩ : WellFormed content := hprint.1
    simp only [Shape.kind, Shape.text, hcontent.content hd (by omega)]
    rw [quote_utf8 hcps, stringText_utf8 hcps]

/-- What `write` writes for a value. -/
lemma write_eq (h : Means d e target g) (hs : d.Stands id v) (hd : d.Sane)
    (hloop : ∀ obj, v.shape = container obj → d.Writes e levels obj d.count (d.nodes id).child
      ((v.children.map fun _ => none).patch target g (id + 1)).texts) (w : Writer) :
    d.write e (levels + 1) id w = w.emit ((((v.map fun _ => none).patch target g id).map Value.text).getD []) := by
  rcases eq_or_ne target (some id) with rfl | hid
  · rw [Value.patch, if_pos rfl]
    cases h with
    | replace => simp [write]
    | remove => simp [write]
    | @append _ obj name new hkind =>
      -- the node is the array or object that gets an item more
      have hshape : v.shape = container obj := by
        rw [hs.shows.kind] at hkind
        cases hv : v.shape <;> rw [hv] at hkind <;> cases obj <;> first | rfl | cases hkind
      have hsame : (v.children.map fun _ => none).patch (some id) (appending obj name new) (id + 1) =
          v.children.map fun _ => (none : Option Str) := by
        apply Forest.patch_outside
        rintro k ⟨⟩
        exact .inl (Nat.lt_succ_self _)
      have hitems := hloop obj hshape
      rw [hsame] at hitems
      have hwrite := writeContainer_eq hitems w
      rw [if_pos rfl] at hwrite
      have hbranch : d.write { value := memberText name ++ new.text, append := some id } (levels + 1) id w =
          d.writeContainer { value := memberText name ++ new.text, append := some id }
            (d.write { value := memberText name ++ new.text, append := some id } levels) obj id w := by
        rw [write, if_neg (by simp), hkind]
        cases obj <;> rfl
      have happend : appending obj name new (v.map fun _ => none) = some ((v.map fun _ => none).append name new) := by
        rw [appending, if_pos ⟨rfl, hshape⟩]
      have htext : ((v.map fun _ => none).append name new).text =
          opening obj :: (commas ((v.children.map fun _ => none).texts ++ [memberText name ++ new.text]) ++
            [closing obj]) := by
        rw [Value.append, Value.text, ← texts_snoc]
        simp only [Value.map, hshape, Option.getD_none]
        cases obj <;> rfl
      rw [hbranch, hwrite, happend, Option.map_some, Option.getD_some, htext, commas_snoc]
      simp only [List.append_assoc]
  · rw [write_other h hs hd hid hloop, Value.patch, if_neg hid]
    rfl

lemma Stand.writeName {n mark shape children next} (hd : d.Sane)
    (h : d.Stand obj (.cons n mark shape children next) base head) (w : Writer) (t : Str) :
    (d.writeName obj (base + n.toList.length) w).bind (fun w => w.emit t) = w.emit (memberText n ++ t) := by
  cases obj with
  | false =>
    have hnone := h.printable.1.1
    cases n with
    | none => rfl
    | some m => cases hnone
  | true =>
    obtain ⟨m, rfl, hm⟩ := h.keyName hd
    obtain ⟨cps, hcps⟩ : WellFormed m.2 := h.printable.1.2 (none, m.2) rfl
    rw [Document.writeName, if_pos rfl, hm]
    simp only [quote_utf8 hcps]
    rw [Option.bind_map]
    simp only [Function.comp_def, Writer.emit_put, Writer.emit_bind_emit]
    rw [memberText, stringText_utf8 hcps, List.append_assoc]
    rfl

lemma Stand.writes (h : Means d e target g) (hd : d.Sane) (hs : d.Stand obj f base head) (hheight : f.height ≤ levels)
    (hturns : f.length ≤ turns) :
    d.Writes e levels obj turns head ((f.map fun _ => none).patch target g base).texts := by
  induction f generalizing obj base head levels turns with
  | nil =>
    obtain rfl := hs.holds
    intro first w k
    cases turns <;> cases first <;> simp [writeLoop, Forest.map, Forest.patch, Forest.texts, separated, commas]
  | cons n mark shape children next ihc ihn =>
    rw [Forest.height] at hheight
    rw [Forest.length] at hturns
    obtain ⟨turns, rfl⟩ : ∃ k, turns = k + 1 := ⟨turns - 1, by omega⟩
    obtain ⟨levels, rfl⟩ : ∃ k, levels = k + 1 := ⟨levels - 1, by omega⟩
    obtain rfl := hs.holds.1
    have hnext : d.Writes e (levels + 1) obj turns (d.nodes (base + n.toList.length)).next _ :=
      ihn hs.tail (by omega) (by omega)
    have hitem := @Forest.patch_item (Option Str) target g base ⟨none, shape, children.map fun _ => none⟩
      (n.map fun n => (none, n.2)) (next.map fun _ => none)
    have hlen : (n.map fun n => ((none : Option Str), n.2)).toList.length = n.toList.length := by cases n <;> rfl
    rw [Forest.item, hlen, Value.size, Forest.size_map, ← Nat.add_assoc, Nat.add_right_comm] at hitem
    have hvalue : ∀ w, d.write e (levels + 1) (base + n.toList.length) w = _ :=
      write_eq h hs.first hd fun obj hshape =>
        ihc (hs.first.items hshape) (by omega) (by
          have := length_le_size children
          have := hs.first.room
          simp only [Value.size] at this
          omega)
    have hskip := h.skips (base + n.toList.length) ⟨none, shape, children.map fun _ => none⟩
    have hmap : (⟨none, shape, children.map fun _ => none⟩ : Value (Option Str)) =
        (⟨mark, shape, children⟩ : Value Span).map fun _ => none := rfl
    intro first w k
    rw [writeLoop, Forest.map, hitem]
    cases hp : Value.patch target g (base + n.toList.length)
      (⟨none, shape, children.map fun _ => none⟩ : Value (Option Str)) with
    | none =>
      rw [if_pos (hskip.2 hp)]
      exact hnext first w k
    | some u =>
      rw [hmap] at hp
      simp only [hp, Option.map_some, Option.getD_some] at hvalue
      rw [if_neg (by rw [hskip, hmap, hp]; simp), Forest.itemIf, texts_item, separated_cons]
      have hname := hs.writeName hd (if first then w else w.put (ch ',')) (u.text ++ (separated false
        ((next.map fun _ => none).patch target g (base + n.toList.length + 1 + children.size)).texts ++ k false))
      have hmember : memberText (n.map fun n => ((none : Option Str), n.2)) = memberText n := by cases n <;> rfl
      have hcomma : ∀ t, (if first then w else w.put (ch ',')).emit t = w.emit ((if first then [] else [ch ',']) ++ t) := by
        intro t
        cases first <;> simp
      rw [hcomma] at hname
      simp only [List.isEmpty_cons, Bool.and_false, List.append_assoc, hmember]
      rw [← hname]
      cases d.writeName obj (base + n.toList.length) (if first then w else w.put (ch ',')) with
      | none => rfl
      | some w₁ =>
        rw [Option.bind_some, ← Writer.emit_bind_emit w₁ u.text]
        simp only [hvalue]
        cases w₁.emit u.text with
        | none => rfl
        | some w₂ => exact hnext false w₂ k

/-- `write` from the root of a document writes the tree with the change made. -/
lemma writeRoot_eq (h : Means d e target g) (hd : d.Sane) (hs : d.Stands 0 v) (hheight : v.children.height ≤ kMaxDepth)
    (w : Writer) : d.writeRoot e w = w.emit ((((v.map fun _ => none).patch target g 0).map Value.text).getD []) := by
  apply write_eq h hs hd
  intro obj hshape
  apply (hs.items hshape).writes h hd hheight
  have hroom := hs.room
  have hlen := length_le_size v.children
  rw [Value.size] at hroom
  omega

end Rut.Json.Document
