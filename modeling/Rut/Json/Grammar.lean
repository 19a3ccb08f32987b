import Rut.Json.Scalar

/-!
# The grammar of JSON texts

The grammar of RFC 8259 with its parse trees. A list of values is a `Forest` in first-child,
next-sibling form, as the nodes of `Document` are linked; every value and every member name carries
a mark, which is its source range in the tree of a text and nothing in the value a text stands for.
-/

namespace Rut.Json

inductive Forest (ρ : Type) where
  | nil
  | cons (name : Option (ρ × Str)) (mark : ρ) (shape : Shape) (children next : Forest ρ)
  deriving DecidableEq

structure Value (ρ : Type) where
  mark : ρ
  shape : Shape
  children : Forest ρ
  deriving DecidableEq

structure Span where
  start : Nat
  stop : Nat
  deriving DecidableEq

variable {ρ σ : Type}

namespace Forest

def item (name : Option (ρ × Str)) (v : Value ρ) (next : Forest ρ) : Forest ρ :=
  cons name v.mark v.shape v.children next

def names : Forest ρ → List Str
  | nil => []
  | cons name _ _ _ next => (name.map Prod.snd).toList ++ next.names

def size : Forest ρ → Nat
  | nil => 0
  | cons name _ _ children next => name.toList.length + 1 + children.size + next.size

def height : Forest ρ → Nat
  | nil => 0
  | cons _ _ _ children next => max (children.height + 1) next.height

def Distinct : Forest ρ → Prop
  | nil => True
  | cons name _ _ children next => (∀ n ∈ name.map Prod.snd, n ∉ next.names) ∧ children.Distinct ∧ next.Distinct

def length : Forest ρ → Nat
  | nil => 0
  | cons _ _ _ _ next => next.length + 1

def map (g : ρ → σ) : Forest ρ → Forest σ
  | nil => nil
  | cons name mark shape children next =>
    cons (name.map fun n => (g n.1, n.2)) (g mark) shape (children.map g) (next.map g)

section
variable (name : Option (ρ × Str)) (v : Value ρ) (next : Forest ρ)

@[simp] lemma names_item : (item name v next).names = (name.map Prod.snd).toList ++ next.names := rfl

@[simp] lemma height_item : (item name v next).height = max (v.children.height + 1) next.height := rfl

@[simp] lemma size_item : (item name v next).size = name.toList.length + 1 + v.children.size + next.size := rfl

@[simp] lemma distinct_item : (item name v next).Distinct ↔
    (∀ n ∈ name.map Prod.snd, n ∉ next.names) ∧ v.children.Distinct ∧ next.Distinct := Iff.rfl

end

end Forest

namespace Value

def size (v : Value ρ) : Nat := v.children.size + 1

def map (g : ρ → σ) (v : Value ρ) : Value σ := ⟨g v.mark, v.shape, v.children.map g⟩

end Value

/-! ## Texts -/

def opening (obj : Bool) : UInt8 := if obj then ch '{' else ch '['

def closing (obj : Bool) : UInt8 := if obj then ch '}' else ch ']'

def container (obj : Bool) : Shape := if obj then .object else .array

/-- What stands before a value at offset `off`: nothing in an array, the name of the member and a
colon in an object. -/
inductive NameText (mark : Nat → Nat → ρ) (off : Nat) : Bool → Str → Option (ρ × Str) → Prop where
  | element : NameText mark off false [] none
  | member {w t w' name} :
    Space w →
    StringText t name →
    Space w' →
    NameText mark off true (w ++ (t ++ (w' ++ [ch ':'])))
      (some (mark (off + w.length) (off + w.length + t.length), name))

inductive Item (ρ : Type) where
  | value (v : Value ρ)
  | items (obj : Bool) (f : Forest ρ)

/-- The texts of values, without the white space around them, and of the values between the
brackets of an array or an object, at an offset of the source. -/
inductive Derives (mark : Nat → Nat → ρ) : Nat → Str → Item ρ → Prop where
  | scalar {off t shape} :
    ScalarText t shape →
    Derives mark off t (.value ⟨mark off (off + t.length), shape, .nil⟩)
  | empty {off w obj} :
    Space w →
    Derives mark off (opening obj :: (w ++ [closing obj]))
      (.value ⟨mark off (off + (w.length + 2)), container obj, .nil⟩)
  | container {off t obj f} :
    Derives mark (off + 1) t (.items obj f) →
    Derives mark off (opening obj :: (t ++ [closing obj]))
      (.value ⟨mark off (off + (t.length + 2)), container obj, f⟩)
  | last {off n obj name w t v w'} :
    NameText mark off obj n name →
    Space w →
    Derives mark (off + (n.length + w.length)) t (.value v) →
    Space w' →
    Derives mark off (n ++ (w ++ (t ++ w'))) (.items obj (.item name v .nil))
  | more {off n obj name w t v w' ts f} :
    NameText mark off obj n name →
    Space w →
    Derives mark (off + (n.length + w.length)) t (.value v) →
    Space w' →
    Derives mark (off + (n.length + w.length + t.length + w'.length + 1)) ts (.items obj f) →
    Derives mark off (n ++ (w ++ (t ++ (w' ++ ch ',' :: ts)))) (.items obj (.item name v f))

def JsonText (mark : Nat → Nat → ρ) (s : Str) (v : Value ρ) : Prop :=
  ∃ w t w', s = w ++ (t ++ w') ∧ Space w ∧ Derives mark w.length t (.value v) ∧ Space w'

def ParseTree (s : Str) (v : Value Span) : Prop := JsonText Span.mk s v

def Denotes (s : Str) (v : Value Unit) : Prop := JsonText (fun _ _ => ()) s v

/-- Within the limits of `Document`. -/
structure WithinLimits (s : Str) (v : Value ρ) : Prop where
  bytes : s.length ≤ kMaxBytes
  depth : v.children.height ≤ kMaxDepth
  nodes : v.size ≤ kMaxNodes
  distinct : v.children.Distinct

/-! ## Other marks -/

def Item.map (g : ρ → σ) : Item ρ → Item σ
  | .value v => .value (v.map g)
  | .items obj f => .items obj (f.map g)

lemma NameText.erase {mark : Nat → Nat → ρ} {off obj n name} (h : NameText mark off obj n name) (off' : Nat) :
    NameText (fun _ _ => ()) off' obj n (name.map fun m => ((), m.2)) := by
  cases h with
  | element => exact .element
  | member hw ht hw' => exact .member hw ht hw'

lemma Derives.erase {mark : Nat → Nat → ρ} {off t i} (h : Derives mark off t i) (off' : Nat) :
    Derives (fun _ _ => ()) off' t (i.map fun _ => ()) := by
  induction h generalizing off' with
  | scalar ht => exact .scalar ht
  | empty hw => exact .empty hw
  | container _ ih => exact .container (ih _)
  | last hn hw _ hw' ih => exact .last (hn.erase off') hw (ih _) hw'
  | more hn hw _ hw' _ ih ihs => exact .more (hn.erase off') hw (ih _) hw' (ihs _)

lemma JsonText.erase {mark : Nat → Nat → ρ} {s v} (h : JsonText mark s v) : Denotes s (v.map fun _ => ()) := by
  obtain ⟨w, t, w', rfl, hw, ht, hw'⟩ := h
  exact ⟨w, t, w', rfl, hw, ht.erase w.length, hw'⟩

lemma Derives.lift {off t i} (h : Derives (fun _ _ => ()) off t i) (mark : Nat → Nat → ρ)
    (off' : Nat) : ∃ j : Item ρ, Derives mark off' t j ∧ j.map (fun _ => ()) = i := by
  have hname : ∀ {off obj n} {name : Option (Unit × Str)} (off' : Nat), NameText (fun _ _ => ()) off obj n name →
      ∃ m : Option (ρ × Str), NameText mark off' obj n m ∧ m.map (fun m => ((), m.2)) = name := by
    intro off obj n name off' h
    cases h with
    | element => exact ⟨none, .element, rfl⟩
    | member hw ht hw' => exact ⟨_, .member hw ht hw', rfl⟩
  induction h generalizing off' with
  | scalar ht => exact ⟨_, .scalar ht, rfl⟩
  | empty hw => exact ⟨_, .empty hw, rfl⟩
  | container _ ih =>
    obtain ⟨_ | ⟨obj, f⟩, hj, hi⟩ := ih (off' + 1)
    · cases hi
    · cases hi
      exact ⟨_, .container hj, rfl⟩
  | @last _ n _ _ w _ _ _ hn hw _ hw' ih =>
    obtain ⟨m, hm, rfl⟩ := hname off' hn
    obtain ⟨v | _, hj, hi⟩ := ih (off' + (n.length + w.length))
    · cases hi
      exact ⟨_, .last hm hw hj hw', rfl⟩
    · cases hi
  | @more _ n _ _ w t _ w' _ _ hn hw _ hw' _ ih ihs =>
    obtain ⟨m, hm, rfl⟩ := hname off' hn
    obtain ⟨v | _, hj, hi⟩ := ih (off' + (n.length + w.length))
    · cases hi
      obtain ⟨_ | ⟨obj, f⟩, hk, hi⟩ := ihs (off' + (n.length + w.length + t.length + w'.length + 1))
      · cases hi
      · cases hi
        exact ⟨_, .more hm hw hj hw' hk, rfl⟩
    · cases hi

lemma Denotes.parseTree {s v} (h : Denotes s v) : ∃ tree, ParseTree s tree ∧ tree.map (fun _ => ()) = v := by
  obtain ⟨w, t, w', rfl, hw, ht, hw'⟩ := h
  obtain ⟨tree | _, hj, hi⟩ := ht.lift Span.mk w.length
  · cases hi
    exact ⟨tree, ⟨w, t, w', rfl, hw, hj, hw'⟩, rfl⟩
  · cases hi

/-! ## First bytes -/

lemma Derives.head {mark : Nat → Nat → ρ} {off t v} (h : Derives mark off t (.value v)) :
    ∃ c s, t = c :: s ∧ isSpace c = false ∧ c ≠ ch ']' ∧ c ≠ ch '}' := by
  cases h with
  | scalar ht =>
    obtain ⟨c, s, hs, -, hspace, -, -, hsquare, hcurly⟩ := ht.read Stops.nil
    rw [List.append_nil] at hs
    exact ⟨c, s, hs, hspace, hsquare, hcurly⟩
  | @empty _ _ obj => exact ⟨_, _, rfl, by cases obj <;> decide⟩
  | @container _ _ obj => exact ⟨_, _, rfl, by cases obj <;> decide⟩

lemma whitespace_space {w rest : Str} (hw : Space w) (hrest : Stops isSpace rest) : whitespace (w ++ rest) = rest :=
  dropWhile_run hw hrest

lemma whitespace_split (s : Str) : ∃ w, s = w ++ whitespace s ∧ Space w ∧ Stops isSpace (whitespace s) :=
  dropWhile_split isSpace s

@[simp] lemma whitespace_whitespace (s : Str) : whitespace (whitespace s) = whitespace s :=
  List.dropWhile_idempotent _ _

lemma StringText.head {t content} (h : StringText t content) : ∃ s, t = ch '"' :: s := by
  obtain ⟨ts, rfl, -⟩ := h
  exact ⟨_, rfl⟩

lemma Derives.items_head {mark : Nat → Nat → ρ} {off t obj f} (h : Derives mark off t (.items obj f)) (rest : Str) :
    ∃ c s, whitespace (t ++ rest) = c :: s ∧ c ≠ ch ']' ∧ c ≠ ch '}' := by
  -- what comes first is the name of the member, or else the value
  have hfirst : ∀ {off off' n name w t v r}, NameText mark off obj n name → Space w →
      Derives mark off' t (.value v) → ∃ c s, whitespace (n ++ (w ++ (t ++ r))) = c :: s ∧ c ≠ ch ']' ∧ c ≠ ch '}' := by
    intro off off' n name w t v r hn hw ht
    cases hn with
    | element =>
      obtain ⟨c, s, rfl, hspace, hne⟩ := ht.head
      refine ⟨c, s ++ r, ?_, hne⟩
      rw [List.nil_append, List.cons_append, whitespace_space hw (Stops.cons hspace)]
    | @member w₁ t₁ w₂ m hw₁ ht₁ hw₂ =>
      obtain ⟨s, rfl⟩ := ht₁.head
      refine ⟨ch '"', s ++ (w₂ ++ [ch ':']) ++ (w ++ (t ++ r)), ?_, by decide⟩
      rw [List.append_assoc, List.cons_append, List.cons_append, whitespace_space hw₁ (Stops.cons (by decide))]
  cases h with
  | last hn hw ht hw' =>
    obtain ⟨c, s, heq, hne⟩ := hfirst (r := _ ++ rest) hn hw ht
    exact ⟨c, s, by simpa using heq, hne⟩
  | @more _ _ _ _ _ _ _ w' ts _ hn hw ht hw' hts =>
    obtain ⟨c, s, heq, hne⟩ := hfirst (r := w' ++ ch ',' :: (ts ++ rest)) hn hw ht
    exact ⟨c, s, by simpa using heq, hne⟩

/-! ## Texts are UTF-8 -/

lemma Utf8Text.append {s t cps cps'} (hs : Utf8Text s cps) (ht : Utf8Text t cps') :
    Utf8Text (s ++ t) (cps ++ cps') := by
  induction hs with
  | nil => exact ht
  | cons hcp _ ih =>
    rw [List.append_assoc]
    exact .cons hcp ih

def WellFormed (s : Str) : Prop := ∃ cps, Utf8Text s cps

lemma WellFormed.append {s t} (hs : WellFormed s) (ht : WellFormed t) : WellFormed (s ++ t) := by
  obtain ⟨cps, hcps⟩ := hs
  obtain ⟨cps', hcps'⟩ := ht
  exact ⟨_, hcps.append hcps'⟩

lemma WellFormed.ascii {s} (h : s.all (fun c => decide (c < 128)) = true) : WellFormed s := by
  induction s with
  | nil => exact ⟨[], .nil⟩
  | cons c s ih =>
    rw [List.all_cons, Bool.and_eq_true, decide_eq_true_eq] at h
    obtain ⟨cps, hcps⟩ := ih h.2
    have hc : c.toNat < 0x80 := UInt8.lt_iff_toNat_lt.1 h.1
    have hbyte : utf8 c.toNat = [c] := by rw [utf8, if_pos hc, UInt8.ofNat_toNat]
    refine ⟨c.toNat :: cps, ?_⟩
    have hscalar : IsScalar c.toNat := ⟨by omega, by omega⟩
    have htext := Utf8Text.cons hscalar hcps
    rwa [hbyte] at htext

lemma WellFormed.cons {c s} (hc : c < 128) (hs : WellFormed s) : WellFormed (c :: s) := by
  have hone : WellFormed [c] := .ascii (by simpa using hc)
  exact hone.append hs

lemma ascii_of {p : UInt8 → Bool} (hp : ∀ n < 256, p (UInt8.ofNat n) = true → UInt8.ofNat n < 128) {s}
    (hs : ∀ c ∈ s, p c = true) : WellFormed s := by
  apply WellFormed.ascii
  rw [List.all_eq_true]
  intro c hc
  exact decide_eq_true (forall_uint8 (P := fun c => p c = true → c < 128) hp c (hs c hc))

lemma ascii_classes : ∀ n < 256,
    isSpace (UInt8.ofNat n) = true ∨ (hexDigit (UInt8.ofNat n)).isSome = true ∨ (escape (UInt8.ofNat n)).isSome = true ∨
      isDigit (UInt8.ofNat n) = true → UInt8.ofNat n < 128 := by
  decide +kernel

lemma Space.wellFormed {w : Str} (h : Space w) : WellFormed w :=
  ascii_of (fun n hn hp => ascii_classes n hn (.inl hp)) h

lemma hexDigit_ascii {t v} (h : HexText t v) : WellFormed t := by
  obtain ⟨a, b, c, d, ht, -⟩ := h
  apply ascii_of (p := fun c => (hexDigit c).isSome) fun n hn hp => ascii_classes n hn (.inr (.inl hp))
  intro e he
  have hmem : hexDigit e ∈ [some a, some b, some c, some d] := ht ▸ List.mem_map_of_mem he
  simp only [List.mem_cons, List.not_mem_nil, or_false] at hmem
  rcases hmem with h | h | h | h <;> simp [h]

lemma CharText.wellFormed {t cp} (h : CharText t cp) : WellFormed t := by
  cases h with
  | plain hs => exact ⟨[cp], by simpa using Utf8Text.cons hs .nil⟩
  | @letter e _ he =>
    have hall : ∀ c : UInt8, (escape c).isSome = true → c < 128 := by
      apply forall_uint8
      exact fun n hn hp => ascii_classes n hn (.inr (.inr (.inl hp)))
    have hascii := hall e (by rw [he]; rfl)
    exact .cons (by decide) (.cons hascii (.ascii rfl))
  | unit ht => exact .cons (by decide) (.cons (by decide) (hexDigit_ascii ht))
  | pair ht _ ht' =>
    exact .cons (by decide) (.cons (by decide)
      ((hexDigit_ascii ht).append (.cons (by decide) (.cons (by decide) (hexDigit_ascii ht')))))

lemma StringText.wellFormed {t content} (h : StringText t content) : WellFormed t := by
  obtain ⟨ts, rfl, hts⟩ := h
  have hchars : WellFormed ts := by
    induction hts with
    | nil => exact ⟨[], .nil⟩
    | cons hct _ ih => exact hct.wellFormed.append ih
  exact (WellFormed.cons (by decide) hchars).append (.ascii (by decide))

lemma NumberText.wellFormed {t} (h : NumberText t) : WellFormed t := by
  have hdigits : ∀ {ds : Str}, (∀ c ∈ ds, isDigit c = true) → WellFormed ds :=
    ascii_of fun n hn hp => ascii_classes n hn (.inr (.inr (.inr hp)))
  obtain ⟨m, i, f, e, rfl, hm, hi, hf, he⟩ := h
  refine .append ?_ (.append ?_ (.append ?_ ?_))
  · rcases hm with rfl | rfl
    · exact .ascii (by simp)
    · exact .ascii (by decide)
  · rcases hi with rfl | ⟨c, ds, rfl, hlow, hhigh, hds⟩
    · exact .ascii (by decide)
    · apply hdigits
      rintro d (_ | ⟨_, hd⟩)
      · exact isDigit_of_le hlow hhigh
      · exact hds d hd
  · rcases hf with rfl | ⟨ds, rfl, hds⟩
    · exact .ascii (by simp)
    · exact .cons (by decide) (hdigits hds.2)
  · rcases he with rfl | ⟨c, sg, ds, rfl, hc, hsg, hds⟩
    · exact .ascii (by simp)
    · refine .cons ?_ (.append ?_ (hdigits hds.2))
      · rcases hc with rfl | rfl <;> decide
      · rcases hsg with rfl | rfl | rfl <;> exact .ascii (by decide)

lemma ScalarText.wellFormed {t shape} (h : ScalarText t shape) : WellFormed t := by
  cases h with
  | nullLit => exact .ascii (by decide)
  | trueLit => exact .ascii (by decide)
  | falseLit => exact .ascii (by decide)
  | number ht => exact ht.wellFormed
  | string ht => exact ht.wellFormed

lemma NameText.wellFormed {mark : Nat → Nat → ρ} {off obj n name}
    (h : NameText mark off obj n name) : WellFormed n := by
  cases h with
  | element => exact .ascii (by simp)
  | member hw ht hw' => exact hw.wellFormed.append (ht.wellFormed.append (hw'.wellFormed.append (.ascii (by decide))))

lemma Derives.wellFormed {mark : Nat → Nat → ρ} {off t i} (h : Derives mark off t i) : WellFormed t := by
  have hopen : ∀ obj, opening obj < 128 := by decide
  have hclose : ∀ obj, WellFormed [closing obj] := fun obj => .ascii (by cases obj <;> decide)
  induction h with
  | scalar ht => exact ht.wellFormed
  | empty hw => exact .cons (hopen _) (hw.wellFormed.append (hclose _))
  | container _ ih => exact .cons (hopen _) (ih.append (hclose _))
  | last hn hw _ hw' ih => exact hn.wellFormed.append (hw.wellFormed.append (ih.append hw'.wellFormed))
  | more hn hw _ hw' _ ih ihs =>
    exact hn.wellFormed.append (hw.wellFormed.append (ih.append (hw'.wellFormed.append (.cons (by decide) ihs))))

lemma JsonText.wellFormed {mark : Nat → Nat → ρ} {s v} (h : JsonText mark s v) : WellFormed s := by
  obtain ⟨w, t, w', rfl, hw, ht, hw'⟩ := h
  exact hw.wellFormed.append (ht.wellFormed.append hw'.wellFormed)

end Rut.Json
