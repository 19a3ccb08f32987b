import Rut.Json.Grammar

/-!
# Updates of JSON values

What the update operations are for, on values alone: the pointers of RFC 6901, the change of the
value a pointer selects, and the text of a value of which a part is given verbatim.
-/

namespace Rut.Json

variable {ρ : Type}

/-! ## Pointers -/

inductive TokenText : Str → Str → Prop where
  | nil : TokenText [] []
  | plain {c t token} :
    c ≠ ch '/' →
    c ≠ ch '~' →
    TokenText t token →
    TokenText (c :: t) (c :: token)
  | tilde {t token} :
    TokenText t token →
    TokenText (ch '~' :: ch '0' :: t) (ch '~' :: token)
  | slash {t token} :
    TokenText t token →
    TokenText (ch '~' :: ch '1' :: t) (ch '/' :: token)

inductive PointerText : Str → List Str → Prop where
  | nil : PointerText [] []
  | cons {t token p tokens} :
    TokenText t token →
    PointerText p tokens →
    PointerText (ch '/' :: (t ++ p)) (token :: tokens)

lemma TokenText.length {t token} (h : TokenText t token) : token.length ≤ t.length := by
  induction h with
  | nil => exact Nat.le_refl _
  | plain _ _ _ ih => simpa using ih
  | tilde _ ih => simp; omega
  | slash _ ih => simp; omega

/-- The array index a reference token stands for: digits without a leading zero. -/
def arrayIndex (token : Str) : Option Nat :=
  if token.all isDigit = true ∧ token ≠ [] ∧ (token.length = 1 ∨ token.head? ≠ some (ch '0')) then
    some (token.foldl (fun n c => n * 10 + (c.toNat - (ch '0').toNat)) 0)
  else none

namespace Forest

def position (name : Str) : Forest ρ → Option Nat
  | nil => none
  | cons n _ _ _ next => if n.map Prod.snd = some name then some 0 else (next.position name).map (· + 1)

/-- The value at a place changed, or taken out where the change is `some none`. -/
def updateAt (g : Value ρ → Option (Option (Value ρ))) : Nat → Forest ρ → Option (Forest ρ)
  | _, nil => none
  | 0, cons name mark shape children next =>
    match g ⟨mark, shape, children⟩ with
    | none => none
    | some none => some next
    | some (some v) => some (item name v next)
  | i + 1, cons name mark shape children next => (updateAt g i next).map fun f => cons name mark shape children f

def snoc (name : Option (ρ × Str)) (v : Value ρ) : Forest ρ → Forest ρ
  | nil => item name v nil
  | cons n mark shape children next => cons n mark shape children (snoc name v next)

end Forest

namespace Value

def select (token : Str) (v : Value ρ) : Option Nat :=
  match v.shape with
  | .array => arrayIndex token
  | .object => v.children.position token
  | _ => none

def update (g : Value ρ → Option (Option (Value ρ))) : List Str → Value ρ → Option (Option (Value ρ))
  | [], v => g v
  | token :: tokens, v =>
    match v.select token with
    | none => none
    | some i => (v.children.updateAt (update g tokens) i).map fun f => some { v with children := f }

def append (v : Value ρ) (name : Option (ρ × Str)) (new : Value ρ) : Value ρ :=
  { v with children := v.children.snoc name new }

def appendElement (new v : Value ρ) : Option (Option (Value ρ)) :=
  if v.shape = .array then some (some (v.append none new)) else none

def upsert (name : Str) (new v : Value Unit) : Option (Option (Value Unit)) :=
  if v.shape = .object then
    match v.children.position name with
    | some i => (v.children.updateAt (fun _ => some (some new)) i).map fun f => some { v with children := f }
    | none => some (some (v.append (some ((), name)) new))
  else none

end Value

/-! ## Verbatim texts -/

def scalars : Nat → Str → List Nat
  | 0, _ => []
  | n + 1, s =>
    match scalar s with
    | none => []
    | some (cp, rest) => cp :: scalars n rest

def stringText (s : Str) : Str := quoted (scalars s.length s)

def commas : List Str → Str
  | [] => []
  | t :: ts => t ++ ts.flatMap fun t => ch ',' :: t

def Shape.text (items : List Str) : Shape → Str
  | .null => nullToken
  | .boolean true => trueToken
  | .boolean false => falseToken
  | .number lexeme => lexeme
  | .string content => stringText content
  | .array => opening false :: (commas items ++ [closing false])
  | .object => opening true :: (commas items ++ [closing true])

def memberText : Option (ρ × Str) → Str
  | none => []
  | some (_, name) => stringText name ++ [ch ':']

/-- The texts of values in a row, where a mark is a text to be used verbatim. -/
def Forest.texts : Forest (Option Str) → List Str
  | .nil => []
  | .cons name mark shape children next => (memberText name ++ mark.getD (shape.text children.texts)) :: next.texts

def Value.text (v : Value (Option Str)) : Str := v.mark.getD (v.shape.text v.children.texts)

/-- Values in a row that have a text: the verbatim ones stand for what they say, the others are
made of numbers, UTF-8 and values that have a text. -/
def Forest.Printable : Bool → Forest (Option Str) → Prop
  | _, .nil => True
  | obj, .cons name mark shape children next =>
    (name.isSome = obj ∧ ∀ n ∈ name, WellFormed n.2) ∧
    (match mark with
      | some raw => Denotes raw ⟨(), shape, children.map fun _ => ()⟩
      | none =>
        match shape with
        | .number lexeme => NumberText lexeme ∧ children = .nil
        | .string content => WellFormed content ∧ children = .nil
        | .array => Printable false children
        | .object => Printable true children
        | _ => children = .nil) ∧
    Printable obj next

def Value.Printable (v : Value (Option Str)) : Prop :=
  match v.mark with
  | some raw => Denotes raw ⟨(), v.shape, v.children.map fun _ => ()⟩
  | none =>
    match v.shape with
    | .number lexeme => NumberText lexeme ∧ v.children = .nil
    | .string content => WellFormed content ∧ v.children = .nil
    | .array => v.children.Printable false
    | .object => v.children.Printable true
    | _ => v.children = .nil

lemma texts_item (name : Option (Option Str × Str)) (v : Value (Option Str)) (next : Forest (Option Str)) :
    (Forest.item name v next).texts = (memberText name ++ v.text) :: next.texts := rfl

lemma scalars_utf8 {s cps} (h : Utf8Text s cps) {n} (hn : s.length ≤ n) : scalars n s = cps := by
  induction h generalizing n with
  | nil => cases n <;> rfl
  | @cons cp s cps hcp _ ih =>
    have hlen := (utf8_length_le cp).1
    rw [List.length_append] at hn
    cases n with
    | zero => omega
    | succ n =>
      rw [scalars, scalar_iff.2 ⟨hcp, rfl⟩]
      simp only
      rw [ih (by omega)]

lemma stringText_utf8 {s cps} (h : Utf8Text s cps) : stringText s = quoted cps := by
  rw [stringText, scalars_utf8 h (Nat.le_refl _)]

lemma WellFormed.stringText {s} (h : WellFormed s) : StringText (stringText s) s := by
  obtain ⟨cps, hcps⟩ := h
  rw [stringText_utf8 hcps]
  exact hcps.quoted

lemma commas_cons (t : Str) {ts} (h : ts ≠ []) : commas (t :: ts) = t ++ ch ',' :: commas ts := by
  cases ts with
  | nil => exact absurd rfl h
  | cons t' ts => simp [commas]

lemma Forest.map_unit (f : Forest Unit) : f.map (fun _ => ()) = f := by
  induction f with
  | nil => rfl
  | cons name mark shape children next ihc ihn =>
    rw [map, ihc, ihn]
    cases name <;> rfl

lemma Forest.texts_eq_nil {f : Forest (Option Str)} : f.texts = [] ↔ f = .nil := by
  cases f <;> simp [texts]

lemma Value.Printable.derives {v : Value (Option Str)} (h : v.Printable)
    (hchildren : ∀ obj off, v.children.Printable obj → v.children ≠ .nil →
      Derives (fun _ _ => ()) off (commas v.children.texts) (.items obj (v.children.map fun _ => ()))) (off : Nat) :
    ∃ w t w', v.text = w ++ (t ++ w') ∧ Space w ∧
      Derives (fun _ _ => ()) (off + w.length) t (.value (v.map fun _ => ())) ∧ Space w' := by
  have hnone : Space [] := by simp [Space]
  obtain ⟨mark, shape, children⟩ := v
  cases mark with
  | some raw =>
    obtain ⟨w, t, w', rfl, hw, ht, hw'⟩ := h
    have ht' := ht.erase (off + w.length)
    rw [Item.map, Value.map, Forest.map_unit] at ht'
    exact ⟨w, t, w', rfl, hw, ht', hw'⟩
  | none =>
    -- an array or an object, empty or not
    have hcontainer : ∀ obj, children.Printable obj →
        Derives (fun _ _ => ()) (off + 0) (opening obj :: (commas children.texts ++ [closing obj]))
          (.value ⟨(), container obj, children.map fun _ => ()⟩) := by
      intro obj hobj
      cases children with
      | nil => exact .empty (w := []) hnone
      | cons name mark shape grand next => exact .container (hchildren obj _ hobj (by simp))
    cases shape with
    | null =>
      cases h
      exact ⟨[], nullToken, [], rfl, hnone, .scalar .nullLit, hnone⟩
    | boolean b =>
      cases h
      cases b with
      | false => exact ⟨[], falseToken, [], rfl, hnone, .scalar .falseLit, hnone⟩
      | true => exact ⟨[], trueToken, [], rfl, hnone, .scalar .trueLit, hnone⟩
    | number lexeme =>
      obtain ⟨hnum, rfl⟩ := h
      exact ⟨[], lexeme, [], by simp [Value.text, Shape.text], hnone, .scalar (.number hnum), hnone⟩
    | string content =>
      obtain ⟨hwf, rfl⟩ := h
      exact ⟨[], stringText content, [], by simp [Value.text, Shape.text], hnone, .scalar (.string hwf.stringText), hnone⟩
    | array => exact ⟨[], _, [], by simp [Value.text, Shape.text], hnone, hcontainer false h, hnone⟩
    | object => exact ⟨[], _, [], by simp [Value.text, Shape.text], hnone, hcontainer true h, hnone⟩

lemma memberText_name {obj} {name : Option (Option Str × Str)} (hobj : name.isSome = obj)
    (hname : ∀ n ∈ name, WellFormed n.2) (off : Nat) :
    NameText (fun _ _ => ()) off obj (memberText name) (name.map fun n => ((), n.2)) := by
  cases name with
  | none =>
    cases hobj
    exact .element
  | some n =>
    cases hobj
    exact @NameText.member Unit _ off [] _ [] _ (by simp [Space]) (hname n rfl).stringText (by simp [Space])

lemma Forest.Printable.derives {f : Forest (Option Str)} {obj} (h : f.Printable obj) (hf : f ≠ .nil) (off : Nat) :
    Derives (fun _ _ => ()) off (commas f.texts) (.items obj (f.map fun _ => ())) := by
  induction f generalizing obj off with
  | nil => exact absurd rfl hf
  | cons name mark shape children next ihc ihn =>
    obtain ⟨⟨hobj, hname⟩, hv, hnext⟩ := h
    have hn := memberText_name hobj hname off
    obtain ⟨w, t, w', htext, hw, ht, hw'⟩ := @Value.Printable.derives ⟨mark, shape, children⟩ hv
      (fun obj off hchildren hne => ihc hchildren hne off) (off + (memberText name).length)
    rw [Nat.add_assoc] at ht
    have htexts : (cons name mark shape children next).texts =
        (memberText name ++ Value.text ⟨mark, shape, children⟩) :: next.texts := rfl
    rcases eq_or_ne next .nil with rfl | hne
    · have hlast := Derives.last hn hw ht hw'
      rw [← htext] at hlast
      rw [htexts, texts, commas, List.flatMap_nil, List.append_nil]
      exact hlast
    · have hmore := Derives.more hn hw ht hw' (ihn hnext hne _)
      rw [htexts, commas_cons _ (by simpa [texts_eq_nil] using hne), htext]
      simp only [List.append_assoc]
      exact hmore

lemma Value.Printable.denotes {v : Value (Option Str)} (h : v.Printable) : Denotes v.text (v.map fun _ => ()) := by
  obtain ⟨w, t, w', htext, hw, ht, hw'⟩ := h.derives (fun obj off hchildren hne => hchildren.derives hne off) 0
  rw [Nat.zero_add] at ht
  exact ⟨w, t, w', htext, hw, ht, hw'⟩

lemma Derives.printable {mark : Nat → Nat → ρ} {off t i} (h : Derives mark off t i) :
    match i with
    | .value v => (v.map fun _ => none).Printable
    | .items obj f => (f.map fun _ => none).Printable obj := by
  have hname : ∀ {off obj n} {name : Option (ρ × Str)}, NameText mark off obj n name →
      (name.map fun m => ((none : Option Str), m.2)).isSome = obj ∧
        ∀ m ∈ name.map fun m => ((none : Option Str), m.2), WellFormed m.2 := by
    intro off obj n name h
    cases h with
    | element => exact ⟨rfl, by simp⟩
    | member _ ht _ =>
      refine ⟨rfl, ?_⟩
      rintro m ⟨⟩
      obtain ⟨ts, -, hts⟩ := ht
      exact hts.utf8
  induction h with
  | scalar ht =>
    cases ht with
    | nullLit => rfl
    | trueLit => rfl
    | falseLit => rfl
    | number ht => exact ⟨ht, rfl⟩
    | string ht =>
      obtain ⟨ts, -, hts⟩ := ht
      exact ⟨hts.utf8, rfl⟩
  | @empty _ _ obj => cases obj <;> trivial
  | @container _ _ obj _ _ ih => cases obj <;> exact ih
  | last hn _ _ _ ih => exact ⟨hname hn, ih, trivial⟩
  | more hn _ _ _ _ ih ihs => exact ⟨hname hn, ih, ihs⟩

end Rut.Json
