import Rut.Json.Lexical

/-!
# Values without children

The branches of `Document::parse_value` in `include/rut/runtime/json.h` for strings, literals and
numbers, with `whitespace` and `take`. `ScalarText` is the grammar of these values; `readScalar`
reads the longest one, which is all of it where the next byte cannot go on with a number.
-/

namespace Rut.Json

inductive Kind where
  | null
  | boolean
  | number
  | string
  | array
  | object
  deriving DecidableEq

/-- A value without its children: numbers keep their lexeme, strings what they stand for. -/
inductive Shape where
  | null
  | boolean (b : Bool)
  | number (lexeme : Str)
  | string (content : Str)
  | array
  | object
  deriving DecidableEq

def Shape.kind : Shape → Kind
  | .null => .null
  | .boolean _ => .boolean
  | .number _ => .number
  | .string _ => .string
  | .array => .array
  | .object => .object

/-! ## The branches of the parser -/

def isSpace (c : UInt8) : Bool := c == ch ' ' || c == ch '\t' || c == ch '\r' || c == ch '\n'

def isDigit (c : UInt8) : Bool := decide (ch '0' ≤ c) && decide (c ≤ ch '9')

def whitespace (rest : Str) : Str := rest.dropWhile isSpace

def take (c : UInt8) : Str → Option Str
  | [] => none
  | d :: rest => if d = c then some rest else none

def someDigits (rest : Str) : Option Str :=
  let after := rest.dropWhile isDigit
  if after.length = rest.length then none else some after

def leadingDigits : Str → Option Str
  | [] => none
  | c :: rest => if c < ch '1' ∨ ch '9' < c then none else some ((c :: rest).dropWhile isDigit)

def integerPart (rest : Str) : Option Str := (take (ch '0') rest).or (leadingDigits rest)

def fraction (rest : Str) : Option Str :=
  match take (ch '.') rest with
  | none => some rest
  | some rest => someDigits rest

def sign (rest : Str) : Str :=
  match take (ch '+') rest with
  | some rest => rest
  | none => (take (ch '-') rest).getD rest

def exponent (rest : Str) : Option Str :=
  match (take (ch 'e') rest).or (take (ch 'E') rest) with
  | none => some rest
  | some rest => someDigits (sign rest)

/-- The branch of `parse_value` for a number. -/
def number (rest : Str) : Option Str :=
  ((integerPart ((take (ch '-') rest).getD rest)).bind fraction).bind exponent

/-- The branch of `parse_value` for `null`, `true` and `false`. -/
def literal (token rest : Str) : Option Str :=
  if rest.length < token.length ∨ rest.take token.length ≠ token then none else some (rest.drop token.length)

def nullToken : Str := lit ['n','u','l','l']
def trueToken : Str := lit ['t','r','u','e']
def falseToken : Str := lit ['f','a','l','s','e']

/-- The value that starts at the next byte `c`, unless `c` opens an array or an object. -/
def readScalar (c : UInt8) (rest : Str) : Option (Shape × Str) :=
  if c = ch '"' then (decode rest (.fresh rest.length)).map fun r => (.string r.2.out, r.1)
  else if c = ch 'n' then (literal nullToken rest).map fun r => (.null, r)
  else if c = ch 't' then (literal trueToken rest).map fun r => (.boolean true, r)
  else if c = ch 'f' then (literal falseToken rest).map fun r => (.boolean false, r)
  else (number rest).map fun r => (.number (rest.take (rest.length - r.length)), r)

/-! ## The grammar -/

def Space (w : Str) : Prop := ∀ c ∈ w, isSpace c = true

def DigitsText (t : Str) : Prop := t ≠ [] ∧ ∀ c ∈ t, isDigit c = true

def IntText (t : Str) : Prop :=
  t = [ch '0'] ∨ ∃ c ds, t = c :: ds ∧ ch '1' ≤ c ∧ c ≤ ch '9' ∧ ∀ d ∈ ds, isDigit d = true

def FracText (t : Str) : Prop := t = [] ∨ ∃ ds, t = ch '.' :: ds ∧ DigitsText ds

def SignText (t : Str) : Prop := t = [] ∨ t = [ch '+'] ∨ t = [ch '-']

def ExpText (t : Str) : Prop :=
  t = [] ∨ ∃ e s ds, t = e :: (s ++ ds) ∧ (e = ch 'e' ∨ e = ch 'E') ∧ SignText s ∧ DigitsText ds

def NumberText (t : Str) : Prop :=
  ∃ m i f e, t = m ++ (i ++ (f ++ e)) ∧ (m = [] ∨ m = [ch '-']) ∧ IntText i ∧ FracText f ∧ ExpText e

inductive ScalarText : Str → Shape → Prop where
  | nullLit : ScalarText nullToken .null
  | trueLit : ScalarText trueToken (.boolean true)
  | falseLit : ScalarText falseToken (.boolean false)
  | number {t} : NumberText t → ScalarText t (.number t)
  | string {t content} : StringText t content → ScalarText t (.string content)

/-- The next byte, if there is one, is none of those of `p`. -/
def Stops (p : UInt8 → Bool) (s : Str) : Prop := ∀ c t, s = c :: t → p c = false

def goesOn (c : UInt8) : Bool := isDigit c || c == ch '.' || c == ch 'e' || c == ch 'E'

section
variable {p : UInt8 → Bool} {s t rest : Str} {c : UInt8}

lemma Stops.nil : Stops p [] := fun _ _ h => by cases h

lemma Stops.cons (h : p c = false) : Stops p (c :: s) := by
  rintro c t ⟨⟩
  exact h

lemma dropWhile_run (ht : ∀ c ∈ t, p c = true) (h : Stops p rest) : (t ++ rest).dropWhile p = rest := by
  induction t with
  | nil =>
    cases rest with
    | nil => rfl
    | cons c rest => rw [List.nil_append, List.dropWhile_cons_of_neg (by simp [h c rest rfl])]
  | cons c t ih =>
    rw [List.cons_append, List.dropWhile_cons_of_pos (ht c (by simp))]
    exact ih fun c hc => ht c (by simp [hc])

lemma dropWhile_split (p : UInt8 → Bool) (s : Str) :
    ∃ t, s = t ++ s.dropWhile p ∧ (∀ c ∈ t, p c = true) ∧ Stops p (s.dropWhile p) := by
  refine ⟨s.takeWhile p, List.takeWhile_append_dropWhile.symm, fun c hc => List.mem_takeWhile_imp hc, ?_⟩
  intro c t h
  have := List.head?_dropWhile_not p s
  simpa [h] using this

lemma take_eq_some : take c s = some rest ↔ s = c :: rest := by
  cases s with
  | nil => simp [take]
  | cons d s => by_cases hd : d = c <;> simp [take, hd]

lemma take_none (h : ∀ t, s ≠ c :: t) : take c s = none := by
  rw [Option.eq_none_iff_forall_ne_some]
  intro rest hrest
  exact h rest (take_eq_some.1 hrest)

end

/-! ## What the branches read -/

section
variable {s t rest : Str}

lemma someDigits_sound (h : someDigits s = some rest) : ∃ t, s = t ++ rest ∧ DigitsText t := by
  obtain ⟨t, hs, ht, -⟩ := dropWhile_split isDigit s
  rw [someDigits] at h
  split at h
  next => cases h
  next hlen =>
    cases h
    refine ⟨t, hs, ?_, ht⟩
    rintro rfl
    exact hlen (congrArg List.length hs).symm

lemma DigitsText.read (h : DigitsText t) (hrest : Stops isDigit rest) : someDigits (t ++ rest) = some rest := by
  rw [someDigits, dropWhile_run h.2 hrest, if_neg]
  have := List.length_pos_iff.2 h.1
  rw [List.length_append]
  omega

lemma isDigit_of_le {c} (hlow : ch '1' ≤ c) (hhigh : c ≤ ch '9') : isDigit c = true := by
  have hle : ch '0' ≤ ch '1' := by decide
  simp [isDigit, UInt8.le_trans hle hlow, hhigh]

lemma integerPart_sound (h : integerPart s = some rest) : ∃ t, s = t ++ rest ∧ IntText t := by
  rw [integerPart, Option.or_eq_some_iff] at h
  rcases h with hzero | ⟨-, h⟩
  · exact ⟨[ch '0'], take_eq_some.1 hzero, .inl rfl⟩
  · cases s with
    | nil => cases h
    | cons c s =>
      rw [leadingDigits] at h
      split at h
      next => cases h
      next hc =>
        rw [not_or, UInt8.not_lt, UInt8.not_lt] at hc
        rw [List.dropWhile_cons_of_pos (isDigit_of_le hc.1 hc.2)] at h
        obtain ⟨t, hs, ht, -⟩ := dropWhile_split isDigit s
        cases h
        exact ⟨c :: t, by rw [List.cons_append, ← hs], .inr ⟨c, t, rfl, hc.1, hc.2, ht⟩⟩

lemma IntText.read (h : IntText t) (hrest : Stops isDigit rest) : integerPart (t ++ rest) = some rest := by
  rcases h with rfl | ⟨c, ds, rfl, hlow, hhigh, hds⟩
  · rw [integerPart, take_eq_some.2 (rfl : [ch '0'] ++ rest = ch '0' :: rest)]
    rfl
  · have hzero : take (ch '0') (c :: ds ++ rest) = none := by
      apply take_none
      rintro s ⟨⟩
      exact absurd hlow (by decide)
    rw [integerPart, hzero, Option.none_or, List.cons_append, leadingDigits,
      if_neg (by rw [not_or, UInt8.not_lt, UInt8.not_lt]; exact ⟨hlow, hhigh⟩),
      List.dropWhile_cons_of_pos (isDigit_of_le hlow hhigh), dropWhile_run hds hrest]

lemma fraction_sound (h : fraction s = some rest) : ∃ t, s = t ++ rest ∧ FracText t := by
  rw [fraction] at h
  split at h
  next =>
    cases h
    exact ⟨[], rfl, .inl rfl⟩
  next r hr =>
    obtain ⟨ds, rfl, hds⟩ := someDigits_sound h
    exact ⟨ch '.' :: ds, take_eq_some.1 hr, .inr ⟨ds, rfl, hds⟩⟩

lemma FracText.read (h : FracText t) (hdigit : Stops isDigit rest) (hpoint : ∀ s, rest ≠ ch '.' :: s) :
    fraction (t ++ rest) = some rest := by
  rcases h with rfl | ⟨ds, rfl, hds⟩
  · rw [List.nil_append, fraction, take_none hpoint]
  · rw [fraction, take_eq_some.2 (rfl : ch '.' :: ds ++ rest = ch '.' :: (ds ++ rest))]
    exact hds.read hdigit

lemma sign_sound (s : Str) : ∃ t, s = t ++ sign s ∧ SignText t := by
  rw [sign]
  split
  next r hr => exact ⟨[ch '+'], take_eq_some.1 hr, .inr (.inl rfl)⟩
  next =>
    cases hminus : take (ch '-') s with
    | none => exact ⟨[], rfl, .inl rfl⟩
    | some r => exact ⟨[ch '-'], take_eq_some.1 hminus, .inr (.inr rfl)⟩

lemma SignText.read (h : SignText t) (hplus : ∀ s, rest ≠ ch '+' :: s) (hminus : ∀ s, rest ≠ ch '-' :: s) :
    sign (t ++ rest) = rest := by
  rcases h with rfl | rfl | rfl
  · rw [List.nil_append, sign, take_none hplus, take_none hminus]
    rfl
  · rw [sign, take_eq_some.2 (rfl : [ch '+'] ++ rest = ch '+' :: rest)]
    rfl
  · have hno : take (ch '+') ([ch '-'] ++ rest) = none := take_none fun s h => absurd (List.cons.inj h).1 (by decide)
    rfl

lemma exponent_sound (h : exponent s = some rest) : ∃ t, s = t ++ rest ∧ ExpText t := by
  rw [exponent] at h
  split at h
  next =>
    cases h
    exact ⟨[], rfl, .inl rfl⟩
  next r hr =>
    obtain ⟨sg, hsg, hsign⟩ := sign_sound r
    obtain ⟨ds, hds, hdigits⟩ := someDigits_sound h
    rw [hds] at hsg
    have hhead : ∃ e, s = e :: r ∧ (e = ch 'e' ∨ e = ch 'E') := by
      rw [Option.or_eq_some_iff] at hr
      rcases hr with hr | ⟨-, hr⟩
      · exact ⟨_, take_eq_some.1 hr, .inl rfl⟩
      · exact ⟨_, take_eq_some.1 hr, .inr rfl⟩
    obtain ⟨e, rfl, he⟩ := hhead
    refine ⟨e :: (sg ++ ds), ?_, .inr ⟨e, sg, ds, rfl, he, hsign, hdigits⟩⟩
    rw [hsg]
    simp

lemma ExpText.read (h : ExpText t) (hrest : Stops goesOn rest) : exponent (t ++ rest) = some rest := by
  have hdigit : Stops isDigit rest := fun c s hs => by
    have := hrest c s hs
    simp only [goesOn, Bool.or_eq_false_iff] at this
    exact this.1.1.1
  rcases h with rfl | ⟨e, sg, ds, rfl, he, hsign, hds⟩
  · have hno : ∀ b : UInt8, goesOn b = true → take b rest = none := by
      intro b hb
      apply take_none
      rintro s rfl
      rw [hrest b s rfl] at hb
      cases hb
    rw [List.nil_append, exponent, hno _ (by decide), hno _ (by decide)]
    rfl
  · have hread : (take (ch 'e') (e :: (sg ++ ds) ++ rest)).or (take (ch 'E') (e :: (sg ++ ds) ++ rest)) =
        some (sg ++ (ds ++ rest)) := by
      rcases he with rfl | rfl
      · simp [take]
      · simp [take]
    have hhead : ∀ b : UInt8, isDigit b = false → ∀ s, ds ++ rest ≠ b :: s := by
      intro b hb s hs
      cases ds with
      | nil => exact hds.1 rfl
      | cons d ds =>
        cases hs
        have := hds.2 b (by simp)
        rw [hb] at this
        cases this
    rw [exponent, hread]
    simp only
    rw [hsign.read (hhead _ (by decide)) (hhead _ (by decide))]
    exact hds.read hdigit

lemma number_sound (h : number s = some rest) : ∃ t, s = t ++ rest ∧ NumberText t := by
  simp only [number, Option.bind_eq_some_iff] at h
  obtain ⟨r₂, ⟨r₁, hreadInt, hreadFrac⟩, hreadExp⟩ := h
  obtain ⟨i, hi, hint⟩ := integerPart_sound hreadInt
  obtain ⟨f, rfl, hfrac⟩ := fraction_sound hreadFrac
  obtain ⟨e, rfl, hexp⟩ := exponent_sound hreadExp
  cases hminus : take (ch '-') s with
  | none =>
    rw [hminus, Option.getD_none] at hi
    exact ⟨i ++ (f ++ e), by simp [hi], [], i, f, e, rfl, .inl rfl, hint, hfrac, hexp⟩
  | some r =>
    rw [hminus, Option.getD_some] at hi
    rw [take_eq_some.1 hminus, hi]
    exact ⟨ch '-' :: (i ++ (f ++ e)), by simp, [ch '-'], i, f, e, rfl, .inr rfl, hint, hfrac, hexp⟩

lemma ExpText.stops (h : ExpText t) (hrest : Stops goesOn rest) :
    Stops isDigit (t ++ rest) ∧ ∀ s, t ++ rest ≠ ch '.' :: s := by
  rcases h with rfl | ⟨e, sg, ds, rfl, he, -, -⟩
  · constructor
    · intro c s hs
      have := hrest c s hs
      simp only [goesOn, Bool.or_eq_false_iff] at this
      exact this.1.1.1
    · intro s hs
      exact absurd (hrest _ _ hs) (by decide)
  · constructor
    · apply Stops.cons
      rcases he with rfl | rfl <;> decide
    · rintro s hs
      rcases he with rfl | rfl <;> exact absurd (List.cons.inj hs).1 (by decide)

lemma FracText.stops (h : FracText t) (hrest : Stops isDigit rest) : Stops isDigit (t ++ rest) := by
  rcases h with rfl | ⟨ds, rfl, -⟩
  · exact hrest
  · exact .cons (by decide)

lemma IntText.head (h : IntText t) (s : Str) : t ++ rest ≠ ch '-' :: s := by
  rcases h with rfl | ⟨c, ds, rfl, hlow, -⟩
  · intro h
    exact absurd (List.cons.inj h).1 (by decide)
  · rintro ⟨⟩
    exact absurd hlow (by decide)

lemma NumberText.read (h : NumberText t) (hrest : Stops goesOn rest) : number (t ++ rest) = some rest := by
  obtain ⟨m, i, f, e, rfl, hm, hi, hf, he⟩ := h
  obtain ⟨hdigit, hpoint⟩ := he.stops hrest
  have hminus : (take (ch '-') (m ++ (i ++ (f ++ e)) ++ rest)).getD (m ++ (i ++ (f ++ e)) ++ rest) =
      i ++ (f ++ (e ++ rest)) := by
    rcases hm with rfl | rfl
    · rw [List.nil_append, List.append_assoc, take_none hi.head, Option.getD_none, List.append_assoc]
    · simp [take]
  rw [number, hminus, hi.read (hf.stops hdigit), Option.bind_some, hf.read hdigit hpoint, Option.bind_some]
  exact he.read hrest

lemma literal_iff {token} : literal token s = some rest ↔ s = token ++ rest := by
  rw [literal]
  split
  next h =>
    refine iff_of_false (by simp) ?_
    rintro rfl
    rcases h with h | h
    · rw [List.length_append] at h
      omega
    · exact h List.take_left
  next h =>
    rw [not_or, ne_eq, not_not] at h
    rw [Option.some.injEq]
    constructor
    · rintro rfl
      have hsplit := List.take_append_drop token.length s
      rw [h.2] at hsplit
      exact hsplit.symm
    · rintro rfl
      exact List.drop_left

lemma readScalar_sound {c shape} (h : readScalar c s = some (shape, rest)) :
    ∃ t, s = t ++ rest ∧ ScalarText t shape := by
  rw [readScalar] at h
  split_ifs at h <;> simp only [Option.map_eq_some_iff, Prod.mk.injEq] at h
  · obtain ⟨⟨r, w⟩, hdecode, rfl, rfl⟩ := h
    obtain ⟨t, content, hs, ht, hout⟩ := decode_iff.1 hdecode
    have hcontent : w.out = content := (Writer.emit_eq_some hout).2.1
    exact ⟨t, hs, hcontent ▸ .string ht⟩
  · obtain ⟨r, hr, rfl, rfl⟩ := h
    exact ⟨_, literal_iff.1 hr, .nullLit⟩
  · obtain ⟨r, hr, rfl, rfl⟩ := h
    exact ⟨_, literal_iff.1 hr, .trueLit⟩
  · obtain ⟨r, hr, rfl, rfl⟩ := h
    exact ⟨_, literal_iff.1 hr, .falseLit⟩
  · obtain ⟨r, hr, rfl, rfl⟩ := h
    obtain ⟨t, rfl, ht⟩ := number_sound hr
    refine ⟨t, rfl, ?_⟩
    rw [List.length_append, Nat.add_sub_cancel, List.take_left]
    exact .number ht

lemma NumberText.head (h : NumberText t) : ∃ c s, t = c :: s ∧ (c = ch '-' ∨ isDigit c = true) := by
  obtain ⟨m, i, f, e, rfl, rfl | rfl, hi, -, -⟩ := h
  · rcases hi with rfl | ⟨c, ds, rfl, hlow, hhigh, -⟩
    · exact ⟨ch '0', _, rfl, .inr (by decide)⟩
    · exact ⟨c, _, rfl, .inr (isDigit_of_le hlow hhigh)⟩
  · exact ⟨ch '-', _, rfl, .inl rfl⟩

lemma readScalar_number {c} (h : c = ch '-' ∨ isDigit c = true) :
    readScalar c s = (number s).map fun r => (.number (s.take (s.length - r.length)), r) := by
  have hne : ∀ b : UInt8, b ≠ ch '-' → isDigit b = false → c ≠ b := by
    rintro b hminus hdigit rfl
    rcases h with h | h
    · exact hminus h
    · rw [hdigit] at h
      cases h
  rw [readScalar, if_neg (hne _ (by decide) (by decide)), if_neg (hne _ (by decide) (by decide)),
    if_neg (hne _ (by decide) (by decide)), if_neg (hne _ (by decide) (by decide))]

lemma number_head_ne : ∀ c : UInt8, c = ch '-' ∨ isDigit c = true →
    isSpace c = false ∧ c ≠ ch '[' ∧ c ≠ ch '{' ∧ c ≠ ch ']' ∧ c ≠ ch '}' := by
  apply forall_uint8
  decide +kernel

lemma ScalarText.read {shape} (h : ScalarText t shape) (hrest : Stops goesOn rest) :
    ∃ c s, t ++ rest = c :: s ∧ readScalar c (c :: s) = some (shape, rest) ∧ isSpace c = false ∧
      c ≠ ch '[' ∧ c ≠ ch '{' ∧ c ≠ ch ']' ∧ c ≠ ch '}' := by
  cases h with
  | nullLit =>
    refine ⟨ch 'n', _, rfl, ?_, by decide⟩
    rfl
  | trueLit =>
    refine ⟨ch 't', _, rfl, ?_, by decide⟩
    rfl
  | falseLit =>
    refine ⟨ch 'f', _, rfl, ?_, by decide⟩
    rfl
  | number ht =>
    obtain ⟨c, s, hs, hc⟩ := ht.head
    have hread := ht.read hrest
    have hcons : t ++ rest = c :: (s ++ rest) := by rw [hs, List.cons_append]
    refine ⟨c, s ++ rest, hcons, ?_, ?_⟩
    · rw [readScalar_number hc, ← hcons, hread, Option.map_some, List.length_append, Nat.add_sub_cancel, List.take_left]
    · exact number_head_ne c hc
  | @string t content ht =>
    have hlen : content.length ≤ (t ++ rest).length := by
      have := ht.length
      rw [List.length_append]
      omega
    have hdecode := decode_iff.2 ⟨t, content, (rfl : t ++ rest = t ++ rest), ht, Writer.emit_fresh hlen⟩
    obtain ⟨ts, hts, -⟩ := ht
    have hcons : t ++ rest = ch '"' :: (ts ++ [ch '"'] ++ rest) := by rw [hts, List.cons_append, List.cons_append]
    refine ⟨ch '"', _, hcons, ?_, by decide⟩
    rw [readScalar, if_pos rfl, ← hcons, hdecode]
    rfl

end

end Rut.Json
