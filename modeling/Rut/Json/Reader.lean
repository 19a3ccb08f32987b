import Rut.Json.Grammar

/-!
# Reading a tree

`Document::parse_value` without its node pool: a reader that returns the tree, the number of nodes
in use and the bytes left. It is sound and complete for the grammar within any limits, so that a
text has one tree; `Rut.Json.Parse` shows that the pool of the document holds the tree read here.
-/

namespace Rut.Json

/-- What bounds a reader: the length of its source, the nodes it may use, and whether the names of
an object must differ. -/
structure Limits where
  length : Nat
  nodes : Nat
  unique : Bool

abbrev Read (α : Type) := Option (α × Nat × Str)

namespace Limits
variable (lim : Limits)

/-- The range from the bytes `rest` on up to the bytes `after`. -/
def span (rest after : Str) : Span := ⟨lim.length - rest.length, lim.length - after.length⟩

/-- The part of the loop of `parse_value` before the value of an item. -/
def readName (value : Nat → Str → Read (Value Span)) (obj : Bool) (seen : List Str) (used : Nat) (rest : Str) :
    Read (Option (Span × Str)) :=
  match obj with
  | false => some (none, used, rest)
  | true =>
    match take (ch '"') (whitespace rest) with
    | none => none
    | some _ =>
      match value used (whitespace rest) with
      | some (⟨mark, .string name, _⟩, used, rest) =>
        match take (ch ':') (whitespace rest) with
        | none => none
        | some rest => if lim.unique && seen.contains name then none else some (some (mark, name), used, rest)
      | _ => none

/-- The loop of `parse_value` over the values between brackets. -/
def readItems (value : Nat → Str → Read (Value Span)) (obj : Bool) : Nat → List Str → Nat → Str → Read (Forest Span)
  | 0, _, _, _ => none
  | turns + 1, seen, used, rest =>
    match lim.readName value obj seen used rest with
    | none => none
    | some (name, used, rest) =>
      match value used rest with
      | none => none
      | some (v, used, rest) =>
        match take (closing obj) (whitespace rest) with
        | some rest => some (.item name v .nil, used, rest)
        | none =>
          match take (ch ',') (whitespace rest) with
          | none => none
          | some rest =>
            match readItems value obj turns (seen ++ (name.map Prod.snd).toList) used rest with
            | none => none
            | some (f, used, rest) => some (.item name v f, used, rest)

def readContainer (value : Nat → Str → Read (Value Span)) (obj : Bool) (used : Nat) (rest : Str) :
    Read (Forest Span) :=
  match take (closing obj) (whitespace rest) with
  | some rest => some (.nil, used, rest)
  | none => lim.readItems value obj (lim.length + 1) [] used (whitespace rest)

/-- The value at the next byte, with a reader for the values one level below. -/
def readHere (value : Nat → Str → Read (Value Span)) (used : Nat) : Str → Read (Value Span)
  | [] => none
  | c :: rest =>
    if used = lim.nodes then none
    else if c = ch '[' ∨ c = ch '{' then
      match lim.readContainer value (c == ch '{') (used + 1) rest with
      | none => none
      | some (f, used, after) => some (⟨lim.span (c :: rest) after, container (c == ch '{'), f⟩, used, after)
    else
      match readScalar c (c :: rest) with
      | none => none
      | some (shape, after) => some (⟨lim.span (c :: rest) after, shape, .nil⟩, used + 1, after)

def readValue : Nat → Nat → Str → Read (Value Span)
  | 0, _, _ => none
  | left + 1, used, rest => lim.readHere (readValue left) used (whitespace rest)

/-! ## White space before a value -/

lemma readValue_whitespace (left used : Nat) (rest : Str) :
    lim.readValue left used (whitespace rest) = lim.readValue left used rest := by
  cases left with
  | zero => rfl
  | succ left => rw [readValue, readValue, whitespace_whitespace]

lemma readItems_whitespace (left : Nat) (obj : Bool) (turns : Nat) (seen : List Str) (used : Nat) (rest : Str) :
    lim.readItems (lim.readValue left) obj turns seen used (whitespace rest) =
      lim.readItems (lim.readValue left) obj turns seen used rest := by
  cases turns with
  | zero => rfl
  | succ turns =>
    cases obj with
    | false => simp only [readItems, readName, readValue_whitespace]
    | true => simp only [readItems, readName, whitespace_whitespace]

/-! ## Soundness -/

/-- What a reader of values reads is derived by the grammar, and it counts the nodes. -/
def SoundValue (left : Nat) (value : Nat → Str → Read (Value Span)) : Prop :=
  ∀ used rest v used' rest', rest.length ≤ lim.length → value used rest = some (v, used', rest') →
    ∃ w t, rest = w ++ (t ++ rest') ∧ Space w ∧ Derives Span.mk (lim.length - (t ++ rest').length) t (.value v) ∧
      used' = used + v.size ∧ (used ≤ lim.nodes → used' ≤ lim.nodes) ∧ v.children.height < left ∧
      (lim.unique = true → v.children.Distinct)

variable {lim : Limits} {left : Nat} {value : Nat → Str → Read (Value Span)} {obj : Bool} {used used' : Nat}
  {rest rest' : Str} {seen : List Str}

lemma string_of_derives {off t name mark f} (h : Derives Span.mk off t (.value ⟨mark, .string name, f⟩)) :
    StringText t name ∧ mark = ⟨off, off + t.length⟩ ∧ f = .nil := by
  generalize hi : Item.value (⟨mark, .string name, f⟩ : Value Span) = i at h
  cases h with
  | scalar ht =>
    cases hi
    cases ht with
    | string ht => exact ⟨ht, rfl, rfl⟩
  | @empty _ _ obj => cases obj <;> cases hi
  | @container _ _ obj => cases obj <;> cases hi
  | last => cases hi
  | more => cases hi

lemma SoundValue.string (hv : lim.SoundValue left value) {v} {s : Str} (hlen : rest.length ≤ lim.length)
    (hquote : rest = ch '"' :: s) (h : value used rest = some (v, used', rest')) : ∃ name, v.shape = .string name := by
  obtain ⟨w, t, htext, hw, ht, -⟩ := hv _ _ _ _ _ hlen h
  obtain ⟨c, t', hc, -⟩ := ht.head
  have hhead : c = ch '"' := by
    cases w with
    | nil =>
      rw [hquote, hc] at htext
      exact (List.cons.inj htext).1.symm
    | cons b w =>
      rw [hquote] at htext
      have hb := hw b (by simp)
      rw [← (List.cons.inj htext).1] at hb
      exact absurd hb (by decide)
  subst hhead
  generalize hi : Item.value v = i at ht
  cases ht with
  | scalar hscalar =>
    cases hi
    cases hscalar with
    | nullLit => exact absurd (List.cons.inj hc).1 (by decide)
    | trueLit => exact absurd (List.cons.inj hc).1 (by decide)
    | falseLit => exact absurd (List.cons.inj hc).1 (by decide)
    | number hnum =>
      obtain ⟨b, s, hb, hkind⟩ := hnum.head
      rw [hc] at hb
      rw [← (List.cons.inj hb).1] at hkind
      exact absurd hkind (by decide)
    | @string _ content => exact ⟨content, rfl⟩
  | @empty _ _ obj => cases obj <;> exact absurd (List.cons.inj hc).1 (by decide)
  | @container _ _ obj => cases obj <;> exact absurd (List.cons.inj hc).1 (by decide)
  | last => cases hi
  | more => cases hi

lemma space_append {w w'} (hw : Space w) (hw' : Space w') : Space (w ++ w') := by
  intro c hc
  rcases List.mem_append.1 hc with hc | hc
  · exact hw c hc
  · exact hw' c hc

lemma readName_sound (hv : lim.SoundValue left value) {name} (hlen : rest.length ≤ lim.length)
    (h : lim.readName value obj seen used rest = some (name, used', rest')) :
    ∃ n, rest = n ++ rest' ∧ NameText Span.mk (lim.length - rest.length) obj n name ∧
      used' = used + name.toList.length ∧ (used ≤ lim.nodes → used' ≤ lim.nodes) ∧
      (lim.unique = true → ∀ m ∈ name.map Prod.snd, m ∉ seen) := by
  cases obj with
  | false =>
    cases h
    exact ⟨[], rfl, .element, rfl, id, by simp⟩
  | true =>
    rw [readName] at h
    split at h
    next => cases h
    next =>
      split at h
      next mark m f used₁ rest₁ hread =>
        obtain ⟨w, hw, hspace, -⟩ := whitespace_split rest
        have hlen' : (whitespace rest).length ≤ lim.length := by
          have := congrArg List.length hw
          rw [List.length_append] at this
          omega
        obtain ⟨w₁, t, htext, hspace₁, ht, hused, hroom, -, -⟩ := hv _ _ _ _ _ hlen' hread
        obtain ⟨hstring, rfl, rfl⟩ := string_of_derives ht
        split at h
        next => cases h
        next rest₂ hcolon =>
          split at h
          next => cases h
          next hseen =>
            cases h
            obtain ⟨w₂, hw₂, hspace₂, -⟩ := whitespace_split rest₁
            rw [take_eq_some.1 hcolon] at hw₂
            have hrest : rest = (w ++ w₁) ++ (t ++ (w₂ ++ [ch ':'])) ++ rest' := by
              rw [hw, htext, hw₂]
              simp
            refine ⟨_, hrest, ?_, hused, hroom, ?_⟩
            · have hmark : NameText Span.mk (lim.length - rest.length) true (w ++ w₁ ++ (t ++ (w₂ ++ [ch ':']))) _ :=
                .member (space_append hspace hspace₁) hstring hspace₂
              have hoff : lim.length - rest.length + (w ++ w₁).length = lim.length - (t ++ rest₁).length := by
                rw [htext] at hw
                have := congrArg List.length hw
                simp only [List.length_append] at this ⊢
                omega
              rw [hoff] at hmark
              exact hmark
            · intro hunique n hn
              simp only [Option.map_some, Option.mem_some_iff] at hn
              subst hn
              simpa [hunique] using hseen
      next => cases h

lemma readItems_sound (hv : lim.SoundValue left value) {turns f} (hlen : rest.length ≤ lim.length)
    (h : lim.readItems value obj turns seen used rest = some (f, used', rest')) :
    ∃ t, rest = t ++ closing obj :: rest' ∧ Derives Span.mk (lim.length - rest.length) t (.items obj f) ∧
      used' = used + f.size ∧ (used ≤ lim.nodes → used' ≤ lim.nodes) ∧ f.height ≤ left ∧
      (lim.unique = true → f.Distinct ∧ ∀ n ∈ f.names, n ∉ seen) := by
  induction turns generalizing seen used rest f used' rest' with
  | zero => cases h
  | succ turns ih =>
    rw [readItems] at h
    split at h
    next => cases h
    next name used₁ rest₁ hname =>
      obtain ⟨n, rfl, hn, rfl, hroom₁, hfresh⟩ := readName_sound hv hlen hname
      rw [List.length_append] at hlen
      split at h
      next => cases h
      next v used₂ rest₂ hvalue =>
        obtain ⟨w, t, rfl, hw, ht, rfl, hroom₂, hheight, hdistinct⟩ := hv _ _ _ _ _ (by omega) hvalue
        obtain ⟨w', hrest₂, hw', -⟩ := whitespace_split rest₂
        simp only [List.length_append] at hlen
        have hoff : lim.length - (n ++ (w ++ (t ++ rest₂))).length + (n.length + w.length) =
            lim.length - (t ++ rest₂).length := by
          simp only [List.length_append]
          omega
        rw [← hoff] at ht
        split at h
        next rest₃ hclose =>
          -- the last value
          cases h
          rw [take_eq_some.1 hclose] at hrest₂
          refine ⟨n ++ (w ++ (t ++ w')), by simp [hrest₂], .last hn hw ht hw', ?_, fun hle => hroom₂ (hroom₁ hle), ?_, ?_⟩
          · simp [Value.size, Forest.size]
            omega
          · simp [Forest.height]
            omega
          · intro hunique
            simp only [Forest.distinct_item, Forest.names_item, Forest.names, List.append_nil]
            exact ⟨⟨by simp, hdistinct hunique, trivial⟩, fun m hm => hfresh hunique m (by simpa using hm)⟩
        next =>
          split at h
          next => cases h
          next rest₃ hcomma =>
            split at h
            next => cases h
            next g used₃ rest₄ hmore =>
              cases h
              rw [take_eq_some.1 hcomma] at hrest₂
              have hlen₂ := congrArg List.length hrest₂
              rw [List.length_append, List.length_cons] at hlen₂
              obtain ⟨ts, rfl, hts, rfl, hroom₃, hheight₃, hdistinct₃⟩ := ih (by omega) hmore
              have hoff₃ : lim.length - (n ++ (w ++ (t ++ rest₂))).length +
                  (n.length + w.length + t.length + w'.length + 1) =
                  lim.length - (ts ++ closing obj :: rest').length := by
                simp only [List.length_append] at hlen₂ ⊢
                omega
              rw [← hoff₃] at hts
              refine ⟨n ++ (w ++ (t ++ (w' ++ ch ',' :: ts))), by simp [hrest₂], .more hn hw ht hw' hts, ?_,
                fun hle => hroom₃ (hroom₂ (hroom₁ hle)), ?_, ?_⟩
              · simp [Value.size]
                omega
              · simp
                omega
              · intro hunique
                obtain ⟨hnext, hnew⟩ := hdistinct₃ hunique
                refine ⟨⟨?_, hdistinct hunique, hnext⟩, ?_⟩
                · intro m hm hmem
                  exact hnew m hmem (by simp [Option.mem_def.1 hm])
                · intro m hm
                  rcases List.mem_append.1 hm with hm | hm
                  · exact hfresh hunique m (by simpa using hm)
                  · intro hmem
                    exact hnew m hm (by simp [hmem])

lemma opening_eq {c} (h : c = ch '[' ∨ c = ch '{') : opening (c == ch '{') = c := by
  rcases h with rfl | rfl <;> decide

lemma readContainer_sound (hv : lim.SoundValue left (lim.readValue left)) {f}
    (hlen : rest.length < lim.length) (h : lim.readContainer (lim.readValue left) obj used rest = some (f, used', rest')) :
    ∃ t, rest = t ++ closing obj :: rest' ∧
      Derives Span.mk (lim.length - (rest.length + 1)) (opening obj :: (t ++ [closing obj]))
        (.value ⟨⟨lim.length - (rest.length + 1), lim.length - rest'.length⟩, container obj, f⟩) ∧
      used' = used + f.size ∧ (used ≤ lim.nodes → used' ≤ lim.nodes) ∧ f.height ≤ left ∧
      (lim.unique = true → f.Distinct) := by
  rw [readContainer] at h
  split at h
  next rest₁ hclose =>
    cases h
    obtain ⟨w, hrest, hw, -⟩ := whitespace_split rest
    rw [take_eq_some.1 hclose] at hrest
    have hstop : lim.length - rest'.length = lim.length - (rest.length + 1) + (w.length + 2) := by
      have := congrArg List.length hrest
      rw [List.length_append, List.length_cons] at this
      omega
    rw [hstop]
    exact ⟨w, hrest, .empty hw, rfl, id, Nat.zero_le _, fun _ => trivial⟩
  next =>
    rw [readItems_whitespace] at h
    obtain ⟨t, ht, hitems, hused, hroom, hheight, hdistinct⟩ := readItems_sound hv hlen.le h
    have hstart : lim.length - rest.length = lim.length - (rest.length + 1) + 1 := by omega
    have hstop : lim.length - rest'.length = lim.length - (rest.length + 1) + (t.length + 2) := by
      have := congrArg List.length ht
      rw [List.length_append, List.length_cons] at this
      omega
    rw [hstart] at hitems
    rw [hstop]
    exact ⟨t, ht, .container hitems, hused, hroom, hheight, fun hunique => (hdistinct hunique).1⟩

lemma readValue_sound (lim : Limits) (left : Nat) : lim.SoundValue left (lim.readValue left) := by
  induction left with
  | zero =>
    intro used rest v used' rest' _ h
    cases h
  | succ left ih =>
    intro used rest v used' rest' hlen h
    obtain ⟨w, hrest, hw, -⟩ := whitespace_split rest
    rw [readValue] at h
    generalize whitespace rest = s at h hrest
    subst hrest
    rw [List.length_append] at hlen
    cases s with
    | nil => cases h
    | cons c s =>
      rw [List.length_cons] at hlen
      rw [readHere] at h
      split at h
      next => cases h
      next hfull =>
        split at h
        next hopen =>
          split at h
          next => cases h
          next f used₁ rest₁ hread =>
            cases h
            obtain ⟨t, rfl, ht, rfl, hroom, hheight, hdistinct⟩ := readContainer_sound ih (by omega) hread
            rw [opening_eq hopen] at ht
            refine ⟨w, c :: (t ++ [closing (c == ch '{')]), by simp, hw, ?_, ?_, fun hle => hroom (by omega), ?_, hdistinct⟩
            · simpa [span] using ht
            · simp [Value.size]
              omega
            · simp
              omega
        next hopen =>
          split at h
          next => cases h
          next shape rest₁ hread =>
            cases h
            obtain ⟨t, ht, hscalar⟩ := readScalar_sound hread
            refine ⟨w, t, by rw [ht], hw, ?_, rfl, fun hle => by omega, Nat.succ_pos _, fun _ => trivial⟩
            have hderives : Derives Span.mk (lim.length - (t ++ rest').length) t _ := .scalar hscalar
            have hstop : lim.length - (t ++ rest').length + t.length = lim.length - rest'.length := by
              have := congrArg List.length ht
              simp only [List.length_append, List.length_cons] at this ⊢
              omega
            rw [hstop] at hderives
            rw [ht, span]
            exact hderives

/-! ## Completeness -/

lemma goesOn_space : ∀ b : UInt8, isSpace b = true → goesOn b = false := by
  apply forall_uint8
  decide +kernel

lemma stops_space {w c} (hw : Space w) (hc : goesOn c = false) (s : Str) : Stops goesOn (w ++ c :: s) := by
  cases w with
  | nil => exact .cons hc
  | cons b w => exact .cons (goesOn_space b (hw b (by simp)))

lemma readValue_scalar {off t w shape} (h : ScalarText t shape) (hw : Space w)
    (hrest : Stops goesOn rest) (hoff : off + (t ++ rest).length = lim.length) (hused : used < lim.nodes) :
    lim.readValue (left + 1) used (w ++ (t ++ rest)) = some (⟨⟨off, off + t.length⟩, shape, .nil⟩, used + 1, rest) := by
  obtain ⟨c, s, hs, hread, hspace, hsquare, hcurly, -⟩ := h.read hrest
  rw [List.length_append] at hoff
  have hspan : lim.span (t ++ rest) rest = ⟨off, off + t.length⟩ := by
    rw [span, List.length_append]
    congr 1 <;> omega
  rw [hs] at hspan ⊢
  rw [readValue, whitespace_space hw (Stops.cons hspace), readHere, if_neg (by omega), if_neg (by simp [hsquare, hcurly]),
    hread]
  simp only
  rw [hspan]

lemma readName_complete {off n name} (h : NameText Span.mk off obj n name)
    (hoff : off + (n ++ rest).length = lim.length) (hused : used + name.toList.length ≤ lim.nodes)
    (hseen : lim.unique = true → ∀ m ∈ name.map Prod.snd, m ∉ seen) :
    lim.readName (lim.readValue (left + 1)) obj seen used (n ++ rest) =
      some (name, used + name.toList.length, rest) := by
  cases h with
  | element => rfl
  | @member w t w' m hw ht hw' =>
    obtain ⟨s, hs⟩ := ht.head
    have hblank : whitespace (w ++ (t ++ (w' ++ [ch ':'])) ++ rest) = t ++ (w' ++ ch ':' :: rest) := by
      rw [List.append_assoc, whitespace_space hw]
      · simp
      · rw [hs]
        exact .cons (by decide)
    have hquote : take (ch '"') (t ++ (w' ++ ch ':' :: rest)) = some (s ++ (w' ++ ch ':' :: rest)) := by
      rw [take_eq_some, hs]
      rfl
    have hkey : lim.readValue (left + 1) used ([] ++ (t ++ (w' ++ ch ':' :: rest))) =
        some (⟨⟨off + w.length, off + w.length + t.length⟩, .string m, .nil⟩, used + 1, w' ++ ch ':' :: rest) := by
      apply readValue_scalar (.string ht) (by simp [Space]) (stops_space hw' (by decide) rest)
      · simp only [List.length_append, List.length_cons, List.length_nil] at hoff ⊢
        omega
      · simp only [Option.toList_some, List.length_singleton] at hused
        omega
    rw [List.nil_append] at hkey
    have hcolon : take (ch ':') (whitespace (w' ++ ch ':' :: rest)) = some rest := by
      rw [whitespace_space hw' (Stops.cons (by decide)), take_eq_some]
    have hfresh : (lim.unique && seen.contains m) = false := by
      cases hunique : lim.unique with
      | false => rfl
      | true => simpa using hseen hunique m (by simp)
    simp only [readName, hblank, hquote, hkey, hcolon, hfresh]
    rfl

/-- Whatever the grammar derives within the limits is read, and the reader stops behind it. -/
def Complete (lim : Limits) (off : Nat) (t : Str) : Item Span → Prop
  | .value v => ∀ w rest left used, Space w → off + (t ++ rest).length = lim.length → Stops goesOn rest →
      v.children.height < left → used + v.size ≤ lim.nodes → (lim.unique = true → v.children.Distinct) →
      lim.readValue left used (w ++ (t ++ rest)) = some (v, used + v.size, rest)
  | .items obj f => ∀ rest left used turns seen, off + (t ++ closing obj :: rest).length = lim.length →
      f.height ≤ left → used + f.size ≤ lim.nodes →
      (lim.unique = true → f.Distinct ∧ ∀ n ∈ f.names, n ∉ seen) → t.length < turns →
      lim.readItems (lim.readValue left) obj turns seen used (t ++ closing obj :: rest) = some (f, used + f.size, rest)

lemma readItems_turn (left used turns : Nat) (seen : List Str) (rest : Str) {off n w t w' name v c}
    (hn : NameText Span.mk off obj n name) (hw : Space w)
    (ht : lim.Complete (off + (n.length + w.length)) t (.value v)) (hw' : Space w')
    (hc : goesOn c = false ∧ isSpace c = false)
    (hoff : off + (n ++ (w ++ (t ++ (w' ++ c :: rest)))).length = lim.length) (hheight : v.children.height < left)
    (hused : used + name.toList.length + v.size ≤ lim.nodes)
    (hseen : lim.unique = true → v.children.Distinct ∧ ∀ m ∈ name.map Prod.snd, m ∉ seen) :
    lim.readItems (lim.readValue left) obj (turns + 1) seen used (n ++ (w ++ (t ++ (w' ++ c :: rest)))) =
      match take (closing obj) (c :: rest) with
      | some rest => some (.item name v .nil, used + name.toList.length + v.size, rest)
      | none =>
        match take (ch ',') (c :: rest) with
        | none => none
        | some rest =>
          match lim.readItems (lim.readValue left) obj turns (seen ++ (name.map Prod.snd).toList)
              (used + name.toList.length + v.size) rest with
          | none => none
          | some (f, used, rest) => some (.item name v f, used, rest) := by
  obtain ⟨left, rfl⟩ : ∃ k, left = k + 1 := ⟨left - 1, by omega⟩
  have hname : lim.readName (lim.readValue (left + 1)) obj seen used (n ++ (w ++ (t ++ (w' ++ c :: rest)))) =
      some (name, used + name.toList.length, w ++ (t ++ (w' ++ c :: rest))) := by
    apply readName_complete hn hoff (by omega)
    exact fun hunique => (hseen hunique).2
  have hvalue := ht w (w' ++ c :: rest) (left + 1) (used + name.toList.length) hw
    (by simp only [List.length_append] at hoff ⊢; omega) (stops_space hw' hc.1 rest) hheight hused
    fun hunique => (hseen hunique).1
  rw [readItems, hname]
  simp only [hvalue, whitespace_space hw' (Stops.cons hc.2)]

lemma readValue_container {off w t f} (hw : Space w) (hused : used < lim.nodes)
    (hoff : off + (t.length + 2 + rest.length) = lim.length)
    (h : lim.readContainer (lim.readValue left) obj (used + 1) (t ++ closing obj :: rest) = some (f, used', rest)) :
    lim.readValue (left + 1) used (w ++ (opening obj :: (t ++ [closing obj]) ++ rest)) =
      some (⟨⟨off, off + (t.length + 2)⟩, container obj, f⟩, used', rest) := by
  have hopen : (opening obj = ch '[' ∨ opening obj = ch '{') ∧ (opening obj == ch '{') = obj ∧
      isSpace (opening obj) = false := by cases obj <;> decide
  have htext : opening obj :: (t ++ [closing obj]) ++ rest = opening obj :: (t ++ closing obj :: rest) := by simp
  have hspan : lim.span (opening obj :: (t ++ closing obj :: rest)) rest = ⟨off, off + (t.length + 2)⟩ := by
    simp only [span, List.length_cons, List.length_append]
    congr 1 <;> omega
  rw [htext, readValue, whitespace_space hw (Stops.cons hopen.2.2), readHere, if_neg (by omega), if_pos hopen.1,
    hopen.2.1, h]
  simp only
  rw [hspan]

lemma closing_ne (obj : Bool) :
    (goesOn (closing obj) = false ∧ isSpace (closing obj) = false) ∧ ch ',' ≠ closing obj := by
  cases obj <;> decide

lemma complete_of_derives {off t i} (h : Derives Span.mk off t i) : lim.Complete off t i := by
  induction h with
  | scalar ht =>
    intro w rest left used hw hoff hrest hleft hused _
    obtain ⟨left, rfl⟩ : ∃ k, left = k + 1 := ⟨left - 1, by omega⟩
    exact readValue_scalar ht hw hrest hoff (by simpa [Value.size, Forest.size] using hused)
  | @empty off w' obj hw' =>
    intro w rest left used hw hoff hrest hleft hused _
    obtain ⟨left, rfl⟩ : ∃ k, left = k + 1 := ⟨left - 1, by omega⟩
    apply readValue_container hw (by simpa [Value.size, Forest.size] using hused)
    · simp only [List.length_append, List.length_cons, List.length_nil] at hoff
      omega
    · rw [readContainer, whitespace_space hw' (Stops.cons (closing_ne obj).1.2), take_eq_some.2 rfl]
      rfl
  | @container off t obj f hitems ih =>
    intro w rest left used hw hoff hrest hleft hused hdistinct
    obtain ⟨left, rfl⟩ : ∃ k, left = k + 1 := ⟨left - 1, by omega⟩
    simp only [Value.size] at hused
    apply readValue_container hw (by omega)
    · simp only [List.length_append, List.length_cons, List.length_nil] at hoff
      omega
    · -- the first byte of the items is no closing bracket, so that the loop is entered
      obtain ⟨c, s, hs, hsquare, hcurly⟩ := hitems.items_head (closing obj :: rest)
      have henter : take (closing obj) (whitespace (t ++ closing obj :: rest)) = none := by
        rw [hs]
        apply take_none
        rintro s ⟨⟩
        cases obj
        · exact hsquare rfl
        · exact hcurly rfl
      rw [readContainer, henter]
      rw [readItems_whitespace, ih]
      · simp [Value.size]
        omega
      · simp at hoff ⊢
        omega
      · simpa [Nat.lt_succ_iff] using hleft
      · omega
      · exact fun hunique => ⟨hdistinct hunique, by simp⟩
      · simp only [List.length_append, List.length_cons] at hoff
        omega
  | @last off n obj name w t v w' hn hw _ hw' ih =>
    intro rest left used turns seen hoff hheight hused hseen hturns
    obtain ⟨turns, rfl⟩ : ∃ k, turns = k + 1 := ⟨turns - 1, by omega⟩
    simp only [Forest.height_item, Forest.size_item, Forest.height, Forest.size] at hheight hused
    have hturn := readItems_turn left used turns seen rest hn hw ih hw' (closing_ne obj).1 (by simpa using hoff)
      (by omega) (by simp [Value.size]; omega) fun hunique => by
        obtain ⟨hdistinct, hnew⟩ := hseen hunique
        exact ⟨hdistinct.2.1, fun m hm => hnew m (by rw [Forest.names_item]; simp [Option.mem_def.1 hm])⟩
    rw [take_eq_some.2 rfl] at hturn
    simp only [List.append_assoc]
    rw [hturn]
    simp [Value.size, Forest.size, Nat.add_assoc]
    omega
  | @more off n obj name w t v w' ts f hn hw _ hw' _ ih ihs =>
    intro rest left used turns seen hoff hheight hused hseen hturns
    obtain ⟨turns, rfl⟩ : ∃ k, turns = k + 1 := ⟨turns - 1, by omega⟩
    simp only [Forest.height_item, Forest.size_item] at hheight hused
    have hturn := readItems_turn left used turns seen (ts ++ closing obj :: rest) hn hw ih hw'
      (by decide : goesOn (ch ',') = false ∧ isSpace (ch ',') = false) (by simpa using hoff)
      (by omega) (by simp [Value.size]; omega) fun hunique => by
        obtain ⟨hdistinct, hnew⟩ := hseen hunique
        exact ⟨hdistinct.2.1, fun m hm => hnew m (by rw [Forest.names_item]; simp [Option.mem_def.1 hm])⟩
    have hmore : lim.readItems (lim.readValue left) obj turns (seen ++ (name.map Prod.snd).toList)
        (used + name.toList.length + v.size) (ts ++ closing obj :: rest) =
          some (f, used + name.toList.length + v.size + f.size, rest) := by
      apply ihs
      · simp only [List.length_append, List.length_cons] at hoff ⊢
        omega
      · omega
      · simp [Value.size]
        omega
      · intro hunique
        obtain ⟨hdistinct, hnew⟩ := hseen hunique
        refine ⟨hdistinct.2.2, fun m hm hmem => ?_⟩
        rcases List.mem_append.1 hmem with hmem | hmem
        · exact hnew m (by rw [Forest.names_item]; simp [hm]) hmem
        · exact hdistinct.1 m (by simpa using hmem) hm
      · simp only [List.length_append, List.length_cons] at hturns
        omega
    rw [take_none, take_eq_some.2 rfl] at hturn
    · simp only [hmore] at hturn
      simp only [List.append_assoc, List.cons_append]
      rw [hturn]
      simp [Value.size, Nat.add_assoc]
      omega
    · intro s hs
      exact (closing_ne obj).2 (List.cons.inj hs).1

/-! ## Texts -/

def readText (lim : Limits) (left : Nat) (s : Str) : Option (Value Span) :=
  match lim.readValue left 0 s with
  | none => none
  | some (v, _, rest) => if whitespace rest = [] then some v else none

lemma readText_iff {s} (hlim : lim.length = s.length) {v} : lim.readText left s = some v ↔
      ParseTree s v ∧ v.children.height < left ∧ v.size ≤ lim.nodes ∧ (lim.unique = true → v.children.Distinct) := by
  constructor
  · intro h
    rw [readText] at h
    split at h
    next => cases h
    next v' used rest hread =>
      split at h
      next hend =>
        cases h
        obtain ⟨w, t, rfl, hw, ht, rfl, hroom, hheight, hdistinct⟩ := readValue_sound lim left _ _ _ _ _ hlim.ge hread
        obtain ⟨w', hrest, hw', -⟩ := whitespace_split rest
        rw [hend, List.append_nil] at hrest
        subst hrest
        have hoff : lim.length - (t ++ rest).length = w.length := by
          rw [hlim, List.length_append]
          omega
        rw [hoff] at ht
        exact ⟨⟨w, t, rest, rfl, hw, ht, hw'⟩, hheight, by simpa using hroom (Nat.zero_le _), hdistinct⟩
      next => cases h
  · rintro ⟨⟨w, t, w', rfl, hw, ht, hw'⟩, hheight, hsize, hdistinct⟩
    have hstop : Stops goesOn w' := by
      cases w' with
      | nil => exact .nil
      | cons c w' => exact .cons (goesOn_space c (hw' c (by simp)))
    have hread : lim.readValue left 0 (w ++ (t ++ w')) = some (v, 0 + v.size, w') := by
      apply complete_of_derives ht w w' left 0 hw _ hstop hheight (by omega) hdistinct
      rw [hlim, List.length_append, List.length_append, List.length_append]
    have hend : whitespace w' = [] := by
      have := whitespace_space hw' Stops.nil
      rwa [List.append_nil] at this
    rw [readText, hread]
    simp only [hend, if_true]

end Limits

lemma ParseTree.unique {s v v'} (h : ParseTree s v) (h' : ParseTree s v') : v = v' := by
  -- both are read by a reader whose limits are far enough away
  let lim : Limits := ⟨s.length, v.size + v'.size, false⟩
  have hread : lim.readText (v.children.height + v'.children.height + 1) s = some v :=
    (Limits.readText_iff rfl).2 ⟨h, by omega, Nat.le_add_right _ _, by simp [lim]⟩
  have hread' : lim.readText (v.children.height + v'.children.height + 1) s = some v' :=
    (Limits.readText_iff rfl).2 ⟨h', by omega, Nat.le_add_left _ _, by simp [lim]⟩
  exact Option.some.inj (hread.symm.trans hread')

end Rut.Json
