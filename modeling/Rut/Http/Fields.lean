import Rut.Http.Stability

/-!
# Header fields of a head

What the framing of a request depends on, stated without the parser: the fields of a head are its lines
between the request line and the empty line (`headFields`), names are compared without case
(`Field.Named`), and the values are decimals, lists of tokens and lists of transfer codings. Each notion
is connected to the helper of `src/runtime/http_parser.cc` that computes it.
-/

namespace Rut.Http

structure Field where
  name : Str
  value : Str
deriving DecidableEq

def asciiLower (c : UInt8) : UInt8 := if ch 'A' ≤ c ∧ c ≤ ch 'Z' then c + 32 else c

def lower (s : Str) : Str := s.map asciiLower

def Field.Named (name : Str) (f : Field) : Prop := lower f.name = name

instance (name : Str) : DecidablePred (Field.Named name) :=
  fun f => inferInstanceAs (Decidable (lower f.name = name))

def contentLengthName : Str := ch 'c' :: contentLengthTail
def connectionName : Str := ch 'c' :: connectionTail
def transferEncodingName : Str := ch 't' :: transferEncodingTail

/-! ## Lines -/

def crlfLines : Str → List Str
  | [] => [[]]
  | [c] => [[c]]
  | c :: d :: s =>
    if c = ch '\r' ∧ d = ch '\n' then [] :: crlfLines s
    else (crlfLines (d :: s)).modifyHead (c :: ·)

def trimOws (s : Str) : Str := (s.dropWhile isOws).rdropWhile isOws

def fieldOfLine (line : Str) : Field where
  name := line.takeWhile (· != ch ':')
  value := trimOws ((line.dropWhile (· != ch ':')).drop 1)

/-- The fields of a head: its lines behind the request line, up to the empty line. -/
def headFields (head : Str) : List Field :=
  ((crlfLines head).tail.takeWhile (· != [])).map fieldOfLine

lemma crlfLines_line {l} (hl : ch '\r' ∉ l) (t : Str) :
    crlfLines (l ++ ch '\r' :: ch '\n' :: t) = l :: crlfLines t := by
  induction l with
  | nil => simp [crlfLines]
  | cons c l ih =>
    obtain ⟨hc, hl⟩ := List.ne_and_not_mem_of_not_mem_cons hl
    have ih := ih hl
    cases l with
    | nil =>
      simp only [List.nil_append] at ih
      simp only [List.cons_append, List.nil_append]
      rw [crlfLines, if_neg (fun h => hc h.1.symm), ih]
      rfl
    | cons d l =>
      simp only [List.cons_append] at ih ⊢
      rw [crlfLines, if_neg (fun h => hc h.1.symm), ih]
      rfl

lemma fieldOfLine_line (p : HeaderParts) : fieldOfLine p.line = ⟨p.header.name, p.header.value⟩ := by
  have hname : ∀ b ∈ p.name, (b != ch ':') = true := by
    intro b hb
    simpa using (p.name_valid b hb).1
  have htext : ∀ b, p.text.head? = some b → isOws b = false := p.text_head
  simp only [fieldOfLine, HeaderParts.line, List.takeWhile_append_of_pos hname,
    List.dropWhile_append_of_pos hname]
  simp [trimOws, dropWhile_ows p.ows_ows htext, HeaderParts.header]

def RequestLine.line (l : RequestLine) : Str := l.method.bytes ++ l.target ++ ch ' ' :: l.version.bytes.take 8

lemma RequestLine.bytes_eq (l : RequestLine) : l.bytes = l.line ++ [ch '\r', ch '\n'] := by
  cases hv : l.version <;> simp [RequestLine.bytes, RequestLine.line, hv, HttpVersion.bytes, lit]

lemma RequestLine.line_not_mem_cr (l : RequestLine) : ch '\r' ∉ l.line := by
  rw [RequestLine.line, List.mem_append, not_or]
  exact ⟨l.not_mem_cr, by cases l.version <;> decide⟩

lemma HeaderParts.line_ne (p : HeaderParts) : p.line ≠ [] := by
  obtain ⟨c, d, w, hl, -⟩ := p.line_cons
  simp [hl]

lemma crlfLines_lines {ls : List Str} (hls : ∀ l ∈ ls, ch '\r' ∉ l) (t : Str) :
    crlfLines (ls.flatMap (· ++ [ch '\r', ch '\n']) ++ t) = ls ++ crlfLines t := by
  induction ls with
  | nil => rfl
  | cons l ls ih =>
    simp only [List.flatMap_cons, List.append_assoc, List.cons_append, List.nil_append]
    rw [crlfLines_line (hls l (by simp)), ih fun l' hl' => hls l' (by simp [hl'])]

lemma head_lines (l : RequestLine) (ps : List HeaderParts) : l.bytes ++ ps.flatMap HeaderParts.bytes =
      (l.line :: ps.map HeaderParts.line).flatMap (· ++ [ch '\r', ch '\n']) := by
  rw [List.flatMap_cons, l.bytes_eq, List.flatMap_map]
  rfl

lemma headFields_lines {line} (hline : ch '\r' ∉ line) (ps : List HeaderParts) :
    headFields (line ++ ch '\r' :: ch '\n' :: (ps.flatMap HeaderParts.bytes ++ [ch '\r', ch '\n'])) =
      (ps.map HeaderParts.header).map fun hd => ⟨hd.name, hd.value⟩ := by
  have hcr : ∀ x ∈ line :: ps.map HeaderParts.line, ch '\r' ∉ x := by
    intro x hx
    rcases List.mem_cons.mp hx with rfl | hx
    · exact hline
    · obtain ⟨p, -, rfl⟩ := List.mem_map.mp hx
      exact p.not_mem_cr
  have hne : ∀ x ∈ ps.map HeaderParts.line, (x != []) = true := by simpa using fun p _ => p.line_ne
  have hcut : line ++ ch '\r' :: ch '\n' :: (ps.flatMap HeaderParts.bytes ++ [ch '\r', ch '\n']) =
      (line :: ps.map HeaderParts.line).flatMap (· ++ [ch '\r', ch '\n']) ++ [ch '\r', ch '\n'] := by
    have hlines : (ps.map HeaderParts.line).flatMap (· ++ [ch '\r', ch '\n']) = ps.flatMap HeaderParts.bytes :=
      List.flatMap_map ..
    rw [List.flatMap_cons, hlines]
    simp
  rw [hcut, headFields, crlfLines_lines hcr, List.cons_append, List.tail_cons, List.takeWhile_append_of_pos hne]
  simp [crlfLines, fieldOfLine_line]

lemma headFields_head (l : RequestLine) (ps : List HeaderParts) :
    headFields (l.bytes ++ ps.flatMap HeaderParts.bytes ++ [ch '\r', ch '\n']) =
      ps.map fun p => ⟨p.header.name, p.header.value⟩ := by
  simp only [l.bytes_eq, List.append_assoc, List.cons_append, List.nil_append]
  exact (headFields_lines l.line_not_mem_cr ps).trans (List.map_map ..)

/-! ## Names and tokens -/

def isLowerLetter (b : UInt8) : Bool := ch 'a' ≤ b && b ≤ ch 'z'

lemma or_of_lower : ∀ b : UInt8, isLowerLetter b = true → b ||| 0x20 = b := forall_uint8 (by decide +kernel)

/-- On letters the comparison of `str_ci_eq` is comparison without case. -/
lemma or_eq_iff_lower (a b : UInt8) (hb : isLowerLetter b = true) : a ||| 0x20 = b ||| 0x20 ↔ asciiLower a = b := by
  have h1 : isLowerLetter (a ||| 0x20) = true → asciiLower a = a ||| 0x20 :=
    forall_uint8 (P := fun a => isLowerLetter (a ||| 0x20) = true → asciiLower a = a ||| 0x20)
      (by decide +kernel) a
  have h2 : isLowerLetter (asciiLower a) = true → a ||| 0x20 = asciiLower a :=
    forall_uint8 (P := fun a => isLowerLetter (asciiLower a) = true → a ||| 0x20 = asciiLower a)
      (by decide +kernel) a
  rw [or_of_lower b hb]
  constructor
  · intro h
    rw [h1 (by rw [h, hb]), h]
  · intro h
    rw [h2 (by rw [h, hb]), h]

/-- The hyphen differs from a CR only in the bit that `str_ci_eq` ignores. -/
lemma or_eq_iff_lower_hyphen (a : UInt8) (ha : a ≠ ch '\r') : a ||| 0x20 = ch '-' ||| 0x20 ↔ asciiLower a = ch '-' :=
  forall_uint8 (P := fun a => a ≠ ch '\r' → (a ||| 0x20 = ch '-' ||| 0x20 ↔ asciiLower a = ch '-'))
    (by decide +kernel) a ha

/-- `str_ci_eq` against a word of lower-case letters, and of hyphens where no CR can occur. -/
lemma strCiEq_iff {a w} (hw : ∀ b ∈ w, isLowerLetter b = true ∨ b = ch '-' ∧ ch '\r' ∉ a) :
    strCiEq a w = true ↔ lower a = w := by
  simp only [strCiEq, lower, beq_iff_eq]
  induction w generalizing a with
  | nil => simp
  | cons b w ih =>
    cases a with
    | nil => simp
    | cons c a =>
      have hb : c ||| 0x20 = b ||| 0x20 ↔ asciiLower c = b := by
        rcases hw b (by simp) with hl | ⟨rfl, ha⟩
        · exact or_eq_iff_lower c b hl
        · exact or_eq_iff_lower_hyphen c (Ne.symm (List.ne_and_not_mem_of_not_mem_cons ha).1)
      have ih := @ih a fun d hd => (hw d (by simp [hd])).imp id
        fun h => ⟨h.1, (List.ne_and_not_mem_of_not_mem_cons h.2).2⟩
      simp only [List.map_cons, List.cons.injEq, hb, ih]

lemma strCiEq_name {a w} (hw : (w.all fun b => isLowerLetter b || b == ch '-') = true) (hcr : ch '\r' ∉ a) :
    strCiEq a w = true ↔ lower a = w :=
  strCiEq_iff fun b hb => by simpa [hcr] using List.all_eq_true.mp hw b hb

lemma strCiEq_length {a w} (h : strCiEq a w = true) : a.length = w.length := by
  have := congrArg List.length (beq_iff_eq.mp h)
  simpa using this

/-- The dispatch of `apply_semantic_header` on first byte, length and tail is comparison of the name. -/
lemma dispatch_iff {c} {tail w : Str} {f n} (hcr : ch '\r' ∉ c :: tail)
    (hn : w.length = n) (hf : isLowerLetter f = true) (hw : (w.all fun b => isLowerLetter b || b == ch '-') = true) :
    (c ||| 0x20 = f ∧ tail.length = n ∧ strCiEq tail w = true) ↔ lower (c :: tail) = f :: w := by
  obtain ⟨-, hcr⟩ := List.ne_and_not_mem_of_not_mem_cons hcr
  have hfirst : c ||| 0x20 = f ↔ asciiLower c = f := by
    rw [← or_eq_iff_lower c f hf, or_of_lower f hf]
  have hlen : (tail.length = n ∧ strCiEq tail w = true) ↔ strCiEq tail w = true :=
    ⟨fun h => h.2, fun h => ⟨by rw [strCiEq_length h, hn], h⟩⟩
  rw [hlen, strCiEq_name hw hcr, hfirst]
  simp [lower]

def fieldTokens (value : Str) : List Str := (value.splitOnP isListSep).filter (· != [])

lemma listTokensLoop_eq (s cur : Str) (hcur : ∀ b ∈ cur, isListSep b = false) :
    listTokensLoop s cur = ((cur ++ s).splitOnP isListSep).filter (· != []) := by
  induction s generalizing cur with
  | nil =>
    rw [List.append_nil, List.splitOnP_eq_singleton hcur]
    by_cases hc : cur = [] <;> simp [listTokensLoop, hc]
  | cons b s ih =>
    rw [listTokensLoop]
    by_cases hb : isListSep b = true
    · rw [if_pos hb, ih [] (by simp), List.splitOnP_append_cons_of_forall_mem hcur b hb]
      by_cases hc : cur = [] <;> simp [hc]
    · rw [if_neg hb, ih]
      · simp
      · intro d hd
        rcases List.mem_append.mp hd with hd | hd
        · exact hcur d hd
        · simp only [List.mem_singleton] at hd
          simpa [hd] using hb

lemma listTokens_eq (value : Str) : listTokens value = fieldTokens value :=
  listTokensLoop_eq value [] (by simp)

def HasToken (word value : Str) : Prop := ∃ tok ∈ fieldTokens value, lower tok = word

lemma wordTest_iff {tok word n} (hn : word.length = n) (hw : word.all isLowerLetter = true) :
    (tok.length == n && strCiEq tok word) = true ↔ lower tok = word := by
  rw [← strCiEq_iff (a := tok) fun b hb => .inl (List.all_eq_true.mp hw b hb), Bool.and_eq_true,
    beq_iff_eq]
  exact ⟨fun h => h.2, fun h => ⟨by rw [strCiEq_length h, hn], h⟩⟩

lemma any_listTokens_iff {value word n} (hn : word.length = n) (hw : word.all isLowerLetter = true) :
    ((listTokens value).any fun tok => tok.length == n && strCiEq tok word) = true ↔ HasToken word value := by
  simp only [List.any_eq_true, wordTest_iff hn hw, listTokens_eq, HasToken]

/-! ## Decimals -/

/-- Value of a string of decimal digits read after a prefix of value `acc`. -/
def decimalValue (acc : Nat) : Str → Nat
  | [] => acc
  | c :: s => decimalValue (10 * acc + (c.toNat - (ch '0').toNat)) s

/-- The value is a non-empty string of digits that denotes the `u32` value `n`. -/
structure IsDecimal (s : Str) (n : Nat) : Prop where
  ne : s ≠ []
  digits : ∀ c ∈ s, ch '0' ≤ c ∧ c ≤ ch '9'
  value : decimalValue 0 s = n
  fits : n < 2 ^ 32

lemma parseUintLoop_spec {s val n} (hv : val < 2 ^ 32) (h : parseUintLoop s val = some n) :
    (∀ c ∈ s, ch '0' ≤ c ∧ c ≤ ch '9') ∧ decimalValue val s = n ∧ n < 2 ^ 32 := by
  induction s generalizing val with
  | nil =>
    cases h
    exact ⟨by simp, rfl, hv⟩
  | cons c s ih =>
    rcases ite_eq_iff.mp h with ⟨-, h⟩ | ⟨hd, h⟩
    · cases h
    rcases ite_eq_iff.mp h with ⟨-, h⟩ | ⟨hg, h⟩
    · cases h
    have hle : ch '0' ≤ c ∧ c ≤ ch '9' := by
      simpa [UInt8.le_iff_toNat_le, UInt8.lt_iff_toNat_lt] using hd
    have h9 := UInt8.le_iff_toNat_le.mp hle.2
    simp only [ch_toNat] at h9 hg
    have hval : val * 10 + (c.toNat - (ch '0').toNat) < 2 ^ 32 := by
      simp only [ch_toNat]
      omega
    obtain ⟨hall, hdec, hfit⟩ := ih hval h
    refine ⟨?_, ?_, hfit⟩
    · simp only [List.mem_cons, forall_eq_or_imp]
      exact ⟨hle, hall⟩
    · rw [Nat.mul_comm] at hdec
      exact hdec

/-- `parse_uint` accepts decimals only. -/
lemma parseUint_isDecimal {s n} (h : parseUint s = some n) : IsDecimal s n := by
  unfold parseUint at h
  split_ifs at h with hne
  obtain ⟨hall, hdec, hfit⟩ := parseUintLoop_spec (by decide) h
  exact ⟨hne, hall, hdec, hfit⟩

/-! ## Transfer codings -/

def commaItems (value : Str) : List Str := (value.splitOn (ch ',')).map trimOws

def IsCoding (item : Str) : Prop := item ≠ [] ∧ ∀ b ∈ item, isTransferCodingTokenChar b = true

/-- Well-formed codings among which `chunked` occurs once, as the last one. -/
def FinalChunked (items : List Str) : Prop :=
  ∃ pre last, items = pre ++ [last] ∧ (∀ item ∈ items, IsCoding item) ∧
    lower last = chunkedToken ∧ ∀ item ∈ pre, lower item ≠ chunkedToken

lemma finalChunked_singleton {x} : FinalChunked [x] ↔ IsCoding x ∧ lower x = chunkedToken := by
  constructor
  · rintro ⟨pre, last, heq, hall, hlast, -⟩
    obtain ⟨rfl, rfl⟩ : pre = [] ∧ last = x := by
      rcases pre with - | ⟨p, pre⟩ <;> simp_all
    exact ⟨hall _ (by simp), hlast⟩
  · rintro ⟨hx, hlast⟩
    exact ⟨[], x, rfl, by simpa using hx, hlast, by simp⟩

lemma finalChunked_cons {x xs} (hne : xs ≠ []) :
    FinalChunked (x :: xs) ↔ IsCoding x ∧ lower x ≠ chunkedToken ∧ FinalChunked xs := by
  constructor
  · rintro ⟨pre, last, heq, hall, hlast, hpre⟩
    cases pre with
    | nil =>
      obtain ⟨-, rfl⟩ := List.cons.inj heq
      exact absurd rfl hne
    | cons p pre =>
      obtain ⟨rfl, rfl⟩ := List.cons.inj heq
      exact ⟨hall _ (by simp), hpre _ (by simp), pre, last, rfl,
        fun item hi => hall item (by simp_all), hlast, fun item hi => hpre item (by simp [hi])⟩
  · rintro ⟨hx, hnot, pre, last, rfl, hall, hlast, hpre⟩
    refine ⟨x :: pre, last, rfl, ?_, hlast, ?_⟩
    · intro item hi
      rcases List.mem_cons.mp hi with rfl | hi
      · exact hx
      · exact hall item hi
    · intro item hi
      rcases List.mem_cons.mp hi with rfl | hi
      · exact hnot
      · exact hpre item hi

lemma token_not_ows {b : UInt8} (h : isTransferCodingTokenChar b = true) : isOws b = false := by
  by_contra hb
  rw [Bool.not_eq_false, isOws, Bool.or_eq_true, beq_iff_eq, beq_iff_eq] at hb
  rcases hb with rfl | rfl <;> cases h

lemma comma_not_token : isTransferCodingTokenChar (ch ',') = false := by decide

lemma token_not_comma {b} (h : isTransferCodingTokenChar b = true) : (b == ch ',') = false := by
  by_contra hb
  simp only [Bool.not_eq_false, beq_iff_eq] at hb
  subst hb
  cases h

lemma rdropWhile_append_ows {x o : Str} (ho : ∀ b ∈ o, isOws b = true) :
    (x ++ o).rdropWhile isOws = x.rdropWhile isOws := by
  induction o using List.reverseRecOn with
  | nil => rw [List.append_nil]
  | append_singleton o b ih =>
    rw [← List.append_assoc, List.rdropWhile_concat_pos _ _ _ (ho b (by simp))]
    exact ih fun c hc => ho c (by simp [hc])

lemma trimOws_split (item : Str) : ∃ o₁ o₂, item = o₁ ++ (trimOws item ++ o₂) ∧ (∀ b ∈ o₁, isOws b = true) ∧
      (∀ b ∈ o₂, isOws b = true) := by
  refine ⟨item.takeWhile isOws, (item.dropWhile isOws).rtakeWhile isOws, ?_, ?_, ?_⟩
  · rw [trimOws, List.rdropWhile_append_rtakeWhile, List.takeWhile_append_dropWhile]
  · exact fun b hb => List.mem_takeWhile_imp hb
  · exact fun b hb => List.mem_rtakeWhile_imp hb

lemma trimOws_surround {l x r} (hl : ∀ c ∈ l, isOws c = true) (hr : ∀ c ∈ r, isOws c = true) :
    trimOws (l ++ x ++ r) = trimOws x := by
  rw [trimOws, List.append_assoc, List.dropWhile_append_of_pos hl, List.dropWhile_append, trimOws]
  split_ifs with hblank
  · rw [List.isEmpty_iff.1 hblank, List.dropWhile_eq_nil_iff.2 hr]
  · exact rdropWhile_append_ows hr

lemma trimOws_plain {s} (h : ∀ c ∈ s, isOws c = false) : trimOws s = s := by
  have hdrop : s.dropWhile isOws = s := by
    cases s with
    | nil => rfl
    | cons c s => rw [List.dropWhile_cons_of_neg (by rw [h c List.mem_cons_self]; exact Bool.false_ne_true)]
  rw [trimOws, hdrop, List.rdropWhile_eq_self_iff]
  intro hne
  rw [h _ (List.getLast_mem hne)]
  exact Bool.false_ne_true

lemma comma_free {l : Str} (h : ch ',' ∉ l) : ∀ b ∈ l, (b == ch ',') = false := by
  intro b hb
  rw [beq_eq_false_iff_ne]
  exact fun heq => h (heq ▸ hb)

lemma commaItems_free {v} (h : ch ',' ∉ v) : commaItems v = [trimOws v] := by
  rw [commaItems, List.splitOn_eq_splitOnP, List.splitOnP_eq_singleton (comma_free h)]
  rfl

lemma commaItems_comma {item} (h : ch ',' ∉ item) (r : Str) :
    commaItems (item ++ ch ',' :: r) = trimOws item :: commaItems r := by
  rw [commaItems, List.splitOn_eq_splitOnP, List.splitOnP_append_cons_of_forall_mem (comma_free h) _ (by simp)]
  rfl

lemma commaItems_cases (v : Str) : (commaItems v = [trimOws v] ∧ ∀ b ∈ v, (b == ch ',') = false) ∨
    ∃ item r, v = item ++ ch ',' :: r ∧ (∀ b ∈ item, (b == ch ',') = false) ∧
      commaItems v = trimOws item :: commaItems r := by
  by_cases hc : ch ',' ∈ v
  · obtain ⟨item, r, rfl, hitem⟩ := List.eq_append_cons_of_mem hc
    exact .inr ⟨item, r, rfl, comma_free hitem, commaItems_comma hitem r⟩
  · exact .inl ⟨commaItems_free hc, comma_free hc⟩

def ItemEnd (t : Str) : Prop := t = [] ∨ ∃ r, t = ch ',' :: r

lemma ItemEnd.dropWhile_ows {t o} (ht : ItemEnd t) (ho : ∀ b ∈ o, isOws b = true) : (o ++ t).dropWhile isOws = t := by
  refine Rut.Http.dropWhile_ows ho fun b hb => ?_
  obtain rfl | ⟨r, rfl⟩ := ht
  · cases hb
  · cases hb
    decide

lemma classifyLoop_succ (fuel : Nat) (val : Str) (sawChunked : Bool) :
    classifyTransferEncodingLoop (fuel + 1) val sawChunked =
      match val.dropWhile isOws with
      | [] => .unsupported
      | c :: s =>
        if c = ch ',' then .unsupported
        else
          let token := (c :: s).takeWhile isTransferCodingTokenChar
          if token = [] then .unsupported
          else
            let isChunked := token.length == 7 && strCiEq token chunkedToken
            if isChunked && sawChunked then .unsupported
            else
              match ((c :: s).dropWhile isTransferCodingTokenChar).dropWhile isOws with
              | [] => if sawChunked || isChunked then .finalChunked else .unsupported
              | d :: rest =>
                if d ≠ ch ',' then .unsupported
                else if isChunked then .unsupported
                else classifyTransferEncodingLoop fuel rest (sawChunked || isChunked) := by
  rfl

/-- One turn of `classify_transfer_encoding` over a well-formed item. -/
lemma classifyLoop_coding {fuel item t} (ht : ItemEnd t) (hx : IsCoding (trimOws item)) :
    classifyTransferEncodingLoop (fuel + 1) (item ++ t) false =
      match t with
      | [] => if lower (trimOws item) = chunkedToken then .finalChunked else .unsupported
      | _ :: r =>
        if lower (trimOws item) = chunkedToken then .unsupported
        else classifyTransferEncodingLoop fuel r false := by
  obtain ⟨o₁, o₂, hitem, h₁, h₂⟩ := trimOws_split item
  generalize trimOws item = x at hitem hx
  obtain ⟨c, w, rfl⟩ := List.exists_cons_of_ne_nil hx.1
  have htok := hx.2
  have hc := htok c (by simp)
  have hdrop : (item ++ t).dropWhile isOws = c :: (w ++ (o₂ ++ t)) := by
    rw [hitem]
    simp only [List.append_assoc, List.cons_append]
    exact dropWhile_ows h₁ fun b hb => by cases hb; exact token_not_ows hc
  -- the byte behind the coding ends it
  have hend : ∀ b, (o₂ ++ t).head? = some b → isTransferCodingTokenChar b = false := by
    intro b hb
    cases o₂ with
    | cons d o =>
      obtain rfl : d = b := by simpa using hb
      by_contra hd
      have := token_not_ows (by simpa using hd)
      rw [h₂ d (by simp)] at this
      cases this
    | nil =>
      obtain rfl | ⟨r, rfl⟩ := ht
      · cases hb
      · cases hb
        exact comma_not_token
  have hsplit : (c :: (w ++ (o₂ ++ t))).takeWhile isTransferCodingTokenChar = c :: w ∧
      (c :: (w ++ (o₂ ++ t))).dropWhile isTransferCodingTokenChar = o₂ ++ t := by
    rw [← List.cons_append, List.takeWhile_append_of_pos htok, List.dropWhile_append_of_pos htok]
    cases h : o₂ ++ t with
    | nil => simp
    | cons d s =>
      rw [h] at hend
      simp [hend d rfl]
  have hchunked : ((c :: w).length == 7 && strCiEq (c :: w) chunkedToken) =
      decide (lower (c :: w) = chunkedToken) := by
    rw [Bool.eq_iff_iff, decide_eq_true_iff]
    exact wordTest_iff rfl (by decide +kernel)
  have hcomma : c ≠ ch ',' := by simpa using token_not_comma hc
  rw [classifyLoop_succ, hdrop]
  dsimp only
  rw [if_neg hcomma, hsplit.1, if_neg (List.cons_ne_nil c w), hchunked, Bool.and_false,
    if_neg Bool.false_ne_true, hsplit.2, ht.dropWhile_ows h₂, Bool.false_or]
  obtain rfl | ⟨r, rfl⟩ := ht
  · by_cases hl : lower (c :: w) = chunkedToken
    · rw [if_pos hl, if_pos (decide_eq_true hl)]
    · rw [if_neg hl, decide_eq_false hl, if_neg Bool.false_ne_true]
  · dsimp only
    rw [if_neg (not_not_intro rfl)]
    by_cases hl : lower (c :: w) = chunkedToken
    · rw [if_pos hl, if_pos (decide_eq_true hl)]
    · rw [if_neg hl, decide_eq_false hl, if_neg Bool.false_ne_true]

/-- One turn of `classify_transfer_encoding` over an item that is no coding. -/
lemma classifyLoop_malformed {fuel item t} (hitem : ∀ b ∈ item, (b == ch ',') = false)
    (ht : ItemEnd t) (hx : ¬ IsCoding (trimOws item)) :
    classifyTransferEncodingLoop (fuel + 1) (item ++ t) false = .unsupported := by
  obtain ⟨o₁, o₂, hsplit, h₁, h₂⟩ := trimOws_split item
  have hlast : ∀ hne : trimOws item ≠ [], isOws ((trimOws item).getLast hne) = false := by
    intro hne
    exact eq_false_of_ne_true (List.rdropWhile_last_not isOws _ hne)
  have hfirst : ∀ b, (trimOws item).head? = some b → isOws b = false := by
    intro b hb
    have hpre : trimOws item <+: item.dropWhile isOws := List.rdropWhile_prefix ..
    have hhead := List.head?_dropWhile_not isOws item
    rw [List.singleton_prefix_iff_head?_eq_some.mp
      ((List.singleton_prefix_iff_head?_eq_some.mpr hb).trans hpre)] at hhead
    exact hhead
  generalize trimOws item = x at hsplit hx hlast hfirst
  rw [classifyLoop_succ, hsplit]
  cases x with
  | nil =>
    have ho : ∀ b ∈ o₁ ++ o₂, isOws b = true := by
      intro b hb
      exact (List.mem_append.mp hb).elim (h₁ b) (h₂ b)
    rw [List.nil_append, ht.dropWhile_ows ho]
    obtain rfl | ⟨r, rfl⟩ := ht <;> rfl
  | cons c w =>
    have hdrop : (o₁ ++ (c :: w ++ o₂) ++ t).dropWhile isOws = c :: (w ++ (o₂ ++ t)) := by
      simp only [List.append_assoc, List.cons_append]
      exact dropWhile_ows h₁ fun b hb => by cases hb; exact hfirst c rfl
    have hcomma : c ≠ ch ',' := by simpa using hitem c (by simp [hsplit])
    rw [hdrop]
    dsimp only
    rw [if_neg hcomma]
    -- the first byte that is no token character stands inside the item
    obtain ⟨tok, y, hxy, htok, hy, hyhead⟩ : ∃ tok y, c :: w = tok ++ y ∧
        (∀ b ∈ tok, isTransferCodingTokenChar b = true) ∧ y ≠ [] ∧
        ∀ b, y.head? = some b → isTransferCodingTokenChar b = false := by
      refine ⟨_, _, List.takeWhile_append_dropWhile.symm, fun b hb => List.mem_takeWhile_imp hb, ?_, ?_⟩
      · intro hnil
        exact hx ⟨List.cons_ne_nil c w, List.dropWhile_eq_nil_iff.mp hnil⟩
      · intro b hb
        have hhead := List.head?_dropWhile_not isTransferCodingTokenChar (c :: w)
        rw [hb] at hhead
        exact hhead
    obtain ⟨d, y', rfl⟩ := List.exists_cons_of_ne_nil hy
    have htake : (c :: (w ++ (o₂ ++ t))).takeWhile isTransferCodingTokenChar = tok := by
      rw [← List.cons_append, hxy, List.append_assoc, List.takeWhile_append_of_pos htok]
      simp [hyhead d rfl]
    have hrest : (c :: (w ++ (o₂ ++ t))).dropWhile isTransferCodingTokenChar =
        d :: y' ++ (o₂ ++ t) := by
      rw [← List.cons_append, hxy, List.append_assoc, List.dropWhile_append_of_pos htok]
      simp [hyhead d rfl]
    -- the item does not end in OWS, so neither does what follows the token
    obtain ⟨e, z, hez⟩ : ∃ e z, (d :: y').dropWhile isOws = e :: z := by
      refine List.exists_cons_of_ne_nil fun hnil => ?_
      have hall := List.dropWhile_eq_nil_iff.mp hnil
      have := hlast (List.cons_ne_nil c w)
      simp only [hxy, List.getLast_append_of_ne_nil _ hy] at this
      rw [hall _ (List.getLast_mem hy)] at this
      cases this
    have he : e ≠ ch ',' := by
      have hmem : e ∈ d :: y' := (List.dropWhile_suffix isOws).subset (by rw [hez]; simp)
      have : e ∈ item := by
        rw [hsplit, hxy]
        simp only [List.mem_append, hmem]
        tauto
      simpa using hitem e this
    have hows : (d :: y' ++ (o₂ ++ t)).dropWhile isOws = e :: (z ++ (o₂ ++ t)) := by
      rw [List.dropWhile_append, hez]
      rfl
    rw [htake, hrest, hows, Bool.and_false, if_neg Bool.false_ne_true]
    dsimp only
    rw [if_pos he, ite_self]

lemma commaItems_ne_nil (v : Str) : commaItems v ≠ [] := by
  rcases commaItems_cases v with ⟨h, -⟩ | ⟨item, r, -, -, h⟩ <;> simp [h]

lemma classifyLoop_finalChunked_iff {fuel v} (hf : v.length < fuel) :
    classifyTransferEncodingLoop fuel v false = .finalChunked ↔ FinalChunked (commaItems v) := by
  induction fuel generalizing v with
  | zero => omega
  | succ fuel ih =>
    rcases commaItems_cases v with ⟨hitems, hfree⟩ | ⟨item, r, rfl, hfree, hitems⟩
    · have hend : ItemEnd [] := .inl rfl
      rw [hitems, finalChunked_singleton, ← List.append_nil v]
      by_cases hx : IsCoding (trimOws v)
      · rw [classifyLoop_coding hend hx, List.append_nil]
        by_cases hl : lower (trimOws v) = chunkedToken <;> simp [hl, hx]
      · rw [classifyLoop_malformed hfree hend hx, List.append_nil]
        simp [hx]
    · have hend : ItemEnd (ch ',' :: r) := .inr ⟨r, rfl⟩
      rw [hitems, finalChunked_cons (commaItems_ne_nil r)]
      by_cases hx : IsCoding (trimOws item)
      · rw [classifyLoop_coding hend hx]
        by_cases hl : lower (trimOws item) = chunkedToken
        · simp [hl]
        · have hr := @ih r (by simp at hf; omega)
          simp [hl, hx, hr]
      · rw [classifyLoop_malformed hfree hend hx]
        simp [hx]

/-- `classify_transfer_encoding` decides whether `chunked` is the final coding. -/
lemma classify_finalChunked_iff (v : Str) :
    classifyTransferEncoding v = .finalChunked ↔ FinalChunked (commaItems v) := by
  rw [classifyTransferEncoding]
  split_ifs with hv
  · subst hv
    have : commaItems [] = [[]] := by decide
    simp [this, finalChunked_singleton, IsCoding]
  · exact classifyLoop_finalChunked_iff (Nat.lt_succ_self _)

lemma classifyLoop_ne_unparsed (fuel : Nat) (v : Str) (saw : Bool) :
    classifyTransferEncodingLoop fuel v saw ≠ .unparsed := by
  induction fuel generalizing v saw with
  | zero => exact RequestTransferEncoding.noConfusion
  | succ fuel ih =>
    rw [classifyLoop_succ]
    intro h
    split at h
    · cases h
    rcases ite_eq_iff.mp h with ⟨-, h⟩ | ⟨-, h⟩
    · cases h
    rcases ite_eq_iff.mp h with ⟨-, h⟩ | ⟨-, h⟩
    · cases h
    rcases ite_eq_iff.mp h with ⟨-, h⟩ | ⟨-, h⟩
    · cases h
    split at h
    · rcases ite_eq_iff.mp h with ⟨-, h⟩ | ⟨-, h⟩ <;> cases h
    rcases ite_eq_iff.mp h with ⟨-, h⟩ | ⟨-, h⟩
    · cases h
    rcases ite_eq_iff.mp h with ⟨-, h⟩ | ⟨-, h⟩
    · cases h
    exact ih _ _ h

lemma classify_ne_unparsed (v : Str) : classifyTransferEncoding v ≠ .unparsed := by
  rw [classifyTransferEncoding]
  split_ifs
  · exact RequestTransferEncoding.noConfusion
  · exact classifyLoop_ne_unparsed _ _ _

end Rut.Http
