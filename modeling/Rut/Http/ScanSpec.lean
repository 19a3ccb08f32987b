import Rut.Http.Request

/-!
# What the scanners read

One specification lemma per scanner of `Scan.lean` and per reader of `Request.lean`: the bytes a reader
reads when it succeeds, and that these bytes followed by anything make it succeed. The later modules
only use these lemmas and never unfold a scanner.
-/

namespace Rut.Http

open Incremental

/-! ## Scanners -/

section ScanTo
variable {stop : UInt8} {table : List Nat}

lemma scanTo_found {s text rest} (h : scanTo stop table s = .found text rest) :
    s = text ++ stop :: rest ∧ ∀ b ∈ text, b ≠ stop ∧ tableAt table b = true := by
  induction s generalizing text with
  | nil => cases h
  | cons b s ih =>
    unfold scanTo at h
    split_ifs at h with hb hok
    · cases h
      exact ⟨by rw [hb]; rfl, by simp⟩
    · cases hs : scanTo stop table s with
      | found text' rest' =>
        rw [hs] at h
        cases h
        obtain ⟨rfl, hall⟩ := ih hs
        refine ⟨rfl, ?_⟩
        simp only [List.mem_cons, forall_eq_or_imp]
        exact ⟨⟨hb, by simpa using hok⟩, hall⟩
      | invalid => rw [hs] at h; cases h
      | atEnd => rw [hs] at h; cases h

lemma scanTo_append {text} (hall : ∀ b ∈ text, b ≠ stop ∧ tableAt table b = true) (t : Str) :
    scanTo stop table (text ++ stop :: t) = .found text t := by
  induction text with
  | nil => simp [scanTo]
  | cons b text ih =>
    have hb := hall b (by simp)
    have ih := ih fun c hc => hall c (by simp [hc])
    simp [scanTo, hb.1, hb.2, ih]

lemma scanTo_invalid_append {s} (h : scanTo stop table s = .invalid) (t : Str) :
    scanTo stop table (s ++ t) = .invalid := by
  induction s with
  | nil => cases h
  | cons b s ih =>
    rw [List.cons_append]
    unfold scanTo at h ⊢
    split_ifs at h ⊢ with hb hok
    · rfl
    · cases hs : scanTo stop table s with
      | found text' rest' => rw [hs] at h; cases h
      | invalid => rw [ih hs]
      | atEnd => rw [hs] at h; cases h

end ScanTo

/-- Where the canonical part of a target ends: at its first `?` or `#`. -/
def canonEndOf (x : Str) : Nat := (x.takeWhile Route.isPathByte).length

lemma scanUriLoop_append {x} (pos : Nat) (canon : Option Nat)
    (hall : ∀ b ∈ x, b ≠ ch ' ' ∧ tableAt kUriTable b = true) (t : Str) : scanUriLoop (x ++ ch ' ' :: t) pos canon =
      .found (pos + x.length) (canon.getD (pos + canonEndOf x)) := by
  induction x generalizing pos canon with
  | nil => simp [scanUriLoop, canonEndOf]
  | cons b x ih =>
    have hb := hall b (by simp)
    have ih := @ih (pos + 1)
      (if (b = ch '?' ∨ b = ch '#') ∧ canon = none then some pos else canon)
      (fun c hc => hall c (by simp [hc]))
    rw [List.cons_append, scanUriLoop, if_neg hb.1, if_neg (by simp [hb.2]), ih]
    have hlen : pos + 1 + x.length = pos + (b :: x).length := by simp; omega
    rw [hlen]
    by_cases hq : b = ch '?' ∨ b = ch '#'
    · have hp : Route.isPathByte b = false := by rcases hq with rfl | rfl <;> rfl
      cases canon <;> simp [canonEndOf, hq, hp]
    · have hp : Route.isPathByte b = true := by
        simp only [not_or] at hq
        simp [Route.isPathByte, hq]
      cases canon with
      | none =>
        simp only [hq, false_and, if_false, Option.getD_none, canonEndOf, List.takeWhile_cons, hp,
          if_true, List.length_cons]
        congr 1
        omega
      | some c => simp [hq]

lemma scanUriLoop_found {s pos n c canon} (h : scanUriLoop s pos canon = .found n c) :
    ∃ x r, s = x ++ ch ' ' :: r ∧ ∀ b ∈ x, b ≠ ch ' ' ∧ tableAt kUriTable b = true := by
  induction s generalizing pos canon with
  | nil => cases h
  | cons b s ih =>
    rw [scanUriLoop] at h
    split_ifs at h with hb hok
    · exact ⟨[], s, by rw [hb]; rfl, by simp⟩
    all_goals
      obtain ⟨x, r, rfl, hall⟩ := ih h
      refine ⟨b :: x, r, rfl, ?_⟩
      simp only [List.mem_cons, forall_eq_or_imp]
      exact ⟨⟨hb, by simpa using hok⟩, hall⟩

lemma scanUriLoop_invalid_append {s pos canon} (h : scanUriLoop s pos canon = .invalid) (t : Str) :
    scanUriLoop (s ++ t) pos canon = .invalid := by
  induction s generalizing pos canon with
  | nil => cases h
  | cons b s ih =>
    rw [List.cons_append]
    rw [scanUriLoop] at h ⊢
    split_ifs at h ⊢ with hb hok
    · rfl
    all_goals exact ih h

/-! ## The request line -/

def HttpMethod.bytes : HttpMethod → Str
  | .get => lit ['G','E','T',' ']
  | .put => lit ['P','U','T',' ']
  | .post => lit ['P','O','S','T',' ']
  | .head => lit ['H','E','A','D',' ']
  | .patch => lit ['P','A','T','C','H',' ']
  | .trace => lit ['T','R','A','C','E',' ']
  | .delete => lit ['D','E','L','E','T','E',' ']
  | .options => lit ['O','P','T','I','O','N','S',' ']
  | .connect => lit ['C','O','N','N','E','C','T',' ']

lemma eq_append_drop {s w : Str} {n} (h : s.take n = w) : s = w ++ s.drop n := by
  rw [← h, List.take_append_drop]

lemma parseMethodDirect_done {s r : Str} {m} (h : parseMethodDirect s = .done m r) : s = m.bytes ++ r := by
  iterate 14
    rcases ite_eq_iff.mp h with ⟨hw, h⟩ | ⟨-, h⟩
    · cases h <;> exact eq_append_drop hw
  cases h

lemma parseMethodDirect_append (m : HttpMethod) (t : Str) : parseMethodDirect (m.bytes ++ t) = .done m t := by
  cases m <;> simp [parseMethodDirect, HttpMethod.bytes, lit] <;> split_ifs <;> first | rfl | omega

lemma parseMethodDirect_stable : Stable parseMethodDirect where
  done h := ⟨_, parseMethodDirect_done h, parseMethodDirect_append _⟩
  fail t h := by
    iterate 14
      rcases ite_eq_iff.mp h with ⟨-, h⟩ | ⟨-, h⟩
      · cases h
    cases h

lemma parseTarget_done {s r : Str} {tg} (h : parseTarget s = .done tg r) :
    ∃ x, s = x ++ ch ' ' :: r ∧ x ≠ [] ∧ (∀ b ∈ x, b ≠ ch ' ' ∧ tableAt kUriTable b = true) ∧
      tg = Target.ofPath x (canonEndOf x) := by
  unfold parseTarget at h
  cases hs : scanUri s with
  | invalid => rw [hs] at h; cases h
  | atEnd => rw [hs] at h; cases h
  | found n c =>
    rw [hs] at h
    obtain ⟨x, r', rfl, hall⟩ := scanUriLoop_found hs
    have happ := scanUriLoop_append 0 none hall r'
    rw [← scanUri, hs] at happ
    obtain ⟨rfl, rfl⟩ := happ
    dsimp only at h
    split_ifs at h with hn
    cases h
    refine ⟨x, by simp, fun hx => hn (by simp [hx]), hall, by simp⟩

lemma parseTarget_append {x : Str} (hne : x ≠ []) (hall : ∀ b ∈ x, b ≠ ch ' ' ∧ tableAt kUriTable b = true) (t : Str) :
    parseTarget (x ++ ch ' ' :: t) = .done (Target.ofPath x (canonEndOf x)) t := by
  have happ := scanUriLoop_append 0 none hall t
  simp [parseTarget, scanUri, happ, hne]

lemma parseTarget_stable : Stable parseTarget where
  done h := by
    obtain ⟨x, rfl, hne, hall, rfl⟩ := parseTarget_done h
    exact ⟨x ++ [ch ' '], by simp, fun t => by simpa using parseTarget_append hne hall t⟩
  fail {s} t h := by
    unfold parseTarget at h ⊢
    cases hs : scanUri s with
    | invalid => rw [scanUri, scanUriLoop_invalid_append hs]
    | atEnd => rw [hs] at h; cases h
    | found n c =>
      rw [hs] at h
      obtain ⟨x, r, rfl, hall⟩ := scanUriLoop_found hs
      have h1 := scanUriLoop_append 0 none hall r
      have h2 := scanUriLoop_append 0 none hall (r ++ t)
      rw [← scanUri, hs] at h1
      simp only [UriScan.found.injEq, Nat.zero_add] at h1
      dsimp only at h
      split_ifs at h with hn
      simp [scanUri, h2, ← h1.1, hn]

def HttpVersion.bytes : HttpVersion → Str
  | .http11 => lit ['H','T','T','P','/','1','.','1','\r','\n']
  | .http10 => lit ['H','T','T','P','/','1','.','0','\r','\n']

lemma parseVersion_done {s r : Str} {v} (h : parseVersion s = .done v r) : s = v.bytes ++ r := by
  unfold parseVersion at h
  split_ifs at h with h1 h2 h3 h4
  all_goals
    cases h
    have hs : s.take 10 = s.take 8 ++ (s.drop 8).take 2 := by rw [← List.take_add]
    rw [not_not.mp h2] at hs
  · rw [h3] at hs
    exact eq_append_drop hs
  · rw [h4] at hs
    exact eq_append_drop hs

lemma parseVersion_append (v : HttpVersion) (t : Str) : parseVersion (v.bytes ++ t) = .done v t := by
  cases v <;> simp [parseVersion, HttpVersion.bytes, lit]

lemma parseVersion_stable : Stable parseVersion where
  done h := ⟨_, parseVersion_done h, parseVersion_append _⟩
  fail {s} t h := by
    unfold parseVersion at h
    have key : 10 ≤ s.length := by
      by_contra hlt
      rw [if_pos (by omega)] at h
      cases h
    have h8 : (s ++ t).take 8 = s.take 8 := List.take_append_of_le_length (by omega)
    have h2 : ((s ++ t).drop 8).take 2 = (s.drop 8).take 2 := by
      rw [List.drop_append_of_le_length (by omega), List.take_append_of_le_length (by simp; omega)]
    unfold parseVersion
    rw [h8, h2, if_neg (by simp; omega)]
    split_ifs at h ⊢ <;> rfl

/-! ## Header lines -/

lemma tableAt_token_colon : tableAt kTokenTable (ch ':') = false := by decide

/-- The parts of a header line: a token, OWS, and a value that does not start with OWS. -/
structure HeaderParts where
  name : Str
  ows : Str
  text : Str
  name_ne : name ≠ []
  name_token : ∀ b ∈ name, tableAt kTokenTable b = true
  ows_ows : ∀ b ∈ ows, isOws b = true
  text_valid : ∀ b ∈ text, b ≠ ch '\r' ∧ tableAt kHeaderValueTable b = true
  text_head : ∀ b, text.head? = some b → isOws b = false

def HeaderParts.line (p : HeaderParts) : Str := p.name ++ ch ':' :: (p.ows ++ p.text)

def HeaderParts.header (p : HeaderParts) : Header where
  name := p.name
  value := p.text.rdropWhile isOws
  rawValue := p.ows ++ p.text

lemma HeaderParts.name_valid (p : HeaderParts) : ∀ b ∈ p.name, b ≠ ch ':' ∧ tableAt kTokenTable b = true := by
  intro b hb
  refine ⟨?_, p.name_token b hb⟩
  rintro rfl
  have := p.name_token _ hb
  cases this

lemma dropWhile_ows {ows v : Str} (ho : ∀ b ∈ ows, isOws b = true)
    (hv : ∀ b, v.head? = some b → isOws b = false) : (ows ++ v).dropWhile isOws = v := by
  rw [List.dropWhile_append_of_pos ho]
  cases v with
  | nil => rfl
  | cons b v => simp [hv b rfl]

lemma takeWhile_ows {ows v : Str} (ho : ∀ b ∈ ows, isOws b = true)
    (hv : ∀ b, v.head? = some b → isOws b = false) : (ows ++ v).takeWhile isOws = ows := by
  rw [List.takeWhile_append_of_pos ho]
  cases v with
  | nil => simp
  | cons b v => simp [hv b rfl]

lemma HeaderParts.tail_head (p : HeaderParts) (t : Str) :
    ∀ b, (p.text ++ ch '\r' :: t).head? = some b → isOws b = false := by
  intro b hb
  cases ht : p.text with
  | nil =>
    rw [ht] at hb
    cases hb
    decide
  | cons c text =>
    rw [ht] at hb
    exact p.text_head b (by rw [ht]; exact hb)

lemma parseHeaderLine_append (p : HeaderParts) (t : Str) :
    parseHeaderLine (p.line ++ ch '\r' :: ch '\n' :: t) = .done p.header t := by
  have hname : scanHeaderName (p.line ++ ch '\r' :: ch '\n' :: t) =
      some (p.name, p.ows ++ (p.text ++ ch '\r' :: ch '\n' :: t)) := by
    simp only [scanHeaderName, HeaderParts.line, List.append_assoc, List.cons_append]
    rw [scanTo_append p.name_valid]
  have hval : scanHeaderValue (p.text ++ ch '\r' :: ch '\n' :: t) = .found p.text (ch '\n' :: t) :=
    scanTo_append p.text_valid _
  unfold parseHeaderLine
  rw [hname]
  simp only [dropWhile_ows p.ows_ows (p.tail_head _), takeWhile_ows p.ows_ows (p.tail_head _), hval]
  simp [p.name_ne, HeaderParts.header]

lemma head_dropWhile_ows (v : Str) : ∀ b, (v.dropWhile isOws).head? = some b → isOws b = false := by
  intro b hb
  have := List.head?_dropWhile_not isOws v
  rw [hb] at this
  simpa using this

lemma parseHeaderLine_done {s r : Str} {h} (hd : parseHeaderLine s = .done h r) :
    ∃ p : HeaderParts, s = p.line ++ ch '\r' :: ch '\n' :: r ∧ h = p.header := by
  unfold parseHeaderLine at hd
  cases hn : scanTo (ch ':') kTokenTable s with
  | invalid => simp [scanHeaderName, hn] at hd
  | atEnd => simp [scanHeaderName, hn] at hd
  | found name after =>
    obtain ⟨rfl, hname⟩ := scanTo_found hn
    simp only [scanHeaderName, hn] at hd
    split_ifs at hd with h1 h2 h3
    cases hv : scanHeaderValue (after.dropWhile isOws) with
    | invalid => rw [hv] at hd; cases hd
    | atEnd => rw [hv] at hd; cases hd
    | found text rest =>
      rw [hv] at hd
      obtain ⟨htext, hall⟩ := scanTo_found hv
      cases rest with
      | nil => cases hd
      | cons c rest =>
        dsimp only at hd
        split_ifs at hd with hc
        cases hd
        have hsplit := List.takeWhile_append_dropWhile (p := isOws) (l := after)
        refine ⟨⟨name, after.takeWhile isOws, text, h1, fun b hb => (hname b hb).2, ?_, hall, ?_⟩, ?_, rfl⟩
        · exact fun b hb => List.mem_takeWhile_imp hb
        · intro b hb
          refine head_dropWhile_ows after b ?_
          rw [htext]
          cases text with
          | nil => cases hb
          | cons d text => exact hb
        · simp only [HeaderParts.line, List.append_assoc, List.cons_append]
          rw [← not_not.mp hc, ← htext, hsplit]

lemma parseHeaderLine_stable : Stable parseHeaderLine where
  done h := by
    obtain ⟨p, rfl, rfl⟩ := parseHeaderLine_done h
    exact ⟨p.line ++ [ch '\r', ch '\n'], by simp, fun t => by simpa using parseHeaderLine_append p t⟩
  fail {s} t h := by
    unfold parseHeaderLine at h
    cases hn : scanTo (ch ':') kTokenTable s with
    | invalid => simp [scanHeaderName, hn] at h
    | atEnd => simp [scanHeaderName, hn] at h
    | found name after =>
      obtain ⟨rfl, hname⟩ := scanTo_found hn
      have happ : scanHeaderName (name ++ ch ':' :: after ++ t) = some (name, after ++ t) := by
        simp only [scanHeaderName, List.append_assoc, List.cons_append]
        rw [scanTo_append hname]
      simp only [scanHeaderName, hn] at h
      unfold parseHeaderLine
      rw [happ]
      dsimp only
      split_ifs at h with h1 h2 h3
      · rw [if_pos h1]
      · have hdrop : (after ++ t).dropWhile isOws = after.dropWhile isOws ++ t := by
          rw [List.dropWhile_append, if_neg (by simpa using h3)]
        rw [if_neg h1, if_neg (by simp [h2]), hdrop, if_neg (by simp [h3])]
        cases hv : scanHeaderValue (after.dropWhile isOws) with
        | invalid => rw [scanHeaderValue, scanTo_invalid_append hv]
        | atEnd => rw [hv] at h; cases h
        | found text rest =>
          rw [hv] at h
          obtain ⟨htext, hall⟩ := scanTo_found hv
          cases rest with
          | nil => cases h
          | cons c rest =>
            dsimp only at h
            split_ifs at h with hc
            rw [htext, scanHeaderValue, List.append_assoc, List.cons_append, scanTo_append hall]
            simp [hc]

/-- What the header loop does with a header it has read and `slots` free places. -/
def storeHeader (slots : Nat) (req : ParsedRequest) (h : Header) : HeadReader ParsedRequest :=
  match slots with
  | 0 => fun _ => .fail
  | slots + 1 =>
    match applySemanticHeader h.name h.value { req with headers := req.headers ++ [h] } with
    | none => fun _ => .fail
    | some req' => parseHeaders slots req'

lemma parseHeaders_cons {slots req c d rest} (hc : c ≠ ch '\r') : parseHeaders slots req (c :: d :: rest) =
      (parseHeaderLine >>= storeHeader slots req) (c :: d :: rest) := by
  conv_lhs => unfold parseHeaders
  simp only [if_neg hc, Bind.bind, Reader.bind]
  cases parseHeaderLine (c :: d :: rest) with
  | stall e => rfl
  | fail => rfl
  | done h rest' =>
    cases slots with
    | zero => rfl
    | succ slots =>
      simp only [storeHeader]
      cases applySemanticHeader h.name h.value { req with headers := req.headers ++ [h] } <;> rfl

lemma parseHeaders_crlf (slots : Nat) (req : ParsedRequest) (t : Str) :
    parseHeaders slots req (ch '\r' :: ch '\n' :: t) = .done req t := by
  unfold parseHeaders
  simp

lemma tableAt_token_cr : tableAt kTokenTable (ch '\r') = false := by decide
lemma tableAt_token_lf : tableAt kTokenTable (ch '\n') = false := by decide

lemma HeaderParts.line_cons (p : HeaderParts) : ∃ c d l, p.line = c :: d :: l ∧ c ≠ ch '\r' ∧ c ≠ ch '\n' := by
  obtain ⟨name, ows, text, hne, htok, -, -, -⟩ := p
  cases name with
  | nil => exact absurd rfl hne
  | cons c name =>
    have hc := htok c (by simp)
    have hcr : c ≠ ch '\r' := by rintro rfl; rw [tableAt_token_cr] at hc; cases hc
    have hlf : c ≠ ch '\n' := by rintro rfl; rw [tableAt_token_lf] at hc; cases hc
    cases name with
    | nil => exact ⟨c, ch ':', ows ++ text, rfl, hcr, hlf⟩
    | cons d name => exact ⟨c, d, name ++ ch ':' :: (ows ++ text), rfl, hcr, hlf⟩

lemma parseHeaders_line (slots : Nat) (req : ParsedRequest) (p : HeaderParts) (t : Str) :
    parseHeaders slots req (p.line ++ ch '\r' :: ch '\n' :: t) = storeHeader slots req p.header t := by
  obtain ⟨c, d, l, hl, hc, -⟩ := p.line_cons
  have happ := parseHeaderLine_append p t
  rw [hl] at happ ⊢
  simp only [List.cons_append] at happ ⊢
  rw [parseHeaders_cons hc]
  simp only [Bind.bind, Reader.bind, happ]

lemma parseHeaderLine_stall {s : Str} {e} (h : parseHeaderLine s = .stall e) : e = .maybe := by
  grind [parseHeaderLine]

/-- What the header loop finds at the start of its input: the empty line, a header line, too few
bytes, a line it cannot judge yet, or something malformed. -/
inductive HeadersTurn (slots : Nat) (req : ParsedRequest) : Str → Prop where
  | crlf (t : Str) : HeadersTurn slots req (ch '\r' :: ch '\n' :: t)
  | line (p : HeaderParts) (t : Str) :
    HeadersTurn slots req (p.line ++ ch '\r' :: ch '\n' :: t)
  | short {s} : s.length < 2 → parseHeaders slots req s = .stall .needMore → HeadersTurn slots req s
  | unclear {s} : parseHeaders slots req s = .stall .maybe → HeadersTurn slots req s
  | malformed {s} : (∀ t, parseHeaders slots req (s ++ t) = .fail) → HeadersTurn slots req s

lemma headersTurn (slots : Nat) (req : ParsedRequest) (s : Str) : HeadersTurn slots req s := by
  match s with
  | [] => exact .short (by simp) (by simp [parseHeaders])
  | [c] => exact .short (by simp) (by simp [parseHeaders])
  | c :: d :: rest =>
    by_cases hc : c = ch '\r'
    · by_cases hd : d = ch '\n'
      · rw [hc, hd]
        exact .crlf rest
      · exact .malformed fun t => by simp [parseHeaders, hc, hd]
    · cases hl : parseHeaderLine (c :: d :: rest) with
      | done h r =>
        obtain ⟨p, hs, -⟩ := parseHeaderLine_done hl
        rw [hs]
        exact .line p r
      | fail =>
        refine .malformed fun t => ?_
        have hf := parseHeaderLine_stable.fail t hl
        simp only [List.cons_append] at hf ⊢
        rw [parseHeaders_cons hc]
        simp only [Bind.bind, Reader.bind, hf]
      | stall e =>
        refine .unclear ?_
        rw [parseHeaders_cons hc, ← parseHeaderLine_stall hl]
        simp only [Bind.bind, Reader.bind, hl]

lemma parseHeaders_stable_of {slots req} (hs : ∀ h, Stable (storeHeader slots req h)) :
    Stable (parseHeaders slots req) where
  done {s a r} h := by
    cases headersTurn slots req s with
    | crlf t =>
      rw [parseHeaders_crlf] at h
      cases h
      exact ⟨[ch '\r', ch '\n'], rfl, fun t => parseHeaders_crlf slots req t⟩
    | line p t =>
      rw [parseHeaders_line] at h
      obtain ⟨u, rfl, hu⟩ := (hs p.header).done h
      refine ⟨p.line ++ ch '\r' :: ch '\n' :: u, by simp, fun t => ?_⟩
      simp only [List.append_assoc, List.cons_append]
      rw [parseHeaders_line, hu]
    | short _ hst => rw [hst] at h; cases h
    | unclear hst => rw [hst] at h; cases h
    | malformed hf =>
      have hf := hf []
      rw [List.append_nil, h] at hf
      cases hf
  fail {s} t h := by
    cases headersTurn slots req s with
    | crlf t => rw [parseHeaders_crlf] at h; cases h
    | line p t' =>
      rw [parseHeaders_line] at h
      simp only [List.append_assoc, List.cons_append]
      rw [parseHeaders_line]
      exact (hs p.header).fail t h
    | short _ hst => rw [hst] at h; cases h
    | unclear hst => rw [hst] at h; cases h
    | malformed hf => exact hf t

lemma parseHeaders_stable (slots : Nat) (req : ParsedRequest) : Stable (parseHeaders slots req) := by
  have failing : Stable (fun _ => .fail : HeadReader ParsedRequest) :=
    ⟨fun h => (by cases h), fun _ _ => rfl⟩
  induction slots generalizing req with
  | zero => exact parseHeaders_stable_of fun h => failing
  | succ slots ih =>
    refine parseHeaders_stable_of fun h => ?_
    simp only [storeHeader]
    cases applySemanticHeader h.name h.value { req with headers := req.headers ++ [h] } with
    | none => exact failing
    | some req' => exact ih req'

lemma finishRequest_stable (req : ParsedRequest) : Stable (finishRequest req) where
  done {s a r} h := by
    unfold finishRequest at h ⊢
    dsimp only at h ⊢
    split_ifs at h ⊢ <;> cases h <;> exact ⟨[], rfl, fun t => rfl⟩
  fail {s} t h := by
    unfold finishRequest at h ⊢
    dsimp only at h ⊢
    split_ifs at h ⊢ <;> rfl

lemma parseHead_stable : Stable parseHead :=
  parseMethodDirect_stable.bind fun _ => parseTarget_stable.bind fun _ =>
    parseVersion_stable.bind fun _ => (parseHeaders_stable _ _).bind fun _ => finishRequest_stable _

/-! ## The shape of a head -/

def HeaderParts.bytes (p : HeaderParts) : Str := p.line ++ [ch '\r', ch '\n']

def applyHeaders : List Header → ParsedRequest → Option ParsedRequest
  | [], req => some req
  | h :: hs, req =>
    match applySemanticHeader h.name h.value { req with headers := req.headers ++ [h] } with
    | none => none
    | some req' => applyHeaders hs req'

/-- The lines that `parseHeaders` reads, and the text that it ends at. -/
lemma parseHeaders_reads (slots req s) : ∃ (ps : List HeaderParts) (t : Str),
    ps.length ≤ slots ∧ s = ps.flatMap HeaderParts.bytes ++ t ∧
    (∀ req' r, parseHeaders slots req s = .done req' r →
      t = ch '\r' :: ch '\n' :: r ∧ applyHeaders (ps.map HeaderParts.header) req = some req') ∧
    (parseHeaders slots req s = .stall .needMore → t.length < 2) := by
  cases headersTurn slots req s with
  | crlf t =>
    rw [parseHeaders_crlf]
    refine ⟨[], _, Nat.zero_le _, (List.nil_append _).symm, fun _ _ h => ?_, fun h => ?_⟩ <;> cases h
    exact ⟨rfl, rfl⟩
  | line p t =>
    rw [parseHeaders_line]
    cases slots with
    | zero => refine ⟨[], _, Nat.le_refl 0, (List.nil_append _).symm, fun _ _ h => ?_, fun h => ?_⟩ <;> cases h
    | succ slots =>
      simp only [storeHeader]
      cases ha : applySemanticHeader p.header.name p.header.value
          { req with headers := req.headers ++ [p.header] } with
      | none => refine ⟨[], _, Nat.zero_le _, (List.nil_append _).symm, fun _ _ h => ?_, fun h => ?_⟩ <;> cases h
      | some req1 =>
        obtain ⟨ps, r, hlen, rfl, hdone, hmore⟩ := parseHeaders_reads slots req1 t
        refine ⟨p :: ps, r, Nat.succ_le_succ hlen, by simp [HeaderParts.bytes], fun req' r' h => ?_, hmore⟩
        obtain ⟨hr, happ⟩ := hdone req' r' h
        exact ⟨hr, by simp [applyHeaders, ha, happ]⟩
  | short hlt hst => exact ⟨[], s, Nat.zero_le _, rfl, fun _ _ h => (by rw [hst] at h; cases h), fun _ => hlt⟩
  | unclear hst => refine ⟨[], s, Nat.zero_le _, rfl, fun _ _ h => ?_, fun h => ?_⟩ <;> rw [hst] at h <;> cases h
  | malformed hf =>
    have hf := hf []
    rw [List.append_nil] at hf
    refine ⟨[], s, Nat.zero_le _, rfl, fun _ _ h => ?_, fun h => ?_⟩ <;> rw [hf] at h <;> cases h

structure RequestLine where
  method : HttpMethod
  target : Str
  version : HttpVersion
  target_ne : target ≠ []
  target_valid : ∀ b ∈ target, b ≠ ch ' ' ∧ tableAt kUriTable b = true

def RequestLine.bytes (l : RequestLine) : Str :=
  l.method.bytes ++ l.target ++ ch ' ' :: l.version.bytes

def RequestLine.request (l : RequestLine) : ParsedRequest :=
  .start l.method (Target.ofPath l.target (canonEndOf l.target)) l.version

lemma parseHead_requestLine (l : RequestLine) (t : Str) : parseHead (l.bytes ++ t) =
      (parseHeaders kMaxHeaders l.request >>= finishRequest) t := by
  have hb : l.bytes ++ t = l.method.bytes ++ (l.target ++ ch ' ' :: (l.version.bytes ++ t)) := by
    simp [RequestLine.bytes]
  simp only [parseHead, Bind.bind, Reader.bind, hb, parseMethodDirect_append,
    parseTarget_append l.target_ne l.target_valid, parseVersion_append]
  rfl

lemma parseMethodDirect_stall {s e} (h : parseMethodDirect s = .stall e) : e = .maybe := by
  iterate 14
    rcases ite_eq_iff.mp h with ⟨-, h⟩ | ⟨-, h⟩
    · cases h <;> rfl
  cases h
  rfl

lemma parseTarget_stall {s e} (h : parseTarget s = .stall e) : e = .maybe := by
  grind [parseTarget]

lemma parseVersion_stall {s e} (h : parseVersion s = .stall e) : e = .maybe := by
  unfold parseVersion at h
  split_ifs at h
  cases h
  rfl

lemma parseHead_cases (s : Str) : (∃ l : RequestLine, ∃ t, s = l.bytes ++ t) ∨ parseHead s = .fail ∨
      parseHead s = .stall .maybe := by
  cases hm : parseMethodDirect s with
  | fail => exact .inr (.inl (by simp only [parseHead, Bind.bind, Reader.bind, hm]))
  | stall e =>
    rw [parseMethodDirect_stall hm] at hm
    exact .inr (.inr (by simp only [parseHead, Bind.bind, Reader.bind, hm]))
  | done m r1 =>
    cases ht : parseTarget r1 with
    | fail => exact .inr (.inl (by simp only [parseHead, Bind.bind, Reader.bind, hm, ht]))
    | stall e =>
      rw [parseTarget_stall ht] at ht
      exact .inr (.inr (by simp only [parseHead, Bind.bind, Reader.bind, hm, ht]))
    | done tg r2 =>
      cases hv : parseVersion r2 with
      | fail => exact .inr (.inl (by simp only [parseHead, Bind.bind, Reader.bind, hm, ht, hv]))
      | stall e =>
        rw [parseVersion_stall hv] at hv
        exact .inr (.inr (by simp only [parseHead, Bind.bind, Reader.bind, hm, ht, hv]))
      | done v r3 =>
        obtain ⟨x, hx, hne, hall, -⟩ := parseTarget_done ht
        refine .inl ⟨⟨m, x, v, hne, hall⟩, r3, ?_⟩
        rw [parseMethodDirect_done hm, hx, parseVersion_done hv]
        simp [RequestLine.bytes]

lemma parseHead_done {s req r} (h : parseHead s = .done req r) :
    ∃ (l : RequestLine) (ps : List HeaderParts) (req0 : ParsedRequest),
      s = l.bytes ++ ps.flatMap HeaderParts.bytes ++ ch '\r' :: ch '\n' :: r ∧ ps.length ≤ kMaxHeaders ∧
      applyHeaders (ps.map HeaderParts.header) l.request = some req0 ∧ finishRequest req0 r = .done req r := by
  rcases parseHead_cases s with ⟨l, t, rfl⟩ | hf | hf
  · rw [parseHead_requestLine] at h
    simp only [Bind.bind, Reader.bind] at h
    cases hh : parseHeaders kMaxHeaders l.request t with
    | fail => rw [hh] at h; cases h
    | stall e => rw [hh] at h; cases h
    | done req0 r0 =>
      rw [hh] at h
      obtain ⟨ps, _, hlen, rfl, hdone, -⟩ := parseHeaders_reads kMaxHeaders l.request t
      obtain ⟨rfl, happ⟩ := hdone req0 r0 hh
      have hr : r0 = r := by
        unfold finishRequest at h
        dsimp only at h
        split_ifs at h <;> cases h <;> rfl
      subst hr
      exact ⟨l, ps, req0, by simp, hlen, happ, h⟩
  · rw [hf] at h; cases h
  · rw [hf] at h; cases h

lemma parseHead_needMore {s} (h : parseHead s = .stall .needMore) :
    ∃ (l : RequestLine) (ps : List HeaderParts) (t : Str),
      s = l.bytes ++ ps.flatMap HeaderParts.bytes ++ t ∧ t.length < 2 := by
  rcases parseHead_cases s with ⟨l, t, rfl⟩ | hf | hf
  · rw [parseHead_requestLine] at h
    simp only [Bind.bind, Reader.bind] at h
    cases hh : parseHeaders kMaxHeaders l.request t with
    | fail => rw [hh] at h; cases h
    | stall e =>
      rw [hh] at h
      cases h
      obtain ⟨ps, t', -, rfl, -, hmore⟩ := parseHeaders_reads kMaxHeaders l.request t
      exact ⟨l, ps, t', by simp, hmore hh⟩
    | done req0 r0 =>
      rw [hh] at h
      dsimp only [finishRequest] at h
      split_ifs at h
  · rw [hf] at h; cases h
  · rw [hf] at h; cases h

end Rut.Http
