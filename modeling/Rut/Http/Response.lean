import Rut.Http.Fields

/-!
# The HTTP/1 response parser

Port of `HttpResponseParser::parse` in `src/runtime/http_parser.cc`. The header lines are read as in requests. Headers
beyond the capacity of the list are applied but not stored, and the record says so. The first byte of a name is not
looked at where Content-Length fields are counted.
-/

namespace Rut.Http

open Incremental

/-- The parsed response head (`ParsedResponse`). -/
structure ParsedResponse where
  version : HttpVersion
  reason : Str
  statusCode : Nat
  headers : List Header := []
  contentLength : Nat := 0
  hasContentLength : Bool := false
  contentLengthCount : Nat := 0
  chunked : Bool := false
  keepAlive : Bool
  connectionClose : Bool := false
  headersTruncated : Bool := false
deriving DecidableEq

/-- Apply the tokens of one Connection field in order, `close` ending the scan. -/
def matchConnectionResponseTokens : List Str → ParsedResponse → ParsedResponse
  | [], resp => resp
  | tok :: toks, resp =>
    if tok.length = 5 ∧ strCiEq tok closeToken then { resp with connectionClose := true, keepAlive := false }
    else if tok.length = 10 ∧ strCiEq tok keepAliveToken then
      matchConnectionResponseTokens toks { resp with keepAlive := true }
    else matchConnectionResponseTokens toks resp

/-- One Connection field (`match_connection_response`). -/
def matchConnectionResponse (val : Str) (resp : ParsedResponse) : ParsedResponse :=
  matchConnectionResponseTokens (listTokens val) resp

/-- The Content-Length arm of `apply_semantic_header_response`. -/
def applyContentLengthResponse (val : Str) (resp : ParsedResponse) : Option ParsedResponse :=
  match parseUint val with
  | none => none
  | some cl =>
    if resp.hasContentLength then if resp.contentLength ≠ cl then none else some resp
    else some { resp with contentLength := cl, hasContentLength := true }

/-- Effect of a header field on the response (`apply_semantic_header_response`). -/
def applySemanticHeaderResponse (name val : Str) (resp : ParsedResponse) : Option ParsedResponse :=
  match name with
  | [] => some resp
  | c :: tail =>
    let first := c ||| 0x20
    if first = ch 'c' then
      if tail.length = 13 ∧ strCiEq tail contentLengthTail then applyContentLengthResponse val resp
      else if tail.length = 9 ∧ strCiEq tail connectionTail then some (matchConnectionResponse val resp)
      else some resp
    else if first = ch 't' then
      if tail.length = 16 ∧ strCiEq tail transferEncodingTail then
        some { resp with
          chunked :=
            resp.chunked || (listTokens val).any fun tok => tok.length == 7 && strCiEq tok chunkedToken }
      else some resp
    else some resp

def storeResponseHeader (h : Header) (resp : ParsedResponse) : ParsedResponse :=
  if resp.headers.length < kMaxHeaders then { resp with headers := resp.headers ++ [h] }
  else { resp with headersTruncated := true }

/-- Count a Content-Length field, whatever its first byte is. The count stops at 255. -/
def countContentLength (name : Str) (resp : ParsedResponse) : ParsedResponse :=
  if name.length = 14 ∧ strCiEq name.tail contentLengthTail ∧ resp.contentLengthCount ≠ 255 then
    { resp with contentLengthCount := resp.contentLengthCount + 1 }
  else resp

def applyResponseHeader (h : Header) (resp : ParsedResponse) : Option ParsedResponse :=
  (applySemanticHeaderResponse h.name h.value (storeResponseHeader h resp)).map (countContentLength h.name)

/-- The header loop. Each turn shortens the input, so that the length of the input bounds the turns. -/
def parseResponseHeaders : Nat → ParsedResponse → HeadReader ParsedResponse
  | turns, resp, s =>
    match s with
    | [] => .stall .needMore
    | [_] => .stall .needMore
    | c :: d :: rest =>
      if c = ch '\r' then if d = ch '\n' then .done resp rest else .fail
      else
        match turns with
        | 0 => .fail
        | turns + 1 =>
          match parseHeaderLine (c :: d :: rest) with
          | .stall e => .stall e
          | .fail => .fail
          | .done h rest' =>
            match applyResponseHeader h resp with
            | none => .fail
            | some resp' => parseResponseHeaders turns resp' rest'

def digitOf (c : UInt8) : Option Nat := if ch '0' ≤ c ∧ c ≤ ch '9' then some (c.toNat - (ch '0').toNat) else none

/-- The version of the digit behind `HTTP/1.`. -/
def versionOf (c : UInt8) : Option HttpVersion :=
  if c = ch '1' then some .http11 else if c = ch '0' then some .http10 else none

def parseStatusCode (s : Str) : Option (HttpVersion × Nat) :=
  match s with
  | h :: t₁ :: t₂ :: p :: sl :: one :: dot :: v :: sp :: a :: b :: c :: _ =>
    if [h, t₁, t₂, p, sl, one, dot] ≠ lit ['H','T','T','P','/','1','.'] ∨ sp ≠ ch ' ' then none
    else
      match versionOf v, digitOf a, digitOf b, digitOf c with
      | some version, some d₀, some d₁, some d₂ =>
        let code := d₀ * 100 + d₁ * 10 + d₂
        if code < 100 ∨ code > 599 then none else some (version, code)
      | _, _, _, _ => none
  | _ => none

def reasonOf (line : Str) : Str := if line.head? = some (ch ' ') then line.tail else line

def parseStatusLine : HeadReader ParsedResponse := fun s =>
  if s.length < 12 then .stall .needMore
  else
    match parseStatusCode s with
    | none => .fail
    | some (version, code) =>
      match s.drop 12 with
      | [] => .stall .needMore
      | c :: t =>
        if c ≠ ch ' ' ∧ c ≠ ch '\r' then .fail
        else
          match (c :: t).dropWhile (· != ch '\r') with
          | [] => .stall .needMore
          | [_] => .stall .needMore
          | _ :: lf :: rest =>
            if lf ≠ ch '\n' then .fail
            else
              .done { version := version, statusCode := code, keepAlive := version = .http11,
                      reason := reasonOf ((c :: t).takeWhile (· != ch '\r')) } rest

def parseResponseHead : HeadReader ParsedResponse := fun s =>
  (parseStatusLine >>= parseResponseHeaders s.length) s

/-- Result of `HttpResponseParser::parse`. -/
inductive ResponseResult where
  | complete (resp : ParsedResponse) (headerEnd : Nat)
  | incomplete
  | error
deriving DecidableEq

/-- Parse the response head at the start of `buf` (`HttpResponseParser::parse`). -/
def parseResponse (buf : Str) : ResponseResult :=
  if buf.length < 12 then .incomplete
  else
    match parseResponseHead buf with
    | .done resp rest => .complete resp (buf.length - rest.length)
    | .fail => .error
    | .stall .needMore => .incomplete
    | .stall .maybe => if findHeaderEnd buf > 0 then .error else .incomplete

/-! ## The header lines of a response -/

lemma parseResponseHeaders_line (turns : Nat) (resp : ParsedResponse) (p : HeaderParts) (t : Str) :
    parseResponseHeaders (turns + 1) resp (p.line ++ ch '\r' :: ch '\n' :: t) =
      match applyResponseHeader p.header resp with
      | none => .fail
      | some resp' => parseResponseHeaders turns resp' t := by
  obtain ⟨c, d, l, hl, hc, -⟩ := p.line_cons
  have happ := parseHeaderLine_append p t
  rw [hl] at happ ⊢
  simp only [List.cons_append] at happ ⊢
  conv_lhs => unfold parseResponseHeaders
  simp only [if_neg hc, happ]

def applyResponseHeaders : List Header → ParsedResponse → Option ParsedResponse
  | [], resp => some resp
  | h :: hs, resp =>
    match applyResponseHeader h resp with
    | none => none
    | some resp' => applyResponseHeaders hs resp'

lemma parseResponseHeaders_done {turns resp resp'} {s r : Str} (h : parseResponseHeaders turns resp s = .done resp' r) :
    ∃ ps : List HeaderParts, s = ps.flatMap HeaderParts.bytes ++ ch '\r' :: ch '\n' :: r ∧
      applyResponseHeaders (ps.map HeaderParts.header) resp = some resp' := by
  induction turns generalizing resp s with
  | zero =>
    rcases s with - | ⟨c, - | ⟨d, rest⟩⟩
    · rw [parseResponseHeaders] at h
      cases h
    · rw [parseResponseHeaders] at h
      cases h
    · rw [parseResponseHeaders] at h
      rcases ite_eq_iff.mp h with ⟨hc, h⟩ | ⟨-, h⟩
      · rcases ite_eq_iff.mp h with ⟨hd, h⟩ | ⟨-, h⟩
        · cases h
          exact ⟨[], by rw [hc, hd]; rfl, rfl⟩
        · cases h
      · cases h
  | succ turns ih =>
    rcases s with - | ⟨c, - | ⟨d, rest⟩⟩
    · rw [parseResponseHeaders] at h
      cases h
    · rw [parseResponseHeaders] at h
      cases h
    · rw [parseResponseHeaders] at h
      rcases ite_eq_iff.mp h with ⟨hc, h⟩ | ⟨-, h⟩
      · rcases ite_eq_iff.mp h with ⟨hd, h⟩ | ⟨-, h⟩
        · cases h
          exact ⟨[], by rw [hc, hd]; rfl, rfl⟩
        · cases h
      · cases hline : parseHeaderLine (c :: d :: rest) with
        | stall e => rw [hline] at h; cases h
        | fail => rw [hline] at h; cases h
        | done hd r' =>
          obtain ⟨p, hs, rfl⟩ := parseHeaderLine_done hline
          rw [hline] at h
          dsimp only at h
          cases ha : applyResponseHeader p.header resp with
          | none => rw [ha] at h; cases h
          | some resp₁ =>
            rw [ha] at h
            obtain ⟨ps, rfl, happ⟩ := ih h
            refine ⟨p :: ps, ?_, by simp [applyResponseHeaders, ha, happ]⟩
            rw [hs]
            simp [HeaderParts.bytes]

lemma matchConnectionResponseTokens_frame (toks : List Str) (resp : ParsedResponse) :
    ∃ ka cc, matchConnectionResponseTokens toks resp = { resp with keepAlive := ka, connectionClose := cc } := by
  induction toks generalizing resp with
  | nil => exact ⟨_, _, rfl⟩
  | cons tok toks ih =>
    rw [matchConnectionResponseTokens]
    split_ifs
    · exact ⟨_, _, rfl⟩
    · exact ih _
    · exact ih _

lemma applySemanticHeaderResponse_frame {name val resp resp'}
    (h : applySemanticHeaderResponse name val resp = some resp') :
    resp'.headers = resp.headers ∧ resp'.headersTruncated = resp.headersTruncated := by
  unfold applySemanticHeaderResponse at h
  split at h
  · cases h
    exact ⟨rfl, rfl⟩
  · dsimp only at h
    split_ifs at h
    · unfold applyContentLengthResponse at h
      split at h
      · cases h
      · split_ifs at h <;> cases h <;> exact ⟨rfl, rfl⟩
    · obtain ⟨ka, cc, heq⟩ := matchConnectionResponseTokens_frame (listTokens val) resp
      cases h
      rw [matchConnectionResponse, heq]
      exact ⟨rfl, rfl⟩
    all_goals
      cases h
      exact ⟨rfl, rfl⟩

lemma applyResponseHeader_frame {hd resp resp'}
    (h : applyResponseHeader hd resp = some resp') (htr : resp'.headersTruncated = false) :
    resp.headersTruncated = false ∧ resp'.headers = resp.headers ++ [hd] := by
  obtain ⟨resp₁, hsem, rfl⟩ := Option.map_eq_some_iff.mp h
  obtain ⟨hh, ht⟩ := applySemanticHeaderResponse_frame hsem
  have hcount : (countContentLength hd.name resp₁).headers = resp₁.headers ∧
      (countContentLength hd.name resp₁).headersTruncated = resp₁.headersTruncated := by
    unfold countContentLength
    split_ifs <;> exact ⟨rfl, rfl⟩
  rw [hcount.2, ht] at htr
  rw [hcount.1, hh]
  unfold storeResponseHeader at htr ⊢
  split_ifs at htr ⊢
  exact ⟨htr, rfl⟩

lemma applyResponseHeaders_frame {hs resp resp'}
    (h : applyResponseHeaders hs resp = some resp') (htr : resp'.headersTruncated = false) :
    resp.headersTruncated = false ∧ resp'.headers = resp.headers ++ hs := by
  induction hs generalizing resp with
  | nil =>
    cases h
    exact ⟨htr, by simp⟩
  | cons hd hs ih =>
    rw [applyResponseHeaders] at h
    cases ha : applyResponseHeader hd resp with
    | none =>
      rw [ha] at h
      cases h
    | some resp₁ =>
      rw [ha] at h
      obtain ⟨htr₁, hh₁⟩ := ih h
      obtain ⟨htr₀, hh₀⟩ := applyResponseHeader_frame ha htr₁
      exact ⟨htr₀, by rw [hh₁, hh₀]; simp⟩

/-! ## The fields of a response -/

lemma digitOf_ne_cr {c d} (h : digitOf c = some d) : c ≠ ch '\r' := by
  rintro rfl
  cases h

lemma versionOf_ne_cr {c v} (h : versionOf c = some v) : c ≠ ch '\r' := by
  rintro rfl
  cases h

lemma parseStatusCode_not_mem_cr {s v code} (h : parseStatusCode s = some (v, code)) : ch '\r' ∉ s.take 12 := by
  unfold parseStatusCode at h
  split at h
  · rename_i c₀ c₁ c₂ c₃ c₄ c₅ c₆ vb sp a b c tl
    rcases ite_eq_iff.mp h with ⟨-, h⟩ | ⟨hpre, h⟩
    · cases h
    rw [not_or, not_not, not_not] at hpre
    obtain ⟨hhttp, rfl⟩ := hpre
    obtain ⟨rfl, rfl, rfl, rfl, rfl, rfl, rfl⟩ := hhttp
    cases hv : versionOf vb with
    | none => simp [hv] at h
    | some version =>
    cases ha : digitOf a with
    | none => simp [hv, ha] at h
    | some d₀ =>
    cases hb : digitOf b with
    | none => simp [hv, ha, hb] at h
    | some d₁ =>
    cases hc : digitOf c with
    | none => simp [hv, ha, hb, hc] at h
    | some d₂ =>
    simp only [List.take_succ_cons, List.take_zero, List.mem_cons, List.not_mem_nil, or_false, not_or]
    exact ⟨by decide, by decide, by decide, by decide, by decide, by decide, by decide, (versionOf_ne_cr hv).symm,
      by decide, (digitOf_ne_cr ha).symm, (digitOf_ne_cr hb).symm, (digitOf_ne_cr hc).symm⟩
  · cases h

structure ParsedResponse.Fresh (resp : ParsedResponse) : Prop where
  headers : resp.headers = []
  hasContentLength : resp.hasContentLength = false
  contentLengthCount : resp.contentLengthCount = 0
  connectionClose : resp.connectionClose = false

def statusResponse (version : HttpVersion) (code : Nat) (tail : Str) : ParsedResponse :=
  { version := version, statusCode := code, keepAlive := version = .http11, reason := reasonOf tail }

lemma parseStatusCode_append {head} (h : head.length = 12) (t : Str) :
    parseStatusCode (head ++ t) = parseStatusCode head := by
  rcases head with - | ⟨c₀, - | ⟨c₁, - | ⟨c₂, - | ⟨c₃, - | ⟨c₄, - | ⟨c₅, - | ⟨c₆, - | ⟨c₇, - | ⟨c₈, - | ⟨c₉, - | ⟨c₁₀,
    - | ⟨c₁₁, rest⟩⟩⟩⟩⟩⟩⟩⟩⟩⟩⟩⟩
  all_goals first | rfl | (simp only [List.length_cons, List.length_nil] at h; omega)

lemma parseStatusLine_parts {s r : Str} {resp} (h : parseStatusLine s = .done resp r) :
    ∃ (head tail : Str) (version : HttpVersion) (code : Nat), s = head ++ (tail ++ ch '\r' :: ch '\n' :: r) ∧
      head.length = 12 ∧ ch '\r' ∉ tail ∧ parseStatusCode head = some (version, code) ∧
      (∀ c ∈ tail.head?, c = ch ' ') ∧ resp = statusResponse version code tail := by
  unfold parseStatusLine at h
  split_ifs at h with hlen
  have hhead : (s.take 12).length = 12 := List.length_take_of_le (Nat.not_lt.mp hlen)
  split at h
  · cases h
  · rename_i version code hcode
    rw [← List.take_append_drop 12 s, parseStatusCode_append hhead] at hcode
    split at h
    · cases h
    · rename_i c t hdrop
      rcases ite_eq_iff.mp h with ⟨-, h⟩ | ⟨hfirst, h⟩
      · cases h
      split at h
      · cases h
      · cases h
      · rename_i cr lf rest hrest
        rcases ite_eq_iff.mp h with ⟨-, h⟩ | ⟨hlf, h⟩
        · cases h
        cases h
        have hcr : cr = ch '\r' := by
          have hfound := List.head?_dropWhile_not (· != ch '\r') (c :: t)
          rw [hrest] at hfound
          simpa using hfound
        have htail : ch '\r' ∉ (c :: t).takeWhile (· != ch '\r') := fun hmem => by
          have := List.mem_takeWhile_imp hmem
          simp at this
        refine ⟨s.take 12, (c :: t).takeWhile (· != ch '\r'), version, code, ?_, hhead, htail, hcode, ?_, rfl⟩
        · have hsplit := List.takeWhile_append_dropWhile (p := (· != ch '\r')) (l := c :: t)
          rw [hrest, hcr, not_not.mp hlf] at hsplit
          rw [hsplit, ← hdrop, List.take_append_drop]
        · intro b hb
          rw [List.takeWhile_cons] at hb
          split_ifs at hb with hne
          · rw [← Option.some_inj.mp hb]
            by_contra hno
            exact hfirst ⟨hno, by simpa using hne⟩
          · cases hb

lemma parseStatusLine_of_parts {head tail : Str} {version code} (hhead : head.length = 12)
    (htail : ch '\r' ∉ tail) (hcode : parseStatusCode head = some (version, code)) (hfirst : ∀ c ∈ tail.head?, c = ch ' ')
    (t : Str) :
    parseStatusLine (head ++ (tail ++ ch '\r' :: ch '\n' :: t)) = .done (statusResponse version code tail) t := by
  have hplain : ∀ c ∈ tail, (c != ch '\r') = true := by
    intro c hc
    simp only [bne_iff_ne, ne_eq]
    rintro rfl
    exact htail hc
  have htake : (tail ++ ch '\r' :: ch '\n' :: t).takeWhile (· != ch '\r') = tail := by
    rw [List.takeWhile_append_of_pos hplain]
    simp
  have hdrop : (tail ++ ch '\r' :: ch '\n' :: t).dropWhile (· != ch '\r') = ch '\r' :: ch '\n' :: t := by
    rw [List.dropWhile_append_of_pos hplain]
    simp
  have hafter : (head ++ (tail ++ ch '\r' :: ch '\n' :: t)).drop 12 = tail ++ ch '\r' :: ch '\n' :: t :=
    List.drop_left' hhead
  rw [parseStatusLine, if_neg (by rw [List.length_append, hhead]; omega), parseStatusCode_append hhead, hcode, hafter]
  cases htail' : tail ++ ch '\r' :: ch '\n' :: t with
  | nil => simp at htail'
  | cons c u =>
    have hc : ¬(c ≠ ch ' ' ∧ c ≠ ch '\r') := by
      rintro ⟨hspace, hcr⟩
      cases tail with
      | nil =>
        rw [List.nil_append, List.cons.injEq] at htail'
        exact hcr htail'.1.symm
      | cons b tail =>
        rw [List.cons_append, List.cons.injEq] at htail'
        exact hspace (htail'.1.symm.trans (hfirst b rfl))
    dsimp only
    rw [if_neg hc, ← htail', hdrop]
    dsimp only
    rw [if_neg (by simp), htake]
    rfl

lemma parseStatusLine_done {s r : Str} {resp} (h : parseStatusLine s = .done resp r) :
    ∃ line, s = line ++ ch '\r' :: ch '\n' :: r ∧ ch '\r' ∉ line ∧ resp.Fresh := by
  obtain ⟨head, tail, version, code, rfl, hhead, htail, hcode, -, rfl⟩ := parseStatusLine_parts h
  refine ⟨head ++ tail, (List.append_assoc ..).symm, ?_, ⟨rfl, rfl, rfl, rfl⟩⟩
  rw [List.mem_append, not_or]
  have hplain := parseStatusCode_not_mem_cr hcode
  rw [List.take_of_length_le hhead.le] at hplain
  exact ⟨hplain, htail⟩

lemma parseResponse_lines {b resp h} (hp : parseResponse b = .complete resp h) :
    ∃ (line : Str) (ps : List HeaderParts) (rest : Str) (resp₀ : ParsedResponse),
      b = line ++ ch '\r' :: ch '\n' :: (ps.flatMap HeaderParts.bytes ++ ch '\r' :: ch '\n' :: rest) ∧
      ch '\r' ∉ line ∧ h = b.length - rest.length ∧ resp₀.Fresh ∧
      applyResponseHeaders (ps.map HeaderParts.header) resp₀ = some resp := by
  rcases ite_eq_iff.mp hp with ⟨-, hp⟩ | ⟨-, hp⟩
  · cases hp
  cases hhead : parseResponseHead b with
  | fail => rw [hhead] at hp; cases hp
  | stall e =>
    rw [hhead] at hp
    cases e with
    | needMore => cases hp
    | maybe => rcases ite_eq_iff.mp hp with ⟨-, hp⟩ | ⟨-, hp⟩ <;> cases hp
  | done resp₀ rest =>
    rw [hhead] at hp
    cases hp
    simp only [parseResponseHead, Bind.bind, Reader.bind] at hhead
    cases hs : parseStatusLine b with
    | fail => rw [hs] at hhead; cases hhead
    | stall e => rw [hs] at hhead; cases hhead
    | done resp₁ r₁ =>
      rw [hs] at hhead
      obtain ⟨line, hb, hline, hfresh⟩ := parseStatusLine_done hs
      obtain ⟨ps, rfl, happ⟩ := parseResponseHeaders_done hhead
      exact ⟨line, ps, rest, resp₁, hb, hline, rfl, hfresh, happ⟩

lemma parseResponse_head {b resp h} (hp : parseResponse b = .complete resp h) (htr : resp.headersTruncated = false) :
    ∃ (line : Str) (ps : List HeaderParts) (rest : Str),
      b = line ++ ch '\r' :: ch '\n' :: (ps.flatMap HeaderParts.bytes ++ ch '\r' :: ch '\n' :: rest) ∧
      ch '\r' ∉ line ∧ h = b.length - rest.length ∧ resp.headers = ps.map HeaderParts.header := by
  obtain ⟨line, ps, rest, resp₀, hb, hline, hend, hfresh, happ⟩ := parseResponse_lines hp
  obtain ⟨-, hh⟩ := applyResponseHeaders_frame happ htr
  exact ⟨line, ps, rest, hb, hline, hend, by rw [hh, hfresh.headers, List.nil_append]⟩

lemma applyResponseHeaders_length {hs resp resp'}
    (h : applyResponseHeaders hs resp = some resp') (hlen : resp.headers.length ≤ kMaxHeaders) :
    resp'.headers.length ≤ kMaxHeaders := by
  induction hs generalizing resp with
  | nil =>
    cases h
    exact hlen
  | cons hd hs ih =>
    rw [applyResponseHeaders] at h
    cases ha : applyResponseHeader hd resp with
    | none =>
      rw [ha] at h
      cases h
    | some resp₁ =>
      rw [ha] at h
      apply ih h
      obtain ⟨resp₂, hsem, rfl⟩ := Option.map_eq_some_iff.mp ha
      have hcount : (countContentLength hd.name resp₂).headers = resp₂.headers := by
        unfold countContentLength
        split_ifs <;> rfl
      rw [hcount, (applySemanticHeaderResponse_frame hsem).1, storeResponseHeader]
      split_ifs with hroom
      · rw [List.length_append]
        exact hroom
      · exact hlen

lemma take_responseHead (line body rest : Str) :
    (line ++ ch '\r' :: ch '\n' :: (body ++ ch '\r' :: ch '\n' :: rest)).take
        ((line ++ ch '\r' :: ch '\n' :: (body ++ ch '\r' :: ch '\n' :: rest)).length - rest.length) =
      line ++ ch '\r' :: ch '\n' :: (body ++ [ch '\r', ch '\n']) := by
  have hcut : line ++ ch '\r' :: ch '\n' :: (body ++ ch '\r' :: ch '\n' :: rest) =
      (line ++ ch '\r' :: ch '\n' :: (body ++ [ch '\r', ch '\n'])) ++ rest := by simp
  rw [hcut, List.length_append, Nat.add_sub_cancel, List.take_left]

lemma parseResponse_fields {b resp h} (hp : parseResponse b = .complete resp h) (htr : resp.headersTruncated = false) :
    headFields (b.take h) = resp.headers.map fun hd => ⟨hd.name, hd.value⟩ := by
  obtain ⟨line, ps, rest, rfl, hline, rfl, hh⟩ := parseResponse_head hp htr
  rw [take_responseHead, headFields_lines hline, hh]

end Rut.Http
