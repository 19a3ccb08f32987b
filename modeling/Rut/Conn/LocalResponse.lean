import Rut.Conn.PolicyHead

/-!
# Responses produced here

Port of `format_response_with_body_and_headers` of `src/runtime/callbacks.cc` with the writers that it falls back on. A
write that does not fit is cut, so the length of the response is computed before it is written. The sum for a header is
one of `u32` values.
-/

set_option linter.all false
namespace Rut.Conn

open Http

/-- `status_reason`. -/
def status_reason : Nat → Str
  | 200 => lit ['O','K']
  | 201 => lit ['C','r','e','a','t','e','d']
  | 204 => lit ['N','o',' ','C','o','n','t','e','n','t']
  | 205 => lit ['R','e','s','e','t',' ','C','o','n','t','e','n','t']
  | 301 => lit ['M','o','v','e','d',' ','P','e','r','m','a','n','e','n','t','l','y']
  | 302 => lit ['F','o','u','n','d']
  | 304 => lit ['N','o','t',' ','M','o','d','i','f','i','e','d']
  | 400 => lit ['B','a','d',' ','R','e','q','u','e','s','t']
  | 401 => lit ['U','n','a','u','t','h','o','r','i','z','e','d']
  | 403 => lit ['F','o','r','b','i','d','d','e','n']
  | 404 => lit ['N','o','t',' ','F','o','u','n','d']
  | 405 => lit ['M','e','t','h','o','d',' ','N','o','t',' ','A','l','l','o','w','e','d']
  | 429 => lit ['T','o','o',' ','M','a','n','y',' ','R','e','q','u','e','s','t','s']
  | 500 => lit ['I','n','t','e','r','n','a','l',' ','S','e','r','v','e','r',' ','E','r','r','o','r']
  | 502 => lit ['B','a','d',' ','G','a','t','e','w','a','y']
  | 503 => lit ['S','e','r','v','i','c','e',' ','U','n','a','v','a','i','l','a','b','l','e']
  | _ => lit ['U','n','k','n','o','w','n']

/-- Responses without a body (`kNoBody`). -/
def kNoBody (code : Nat) : Bool := decide (code < 200 ∨ code = 204 ∨ code = 205 ∨ code = 304)

structure ResponseHeaderKV where
  key : Str
  value : Str
  key_fits : key.length < 2 ^ 32
  value_fits : value.length < 2 ^ 32

structure LocalResponse where
  code : Nat
  body : Str
  headers : List ResponseHeaderKV
  keep_alive : Bool
  body_is_fallback_reason_phrase : Bool
  suppress_default_content_type : Bool
  headers_only : Bool
  fallback_headers_only : Bool
  response_version : HttpVersion
  body_fits : body.length < 2 ^ 32

/-- The fields of a `Connection` that are read or written. -/
structure ResponseConn (cap : Nat) where
  send_buf : Buffer cap
  resp_status : Nat
  keep_alive : Bool

/-! ## Pieces -/

def contentLengthText : Str := lit ['C','o','n','t','e','n','t','-','L','e','n','g','t','h']
def contentTypeText : Str := lit ['C','o','n','t','e','n','t','-','T','y','p','e']
def connectionText : Str := lit ['C','o','n','n','e','c','t','i','o','n']
def defaultTypeText : Str :=
  lit ['t','e','x','t','/','p','l','a','i','n',';',' ','c','h','a','r','s','e','t','=','u','t','f','-','8']

def writeAll {cap : Nat} (b : Buffer cap) (pieces : List Str) : Buffer cap := pieces.foldl Buffer.write b

def digit (n : Nat) : UInt8 := UInt8.ofNat ((ch '0').toNat + n % 10)

/-- The thresholds of `write_content_length_digits`. -/
def thresholds : List Nat :=
  [1000000000, 100000000, 10000000, 1000000, 100000, 10000, 1000, 100, 10]

/-- `write_content_length_digits`. -/
def lengthDigits (body_len : Nat) : List Str :=
  (thresholds.flatMap fun t => if body_len ≥ t then [[digit (body_len / t)]] else []) ++ [[digit body_len]]

def versionText (v : HttpVersion) : Str :=
  match v with
  | .http10 => lit ['H','T','T','P','/','1','.','0',' ']
  | .http11 => lit ['H','T','T','P','/','1','.','1',' ']

/-- `code_buf`. -/
def codeText (code : Nat) : Str := [digit (code / 100), digit (code / 10), digit code]

def statusPieces (v : HttpVersion) (code body_len : Nat) : List Str :=
  [versionText v, codeText code, lit [' '], status_reason code, crlf, contentLengthText ++ colonSpace] ++
    lengthDigits body_len ++ [crlf]

def connectionPiece (keep_alive : Bool) : Str :=
  if keep_alive then connectionText ++ colonSpace ++ lit ['k','e','e','p','-','a','l','i','v','e'] ++ crlf
  else connectionText ++ colonSpace ++ lit ['c','l','o','s','e'] ++ crlf

/-- `write_response_headers` without a type. -/
def write_response_headers {cap : Nat} (conn : ResponseConn cap) (code body_len : Nat) (keep_alive : Bool) (v : HttpVersion) :
    ResponseConn cap :=
  { conn with send_buf := writeAll conn.send_buf.reset (statusPieces v code body_len ++ [connectionPiece keep_alive, crlf]) }

/-- `format_static_response`. -/
def format_static_response {cap : Nat} (conn : ResponseConn cap) (code : Nat) (keep_alive headers_only : Bool)
    (v : HttpVersion) : ResponseConn cap :=
  let kSuppressBody := kNoBody code || headers_only
  let kBodyLen := if kNoBody code then 0 else (status_reason code).length
  let conn := write_response_headers conn code kBodyLen keep_alive v
  if !kSuppressBody && decide (kBodyLen > 0) then { conn with send_buf := conn.send_buf.write (status_reason code) } else conn

/-- The loop of `decimal_digit_count`. A `u32` has at most ten digits. -/
def digitCountLoop : Nat → Nat → Nat → Nat
  | 0, _, n => n
  | fuel + 1, v, n => if v ≥ 10 then digitCountLoop fuel (v / 10) (n + 1) else n

/-- `decimal_digit_count`. -/
def decimal_digit_count (v : Nat) : Nat := digitCountLoop 9 v 1

namespace LocalResponse

variable (a : LocalResponse)

def bodyLenEmit : Nat := if kNoBody a.code then 0 else a.body.length

def userHasContentType : Bool := a.headers.any fun h => httpHeaderNameEqCi h.key contentTypeText

def emitDefaultContentType : Bool :=
  !a.userHasContentType && !a.suppress_default_content_type && decide (a.bodyLenEmit > 0) &&
    !a.body_is_fallback_reason_phrase

/-- The sum for the headers, each a sum of `u32` values. -/
def headersNeeded : List ResponseHeaderKV → Nat
  | [] => 0
  | h :: hs =>
    (if httpHeaderNameEqCi h.key contentLengthText then 0 else (h.key.length + 2 + h.value.length + 2) % 2 ^ 32) +
      headersNeeded hs

def needed : Nat :=
  15 + (status_reason a.code).length + 16 + decimal_digit_count a.bodyLenEmit + 2 +
    (if a.emitDefaultContentType then 41 else 0) + headersNeeded a.headers + (if a.keep_alive then 24 else 19) + 2 +
    if a.headers_only then 0 else a.bodyLenEmit

def headerPieces (h : ResponseHeaderKV) : List Str :=
  if httpHeaderNameEqCi h.key contentLengthText then [] else [h.key, colonSpace, h.value, crlf]

def pieces : List Str :=
  statusPieces a.response_version a.code a.bodyLenEmit ++
    (if a.emitDefaultContentType then [contentTypeText ++ colonSpace ++ defaultTypeText ++ crlf] else []) ++
    a.headers.flatMap headerPieces ++ [connectionPiece a.keep_alive, crlf] ++
    if !a.headers_only && decide (a.bodyLenEmit > 0) then [a.body.take a.bodyLenEmit] else []

end LocalResponse

/-- `format_response_with_body_and_headers`. -/
def format_response_with_body_and_headers {cap : Nat} (conn : ResponseConn cap) (a : LocalResponse) :
    Bool × ResponseConn cap :=
  if a.needed > cap then
    let conn := { conn with resp_status := 500, keep_alive := false }
    (false, format_static_response conn 500 false a.fallback_headers_only a.response_version)
  else (true, { conn with send_buf := writeAll conn.send_buf.reset a.pieces })

/-! ## Writing -/

section writing

variable {cap : Nat} {b : Buffer cap} {pieces : List Str} {n : Nat}

lemma writeAll_bytes (h : b.len + pieces.flatten.length ≤ cap) : (writeAll b pieces).bytes = b.bytes ++ pieces.flatten := by
  induction pieces generalizing b with
  | nil => simp [writeAll]
  | cons piece pieces ih =>
    rw [List.flatten_cons, List.length_append] at h
    have hroom : piece.length ≤ b.writeAvail := by
      rw [Buffer.writeAvail]
      omega
    have hrest := ih (b := b.write piece) (by rw [Buffer.len_write hroom]; omega)
    rw [Buffer.bytes_write hroom, List.append_assoc] at hrest
    exact hrest

lemma writeAll_reset (b : Buffer cap) (h : pieces.flatten.length ≤ cap) : (writeAll b.reset pieces).bytes = pieces.flatten := by
  rw [writeAll_bytes (by simpa using h), Buffer.bytes_reset, List.nil_append]

lemma digit_eq (n : Nat) : digit n = ch (Nat.digitChar (n % 10)) := by
  have hdigit : ∀ d < 10, UInt8.ofNat ((ch '0').toNat + d) = ch (Nat.digitChar d) := by decide
  exact hdigit (n % 10) (Nat.mod_lt _ (by decide))

/-- The digits of a number below `10 ^ (k + 1)`, a power of ten after the other. -/
def digitsFrom (k n : Nat) : List Str :=
  ((List.range k).reverse.flatMap fun i => if n ≥ 10 ^ (i + 1) then [[digit (n / 10 ^ (i + 1))]] else []) ++ [[digit n]]

lemma digitsFrom_succ (k n : Nat) :
    digitsFrom (k + 1) n = if n < 10 then [[digit n]] else digitsFrom k (n / 10) ++ [[digit n]] := by
  have hrange : (List.range (k + 1)).reverse = (List.range k).reverse.map (· + 1) ++ [0] := by
    rw [List.range_succ_eq_map, List.reverse_cons, List.map_reverse]
  rw [digitsFrom, hrange, List.flatMap_append, List.flatMap_map, List.flatMap_singleton]
  by_cases hsmall : n < 10
  · have hnone : ∀ i ∈ (List.range k).reverse, (if n ≥ 10 ^ (i + 1 + 1) then [[digit (n / 10 ^ (i + 1 + 1))]] else []) = [] := by
      intro i _
      have hpow : 10 ^ 1 ≤ 10 ^ (i + 1 + 1) := Nat.pow_le_pow_right (by decide) (by omega)
      exact if_neg (by omega)
    rw [List.flatMap_eq_nil_iff.mpr hnone, if_neg (by simpa using hsmall), if_pos hsmall]
    rfl
  · have hsame : ∀ i, (if n ≥ 10 ^ (i + 1 + 1) then [[digit (n / 10 ^ (i + 1 + 1))]] else []) =
        if n / 10 ≥ 10 ^ (i + 1) then [[digit (n / 10 / 10 ^ (i + 1))]] else [] := by
      intro i
      have hpow : 10 ^ (i + 1 + 1) = 10 * 10 ^ (i + 1) := Nat.pow_succ'
      have hiff : n ≥ 10 ^ (i + 1 + 1) ↔ n / 10 ≥ 10 ^ (i + 1) := by
        rw [hpow, ge_iff_le, ge_iff_le, Nat.le_div_iff_mul_le (by decide), Nat.mul_comm]
      rw [Nat.div_div_eq_div_mul, ← hpow]
      exact if_congr hiff rfl rfl
    simp only [hsame]
    rw [if_pos (by simpa using hsmall), if_neg hsmall, digitsFrom, Nat.zero_add, pow_one]

lemma digitsFrom_flatten {k} (h : n < 10 ^ (k + 1)) : (digitsFrom k n).flatten = decimalDigits n := by
  induction k generalizing n with
  | zero =>
    rw [decimalDigits_eq, if_pos (by simpa using h)]
    change [digit n] = _
    rw [digit_eq, Nat.mod_eq_of_lt (by simpa using h)]
  | succ k ih =>
    rw [digitsFrom_succ, decimalDigits_eq]
    split_ifs with hsmall
    · change [digit n] = _
      rw [digit_eq, Nat.mod_eq_of_lt hsmall]
    · have hdiv : n / 10 < 10 ^ (k + 1) := by
        rw [Nat.div_lt_iff_lt_mul (by decide)]
        exact h.trans_eq (Nat.pow_succ ..)
      rw [List.flatten_append, ih hdiv, digit_eq]
      rfl

lemma lengthDigits_flatten (h : n < 2 ^ 32) : (lengthDigits n).flatten = decimalDigits n := by
  have hdigits : lengthDigits n = digitsFrom 9 n := by
    rfl
  rw [hdigits, digitsFrom_flatten (h.trans (by decide))]

lemma digitCountLoop_eq {fuel c} (h : n < 10 ^ (fuel + 1)) :
    digitCountLoop fuel n c + 1 = c + (decimalDigits n).length := by
  induction fuel generalizing n c with
  | zero =>
    rw [decimalDigits_eq, if_pos (by simpa using h)]
    rfl
  | succ fuel ih =>
    rw [digitCountLoop, decimalDigits_eq]
    by_cases hsmall : n < 10
    · rw [if_neg (by omega), if_pos hsmall]
      rfl
    · have hdiv : n / 10 < 10 ^ (fuel + 1) := by
        rw [Nat.div_lt_iff_lt_mul (by decide)]
        exact h.trans_eq (Nat.pow_succ ..)
      rw [if_pos (by omega), if_neg hsmall, ih hdiv, List.length_append, List.length_singleton]
      omega

lemma decimal_digit_count_eq (h : n < 2 ^ 32) : decimal_digit_count n = (decimalDigits n).length := by
  have hloop : digitCountLoop 9 n 1 + 1 = 1 + (decimalDigits n).length := digitCountLoop_eq (h.trans (by decide))
  rw [decimal_digit_count]
  omega

end writing

/-! ## The response -/

def responseText (v : HttpVersion) (code : Nat) (fields : List RawField) (body : Str) : Str :=
  versionText v ++ codeText code ++ lit [' '] ++ status_reason code ++ crlf ++ fields.flatMap RawField.bytes ++ crlf ++ body

def persistence (keep_alive : Bool) : Str :=
  if keep_alive then lit ['k','e','e','p','-','a','l','i','v','e'] else lit ['c','l','o','s','e']

def contentLengthField (n : Nat) : RawField := spacedField contentLengthText (decimalDigits n)

def persistenceField (keep_alive : Bool) : RawField := spacedField connectionText (persistence keep_alive)

def ResponseHeaderKV.field (h : ResponseHeaderKV) : RawField := spacedField h.key h.value

def ResponseHeaderKV.lineLength (h : ResponseHeaderKV) : Nat := h.key.length + h.value.length + 4

namespace LocalResponse

variable (a : LocalResponse)

def defaultType : List RawField := if a.emitDefaultContentType then [spacedField contentTypeText defaultTypeText] else []

def fields : List RawField :=
  contentLengthField a.bodyLenEmit :: (a.defaultType ++ a.headers.map ResponseHeaderKV.field ++ [persistenceField a.keep_alive])

def message : Str :=
  responseText a.response_version a.code a.fields (if a.headers_only || kNoBody a.code then [] else a.body)

def refusal : Str :=
  responseText a.response_version 500 [contentLengthField (status_reason 500).length, persistenceField false]
    (if a.fallback_headers_only then [] else status_reason 500)

/-- The length of the response with the length of every line of the caller taken modulo `2 ^ 32`. -/
def reducedLength : Nat :=
  a.message.length - (a.headers.map ResponseHeaderKV.lineLength).sum +
    (a.headers.map fun h => h.lineLength % 2 ^ 32).sum

end LocalResponse

section response

variable {cap : Nat} {conn : ResponseConn cap} {a : LocalResponse}

lemma spacedField_length (name value : Str) : (spacedField name value).bytes.length = name.length + value.length + 4 := by
  rw [spacedField_bytes]
  simp only [List.length_append]
  change name.length + 2 + value.length + 2 = _
  omega

lemma bodyLenEmit_lt (a : LocalResponse) : a.bodyLenEmit < 2 ^ 32 := by
  have := a.body_fits
  rw [LocalResponse.bodyLenEmit]
  split_ifs <;> omega

lemma connectionPiece_eq (keep_alive : Bool) : connectionPiece keep_alive = (persistenceField keep_alive).bytes := by
  cases keep_alive <;> decide

lemma statusPieces_flatten {v code n} (h : n < 2 ^ 32) : (statusPieces v code n).flatten =
      versionText v ++ codeText code ++ lit [' '] ++ status_reason code ++ crlf ++ (contentLengthField n).bytes := by
  rw [statusPieces, List.flatten_append, List.flatten_append, lengthDigits_flatten h, contentLengthField, spacedField_bytes]
  simp

lemma headerPieces_flatten {hs : List ResponseHeaderKV} (h : ∀ g ∈ hs, httpHeaderNameEqCi g.key contentLengthText = false) :
    (hs.flatMap LocalResponse.headerPieces).flatten = (hs.map ResponseHeaderKV.field).flatMap RawField.bytes := by
  induction hs with
  | nil => rfl
  | cons g hs ih =>
    have hg : LocalResponse.headerPieces g = [g.key, colonSpace, g.value, crlf] := by
      rw [LocalResponse.headerPieces, h g List.mem_cons_self]
      rfl
    rw [List.flatMap_cons, List.flatten_append, ih fun x hx => h x (List.mem_cons_of_mem _ hx), hg, List.map_cons,
      List.flatMap_cons, ResponseHeaderKV.field, spacedField_bytes]
    simp

lemma pieces_flatten (h : ∀ g ∈ a.headers, httpHeaderNameEqCi g.key contentLengthText = false) :
    a.pieces.flatten = a.message := by
  have htype : (if a.emitDefaultContentType then [contentTypeText ++ colonSpace ++ defaultTypeText ++ crlf] else []).flatten =
      a.defaultType.flatMap RawField.bytes := by
    rw [LocalResponse.defaultType]
    split_ifs
    · rw [List.flatMap_singleton, spacedField_bytes, List.flatten_singleton]
    · rfl
  have hbody : (if !a.headers_only && decide (a.bodyLenEmit > 0) then [a.body.take a.bodyLenEmit] else []).flatten =
      if a.headers_only || kNoBody a.code then [] else a.body := by
    rw [LocalResponse.bodyLenEmit]
    cases a.headers_only with
    | true => rfl
    | false =>
      cases kNoBody a.code with
      | true => rfl
      | false =>
        simp only [Bool.false_eq_true, if_false, Bool.not_false, Bool.true_and, Bool.or_self, List.take_length]
        split_ifs with hpos
        · exact List.flatten_singleton
        · have hzero : a.body.length = 0 := by simpa using hpos
          exact (List.length_eq_zero_iff.mp hzero).symm
  rw [LocalResponse.pieces, List.flatten_append, List.flatten_append, List.flatten_append, List.flatten_append,
    statusPieces_flatten (bodyLenEmit_lt a), htype, headerPieces_flatten h, hbody, connectionPiece_eq, LocalResponse.message,
    responseText, LocalResponse.fields, List.flatMap_cons, List.flatMap_append, List.flatMap_append, List.flatMap_singleton]
  simp only [List.flatten_cons, List.flatten_nil, List.append_nil, List.append_assoc]

lemma flatMap_field_length (hs : List ResponseHeaderKV) :
    ((hs.map ResponseHeaderKV.field).flatMap RawField.bytes).length = (hs.map ResponseHeaderKV.lineLength).sum := by
  induction hs with
  | nil => rfl
  | cons g hs ih =>
    rw [List.map_cons, List.flatMap_cons, List.length_append, ih, List.map_cons, List.sum_cons, ResponseHeaderKV.field,
      spacedField_length]
    rfl

lemma headersNeeded_eq {hs} (h : ∀ g ∈ hs, httpHeaderNameEqCi g.key contentLengthText = false) :
    LocalResponse.headersNeeded hs = (hs.map fun g => g.lineLength % 2 ^ 32).sum := by
  induction hs with
  | nil => rfl
  | cons g hs ih =>
    rw [LocalResponse.headersNeeded, h g List.mem_cons_self, ih fun x hx => h x (List.mem_cons_of_mem _ hx), List.map_cons,
      List.sum_cons, ResponseHeaderKV.lineLength]
    simp only [Bool.false_eq_true, if_false]
    rw [show g.key.length + 2 + g.value.length + 2 = g.key.length + g.value.length + 4 by omega]

lemma needed_eq (h : ∀ g ∈ a.headers, httpHeaderNameEqCi g.key contentLengthText = false) :
    a.needed + (a.headers.map ResponseHeaderKV.lineLength).sum =
      a.message.length + (a.headers.map fun g => g.lineLength % 2 ^ 32).sum := by
  have htype : (a.defaultType.flatMap RawField.bytes).length = if a.emitDefaultContentType then 41 else 0 := by
    rw [LocalResponse.defaultType]
    split_ifs
    · rw [List.flatMap_singleton, spacedField_length]
      rfl
    · rfl
  have hbody : (if a.headers_only || kNoBody a.code then [] else a.body).length =
      if a.headers_only then 0 else a.bodyLenEmit := by
    rw [LocalResponse.bodyLenEmit]
    cases a.headers_only <;> cases kNoBody a.code <;> rfl
  have hconnection : (persistenceField a.keep_alive).bytes.length = if a.keep_alive then 24 else 19 := by
    cases a.keep_alive <;> rfl
  have hversion : (versionText a.response_version).length = 9 := by cases a.response_version <;> rfl
  have hcode : (codeText a.code).length = 3 := rfl
  have hspace : (lit [' ']).length = 1 := rfl
  have hcrlf : crlf.length = 2 := rfl
  have hlength : (contentLengthField a.bodyLenEmit).bytes.length = 18 + (decimalDigits a.bodyLenEmit).length := by
    rw [contentLengthField, spacedField_length]
    change 14 + _ + 4 = _
    omega
  rw [LocalResponse.needed, headersNeeded_eq h, decimal_digit_count_eq (bodyLenEmit_lt a), LocalResponse.message, responseText,
    LocalResponse.fields]
  simp only [List.length_append, List.flatMap_cons, List.flatMap_append, List.flatMap_nil, List.length_nil,
    flatMap_field_length, htype, hbody, hconnection, hversion, hcode, hspace, hcrlf, hlength]
  omega

lemma headersNeeded_le (a : LocalResponse) : LocalResponse.headersNeeded a.headers ≤ a.needed := by
  rw [LocalResponse.needed, Nat.add_assoc, Nat.add_assoc, Nat.add_assoc, Nat.add_comm _ (LocalResponse.headersNeeded _ + _)]
  exact (Nat.le_add_right _ _).trans (Nat.le_add_right _ _)

lemma reducedLength_eq (h : ∀ g ∈ a.headers, httpHeaderNameEqCi g.key contentLengthText = false) :
    a.reducedLength = a.needed ∧ (a.headers.map ResponseHeaderKV.lineLength).sum ≤ a.message.length := by
  have hneeded := needed_eq h
  have hheaders := headersNeeded_le a
  rw [headersNeeded_eq h] at hheaders
  have hlines : (a.headers.map ResponseHeaderKV.lineLength).sum ≤ a.message.length := by
    by_contra hlong
    have hless := Nat.add_lt_add_of_lt_of_le (Nat.not_le.mp hlong) hheaders
    rw [Nat.add_comm _ a.needed] at hless
    exact hless.ne hneeded.symm
  refine ⟨?_, hlines⟩
  rw [LocalResponse.reducedLength]
  exact Nat.add_right_cancel (m := (a.headers.map ResponseHeaderKV.lineLength).sum)
    (by rw [Nat.add_right_comm, Nat.sub_add_cancel hlines, hneeded])

lemma refusal_bytes (hcap : 256 ≤ cap) (b : Buffer cap) (status : Nat) :
    (format_static_response ⟨b, status, false⟩ 500 false a.fallback_headers_only a.response_version).send_buf.bytes =
      a.refusal := by
  have hfirst : (statusPieces a.response_version 500 21 ++ [connectionPiece false, crlf]).flatten =
      responseText a.response_version 500 [contentLengthField 21, persistenceField false] [] := by
    rw [List.flatten_append, statusPieces_flatten (by decide), connectionPiece_eq, responseText]
    simp
  have hlength : (responseText a.response_version 500 [contentLengthField 21, persistenceField false] []).length = 77 := by
    cases a.response_version <;> decide +kernel
  have hhead : (writeAll b.reset (statusPieces a.response_version 500 21 ++ [connectionPiece false, crlf])).bytes = _ :=
    writeAll_reset b (by rw [hfirst, hlength]; omega)
  rw [hfirst] at hhead
  have hreason : (status_reason 500).length = 21 := rfl
  have hlast : ∀ body, responseText a.response_version 500 [contentLengthField 21, persistenceField false] body =
      responseText a.response_version 500 [contentLengthField 21, persistenceField false] [] ++ body := by
    intro body
    simp [responseText]
  rw [LocalResponse.refusal, hreason, hlast, format_static_response]
  cases a.fallback_headers_only with
  | true =>
    rw [if_pos rfl, List.append_nil]
    exact hhead
  | false =>
    have hroom : (status_reason 500).length ≤
        (writeAll b.reset (statusPieces a.response_version 500 21 ++ [connectionPiece false, crlf])).writeAvail := by
      rw [Buffer.writeAvail, ← Buffer.length_bytes, hhead, hlength, hreason]
      omega
    change ((writeAll b.reset (statusPieces a.response_version 500 21 ++ [connectionPiece false, crlf])).write
      (status_reason 500)).bytes = _
    rw [Buffer.bytes_write hroom, hhead]
    rfl

lemma codeText_isDecimal {code} (h : code < 1000) : IsDecimal (codeText code) code := by
  have hdigit : ∀ n, ch '0' ≤ digit n ∧ digit n ≤ ch '9' := by
    intro n
    rw [digit_eq]
    exact digit_digitChar (Nat.mod_lt _ (by decide))
  have hvalue : ∀ n, (digit n).toNat - (ch '0').toNat = n % 10 := by
    intro n
    rw [digit_eq]
    exact value_digitChar (Nat.mod_lt _ (by decide))
  refine ⟨List.cons_ne_nil _ _, fun c hc => ?_, ?_, by omega⟩
  · simp only [codeText, List.mem_cons, List.not_mem_nil, or_false] at hc
    rcases hc with rfl | rfl | rfl
    · exact hdigit _
    · exact hdigit _
    · exact hdigit _
  · change 10 * (10 * (10 * 0 + ((digit (code / 100)).toNat - (ch '0').toNat)) + ((digit (code / 10)).toNat - (ch '0').toNat)) +
      ((digit code).toNat - (ch '0').toNat) = code
    rw [hvalue, hvalue, hvalue]
    omega

/-- The response frames itself: it is sent whole if it fits, and else a small one in its place. -/
structure FramesItself (conn : ResponseConn cap) (a : LocalResponse) : Prop where
  status : IsDecimal (codeText a.code) a.code
  length : (a.fields.filter fun f => lower f.name == contentLengthName) = [contentLengthField a.bodyLenEmit] ∧
    IsDecimal (decimalDigits a.bodyLenEmit) a.bodyLenEmit
  connection : (a.fields.filter fun f => lower f.name == connectionName) = [persistenceField a.keep_alive]
  type : a.defaultType = [] ∨
    a.defaultType = [spacedField contentTypeText defaultTypeText] ∧ ∀ h ∈ a.headers, lower h.key ≠ contentTypeName
  sent : (format_response_with_body_and_headers conn a).1 = true →
    (format_response_with_body_and_headers conn a).2.send_buf.bytes = a.message
  refused : (format_response_with_body_and_headers conn a).1 = false →
    (format_response_with_body_and_headers conn a).2.send_buf.bytes = a.refusal ∧
      (format_response_with_body_and_headers conn a).2.keep_alive = false
  refused_iff : (format_response_with_body_and_headers conn a).1 = false ↔ cap < a.message.length

lemma fields_filter {name} (hheaders : ∀ h ∈ a.headers, lower h.key ≠ name) (htype : name ≠ contentTypeName) :
    (a.fields.filter fun f => lower f.name == name) =
      [contentLengthField a.bodyLenEmit, persistenceField a.keep_alive].filter fun f => lower f.name == name := by
  have hcaller : ((a.headers.map ResponseHeaderKV.field).filter fun f => lower f.name == name) = [] := by
    rw [List.filter_eq_nil_iff]
    intro f hf
    obtain ⟨h, hh, rfl⟩ := List.mem_map.mp hf
    exact fun heq => hheaders h hh (beq_iff_eq.mp heq)
  have hdefault : (a.defaultType.filter fun f => lower f.name == name) = [] := by
    rw [LocalResponse.defaultType, List.filter_eq_nil_iff]
    intro f hf heq
    split_ifs at hf
    · rw [List.mem_singleton.mp hf] at heq
      exact htype ((beq_iff_eq.mp heq).symm.trans (by decide))
    · cases hf
  simp only [LocalResponse.fields, List.filter_cons, List.filter_append, hcaller, hdefault, List.nil_append]

section valid

variable (hvalid : ∀ h ∈ a.headers, validateResponseHeader h.key h.value = .ok)

include hvalid

lemma header_unreserved : ∀ h ∈ a.headers, isReservedResponseHeaderName h.key = false := by
  intro h hh
  have hok := hvalid h hh
  unfold validateResponseHeader at hok
  split_ifs at hok with h₁ h₂ h₃ h₄
  simpa using h₃

lemma header_names : ∀ h ∈ a.headers, lower h.key ≠ contentLengthName ∧ lower h.key ≠ connectionName := by
  intro h hh
  have hfree := header_unreserved hvalid h hh
  simp only [isReservedResponseHeaderName, Bool.or_eq_false_iff] at hfree
  obtain ⟨⟨hlength, -⟩, hconnection⟩ := hfree
  constructor
  · intro heq
    rw [httpHeaderNameEqCi, beq_eq_false_iff_ne] at hlength
    exact hlength (heq.trans (by decide))
  · intro heq
    rw [httpHeaderNameEqCi, beq_eq_false_iff_ne] at hconnection
    exact hconnection (heq.trans (by decide))

lemma header_no_length : ∀ h ∈ a.headers, httpHeaderNameEqCi h.key contentLengthText = false := by
  intro h hh
  rw [httpHeaderNameEqCi, beq_eq_false_iff_ne]
  intro heq
  exact (header_names hvalid h hh).1 (heq.trans (by decide))

end valid

lemma reduced_le (hs : List ResponseHeaderKV) :
    (hs.map fun h => h.lineLength % 2 ^ 32).sum ≤ (hs.map ResponseHeaderKV.lineLength).sum ∧
      ((∀ h ∈ hs, h.lineLength < 2 ^ 32) →
        (hs.map fun h => h.lineLength % 2 ^ 32).sum = (hs.map ResponseHeaderKV.lineLength).sum) ∧
      ((∃ h ∈ hs, 2 ^ 32 ≤ h.lineLength) → 2 ^ 32 ≤ (hs.map ResponseHeaderKV.lineLength).sum) := by
  induction hs with
  | nil => simp
  | cons g hs ih =>
    obtain ⟨hle, heq, hge⟩ := ih
    simp only [List.map_cons, List.sum_cons, List.forall_mem_cons, List.exists_mem_cons_iff]
    refine ⟨by omega, ?_, ?_⟩
    · rintro ⟨hg, hall⟩
      rw [heq hall, Nat.mod_eq_of_lt hg]
    · rintro (hg | hsome)
      · omega
      · have := hge hsome
        omega

lemma format_static_keep_alive (conn : ResponseConn cap) (code : Nat) (keep_alive headers_only : Bool) (v : HttpVersion) :
    (format_static_response conn code keep_alive headers_only v).keep_alive = conn.keep_alive := by
  rw [format_static_response]
  by_cases hbody : (!(kNoBody code || headers_only) && decide ((if kNoBody code then 0 else (status_reason code).length) > 0)) = true
  · rw [if_pos hbody]
    rfl
  · rw [if_neg hbody]
    rfl

lemma format_refuses_iff (conn : ResponseConn cap) (a : LocalResponse) :
    (format_response_with_body_and_headers conn a).1 = false ↔ cap < a.needed := by
  unfold format_response_with_body_and_headers
  split_ifs with hlong
  · exact ⟨fun _ => hlong, fun _ => rfl⟩
  · exact ⟨fun h => (nomatch h), fun h => absurd h hlong⟩

lemma format_refused (hcap : 256 ≤ cap) (hlong : cap < a.needed) :
    (format_response_with_body_and_headers conn a).2.send_buf.bytes = a.refusal ∧
      (format_response_with_body_and_headers conn a).2.keep_alive = false := by
  rw [format_response_with_body_and_headers, if_pos hlong]
  exact ⟨refusal_bytes hcap conn.send_buf 500, format_static_keep_alive ..⟩

lemma defaultType_cases (a : LocalResponse) : a.defaultType = [] ∨
      a.defaultType = [spacedField contentTypeText defaultTypeText] ∧ ∀ h ∈ a.headers, lower h.key ≠ contentTypeName := by
  rw [LocalResponse.defaultType]
  split_ifs with htype
  · refine .inr ⟨rfl, fun h hh hname => ?_⟩
    simp only [LocalResponse.emitDefaultContentType, LocalResponse.userHasContentType, Bool.and_eq_true,
      Bool.not_eq_true', List.any_eq_false] at htype
    exact htype.1.1.1 h hh (by rw [httpHeaderNameEqCi, hname]; decide)
  · exact .inl rfl

section valid

variable (hvalid : ∀ h ∈ a.headers, validateResponseHeader h.key h.value = .ok)

include hvalid

lemma format_sent (hshort : ¬cap < a.needed) (hmessage : a.message.length ≤ cap) :
    (format_response_with_body_and_headers conn a).2.send_buf.bytes = a.message := by
  have hpieces := pieces_flatten (header_no_length hvalid)
  have hformat : format_response_with_body_and_headers conn a =
      (true, { conn with send_buf := writeAll conn.send_buf.reset a.pieces }) := if_neg hshort
  rw [hformat]
  rw [writeAll_reset conn.send_buf (by rw [hpieces]; exact hmessage), hpieces]

/-- A line of `2 ^ 32` bytes is longer than the buffer, so that a response with it must be refused. -/
lemma not_framesItself (hsize : cap < 2 ^ 32) (hsome : ∃ h ∈ a.headers, 2 ^ 32 ≤ h.lineLength) (hfits : ¬cap < a.needed) :
    ¬FramesItself conn a := by
  intro hframes
  have hlines := (reducedLength_eq (header_no_length hvalid)).2
  have hlong := (reduced_le a.headers).2.2 hsome
  exact hfits ((format_refuses_iff conn a).mp (hframes.refused_iff.mpr (hsize.trans_le (hlong.trans hlines))))

end valid

/-! ## Two responses -/

def headerResponse (h : ResponseHeaderKV) : LocalResponse where
  code := 200
  body := []
  headers := [h]
  keep_alive := true
  body_is_fallback_reason_phrase := false
  suppress_default_content_type := false
  headers_only := false
  fallback_headers_only := false
  response_version := .http11
  body_fits := by decide

def emptyBuffer (cap : Nat) : Buffer cap := ⟨fun _ => 0, 0, Nat.zero_le _⟩

def emptyConn : ResponseConn 256 where
  send_buf := emptyBuffer 256
  resp_status := 200
  keep_alive := true

def traceHeader : ResponseHeaderKV where
  key := lit ['x','-','i','d']
  value := lit ['7']
  key_fits := by decide
  value_fits := by decide

/-- A header with a value of `n` bytes. -/
def longHeader (n : Nat) (h : n < 2 ^ 32) : ResponseHeaderKV where
  key := lit ['a']
  value := List.replicate n (ch 'x')
  key_fits := by decide
  value_fits := by rwa [List.length_replicate]

section long

variable {n : Nat} (h : n < 2 ^ 32)

lemma longHeader_lineLength : (longHeader n h).lineLength = n + 5 := by
  have hkey : (longHeader n h).key.length = 1 := rfl
  have hvalue : (longHeader n h).value.length = n := List.length_replicate
  rw [ResponseHeaderKV.lineLength, hkey, hvalue]
  omega

lemma longHeader_valid : ∀ g ∈ (headerResponse (longHeader n h)).headers, validateResponseHeader g.key g.value = .ok := by
  intro g hg
  have hvalue : (longHeader n h).value.all isValueByte = true := by
    rw [List.all_eq_true]
    intro c hc
    rw [List.eq_of_mem_replicate hc]
    decide
  have hkey : (longHeader n h).key = lit ['a'] := rfl
  rw [List.mem_singleton.mp hg, validateResponseHeader, hvalue, hkey]
  decide

/-- What is computed for the response, in which the line does not count if it has `2 ^ 32` bytes. -/
lemma longHeader_needed : (headerResponse (longHeader n h)).needed = (n + 5) % 2 ^ 32 + 62 := by
  have hheaders : LocalResponse.headersNeeded (headerResponse (longHeader n h)).headers = (n + 5) % 2 ^ 32 := by
    rw [headersNeeded_eq (header_no_length (longHeader_valid h))]
    change (longHeader n h).lineLength % 2 ^ 32 + 0 = _
    rw [longHeader_lineLength, Nat.add_zero]
  have htype : (headerResponse (longHeader n h)).emitDefaultContentType = false := by
    have hempty : (headerResponse (longHeader n h)).bodyLenEmit = 0 := rfl
    rw [LocalResponse.emitDefaultContentType, hempty]
    simp
  rw [LocalResponse.needed, hheaders, htype]
  change 36 + 0 + (n + 5) % 2 ^ 32 + 24 + 2 + 0 = _
  omega

end long

end response

end Rut.Conn
