import Rut.Http.ResponseParts
import Rut.HttpCache.Freshness

/-!
# What is served from the cache

`copy_response` writes the stored response anew: the fields of one connection and the Age field are left out, and an Age
and a Connection field are put behind the others. The response parser reads back what was written, up to the capacity of
its list.
-/

namespace Rut.HttpCache

open Http Incremental

def ageHeader : Str := word ['A','g','e']
def connectionHeader : Str := word ['C','o','n','n','e','c','t','i','o','n']

def connectionValue (keepAlive : Bool) : Str := if keepAlive then keepAliveToken else closeToken

def kept (h : Header) : Bool := !(hopHeader h.name || eq h.name ageName)

/-- The fields that are served, `age` being the value of the Age field. -/
def servedFields (hs : List Header) (age : Str) (keepAlive : Bool) : List Field :=
  (hs.filter kept).map Header.field ++ [⟨ageHeader, age⟩, ⟨connectionHeader, connectionValue keepAlive⟩]

/-! ## Digits -/

lemma digit_octet : ∀ d < 10, ch '0' ≤ UInt8.ofNat (48 + d) ∧ UInt8.ofNat (48 + d) ≤ ch '9' ∧
    (UInt8.ofNat (48 + d)).toNat - (ch '0').toNat = d := by decide

lemma digits_spec {fuel n} (hn : n < 10 ^ fuel) :
    (∀ c ∈ digits fuel n, ch '0' ≤ c ∧ c ≤ ch '9') ∧ decimalValue 0 (digits fuel n) = n := by
  induction fuel generalizing n with
  | zero =>
    obtain rfl : n = 0 := by omega
    exact ⟨fun c hc => absurd hc List.not_mem_nil, rfl⟩
  | succ fuel ih =>
    obtain ⟨hlo, hhi, hvalue⟩ := digit_octet (n % 10) (Nat.mod_lt _ (by decide))
    have hfront : (∀ c ∈ (if n / 10 = 0 then [] else digits fuel (n / 10)), ch '0' ≤ c ∧ c ≤ ch '9') ∧
        decimalValue 0 (if n / 10 = 0 then [] else digits fuel (n / 10)) = n / 10 := by
      split_ifs with hzero
      · exact ⟨fun c hc => absurd hc List.not_mem_nil, hzero.symm⟩
      · exact ih (by rw [Nat.pow_succ] at hn; omega)
    rw [digits]
    refine ⟨fun c hc => ?_, ?_⟩
    · rcases List.mem_append.mp hc with hc | hc
      · exact hfront.1 c hc
      · rw [List.mem_singleton.mp hc]
        exact ⟨hlo, hhi⟩
    · rw [decimalValue_append, hfront.2]
      change 10 * (n / 10) + ((UInt8.ofNat (48 + n % 10)).toNat - (ch '0').toNat) = n
      omega

lemma digits_ne_nil (fuel n : Nat) : digits (fuel + 1) n ≠ [] := by
  rw [digits]
  simp

lemma isDecimal_digits {n} (hn : n < 2 ^ 32) : IsDecimal (digits 20 n) n := by
  obtain ⟨hall, hvalue⟩ := digits_spec (hn.trans (by decide : 2 ^ 32 < 10 ^ 20))
  exact ⟨digits_ne_nil 19 n, hall, hvalue, hn⟩

/-! ## The parts that are written -/

section parts

variable {capacity : Nat} {out : Str} {pieces : List Str} {p : HeaderParts} {ps : List HeaderParts} {keepAlive : Bool}

lemma addAll_eq (h : out.length ≤ capacity) : addAll capacity pieces out =
    if out.length + pieces.flatten.length ≤ capacity then some (out ++ pieces.flatten) else none := by
  induction pieces generalizing out with
  | nil => rw [addAll, List.flatten_nil, List.append_nil, List.length_nil, Nat.add_zero, if_pos h]
  | cons piece pieces ih =>
    rw [addAll, add, List.flatten_cons, List.length_append]
    by_cases hlong : piece.length > capacity - out.length
    · rw [if_pos hlong, if_neg (by omega)]
    · rw [if_neg hlong, ← List.append_assoc, ← Nat.add_assoc, ← List.length_append]
      exact ih (by rw [List.length_append]; omega)

def servedPart (p : HeaderParts) : HeaderParts where
  name := p.name
  ows := [ch ' ']
  text := p.header.value
  name_ne := p.name_ne
  name_token := p.name_token
  ows_ows := by simp [isOws]
  text_valid := fun b hb => p.text_valid b ((List.rdropWhile_prefix _ _).subset hb)
  text_head := by
    intro b hb
    obtain ⟨t, ht⟩ := List.rdropWhile_prefix isOws p.text
    apply p.text_head
    rw [← ht, List.head?_append, show (p.text.rdropWhile isOws).head? = some b from hb, Option.some_or]

lemma servedPart_field (p : HeaderParts) : (servedPart p).header.field = p.header.field := by
  change (⟨p.name, (p.text.rdropWhile isOws).rdropWhile isOws⟩ : Field) = ⟨p.name, p.text.rdropWhile isOws⟩
  rw [List.rdropWhile_idempotent]

lemma digit_plain {b} (h : ch '0' ≤ b ∧ b ≤ ch '9') :
    b ≠ ch '\r' ∧ tableAt kHeaderValueTable b = true ∧ isOws b = false := by
  revert h
  revert b
  apply forall_uint8
  decide +kernel

def agePart (n : Nat) (hn : n < 2 ^ 32) : HeaderParts where
  name := ageHeader
  ows := [ch ' ']
  text := digits 20 n
  name_ne := by decide
  name_token := List.all_iff_forall_prop.mp (by decide +kernel)
  ows_ows := by simp [isOws]
  text_valid := fun b hb =>
    ⟨(digit_plain ((isDecimal_digits hn).digits b hb)).1, (digit_plain ((isDecimal_digits hn).digits b hb)).2.1⟩
  text_head := fun b hb => (digit_plain ((isDecimal_digits hn).digits b (List.mem_of_mem_head? hb))).2.2

def connectionPart (keepAlive : Bool) : HeaderParts where
  name := connectionHeader
  ows := [ch ' ']
  text := connectionValue keepAlive
  name_ne := by decide
  name_token := List.all_iff_forall_prop.mp (by decide +kernel)
  ows_ows := by simp [isOws]
  text_valid := by cases keepAlive <;> exact List.all_iff_forall_prop.mp (by decide +kernel)
  text_head := by
    intro b hb
    cases keepAlive with
    | false =>
      cases hb
      decide
    | true =>
      cases hb
      decide

lemma agePart_field {n} (hn : n < 2 ^ 32) : (agePart n hn).header.field = ⟨ageHeader, digits 20 n⟩ := by
  have hself : (digits 20 n).rdropWhile isOws = digits 20 n := by
    rw [List.rdropWhile_eq_self_iff]
    intro hne
    rw [(digit_plain ((isDecimal_digits hn).digits _ (List.getLast_mem hne))).2.2]
    exact Bool.false_ne_true
  change (⟨ageHeader, (digits 20 n).rdropWhile isOws⟩ : Field) = _
  rw [hself]

lemma connectionPart_field (keepAlive : Bool) :
    (connectionPart keepAlive).header.field = ⟨connectionHeader, connectionValue keepAlive⟩ := by
  cases keepAlive <;> decide

def servedParts (ps : List HeaderParts) (n : Nat) (hn : n < 2 ^ 32) (keepAlive : Bool) : List HeaderParts :=
  (ps.filter fun p => kept p.header).map servedPart ++ [agePart n hn, connectionPart keepAlive]

lemma servedParts_fields {n} (hn : n < 2 ^ 32) : (servedParts ps n hn keepAlive).map (fun p => p.header.field) =
      servedFields (ps.map HeaderParts.header) (digits 20 n) keepAlive := by
  rw [servedParts, servedFields, List.map_append, List.map_map, List.filter_map, List.map_map]
  refine congrArg₂ _ (List.map_congr_left fun p _ => servedPart_field p) ?_
  rw [List.map_cons, List.map_cons, agePart_field, connectionPart_field]
  rfl

lemma flatten_headerPieces (ps : List HeaderParts) : ((ps.map HeaderParts.header).flatMap headerPieces).flatten =
      ((ps.filter fun p => kept p.header).map servedPart).flatMap HeaderParts.bytes := by
  induction ps with
  | nil => rfl
  | cons p ps ih =>
    rw [List.map_cons, List.flatMap_cons, List.flatten_append, ih, headerPieces]
    cases hkept : hopHeader p.header.name || eq p.header.name ageName with
    | true =>
      rw [List.filter_cons_of_neg (by rw [kept, hkept]; exact Bool.false_ne_true)]
      rfl
    | false =>
      rw [List.filter_cons_of_pos (by rw [kept, hkept]; rfl), List.map_cons, List.flatMap_cons]
      refine congrArg (· ++ _) ?_
      simp [HeaderParts.bytes, HeaderParts.line, servedPart, HeaderParts.header, crlf, word, lit]

def okLine (http10 : Bool) : Str := (statusLine http10).take 15

def okVersion (http10 : Bool) : HttpVersion := if http10 then .http10 else .http11

lemma statusLine_eq (http10 : Bool) : statusLine http10 = okLine http10 ++ [ch '\r', ch '\n'] := by cases http10 <;> rfl

lemma parseStatusLine_ok (http10 : Bool) : ∃ resp₀ : ParsedResponse, resp₀.Fresh ∧ Stored 200 [] resp₀ ∧
    ∀ t, parseStatusLine (okLine http10 ++ ch '\r' :: ch '\n' :: t) = .done resp₀ t := by
  refine ⟨⟨okVersion http10, word ['O','K'], 200, [], 0, false, 0, false, okVersion http10 = .http11, false, false⟩,
    ⟨rfl, rfl, rfl, rfl⟩, ⟨rfl, rfl, by simp⟩, fun t => ?_⟩
  cases http10 <;> rfl

lemma connection_end (keepAlive : Bool) :
    connectionLine keepAlive = ch '\r' :: ch '\n' :: ((connectionPart keepAlive).bytes ++ [ch '\r', ch '\n']) := by
  cases keepAlive <;> decide

/-- The pieces that `copy_response` adds are the bytes of a response. -/
lemma flatten_response {n} (hn : n < 2 ^ 32) (http10 : Bool) (body : Str) :
    ([statusLine http10] ++ (ps.map HeaderParts.header).flatMap headerPieces ++
        [word ['A','g','e',':',' '], digits 20 n, connectionLine keepAlive, body]).flatten =
      responseBytes (okLine http10) (servedParts ps n hn keepAlive) body := by
  have hage : (agePart n hn).bytes = word ['A','g','e',':',' '] ++ (digits 20 n ++ [ch '\r', ch '\n']) := rfl
  rw [List.flatten_append, List.flatten_append, flatten_headerPieces, responseBytes, servedParts, List.flatMap_append]
  simp only [List.flatten_cons, List.flatten_nil, List.flatMap_cons, List.flatMap_nil, statusLine_eq, connection_end, hage,
    List.append_assoc, List.cons_append, List.nil_append, List.append_nil]

end parts

/-! ## Reading it back -/

section served

variable {entry : Record} {now capacity : Nat} {keepAlive http10 : Bool} {out : Str}

/-- What `copy_response` has checked, and what it writes. -/
lemma copyResponse_some (h : copyResponse entry now keepAlive http10 capacity = some out) :
    ∃ resp headerEnd, parseResponse entry.response = .complete resp headerEnd ∧ resp.headersTruncated = false ∧
      resp.hasContentLength = true ∧ resp.contentLength = entry.response.length - headerEnd ∧
      out = ([statusLine http10] ++ resp.headers.flatMap headerPieces ++
        [word ['A','g','e',':',' '], digits 20 ((entry.initialAgeUs + (now - entry.storedUs)) / 1000000),
          connectionLine keepAlive, entry.response.drop headerEnd]).flatten := by
  obtain ⟨-, h⟩ := Option.ite_none_left_eq_some.mp h
  cases hp : parseResponse entry.response with
  | incomplete =>
    rw [hp] at h
    cases h
  | error =>
    rw [hp] at h
    cases h
  | complete resp headerEnd =>
    rw [hp] at h
    obtain ⟨hchecks, h⟩ := Option.ite_none_left_eq_some.mp h
    simp only [not_or, Bool.not_eq_true, Bool.not_eq_false', not_not, ne_eq] at hchecks
    obtain ⟨-, htruncated, -, hhas, -, -, hlength⟩ := hchecks
    refine ⟨resp, headerEnd, rfl, htruncated, hhas, hlength, ?_⟩
    have hbody : (entry.response.drop headerEnd).take resp.contentLength = entry.response.drop headerEnd :=
      List.take_of_length_le (by rw [List.length_drop, hlength])
    rw [hbody] at h
    rw [addAll_eq (Nat.zero_le _)] at h
    exact (Option.some_inj.mp (Option.ite_none_right_eq_some.mp h).2).symm

lemma isDecimal_unique {s : Str} {m n : Nat} (hm : IsDecimal s m) (hn : IsDecimal s n) : m = n :=
  hm.value.symm.trans hn.value

lemma kept_contentLength {h} (hh : h.field.Named contentLengthName) : kept h = true := by
  have hname : lower h.name = contentLengthName := hh
  simp only [kept, hopHeader, eq, httpHeaderNameEqCi, hname]
  decide

lemma parsed_lengths {b resp headerEnd} (hp : parseResponse b = .complete resp headerEnd)
    (htruncated : resp.headersTruncated = false) :
    (resp.hasContentLength = true ↔ ∃ f ∈ resp.headers.map Header.field, f.Named contentLengthName) ∧
      ∀ f ∈ resp.headers.map Header.field, f.Named contentLengthName → IsDecimal f.value resp.contentLength := by
  have hframed := (parseResponse_framed hp).1
  rw [parseResponse_fields hp htruncated] at hframed
  exact ⟨hframed.has_iff, hframed.length_eq⟩

lemma servedFields_contentLength {hs age f} (hf : f.Named contentLengthName) :
    f ∈ servedFields hs age keepAlive ↔ f ∈ hs.map Header.field := by
  have hage : f ≠ ⟨ageHeader, age⟩ := by
    rintro rfl
    exact absurd hf (by decide : ¬lower ageHeader = contentLengthName)
  have hconnection : f ≠ ⟨connectionHeader, connectionValue keepAlive⟩ := by
    rintro rfl
    exact absurd hf (by decide : ¬lower connectionHeader = contentLengthName)
  simp only [servedFields, List.mem_append, List.mem_cons, List.not_mem_nil, or_false, hage, hconnection, List.mem_map,
    List.mem_filter]
  constructor
  · rintro ⟨h, ⟨hmem, -⟩, heq⟩
    exact ⟨h, hmem, heq⟩
  · rintro ⟨h, hmem, rfl⟩
    exact ⟨h, ⟨hmem, kept_contentLength hf⟩, rfl⟩

lemma served_parse {resp headerEnd n body}
    (hp : parseResponse entry.response = .complete resp headerEnd) (htruncated : resp.headersTruncated = false)
    (hhas : resp.hasContentLength = true) (hn : n < 2 ^ 32)
    (hout : out = ([statusLine http10] ++ resp.headers.flatMap headerPieces ++
      [word ['A','g','e',':',' '], digits 20 n, connectionLine keepAlive, body]).flatten) :
    ∃ resp' headerEnd', parseResponse out = .complete resp' headerEnd' ∧ resp'.statusCode = 200 ∧
      headFields (out.take headerEnd') = servedFields resp.headers (digits 20 n) keepAlive ∧
      resp'.headers.map Header.field = (servedFields resp.headers (digits 20 n) keepAlive).take kMaxHeaders ∧
      (resp'.headersTruncated = true ↔ kMaxHeaders < (servedFields resp.headers (digits 20 n) keepAlive).length) ∧
      resp'.hasContentLength = true ∧ resp'.contentLength = resp.contentLength ∧ out.drop headerEnd' = body := by
  obtain ⟨-, ps, -, -, -, -, hheaders⟩ := parseResponse_head hp htruncated
  obtain ⟨hhas_iff, hlength⟩ := parsed_lengths hp htruncated
  have hfields : ((servedParts ps n hn keepAlive).map HeaderParts.header).map Header.field =
      servedFields resp.headers (digits 20 n) keepAlive := by
    rw [hheaders, ← servedParts_fields hn, List.map_map]
    rfl
  rw [hheaders, flatten_response hn] at hout
  subst hout
  have hname := header_name_not_mem_cr (servedParts ps n hn keepAlive)
  have hdecimal : ∀ h ∈ (servedParts ps n hn keepAlive).map HeaderParts.header, h.field.Named contentLengthName →
      IsDecimal h.value resp.contentLength := by
    intro h hh hcl
    have hmem : h.field ∈ servedFields resp.headers (digits 20 n) keepAlive := hfields ▸ List.mem_map_of_mem hh
    exact hlength h.field ((servedFields_contentLength hcl).mp hmem) hcl
  obtain ⟨resp₀, hfresh, hstored, hstatus⟩ := parseStatusLine_ok http10
  have happly : ∃ resp', applyResponseHeaders ((servedParts ps n hn keepAlive).map HeaderParts.header) resp₀ = some resp' :=
    applyResponseHeaders_some hname hdecimal (by simp [hfresh.hasContentLength])
  obtain ⟨resp', happ⟩ := happly
  have hline : ch '\r' ∉ okLine http10 := by cases http10 <;> decide
  have hparse := parseResponse_parts (by cases http10 <;> decide) hstatus happ body
  have hrun := hstored.run hname happ
  rw [List.nil_append] at hrun
  have hhead : headFields ((responseBytes (okLine http10) (servedParts ps n hn keepAlive) body).take
      ((responseBytes (okLine http10) (servedParts ps n hn keepAlive) body).length - body.length)) =
      servedFields resp.headers (digits 20 n) keepAlive := by
    rw [responseBytes, take_responseHead, headFields_lines hline, ← hfields]
    rfl
  have hframed := (parseResponse_framed hparse).1
  rw [hhead] at hframed
  obtain ⟨f, hf, hcl⟩ := hhas_iff.mp hhas
  have hserved : f ∈ servedFields resp.headers (digits 20 n) keepAlive := (servedFields_contentLength hcl).mpr hf
  refine ⟨resp', _, hparse, hrun.status, hhead, ?_, ?_, hframed.has_iff.mpr ⟨f, hserved, hcl⟩,
    isDecimal_unique (hframed.length_eq f hserved hcl) (hlength f hf hcl), ?_⟩
  · rw [hrun.headers, List.map_take, hfields]
  · rw [hrun.truncated, ← hfields, List.length_map, List.length_map, List.length_map]
  · have hcut : responseBytes (okLine http10) (servedParts ps n hn keepAlive) body =
        (okLine http10 ++ ch '\r' :: ch '\n' ::
          ((servedParts ps n hn keepAlive).flatMap HeaderParts.bytes ++ [ch '\r', ch '\n'])) ++ body := by
      simp [responseBytes]
    rw [hcut, List.length_append, Nat.add_sub_cancel, List.drop_left]

/-- A record that can be read is served as it is: its fields but for those of one connection and Age in their order, an
Age field of the current age in whole seconds, a Connection field, and the body. The parser stores as many of these
fields as its list holds. -/
theorem served_response {fill : Fill} {response : Str} {storedUs wallUs nowUs : Nat} {record : Record} {key : Key}
    (hprepare : prepareRecord fill response storedUs wallUs = some record)
    (hread : readResponse key record nowUs keepAlive capacity = some out) :
    ∃ resp headerEnd resp' headerEnd' age,
      parseResponse response = .complete resp headerEnd ∧ parseResponse out = .complete resp' headerEnd' ∧
      IsDecimal age ((record.initialAgeUs + (nowUs - record.storedUs)) / 1000000) ∧ resp'.statusCode = 200 ∧
      headFields (out.take headerEnd') = servedFields resp.headers age keepAlive ∧
      resp'.headers.map Header.field = (servedFields resp.headers age keepAlive).take kMaxHeaders ∧
      (resp'.headersTruncated = true ↔ kMaxHeaders < (servedFields resp.headers age keepAlive).length) ∧
      out.drop headerEnd' = response.drop headerEnd ∧ resp'.hasContentLength = true ∧
      resp'.contentLength = resp.contentLength := by
  obtain ⟨parsed, headerEnd₀, st, date, hprepared⟩ := prepareRecord_some hprepare
  obtain ⟨hstored, hexpires, -, -⟩ := readResponse_some hread
  obtain ⟨-, hcopy⟩ := Option.ite_none_right_eq_some.mp hread
  obtain ⟨resp, headerEnd, hp, htruncated, hhas, -, hout⟩ := copyResponse_some hcopy
  have hn : (record.initialAgeUs + (nowUs - record.storedUs)) / 1000000 < 2 ^ 32 := by
    have hcap := hprepared.capped.2
    have hlife : lifetime st date fill.ttl ≤ fill.ttl := Nat.min_le_left _ _
    rw [hprepared.record] at hexpires hstored ⊢
    simp only [kMaxTtl] at hexpires hstored hcap ⊢
    omega
  obtain ⟨resp', headerEnd', hparse, hstatus, hhead, hheaders, htrunc, hhas', hlength, hbody⟩ :=
    served_parse hp htruncated hhas hn hout
  have hresponse : record.response = response := by rw [hprepared.record]
  rw [hresponse] at hp hbody
  exact ⟨resp, headerEnd, resp', headerEnd', _, hp, hparse, isDecimal_digits hn, hstatus, hhead, hheaders, htrunc, hbody,
    hhas', hlength⟩

end served

theorem freshResponse_served :
    ∃ record out resp' headerEnd', prepareRecord ⟨0, 60⟩ freshResponse 1000 10000000 = some record ∧
      readResponse {} record 2000000 true 4096 = some out ∧ parseResponse out = .complete resp' headerEnd' ∧
      resp'.statusCode = 200 := by
  have hprepare : prepareRecord ⟨0, 60⟩ freshResponse 1000 10000000 = some ⟨freshResponse, 1000, 30000000, 1000⟩ := by
    decide +kernel
  have hread : (readResponse {} ⟨freshResponse, 1000, 30000000, 1000⟩ 2000000 true 4096).isSome = true := by decide +kernel
  obtain ⟨out, hread⟩ := Option.isSome_iff_exists.mp hread
  obtain ⟨_, _, resp', headerEnd', _, -, hparse, -, hstatus, -⟩ := served_response hprepare hread
  exact ⟨_, out, resp', headerEnd', hprepare, hread, hparse, hstatus⟩

def parsedFields (b : Str) : List Field :=
  match parseResponse b with
  | .complete resp _ => resp.headers.map Header.field
  | _ => []

def crowdedFields : Str :=
  word ['D','a','t','e',':',' ','T','h','u',',',' ','0','1',' ','J','a','n',' ','1','9','7','0',' ',
    '0','0',':','0','0',':','1','0',' ','G','M','T','\r','\n'] ++
  contentLengthName ++ word [':',' ','0','\r','\n']

def crowdedResponse : Str :=
  statusLine false ++ crowdedFields ++ (List.replicate 62 (word ['a',':',' ','\r','\n'])).flatten ++ crlf

def crowdedServed : Str :=
  statusLine false ++ crowdedFields ++ (List.replicate 62 (word ['a',':',' ','\r','\n'])).flatten ++
    word ['A','g','e',':',' ','2'] ++ connectionLine true

/-- When it is served, the Age and the Connection field find no room. -/
theorem crowdedResponse_served :
    ∃ record out, prepareRecord ⟨0, 60⟩ crowdedResponse 1000 10000000 = some record ∧
      readResponse {} record 2000000 true 4096 = some out ∧ (parsedFields out).length = kMaxHeaders ∧
      ∀ f ∈ parsedFields out, ¬f.Named ageName ∧ ¬f.Named connectionName := by
  have hprepare : prepareRecord ⟨0, 60⟩ crowdedResponse 1000 10000000 = some ⟨crowdedResponse, 1000, 60000000, 1000⟩ := by
    decide +kernel
  have hread : readResponse {} ⟨crowdedResponse, 1000, 60000000, 1000⟩ 2000000 true 4096 = some crowdedServed := by
    simp only [readResponse, copyResponse, addAll_eq, List.length_nil, Nat.zero_le]
    decide +kernel
  have hfields : (parsedFields crowdedServed).length = kMaxHeaders ∧
      ∀ f ∈ parsedFields crowdedServed, ¬f.Named ageName ∧ ¬f.Named connectionName := by
    rw [← List.all_iff_forall_prop]
    decide +kernel
  exact ⟨_, crowdedServed, hprepare, hread, hfields⟩

end Rut.HttpCache
