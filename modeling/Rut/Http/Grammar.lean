import Mathlib.Data.Nat.Digits.Defs
import Rut.Http.Framing

/-!
# The grammar of request heads

`RequestGrammar` says which byte strings are request heads and of which parts they consist. `parse` is
complete exactly behind such a head, and it stores its parts.
-/

namespace Rut.Http

open Incremental

structure RawField where
  name : Str
  raw : Str
deriving DecidableEq

def RawField.bytes (f : RawField) : Str := f.name ++ ch ':' :: (f.raw ++ [ch '\r', ch '\n'])

def RawField.header (f : RawField) : Header := ⟨f.name, trimOws f.raw, f.raw⟩

lemma RawField.header_injective : Function.Injective RawField.header := by
  rintro ⟨name, raw⟩ ⟨name', raw'⟩ h
  simp only [RawField.header, Header.mk.injEq] at h
  rw [h.1, h.2.2]

def RawField.field (f : RawField) : Field := ⟨f.name, trimOws f.raw⟩

def headBytes (m : HttpMethod) (target : Str) (v : HttpVersion) (fs : List RawField) : Str :=
  m.bytes ++ target ++ ch ' ' :: v.bytes ++ fs.flatMap RawField.bytes ++ [ch '\r', ch '\n']

/-- The head consists of the given method, target, version and field lines. All Content-Length fields
denote one `u32` decimal, and none stands next to a `chunked` Transfer-Encoding. -/
structure RequestGrammar (head : Str) (m : HttpMethod) (target : Str) (v : HttpVersion)
    (fs : List RawField) : Prop where
  bytes : head = headBytes m target v fs
  target_ne : target ≠ []
  target_uri : ∀ b ∈ target, tableAt kUriTable b = true
  count : fs.length ≤ kMaxHeaders
  name_ne : ∀ f ∈ fs, f.name ≠ []
  name_token : ∀ f ∈ fs, ∀ b ∈ f.name, tableAt kTokenTable b = true
  raw_value : ∀ f ∈ fs, ∀ b ∈ f.raw, tableAt kHeaderValueTable b = true
  lengths : ∃ n, ∀ f ∈ fs, f.field.Named contentLengthName → IsDecimal f.field.value n
  framing : ¬ ((∃ f ∈ fs, f.field.Named contentLengthName) ∧
    ∃ f ∈ fs, f.field.Named transferEncodingName ∧ HasToken chunkedToken f.field.value)

def ParsedRequest.headBytes (req : ParsedRequest) : Str :=
  Http.headBytes req.method req.path req.version (req.headers.map fun h => ⟨h.name, h.rawValue⟩)

/-! ## Decimals -/

lemma decimalValue_ge (s : Str) (acc : Nat) : acc ≤ decimalValue acc s := by
  induction s generalizing acc with
  | nil => exact le_rfl
  | cons c s ih =>
    have hstep : acc ≤ 10 * acc := by omega
    exact (hstep.trans (Nat.le_add_right _ _)).trans (ih _)

lemma decimalValue_append (acc : Nat) (s t : Str) : decimalValue acc (s ++ t) = decimalValue (decimalValue acc s) t := by
  induction s generalizing acc with
  | nil => rfl
  | cons c s ih => exact ih _

lemma digitByte {d} (h : d < 10) : (UInt8.ofNat ((ch '0').toNat + d)).toNat - (ch '0').toNat = d ∧
      ch '0' ≤ UInt8.ofNat ((ch '0').toNat + d) ∧ UInt8.ofNat ((ch '0').toNat + d) ≤ ch '9' := by
  have hall : ∀ d < 10, (UInt8.ofNat ((ch '0').toNat + d)).toNat - (ch '0').toNat = d ∧
      ch '0' ≤ UInt8.ofNat ((ch '0').toNat + d) ∧ UInt8.ofNat ((ch '0').toNat + d) ≤ ch '9' := by decide
  exact hall d h

lemma decimalValue_digits {l} (hl : ∀ d ∈ l, d < 10) :
    decimalValue 0 (l.map fun d => UInt8.ofNat ((ch '0').toNat + d)).reverse = Nat.ofDigits 10 l := by
  induction l with
  | nil => rfl
  | cons d l ih =>
    have hrest := ih fun x hx => hl x (List.mem_cons_of_mem _ hx)
    have hone : ∀ acc c, decimalValue acc [c] = 10 * acc + (c.toNat - (ch '0').toNat) := fun _ _ => rfl
    rw [List.map_cons, List.reverse_cons, decimalValue_append, hrest, hone, Nat.ofDigits_cons,
      (digitByte (hl d List.mem_cons_self)).1, Nat.add_comm]

lemma parseUintLoop_complete {s val} (hd : ∀ c ∈ s, ch '0' ≤ c ∧ c ≤ ch '9')
    (hfit : decimalValue val s < 2 ^ 32) : parseUintLoop s val = some (decimalValue val s) := by
  induction s generalizing val with
  | nil => rfl
  | cons c s ih =>
    obtain ⟨h0, h9⟩ := hd c (by simp)
    have hval := lt_of_le_of_lt (decimalValue_ge s (10 * val + (c.toNat - (ch '0').toNat))) hfit
    have hlt : ¬ (c < ch '0' ∨ ch '9' < c) := by simp [h0, h9]
    have hroom : ¬ val > (0xFFFFFFFF - (c.toNat - (ch '0').toNat)) / 10 := by
      omega
    simp only [parseUintLoop, if_neg hlt, if_neg hroom, Nat.mul_comm val 10]
    exact ih (fun c hc => hd c (by simp [hc])) hfit

/-- `parse_uint` accepts every decimal. -/
lemma parseUint_of_isDecimal {s n} (h : IsDecimal s n) : parseUint s = some n := by
  have hfit := h.fits
  rw [← h.value] at hfit ⊢
  rw [parseUint, if_neg h.ne]
  exact parseUintLoop_complete h.digits hfit

/-! ## The chunked flag -/

def ChunkedFramed (F : List Field) (chunked : Bool) : Prop :=
  chunked = true ↔ ∃ f ∈ F, f.Named transferEncodingName ∧ HasToken chunkedToken f.value

section step

variable {F : List Field} {f : Field} {req req' : ParsedRequest}

lemma ChunkedFramed.other {c} (h : ChunkedFramed F c) (hf : ¬ f.Named transferEncodingName) :
    ChunkedFramed (F ++ [f]) c := by
  simpa [ChunkedFramed, or_and_right, exists_or, hf] using h

lemma ChunkedFramed.field (h : ChunkedFramed F req.chunked) (hf : f.Named transferEncodingName) :
    ChunkedFramed (F ++ [f]) (applyTransferEncoding f.value req).chunked := by
  rw [ChunkedFramed] at h ⊢
  simp only [applyTransferEncoding, Bool.or_eq_true, h,
    any_listTokens_iff (show chunkedToken.length = 7 from rfl) (by decide +kernel)]
  simp [or_and_right, exists_or, hf]

lemma ChunkedFramed.step (h : ChunkedFramed F req.chunked) (hcr : ch '\r' ∉ f.name)
    (ha : applySemanticHeader f.name f.value req = some req') : ChunkedFramed (F ++ [f]) req'.chunked := by
  rw [applySemanticHeader_eq hcr] at ha
  by_cases hte : f.Named transferEncodingName
  · have hcl : ¬ f.Named contentLengthName := by rw [Field.Named, hte]; decide
    have hconn : ¬ f.Named connectionName := by rw [Field.Named, hte]; decide
    rw [if_neg hcl, if_neg hconn, if_pos hte] at ha
    cases ha
    exact h.field hte
  · refine ChunkedFramed.other ?_ hte
    split_ifs at ha
    · obtain ⟨cl, -, -, rfl⟩ := applyContentLength_some ha
      exact h
    · obtain ⟨ka, up, cc, heq⟩ := matchConnectionTokens_frame (listTokens f.value) req
      cases ha
      rw [matchConnection, heq]
      exact h
    · cases ha
      exact h
    · cases ha
      exact h

lemma applySemanticHeader_some {n} (hF : Framed F req) (hcr : ch '\r' ∉ f.name) (hroom : F.length < 255)
    (hn : ∀ g ∈ F ++ [f], g.Named contentLengthName → IsDecimal g.value n) :
    ∃ req', applySemanticHeader f.name f.value req = some req' := by
  rw [applySemanticHeader_eq hcr]
  by_cases hcl : f.Named contentLengthName
  · have hcount : req.contentLengthCount ≠ 255 := by
      have := List.countP_le_length (p := (Field.Named contentLengthName ·)) (l := F)
      rw [hF.length.count_eq]
      omega
    have hsame : req.hasContentLength = true → ¬ req.contentLength ≠ n := by
      intro hhas
      obtain ⟨g, hg, hgn⟩ := hF.length.has_iff.mp hhas
      rw [not_not, ← (hF.length.length_eq g hg hgn).value]
      exact (hn g (List.mem_append_left _ hg) hgn).value
    rw [if_pos hcl, applyContentLength, parseUint_of_isDecimal (hn f (by simp) hcl)]
    dsimp only
    rw [if_neg hcount]
    by_cases hhas : req.hasContentLength = true
    · rw [if_pos hhas, if_neg (hsame hhas)]
      exact ⟨_, rfl⟩
    · rw [if_neg hhas]
      exact ⟨_, rfl⟩
  · rw [if_neg hcl]
    split_ifs <;> exact ⟨_, rfl⟩

end step

lemma ChunkedFramed.applyHeaders {F req req' hs} (hF : ChunkedFramed F req.chunked) (hcr : ∀ h ∈ hs, ch '\r' ∉ h.name)
    (h : applyHeaders hs req = some req') : ChunkedFramed (F ++ hs.map Header.field) req'.chunked :=
  applyHeaders_induct (P := fun F req => ChunkedFramed F req.chunked)
    (fun {F req hd _} hF hcr ha =>
      (show ChunkedFramed F { req with headers := req.headers ++ [hd] }.chunked from hF).step (f := hd.field) hcr ha)
    hF hcr h

lemma applyHeaders_some {n F req hs} (hF : Framed F req)
    (hcr : ∀ h ∈ hs, ch '\r' ∉ h.name) (hroom : F.length + hs.length ≤ 255)
    (hn : ∀ g ∈ F ++ hs.map Header.field, g.Named contentLengthName → IsDecimal g.value n) :
    ∃ req', applyHeaders hs req = some req' := by
  induction hs generalizing F req with
  | nil => exact ⟨req, rfl⟩
  | cons hd hs ih =>
    have hstore : Framed F { req with headers := req.headers ++ [hd] } :=
      ⟨hF.length, hF.transferEncoding, hF.close, hF.closeWins⟩
    rw [List.length_cons] at hroom
    obtain ⟨req₁, ha⟩ := applySemanticHeader_some (f := hd.field) (n := n) hstore (hcr hd (by simp)) (by omega)
      fun g hg => hn g (by rw [List.map_cons, List.append_cons]; exact List.mem_append_left _ hg)
    obtain ⟨req', happ⟩ := ih (hstore.step (f := hd.field) (hcr hd (by simp)) ha)
      (fun h hm => hcr h (by simp [hm])) (by simp; omega) (by simpa using hn)
    have ha' : applySemanticHeader hd.name hd.value { req with headers := req.headers ++ [hd] } = some req₁ := ha
    exact ⟨req', by rw [applyHeaders, ha']; exact happ⟩

lemma parseHeaders_lines {slots req req'} {ps : List HeaderParts}
    (hlen : ps.length ≤ slots) (happ : applyHeaders (ps.map HeaderParts.header) req = some req') (r : Str) :
    parseHeaders slots req (ps.flatMap HeaderParts.bytes ++ ch '\r' :: ch '\n' :: r) = .done req' r := by
  induction ps generalizing slots req with
  | nil =>
    cases happ
    exact parseHeaders_crlf slots _ r
  | cons p ps ih =>
    cases slots with
    | zero => simp at hlen
    | succ slots =>
      rw [List.map_cons, applyHeaders] at happ
      cases ha : applySemanticHeader p.header.name p.header.value
          { req with headers := req.headers ++ [p.header] } with
      | none => rw [ha] at happ; cases happ
      | some req₁ =>
        rw [ha] at happ
        have hcut : (p :: ps).flatMap HeaderParts.bytes ++ ch '\r' :: ch '\n' :: r =
            p.line ++ ch '\r' :: ch '\n' :: (ps.flatMap HeaderParts.bytes ++ ch '\r' :: ch '\n' :: r) := by
          simp [HeaderParts.bytes]
        rw [hcut, parseHeaders_line, storeHeader, ha]
        exact ih (by simpa using hlen) happ

/-! ## Both directions -/

def HeaderParts.rawField (p : HeaderParts) : RawField := ⟨p.name, p.ows ++ p.text⟩

lemma HeaderParts.rawField_bytes (p : HeaderParts) : p.rawField.bytes = p.bytes := by
  simp [RawField.bytes, HeaderParts.rawField, HeaderParts.bytes, HeaderParts.line]

lemma HeaderParts.rawField_header (p : HeaderParts) : p.rawField.header = p.header := by
  have htrim : trimOws (p.ows ++ p.text) = p.text.rdropWhile isOws := by
    rw [trimOws, dropWhile_ows p.ows_ows p.text_head]
  simp [RawField.header, HeaderParts.rawField, HeaderParts.header, htrim]

lemma isOws_value {b} (h : isOws b = true) : tableAt kHeaderValueTable b = true := by
  rw [isOws, Bool.or_eq_true, beq_iff_eq, beq_iff_eq] at h
  rcases h with rfl | rfl <;> decide

lemma RawField.exists_parts {f : RawField} (hne : f.name ≠ []) (htok : ∀ b ∈ f.name, tableAt kTokenTable b = true)
    (hraw : ∀ b ∈ f.raw, tableAt kHeaderValueTable b = true) : ∃ p : HeaderParts, p.rawField = f := by
  refine ⟨⟨f.name, f.raw.takeWhile isOws, f.raw.dropWhile isOws, hne, htok, ?_, ?_, head_dropWhile_ows f.raw⟩, ?_⟩
  · exact fun b hb => List.mem_takeWhile_imp hb
  · intro b hb
    have hv := hraw b ((List.dropWhile_suffix _).subset hb)
    refine ⟨?_, hv⟩
    rintro rfl
    cases hv
  · simp [HeaderParts.rawField, List.takeWhile_append_dropWhile]

lemma exists_parts_of_fields {fs : List RawField} (hne : ∀ f ∈ fs, f.name ≠ [])
    (htok : ∀ f ∈ fs, ∀ b ∈ f.name, tableAt kTokenTable b = true)
    (hraw : ∀ f ∈ fs, ∀ b ∈ f.raw, tableAt kHeaderValueTable b = true) :
    ∃ ps : List HeaderParts, ps.map HeaderParts.rawField = fs := by
  induction fs with
  | nil => exact ⟨[], rfl⟩
  | cons f fs ih =>
    obtain ⟨p, hp⟩ := RawField.exists_parts (hne f (by simp)) (htok f (by simp)) (hraw f (by simp))
    obtain ⟨ps, hps⟩ := ih (fun g hg => hne g (by simp [hg])) (fun g hg => htok g (by simp [hg]))
      (fun g hg => hraw g (by simp [hg]))
    exact ⟨p :: ps, by rw [List.map_cons, hp, hps]⟩

lemma flatMap_rawField (ps : List HeaderParts) :
    (ps.map HeaderParts.rawField).flatMap RawField.bytes = ps.flatMap HeaderParts.bytes := by
  rw [List.flatMap_map]
  exact List.flatMap_congr fun p _ => p.rawField_bytes

lemma map_rawField_header (ps : List HeaderParts) :
    (ps.map HeaderParts.rawField).map RawField.header = ps.map HeaderParts.header := by
  rw [List.map_map]
  exact List.map_congr_left fun p _ => p.rawField_header

lemma map_rawField_field (ps : List HeaderParts) :
    (ps.map HeaderParts.rawField).map RawField.field = (ps.map HeaderParts.header).map Header.field := by
  rw [← map_rawField_header]
  simp only [List.map_map]
  exact List.map_congr_left fun p _ => rfl

lemma framed_parts {l : RequestLine} {ps : List HeaderParts} {req}
    (happ : applyHeaders (ps.map HeaderParts.header) l.request = some req) :
    Framed ((ps.map HeaderParts.rawField).map RawField.field) req ∧
      ChunkedFramed ((ps.map HeaderParts.rawField).map RawField.field) req.chunked := by
  have hnil : ChunkedFramed [] l.request.chunked := by simp [ChunkedFramed, RequestLine.request, ParsedRequest.start]
  rw [map_rawField_field]
  exact ⟨(framed_nil l).applyHeaders (header_name_not_mem_cr ps) happ,
    hnil.applyHeaders (header_name_not_mem_cr ps) happ⟩

lemma grammar_of_parse {b req h} (hp : parse b = .complete req h) :
    ∃ fs, RequestGrammar (b.take h) req.method req.path req.version fs ∧ req.headers = fs.map RawField.header := by
  obtain ⟨rest, -, hhead, rfl⟩ := parse_complete_iff.mp hp
  obtain ⟨l, ps, req₀, rfl, hcount, happ, hfin⟩ := parseHead_done hhead
  obtain ⟨hboth, -, te, rfl⟩ := finishRequest_done hfin
  obtain ⟨hm, hpath, hv, -, hh⟩ := applyHeaders_frame happ
  obtain ⟨hF, hC⟩ := framed_parts happ
  refine ⟨ps.map HeaderParts.rawField, ⟨?_, ?_, ?_, ?_, ?_, ?_, ?_, ?_, ?_⟩, ?_⟩
  · rw [take_head, headBytes, flatMap_rawField, hm, hpath, hv]
    rfl
  · rw [hpath]
    exact l.target_ne
  · rw [hpath]
    exact fun b hb => (l.target_valid b hb).2
  · simpa using hcount
  · simpa [HeaderParts.rawField] using fun p _ => p.name_ne
  · simpa [HeaderParts.rawField] using fun p _ => p.name_token
  · intro f hf b hb
    obtain ⟨p, -, rfl⟩ := List.mem_map.mp hf
    rcases List.mem_append.mp hb with hb | hb
    · exact isOws_value (p.ows_ows b hb)
    · exact (p.text_valid b hb).2
  · exact ⟨req₀.contentLength, fun f hf => hF.length.length_eq f.field (List.mem_map_of_mem hf)⟩
  · rintro ⟨⟨f, hf, hfn⟩, g, hg, hgn⟩
    exact hboth ⟨hC.mpr ⟨g.field, List.mem_map_of_mem hg, hgn⟩,
      hF.length.has_iff.mpr ⟨f.field, List.mem_map_of_mem hf, hfn⟩⟩
  · rw [map_rawField_header]
    simpa [RequestLine.request, ParsedRequest.start] using hh

lemma finishRequest_some {req} (h : ¬ (req.chunked = true ∧ req.hasContentLength = true)) (r : Str) :
    ∃ req', finishRequest req r = .done req' r := by
  rw [finishRequest]
  by_cases hte : req.transferEncoding = .unparsed
  · rw [if_pos hte, if_neg h]
    exact ⟨_, rfl⟩
  · rw [if_neg hte, if_neg h]
    exact ⟨_, rfl⟩

lemma parse_of_grammar {b h m target v fs} (hle : h ≤ b.length) (hg : RequestGrammar (b.take h) m target v fs) :
    ∃ req, parse b = .complete req h ∧ req.method = m ∧ req.path = target ∧ req.version = v ∧
      req.headers = fs.map RawField.header := by
  obtain ⟨ps, rfl⟩ := exists_parts_of_fields hg.name_ne hg.name_token hg.raw_value
  have htarget : ∀ c ∈ target, c ≠ ch ' ' ∧ tableAt kUriTable c = true := by
    intro c hc
    refine ⟨?_, hg.target_uri c hc⟩
    rintro rfl
    have := hg.target_uri _ hc
    cases this
  let l : RequestLine := ⟨m, target, v, hg.target_ne, htarget⟩
  have hb : b = l.bytes ++ (ps.flatMap HeaderParts.bytes ++ ch '\r' :: ch '\n' :: b.drop h) := by
    have hbytes := hg.bytes
    rw [headBytes, flatMap_rawField] at hbytes
    calc b = b.take h ++ b.drop h := (List.take_append_drop h b).symm
      _ = _ := by rw [hbytes]; simp [l, RequestLine.bytes]
  obtain ⟨n, hn⟩ := hg.lengths
  have hcount := hg.count
  rw [List.length_map, kMaxHeaders] at hcount
  obtain ⟨req₀, happ⟩ := applyHeaders_some (n := n) (framed_nil l) (header_name_not_mem_cr ps) (by simp; omega) (by
    rw [List.nil_append, ← map_rawField_field]
    intro g hgm
    obtain ⟨f, hf, rfl⟩ := List.mem_map.mp hgm
    exact hn f hf)
  obtain ⟨hF, hC⟩ := framed_parts happ
  have hboth : ¬ (req₀.chunked = true ∧ req₀.hasContentLength = true) := by
    rintro ⟨hch, hhas⟩
    obtain ⟨_, hfm, hfn⟩ := hF.length.has_iff.mp hhas
    obtain ⟨_, hgm, hgn⟩ := hC.mp hch
    obtain ⟨f, hf, rfl⟩ := List.mem_map.mp hfm
    obtain ⟨g, hgf, rfl⟩ := List.mem_map.mp hgm
    exact hg.framing ⟨⟨f, hf, hfn⟩, g, hgf, hgn⟩
  obtain ⟨req, hfin⟩ := finishRequest_some hboth (b.drop h)
  have hhead : parseHead b = .done req (b.drop h) := by
    rw [hb, parseHead_requestLine]
    simp only [Bind.bind, Reader.bind, @parseHeaders_lines kMaxHeaders _ _ _ (by rw [kMaxHeaders]; omega) happ]
    rw [← hb]
    exact hfin
  have hlen : 4 ≤ b.length := by
    rw [hb]
    simp only [RequestLine.bytes, List.length_append, List.length_cons]
    have : v.bytes.length = 10 := by cases v <;> rfl
    simp only [l]
    omega
  obtain ⟨hm, hpath, hv, -, hh⟩ := applyHeaders_frame happ
  obtain ⟨-, -, te, rfl⟩ := finishRequest_done hfin
  refine ⟨_, parse_complete_iff.mpr ⟨b.drop h, hlen, hhead, ?_⟩, hm, hpath, hv, ?_⟩
  · rw [List.length_drop]
    omega
  · rw [map_rawField_header]
    exact hh

/-- `parse` accepts exactly the heads of the grammar: it is complete at `h` if and only if the bytes up to `h` are
one. Method, path, version and header list of the record are then the parts of the head in their order, so that
written out again with their separators they spell it. -/
theorem parse_grammar (b : Str) (h : Nat) :
    ((∃ req, parse b = .complete req h) ↔
      h ≤ b.length ∧ ∃ m target v fs, RequestGrammar (b.take h) m target v fs) ∧
    ∀ req, parse b = .complete req h →
      (∃ fs, RequestGrammar (b.take h) req.method req.path req.version fs ∧
        req.headers = fs.map RawField.header) ∧
      b.take h = req.headBytes := by
  refine ⟨⟨?_, ?_⟩, ?_⟩
  · rintro ⟨req, hp⟩
    obtain ⟨fs, hg, -⟩ := grammar_of_parse hp
    obtain ⟨rest, -, -, rfl⟩ := parse_complete_iff.mp hp
    exact ⟨Nat.sub_le _ _, _, _, _, fs, hg⟩
  · rintro ⟨hle, m, target, v, fs, hg⟩
    obtain ⟨req, hp, -⟩ := parse_of_grammar hle hg
    exact ⟨req, hp⟩
  · intro req hp
    obtain ⟨fs, hg, hh⟩ := grammar_of_parse hp
    refine ⟨⟨fs, hg, hh⟩, ?_⟩
    have hraw : (req.headers.map fun hd => (⟨hd.name, hd.rawValue⟩ : RawField)) = fs := by
      rw [hh, List.map_map]
      exact List.map_id _
    rw [ParsedRequest.headBytes, hraw]
    exact hg.bytes

end Rut.Http
