import Rut.Common.Decimal
import Rut.Http.Grammar
import Rut.Http2.Synthesis
import Rut.Lib.Memory

/-!
# A Content-Length for buffered bodies

Port of `h2_inject_content_length` of `include/rut/runtime/callbacks_h2.h`, which writes a Content-Length line into a
synthesized request whose body is already buffered behind it. The body is moved up in place, from its end. Positions are
computed in `u32` as in the source.
-/

set_option linter.all false
namespace Rut.Http2

open Http Lib

/-- The buffer of a synthesized request (`pending_synth`) and its fill (`pending_synth_len`). -/
structure SynthBuffer where
  buf : Nat → UInt8
  len : Nat

def SynthBuffer.text (b : SynthBuffer) : Str := Memory.read b.buf 0 b.len

/-- The loop that moves the octets behind `kAt`, `i` being its variable. -/
def injectShift (kAt kIns : Nat) : Nat → (Nat → UInt8) → Nat → UInt8
  | 0, buf => buf
  | i + 1, buf =>
    if kAt < i + 1 then injectShift kAt kIns i (Memory.write buf ((i + kIns) % 2 ^ 32) [buf i]) else buf

/-- The stores to `buf[o++]`. -/
def injectOctets : Nat → (Nat → UInt8) → Str → Nat → UInt8
  | _, buf, [] => buf
  | o, buf, b :: s => injectOctets ((o + 1) % 2 ^ 32) (Memory.write buf o [b]) s

/-- `kKey`. -/
def injectKey : Str := contentLengthField ++ lit [':',' ']

def injectLine (bodyLen : Nat) : Str := injectKey ++ u32ToDec bodyLen ++ crlf

/-- `kIns`. -/
def injectIns (bodyLen : Nat) : Nat := 16 + (u32ToDec bodyLen).length + 2

/-- `h2_inject_content_length`: its result and the buffer after it. -/
def h2InjectContentLength (b : SynthBuffer) (bodyStart bodyLen cap : Nat) : Bool × SynthBuffer :=
  if bodyStart < 4 ∨ b.len < bodyStart then (false, b)
  else if cap < (b.len + injectIns bodyLen) % 2 ^ 32 then (false, b)
  else
    let kAt := bodyStart - 2
    (true, ⟨injectOctets kAt (injectShift kAt (injectIns bodyLen) b.len b.buf) (injectLine bodyLen),
      (b.len + injectIns bodyLen) % 2 ^ 32⟩)

/-! ## The moved octets -/

lemma length_injectLine (bodyLen : Nat) : (injectLine bodyLen).length = injectIns bodyLen := by
  simp only [injectLine, injectIns, List.length_append]
  rfl

lemma injectShift_eq {kAt kIns i} (hat : kAt ≤ i) (hfit : i + kIns < 2 ^ 32) (buf : Nat → UInt8) :
    injectShift kAt kIns i buf = Memory.shiftUp buf kAt i kIns := by
  induction i generalizing buf with
  | zero =>
    funext k
    rw [injectShift, Memory.shiftUp, if_neg (by omega)]
  | succ i ih =>
    by_cases hlt : kAt < i + 1
    · rw [injectShift, if_pos hlt, Nat.mod_eq_of_lt (by omega), ih (by omega) (by omega)]
      exact Memory.shiftUp_succ (by omega)
    · funext k
      rw [injectShift, if_neg hlt, Memory.shiftUp, if_neg (by omega)]

lemma injectOctets_eq {o s} (hfit : o + s.length < 2 ^ 32) (buf : Nat → UInt8) :
    injectOctets o buf s = Memory.write buf o s := by
  induction s generalizing o buf with
  | nil =>
    funext k
    simp [injectOctets, Memory.write]
  | cons b s ih =>
    rw [List.length_cons] at hfit
    rw [injectOctets, Nat.mod_eq_of_lt (by omega), ih (by omega), Memory.write_cons]

lemma inject_text {b x body cap} (htext : b.text = x ++ crlf ++ body) (hx : 2 ≤ x.length)
    (hfit : b.len + injectIns body.length < 2 ^ 32) (hcap : b.len + injectIns body.length ≤ cap) :
    (h2InjectContentLength b (x ++ crlf).length body.length cap).1 = true ∧
    (h2InjectContentLength b (x ++ crlf).length body.length cap).2.text =
      x ++ injectLine body.length ++ crlf ++ body := by
  have hlen : b.len = x.length + (2 + body.length) := by
    have hl := congrArg List.length htext
    rw [SynthBuffer.text, Memory.length_read, List.append_assoc, List.length_append, List.length_append] at hl
    exact hl
  have hstart : (x ++ crlf).length = x.length + 2 := List.length_append
  rw [hstart, h2InjectContentLength, if_neg (by omega), Nat.mod_eq_of_lt hfit, if_neg (by omega)]
  refine ⟨rfl, ?_⟩
  dsimp only [SynthBuffer.text]
  have hparts : Memory.read b.buf 0 x.length = x ∧ Memory.read b.buf x.length (2 + body.length) = crlf ++ body := by
    rw [SynthBuffer.text, hlen, Memory.read_add, Nat.zero_add, List.append_assoc] at htext
    exact List.append_inj htext (Memory.length_read ..)
  have hline := length_injectLine body.length
  have hmoved : b.len - x.length = 2 + body.length := by omega
  have hsum : b.len + injectIns body.length = x.length + (injectLine body.length).length + (2 + body.length) := by omega
  rw [Nat.add_sub_cancel, injectShift_eq (by omega) hfit, injectOctets_eq (by omega), hsum, Memory.read_add,
    Memory.read_add, Nat.zero_add, Nat.zero_add, Memory.read_write_of_le (by omega), Memory.read_write,
    Memory.read_write_of_ge le_rfl, Memory.read_shiftUp_of_le (by omega), hparts.1, hline, ← hmoved,
    Memory.read_shiftUp _ (by omega), hmoved, hparts.2]
  simp

/-! ## The injected field -/

lemma isDecimal_u32ToDec {n} (hn : n < 2 ^ 32) : IsDecimal (u32ToDec n) n := by
  rw [u32ToDec]
  by_cases h : n = 0
  · subst h
    refine ⟨List.cons_ne_nil _ _, ?_, rfl, hn⟩
    intro c hc
    rw [List.mem_singleton.mp hc]
    decide
  · have hlt : ∀ d ∈ Nat.digits 10 n, d < 10 := fun d hd => Nat.digits_lt_base (by decide) hd
    rw [if_neg h]
    refine ⟨by simpa using Nat.digits_ne_nil_iff_ne_zero.mpr h, ?_, ?_, hn⟩
    · intro c hc
      obtain ⟨d, hd, rfl⟩ := List.mem_map.mp (List.mem_reverse.mp hc)
      exact (digitByte (hlt d hd)).2
    · rw [decimalValue_digits hlt, Nat.ofDigits_digits]

lemma digit_value {c} (h : ch '0' ≤ c ∧ c ≤ ch '9') :
    c ≠ ch '\r' ∧ tableAt kHeaderValueTable c = true ∧ isOws c = false := by
  have hall : ∀ d : Fin 10, UInt8.ofNat (48 + d) ≠ ch '\r' ∧ tableAt kHeaderValueTable (UInt8.ofNat (48 + d)) = true ∧
      isOws (UInt8.ofNat (48 + d)) = false := by decide
  have h0 : 48 ≤ c.toNat := UInt8.le_iff_toNat_le.mp h.1
  have h9 : c.toNat ≤ 57 := UInt8.le_iff_toNat_le.mp h.2
  have hc : c = UInt8.ofNat (48 + (c.toNat - 48)) := by
    rw [Nat.add_sub_cancel' h0, UInt8.ofNat_toNat]
  rw [hc]
  exact hall ⟨c.toNat - 48, by omega⟩

def lengthParts (n : Nat) (hn : n < 2 ^ 32) : HeaderParts where
  name := contentLengthField
  ows := [ch ' ']
  text := u32ToDec n
  name_ne := by decide
  name_token := List.all_eq_true.mp (by decide)
  ows_ows := List.all_eq_true.mp (by decide)
  text_valid := fun b hb => ⟨(digit_value ((isDecimal_u32ToDec hn).digits b hb)).1,
    (digit_value ((isDecimal_u32ToDec hn).digits b hb)).2.1⟩
  text_head := fun b hb =>
    (digit_value ((isDecimal_u32ToDec hn).digits b (List.mem_of_mem_head? hb))).2.2

lemma lower_contentLengthField : lower contentLengthField = contentLengthName := by decide

def withLength (req : ParsedRequest) (n : Nat) : ParsedRequest :=
  { req with
    headers := req.headers ++ [⟨contentLengthField, u32ToDec n, ch ' ' :: u32ToDec n⟩]
    contentLength := n
    hasContentLength := true
    contentLengthCount := 1 }

section field

variable {n : Nat} (hn : n < 2 ^ 32)

lemma lengthParts_bytes : (lengthParts n hn).bytes = injectLine n := by
  simp [HeaderParts.bytes, HeaderParts.line, lengthParts, injectLine, injectKey, crlf, lit]

lemma lengthParts_header : (lengthParts n hn).header = ⟨contentLengthField, u32ToDec n, ch ' ' :: u32ToDec n⟩ := by
  have hows : (u32ToDec n).rdropWhile isOws = u32ToDec n := by
    rw [List.rdropWhile_eq_self_iff]
    intro hne
    have hmem := List.getLast_mem hne
    simpa using (digit_value ((isDecimal_u32ToDec hn).digits _ hmem)).2.2
  rw [HeaderParts.header]
  simp [lengthParts, hows]

lemma applyHeaders_length {req} (hhas : req.hasContentLength = false) (hcount : req.contentLengthCount = 0) :
    applyHeaders [(lengthParts n hn).header] req = some (withLength req n) := by
  have hname : (⟨contentLengthField, u32ToDec n⟩ : Http.Field).Named contentLengthName := lower_contentLengthField
  have hcr : ch '\r' ∉ contentLengthField := by decide
  let req' : ParsedRequest :=
    { req with headers := req.headers ++ [⟨contentLengthField, u32ToDec n, ch ' ' :: u32ToDec n⟩] }
  have happ : applySemanticHeader contentLengthField (u32ToDec n) req' = _ :=
    applySemanticHeader_eq (f := ⟨contentLengthField, u32ToDec n⟩) hcr
  rw [if_pos hname, applyContentLength, parseUint_of_isDecimal (isDecimal_u32ToDec hn)] at happ
  rw [lengthParts_header, applyHeaders, happ]
  simp [req', hhas, hcount, applyHeaders, withLength]

end field

lemma applyHeaders_append {hs hs' req req₁} (h : applyHeaders hs req = some req₁) :
    applyHeaders (hs ++ hs') req = applyHeaders hs' req₁ := by
  induction hs generalizing req with
  | nil =>
    cases h
    rfl
  | cons hd hs ih =>
    rw [applyHeaders] at h
    rw [List.cons_append, applyHeaders]
    cases ha : applySemanticHeader hd.name hd.value { req with headers := req.headers ++ [hd] } with
    | none =>
      rw [ha] at h
      cases h
    | some req₂ =>
      rw [ha] at h
      exact ih h

lemma finishRequest_withLength {req₀ req} {r : Str} (h : finishRequest req₀ r = .done req r)
    (hch : req₀.chunked = false) (n : Nat) (t : Str) : finishRequest (withLength req₀ n) t = .done (withLength req n) t := by
  rw [finishRequest] at h ⊢
  by_cases hte : req₀.transferEncoding = .unparsed
  · have hte' : (withLength req₀ n).transferEncoding = .unparsed := hte
    rw [if_pos hte, if_neg (by simp [hch])] at h
    rw [if_pos hte', if_neg (by simp [withLength, hch])]
    cases h
    rfl
  · have hte' : (withLength req₀ n).transferEncoding ≠ .unparsed := hte
    rw [if_neg hte, if_neg (by simp [hch])] at h
    rw [if_neg hte', if_neg (by simp [withLength, hch])]
    cases h
    rfl

/-! ## The fields of accepted lists -/

lemma asciiLower_nameByte {c} (h : isNameByte c = true) : asciiLower c = c := by
  rw [asciiLower, if_neg]
  rintro ⟨hA, hZ⟩
  have hall : ∀ d : Fin 26, isNameByte (UInt8.ofNat (65 + d)) = false := by decide
  have h0 : 65 ≤ c.toNat := UInt8.le_iff_toNat_le.mp hA
  have h9 : c.toNat ≤ 90 := UInt8.le_iff_toNat_le.mp hZ
  have hc : c = UInt8.ofNat (65 + (c.toNat - 65)) := by
    rw [Nat.add_sub_cancel' h0, UInt8.ofNat_toNat]
  rw [hc, hall ⟨c.toNat - 65, by omega⟩] at h
  cases h

lemma lower_of_nameOk {s} (h : h2NameOk s = true) : lower s = s := by
  rw [h2NameOk, Bool.and_eq_true, List.all_eq_true] at h
  calc s.map asciiLower = s.map id := List.map_congr_left fun c hc => asciiLower_nameByte (h.2 c hc)
    _ = s := List.map_id s

lemma regular_of_accepted {extended hs req protocol} (h : h2HeadersToRequest extended hs = some (req, protocol)) :
    ∀ f ∈ hs, isPseudo f.1 = false → h2IsConnectionHeader f.1 = false := by
  obtain ⟨st, hfold, -⟩ := Option.bind_eq_some_iff.mp h
  refine Lib.foldlM_inv (fun done _ => ∀ f ∈ done, isPseudo f.1 = false → h2IsConnectionHeader f.1 = false)
    ?_ [] (by simp) hfold
  intro done st f st' hdone hstep g hg
  rcases List.mem_append.mp hg with hg | hg
  · exact hdone g hg
  · obtain rfl := List.mem_singleton.mp hg
    intro hpseudo
    by_contra hconn
    rw [Bool.not_eq_false] at hconn
    rw [requestField, hpseudo, regularField, hconn] at hstep
    simp at hstep

lemma h1Fields_name {extended hs req protocol}
    (h : h2HeadersToRequest extended hs = some (req, protocol)) {f} (hf : f ∈ h1Fields hs) :
    lower f.1 = f.1 ∧ f.1 ≠ transferEncodingName ∧ (f.1 = contentLengthField → f ∈ hs) := by
  obtain ⟨st, A, -, -⟩ := h2HeadersToRequest_accepted h
  rw [h1Fields, List.mem_append, List.mem_append] at hf
  rcases hf with (hf | hf) | hf
  · split_ifs at hf
    · cases hf
    · rw [List.mem_singleton.mp hf]
      dsimp only
      exact ⟨by decide, by decide, fun h => absurd h (by decide)⟩
  · obtain ⟨hmem, hkept⟩ := List.mem_filter.mp hf
    simp only [isKept, Bool.and_eq_true, Bool.not_eq_true'] at hkept
    refine ⟨lower_of_nameOk (A.names f hmem hkept.1.1), ?_, fun _ => hmem⟩
    intro hte
    have hreg := regular_of_accepted h f hmem hkept.1.1
    rw [hte] at hreg
    exact absurd hreg (by decide)
  · split_ifs at hf
    · cases hf
    · rw [List.mem_singleton.mp hf]
      dsimp only
      exact ⟨by decide, by decide, fun h => absurd h (by decide)⟩

/-- A head that is read as such: its lines, and what the header loop stores of them. -/
structure HeadRead (hs : List (Str × Str)) (head : Str) (req : ParsedRequest) (l : RequestLine) (ps : List HeaderParts)
    (req₀ : ParsedRequest) : Prop where
  lines : h1RequestLine hs :: (h1Fields hs).map fieldLine = l.line :: ps.map HeaderParts.line
  bytes : head = l.bytes ++ ps.flatMap HeaderParts.bytes ++ crlf
  applied : applyHeaders (ps.map HeaderParts.header) l.request = some req₀
  finished : finishRequest req₀ [] = .done req []

section read

variable {extended : Bool} {hs : List (Str × Str)} {req req₀ : ParsedRequest} {accepted : ParsedRequest}
  {protocol : Option Str} {cap₀ n : Nat} {head : Str} {l : RequestLine} {ps : List HeaderParts}

lemma headRead (haccept : h2HeadersToRequest extended hs = some (accepted, protocol))
    (hsynth : h2SynthH1Request hs cap₀ = some head) (hparse : parse head = .complete req n) :
    ∃ l ps req₀, HeadRead hs head req l ps req₀ := by
  obtain ⟨st, A, -, -⟩ := h2HeadersToRequest_accepted haccept
  obtain ⟨-, -, hout⟩ := h2SynthH1Request_eq hsynth
  obtain ⟨rest, -, hhead, -⟩ := parse_complete_iff.mp hparse
  obtain ⟨l, ps, req₀, hbuf, -, happ, hfin⟩ := parseHead_done hhead
  obtain ⟨hlines, rfl⟩ := lines_eq (t := []) (fun x hx => ⟨(A.line_lineFree x hx).1, (A.line_lineFree x hx).2.1⟩) (by
    rw [List.append_nil, ← hout]
    exact hbuf)
  exact ⟨l, ps, req₀, hlines, hbuf, happ, hfin⟩

lemma HeadRead.field (R : HeadRead hs head req l ps req₀)
    (haccept : h2HeadersToRequest extended hs = some (accepted, protocol)) {g}
    (hg : g ∈ (ps.map HeaderParts.header).map Http.Header.field) : ∃ f ∈ h1Fields hs, g.name = f.1 := by
  obtain ⟨st, A, -, -⟩ := h2HeadersToRequest_accepted haccept
  obtain ⟨hd, hhd, rfl⟩ := List.mem_map.mp hg
  obtain ⟨p, hp, rfl⟩ := List.mem_map.mp hhd
  have hline : p.line ∈ (h1Fields hs).map fieldLine := by
    rw [(List.cons.inj R.lines).2]
    exact List.mem_map_of_mem hp
  obtain ⟨f, hf, heq⟩ := List.mem_map.mp hline
  refine ⟨f, hf, ?_⟩
  have hfield := fieldOfLine_line p
  rw [← heq, fieldOfLine_fieldLine (A.h1Fields_lineFree hf).2.1] at hfield
  exact (congrArg Http.Field.name hfield).symm

lemma HeadRead.plain (R : HeadRead hs head req l ps req₀)
    (haccept : h2HeadersToRequest extended hs = some (accepted, protocol)) (hno : ∀ f ∈ hs, f.1 ≠ contentLengthField) :
    req₀.hasContentLength = false ∧ req₀.contentLengthCount = 0 ∧ req₀.chunked = false := by
  have hnil : ChunkedFramed [] l.request.chunked := by simp [ChunkedFramed, RequestLine.request, ParsedRequest.start]
  have hF := (framed_nil l).applyHeaders (header_name_not_mem_cr ps) R.applied
  have hC := hnil.applyHeaders (header_name_not_mem_cr ps) R.applied
  have hlength : ∀ g ∈ (ps.map HeaderParts.header).map Http.Header.field, ¬ g.Named contentLengthName := by
    intro g hg hnamed
    obtain ⟨f, hf, hgf⟩ := R.field haccept hg
    obtain ⟨hlow, -, hmem⟩ := h1Fields_name haccept hf
    rw [Http.Field.Named, hgf, hlow] at hnamed
    exact hno f (hmem hnamed) hnamed
  refine ⟨?_, ?_, ?_⟩
  · rw [← Bool.not_eq_true, hF.length.has_iff]
    rintro ⟨g, hg, hnamed⟩
    exact hlength g hg hnamed
  · rw [hF.length.count_eq, List.countP_eq_zero]
    exact fun g hg => by simpa using hlength g hg
  · rw [← Bool.not_eq_true, show req₀.chunked = true ↔ _ from hC]
    rintro ⟨g, hg, hnamed, -⟩
    obtain ⟨f, hf, hgf⟩ := R.field haccept hg
    obtain ⟨hlow, hte, -⟩ := h1Fields_name haccept hf
    rw [Http.Field.Named, hgf, hlow] at hnamed
    exact hte hnamed

lemma HeadRead.parse_injected (R : HeadRead hs head req l ps req₀) {body} (hbody : body.length < 2 ^ 32)
    (hroom : ps.length < kMaxHeaders)
    (hplain : req₀.hasContentLength = false ∧ req₀.contentLengthCount = 0 ∧ req₀.chunked = false) :
    ∃ k, parse (l.bytes ++ ps.flatMap HeaderParts.bytes ++ injectLine body.length ++ crlf ++ body) =
        .complete (withLength req body.length) k ∧
      (l.bytes ++ ps.flatMap HeaderParts.bytes ++ injectLine body.length ++ crlf ++ body).drop k = body := by
  have hnew : l.bytes ++ ps.flatMap HeaderParts.bytes ++ injectLine body.length ++ crlf ++ body =
      l.bytes ++ ((ps ++ [lengthParts body.length hbody]).flatMap HeaderParts.bytes ++ ch '\r' :: ch '\n' :: body) := by
    rw [List.flatMap_append, List.flatMap_singleton, lengthParts_bytes]
    simp [crlf, lit]
  have happ : applyHeaders ((ps ++ [lengthParts body.length hbody]).map HeaderParts.header) l.request =
      some (withLength req₀ body.length) := by
    rw [List.map_append, List.map_singleton, applyHeaders_append R.applied]
    exact applyHeaders_length hbody hplain.1 hplain.2.1
  have hcount : (ps ++ [lengthParts body.length hbody]).length ≤ kMaxHeaders := by
    rw [List.length_append, List.length_singleton]
    exact hroom
  have hdone := finishRequest_withLength R.finished hplain.2.2 body.length body
  have hcut : ∀ x : Str, l.bytes ++ (x ++ ch '\r' :: ch '\n' :: body) = l.bytes ++ x ++ crlf ++ body := by
    simp [crlf, lit]
  rw [hnew]
  refine ⟨_, parse_complete_iff.mpr ⟨body, ?_, ?_, rfl⟩, ?_⟩
  · have hver : l.version.bytes.length = 10 := by cases l.version <;> rfl
    simp only [RequestLine.bytes, List.length_append, List.length_cons]
    omega
  · rw [parseHead_requestLine]
    simp only [Bind.bind, Incremental.Reader.bind, parseHeaders_lines hcount happ]
    exact hdone
  · rw [hcut, List.length_append, Nat.add_sub_cancel, List.drop_left]

end read

/-! ## Heads that take no further field -/

lemma not_complete_of_full {extended hs accepted protocol cap₀ x body} (haccept : h2HeadersToRequest extended hs = some (accepted, protocol))
    (hsynth : h2SynthH1Request hs cap₀ = some (x ++ crlf)) (hbody : body.length < 2 ^ 32)
    (hfull : kMaxHeaders ≤ (h1Fields hs).length) (req : ParsedRequest) (k : Nat) :
    parse (x ++ injectLine body.length ++ crlf ++ body) ≠ .complete req k := by
  intro hparse
  obtain ⟨st, A, -, -⟩ := h2HeadersToRequest_accepted haccept
  obtain ⟨-, -, hout⟩ := h2SynthH1Request_eq hsynth
  have hx := List.append_cancel_right hout
  have hok : ∀ y ∈ (h1RequestLine hs :: (h1Fields hs).map fieldLine) ++ [(lengthParts body.length hbody).line],
      y ≠ [] ∧ ch '\r' ∉ y := by
    intro y hy
    rcases List.mem_append.mp hy with hy | hy
    · exact ⟨(A.line_lineFree y hy).1, (A.line_lineFree y hy).2.1⟩
    · rw [List.mem_singleton.mp hy]
      exact ⟨HeaderParts.line_ne _, HeaderParts.not_mem_cr _⟩
  obtain ⟨rest, -, hhead, -⟩ := parse_complete_iff.mp hparse
  obtain ⟨l, ps, req₀, hbuf, hcount, -, -⟩ := parseHead_done hhead
  -- The lines of the head are those of the request and the injected one, so that one field too many is read.
  obtain ⟨hlines, -⟩ := lines_eq (t := body) hok (by
    rw [← hbuf, List.flatMap_append, ← hx, List.flatMap_singleton, ← lengthParts_bytes hbody, HeaderParts.bytes]
    simp [crlf, lit])
  have hlen := congrArg List.length hlines
  simp only [List.length_append, List.length_cons, List.length_map, List.length_nil] at hlen
  omega

lemma length_of_withLength {s req n k} (h : parse s = .complete (withLength req n) k) : 28 ≤ s.length := by
  obtain ⟨fs, hg, hheaders⟩ := grammar_of_parse h
  have hmem : (⟨contentLengthField, u32ToDec n, ch ' ' :: u32ToDec n⟩ : Http.Header) ∈ fs.map RawField.header := by
    rw [← hheaders]
    exact List.mem_append_right _ List.mem_cons_self
  obtain ⟨f, hf, hfe⟩ := List.mem_map.mp hmem
  have hname : f.name = contentLengthField := congrArg Http.Header.name hfe
  have hline : 14 ≤ f.bytes.length := by
    rw [RawField.bytes, hname, List.length_append]
    exact Nat.le_add_right_of_le (by decide)
  have hlines : f.bytes.length ≤ (fs.flatMap RawField.bytes).length :=
    ((List.sublist_flatten_of_mem (List.mem_map_of_mem hf)).length_le).trans_eq (by rw [List.flatMap_def])
  have htake := congrArg List.length hg.bytes
  have hver : (withLength req n).version.bytes.length = 10 := by cases (withLength req n).version <;> rfl
  have hle := List.length_take_le' k s
  have hmethod : 4 ≤ (withLength req n).method.bytes.length := by cases (withLength req n).method <;> decide
  rw [headBytes] at htake
  simp only [List.length_append, List.length_cons, List.length_nil] at htake
  omega

/-! ## The promise -/

/-- What `h2_inject_content_length` promises about a request `head` with the buffered `body`: refused, it leaves the
buffer alone; done, the request is read as before with the field for the length of the body, and the body follows. -/
def Injected (head body : Str) (b : SynthBuffer) (r : Bool × SynthBuffer) : Prop :=
  (r.1 = false → r.2 = b) ∧
  (r.1 = true → ∀ req n, parse head = .complete req n →
    ∃ k, parse r.2.text = .complete (withLength req body.length) k ∧ r.2.text.drop k = body)

lemma inject_refused {b bodyStart bodyLen cap} (h : (h2InjectContentLength b bodyStart bodyLen cap).1 = false) :
    (h2InjectContentLength b bodyStart bodyLen cap).2 = b := by
  rw [h2InjectContentLength] at h ⊢
  split_ifs at h ⊢ <;> rfl

def bufferOf (s : Str) : SynthBuffer := ⟨fun k => s.getD k 0, s.length⟩

/-- A POST to `/` with the given fields. -/
def postFields (fs : List (Str × Str)) : List (Str × Str) :=
  (methodName, lit ['P','O','S','T']) :: (pathName, lit ['/']) :: fs

def postHead (fs : List (Str × Str)) : Str := (h2SynthH1Request (postFields fs) 16384).getD []

lemma bufferOf_text (s : Str) : (bufferOf s).text = s := by
  refine List.ext_getElem (Memory.length_read ..) fun k hk hk' => ?_
  simp only [SynthBuffer.text, Memory.read, bufferOf, List.getElem_map, List.getElem_range, Nat.zero_add]
  exact List.getD_eq_getElem s 0 hk'

def fullFields : List (Str × Str) := postFields (List.replicate 64 (lit ['a'], lit ['b']))

end Rut.Http2
