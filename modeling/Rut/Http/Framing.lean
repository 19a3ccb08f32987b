import Rut.Http.Fields

/-!
# Request framing

The flags that decide how the body of a request is framed are accumulated field by field
(`apply_semantic_header`). `Framed` says what they are after any list of fields. It is kept by every
field and gives the framing of a complete head.
-/

namespace Rut.Http

def upgradeName : Str := ch 'u' :: upgradeTail

def Header.field (h : Header) : Field := ⟨h.name, h.value⟩

/-- `apply_semantic_header` dispatches on the name of the field. -/
lemma applySemanticHeader_eq {f : Field} {req} (hcr : ch '\r' ∉ f.name) : applySemanticHeader f.name f.value req =
      if f.Named contentLengthName then applyContentLength f.value req
      else if f.Named connectionName then some (matchConnection f.value req)
      else if f.Named transferEncodingName then some (applyTransferEncoding f.value req)
      else if f.Named upgradeName then some (applyUpgrade f.value req) else some req := by
  obtain ⟨name, val⟩ := f
  cases name with
  | nil => rfl
  | cons c tail =>
    have hcl := dispatch_iff (w := contentLengthTail) (f := ch 'c') (n := 13) hcr rfl rfl (by decide +kernel)
    have hconn := dispatch_iff (w := connectionTail) (f := ch 'c') (n := 9) hcr rfl rfl (by decide +kernel)
    have hte := dispatch_iff (w := transferEncodingTail) (f := ch 't') (n := 16) hcr rfl rfl (by decide +kernel)
    have hup := dispatch_iff (w := upgradeTail) (f := ch 'u') (n := 6) hcr rfl rfl (by decide +kernel)
    simp only [Field.Named, contentLengthName, connectionName, transferEncodingName, upgradeName, ← hcl, ← hconn,
      ← hte, ← hup, applySemanticHeader]
    have hct : ch 't' ≠ ch 'c' := by decide
    have hcu : ch 'u' ≠ ch 'c' := by decide
    have htu : ch 'u' ≠ ch 't' := by decide
    by_cases h₁ : c ||| 0x20 = ch 'c'
    · simp [h₁, hct.symm, hcu.symm]
    by_cases h₂ : c ||| 0x20 = ch 't'
    · simp [h₂, hct, htu.symm]
    by_cases h₃ : c ||| 0x20 = ch 'u'
    · simp [h₃, hcu, htu]
    · simp [h₁, h₂, h₃]

/-! ## Connection -/

/-- What a `close` token promises. -/
def CloseWins (req : ParsedRequest) : Prop :=
  req.connectionClose = true → req.keepAlive = false ∧ req.upgrade = false

lemma matchConnectionTokens_frame (toks : List Str) (req : ParsedRequest) : ∃ ka up cc, matchConnectionTokens toks req =
      { req with keepAlive := ka, upgrade := up, connectionClose := cc } := by
  induction toks generalizing req with
  | nil => exact ⟨_, _, _, rfl⟩
  | cons tok toks ih =>
    rw [matchConnectionTokens]
    split_ifs
    all_goals first
      | exact ⟨_, _, _, rfl⟩
      | exact ih _

lemma matchConnectionTokens_close (toks : List Str) (req : ParsedRequest) :
    (matchConnectionTokens toks req).connectionClose = true ↔
      req.connectionClose = true ∨ ∃ tok ∈ toks, lower tok = closeToken := by
  induction toks generalizing req with
  | nil => simp [matchConnectionTokens]
  | cons tok toks ih =>
    have hw : tok.length = 5 ∧ strCiEq tok closeToken = true ↔ lower tok = closeToken := by
      rw [← wordTest_iff (n := 5) rfl (by decide +kernel), Bool.and_eq_true, beq_iff_eq]
    rw [matchConnectionTokens, List.exists_mem_cons_iff]
    by_cases hc : lower tok = closeToken
    · simp [hw, hc]
    · simp only [hw, hc, if_false, false_or]
      split_ifs <;> exact ih _

lemma matchConnectionTokens_closeWins (toks : List Str) {req} (h : CloseWins req) :
    CloseWins (matchConnectionTokens toks req) := by
  induction toks generalizing req with
  | nil => exact h
  | cons tok toks ih =>
    rw [matchConnectionTokens]
    split_ifs
    all_goals first
      | exact fun _ => ⟨rfl, rfl⟩
      | exact ih h
      | exact ih fun hc => by simp_all

/-! ## The invariant of the header loop -/

def transferEncodingOf : List Field → RequestTransferEncoding
  | [] => .unparsed
  | [f] => classifyTransferEncoding f.value
  | _ :: _ :: _ => .unsupported

structure LengthFramed (F : List Field) (has : Bool) (length count : Nat) : Prop where
  has_iff : has = true ↔ ∃ f ∈ F, f.Named contentLengthName
  length_eq : ∀ f ∈ F, f.Named contentLengthName → IsDecimal f.value length
  count_eq : count = F.countP (Field.Named contentLengthName ·)

def CloseFramed (F : List Field) (close : Bool) : Prop :=
  close = true ↔ ∃ f ∈ F, f.Named connectionName ∧ HasToken closeToken f.value

structure Framed (F : List Field) (req : ParsedRequest) : Prop where
  length : LengthFramed F req.hasContentLength req.contentLength req.contentLengthCount
  transferEncoding :
    req.transferEncoding = transferEncodingOf (F.filter (Field.Named transferEncodingName ·))
  close : CloseFramed F req.connectionClose
  closeWins : CloseWins req

lemma framed_nil (l : RequestLine) : Framed [] l.request where
  length := ⟨by simp [RequestLine.request, ParsedRequest.start], by simp, rfl⟩
  transferEncoding := rfl
  close := by simp [CloseFramed, RequestLine.request, ParsedRequest.start]
  closeWins := by simp [CloseWins, RequestLine.request, ParsedRequest.start]

section step

variable {F : List Field} {f : Field} {req req' : ParsedRequest}

lemma LengthFramed.other {has length count} (h : LengthFramed F has length count)
    (hf : ¬ f.Named contentLengthName) : LengthFramed (F ++ [f]) has length count where
  has_iff := by simpa [or_and_right, exists_or, hf] using h.has_iff
  length_eq := by
    intro g hg hn
    rcases List.mem_append.mp hg with hg | hg
    · exact h.length_eq g hg hn
    · rw [List.mem_singleton.mp hg] at hn
      exact absurd hn hf
  count_eq := by simpa [List.countP_append, hf] using h.count_eq

lemma LengthFramed.contentLength {has length count n} (h : LengthFramed F has length count)
    (hf : f.Named contentLengthName) (hn : IsDecimal f.value n) (hsame : has = true → length = n) :
    LengthFramed (F ++ [f]) true n (count + 1) where
  has_iff := by simp [or_and_right, exists_or, hf]
  length_eq := by
    intro g hg hgn
    rcases List.mem_append.mp hg with hg | hg
    · have := h.length_eq g hg hgn
      rwa [hsame (h.has_iff.mpr ⟨g, hg, hgn⟩)] at this
    · rw [List.mem_singleton.mp hg]
      exact hn
  count_eq := by simp [List.countP_append, hf, h.count_eq]

lemma CloseFramed.other {close} (h : CloseFramed F close) (hf : ¬ f.Named connectionName) :
    CloseFramed (F ++ [f]) close := by
  simpa [CloseFramed, or_and_right, exists_or, hf] using h

lemma transferEncodingOf_other (hf : ¬ f.Named transferEncodingName) :
    transferEncodingOf ((F ++ [f]).filter (Field.Named transferEncodingName ·)) =
      transferEncodingOf (F.filter (Field.Named transferEncodingName ·)) := by
  simp [hf]

lemma transferEncodingOf_field (hf : f.Named transferEncodingName) :
    transferEncodingOf ((F ++ [f]).filter (Field.Named transferEncodingName ·)) =
      if transferEncodingOf (F.filter (Field.Named transferEncodingName ·)) ≠ .unparsed then .unsupported
      else classifyTransferEncoding f.value := by
  rw [List.filter_append]
  simp only [hf, decide_true, List.filter_cons_of_pos, List.filter_nil]
  rcases F.filter (Field.Named transferEncodingName ·) with - | ⟨g, - | ⟨g', G⟩⟩
  · rfl
  · exact (if_pos (classify_ne_unparsed g.value)).symm
  · rfl

lemma applyContentLength_some {val} (h : applyContentLength val req = some req') :
    ∃ cl, parseUint val = some cl ∧ (req.hasContentLength = true → req.contentLength = cl) ∧ req' = { req with
        contentLength := cl, hasContentLength := true,
        contentLengthCount := req.contentLengthCount + 1 } := by
  rw [applyContentLength] at h
  cases hv : parseUint val with
  | none => simp [hv] at h
  | some cl =>
    simp only [hv] at h
    rcases ite_eq_iff.mp h with ⟨-, h⟩ | ⟨-, h⟩
    · cases h
    rcases ite_eq_iff.mp h with ⟨hhas, h⟩ | ⟨hhas, h⟩
    · rcases ite_eq_iff.mp h with ⟨-, h⟩ | ⟨heq, h⟩
      · cases h
      · cases h
        simp only [ne_eq, not_not] at heq
        subst heq
        exact ⟨_, rfl, fun _ => rfl, by rw [hhas]⟩
    · cases h
      exact ⟨cl, rfl, fun hc => absurd hc hhas, rfl⟩

lemma matchConnection_close (hf : f.Named connectionName) (h : CloseFramed F req.connectionClose) :
    CloseFramed (F ++ [f]) (matchConnection f.value req).connectionClose := by
  rw [CloseFramed] at h
  rw [CloseFramed, matchConnection, matchConnectionTokens_close, listTokens_eq, h]
  simp [or_and_right, exists_or, hf, HasToken]

lemma Framed.step (hF : Framed F req) (hcr : ch '\r' ∉ f.name)
    (h : applySemanticHeader f.name f.value req = some req') : Framed (F ++ [f]) req' := by
  rw [applySemanticHeader_eq hcr] at h
  by_cases hcl : f.Named contentLengthName
  · have hte : ¬ f.Named transferEncodingName := by rw [Field.Named, hcl]; decide
    have hconn : ¬ f.Named connectionName := by rw [Field.Named, hcl]; decide
    rw [if_pos hcl] at h
    obtain ⟨cl, hval, hsame, rfl⟩ := applyContentLength_some h
    exact ⟨hF.length.contentLength hcl (parseUint_isDecimal hval) hsame,
      hF.transferEncoding.trans (transferEncodingOf_other hte).symm, hF.close.other hconn, hF.closeWins⟩
  rw [if_neg hcl] at h
  by_cases hconn : f.Named connectionName
  · have hte : ¬ f.Named transferEncodingName := by rw [Field.Named, hconn]; decide
    rw [if_pos hconn] at h
    cases h
    have hclose := matchConnection_close hconn hF.close
    have hwins := matchConnectionTokens_closeWins (listTokens f.value) hF.closeWins
    obtain ⟨ka, up, cc, heq⟩ := matchConnectionTokens_frame (listTokens f.value) req
    rw [matchConnection, heq] at hclose ⊢
    rw [heq] at hwins
    exact ⟨hF.length.other hcl, hF.transferEncoding.trans (transferEncodingOf_other hte).symm,
      hclose, hwins⟩
  rw [if_neg hconn] at h
  by_cases hte : f.Named transferEncodingName
  · rw [if_pos hte] at h
    cases h
    refine ⟨hF.length.other hcl, ?_, hF.close.other hconn, hF.closeWins⟩
    rw [transferEncodingOf_field hte, ← hF.transferEncoding]
    rfl
  rw [if_neg hte] at h
  have hframe : ∀ r : ParsedRequest, Framed F r → Framed (F ++ [f]) r := fun r hr =>
    ⟨hr.length.other hcl, hr.transferEncoding.trans (transferEncodingOf_other hte).symm,
      hr.close.other hconn, hr.closeWins⟩
  rcases ite_eq_iff.mp h with ⟨-, h⟩ | ⟨-, h⟩
  · cases h
    exact hframe _ ⟨hF.length, hF.transferEncoding, hF.close, hF.closeWins⟩
  · cases h
    exact hframe _ hF

end step

lemma applyHeaders_induct {P : List Field → ParsedRequest → Prop} {F req req' hs}
    (hstep : ∀ {F req hd req'}, P F req → ch '\r' ∉ hd.name →
      applySemanticHeader hd.name hd.value { req with headers := req.headers ++ [hd] } = some req' → P (F ++ [hd.field]) req')
    (hP : P F req) (hcr : ∀ h ∈ hs, ch '\r' ∉ h.name) (h : applyHeaders hs req = some req') :
    P (F ++ hs.map Header.field) req' := by
  induction hs generalizing F req with
  | nil =>
    cases h
    simpa using hP
  | cons hd hs ih =>
    rw [applyHeaders] at h
    cases ha : applySemanticHeader hd.name hd.value { req with headers := req.headers ++ [hd] } with
    | none => rw [ha] at h; cases h
    | some req1 =>
      rw [ha] at h
      simpa using ih (hstep hP (hcr hd (by simp)) ha) (fun h hm => hcr h (by simp [hm])) h

lemma Framed.applyHeaders {F req req' hs}
    (hF : Framed F req) (hcr : ∀ h ∈ hs, ch '\r' ∉ h.name) (h : applyHeaders hs req = some req') :
    Framed (F ++ hs.map Header.field) req' :=
  applyHeaders_induct (fun {_ _ hd _} hF => Framed.step (f := hd.field)
    ⟨hF.length, hF.transferEncoding, hF.close, hF.closeWins⟩) hF hcr h

/-! ## Complete heads -/

lemma transferEncodingOf_finalChunked {G} :
    transferEncodingOf G = .finalChunked ↔ ∃ f, G = [f] ∧ FinalChunked (commaItems f.value) := by
  rcases G with - | ⟨f, - | ⟨g, G⟩⟩
  · simp [transferEncodingOf]
  · simp [transferEncodingOf, classify_finalChunked_iff]
  · simp [transferEncodingOf]

lemma finishRequest_done {req0 req} {r r' : Str} (h : finishRequest req0 r = .done req r') :
    ¬ (req.chunked = true ∧ req.hasContentLength = true) ∧
    (req.transferEncoding = .finalChunked ↔ req0.transferEncoding = .finalChunked) ∧
    ∃ te, req = { req0 with transferEncoding := te } := by
  rw [finishRequest] at h
  by_cases hte : req0.transferEncoding = .unparsed
  · rw [if_pos hte] at h
    rcases ite_eq_iff.mp h with ⟨-, h⟩ | ⟨hboth, h⟩
    · cases h
    · cases h
      exact ⟨hboth, by simp [hte], _, rfl⟩
  · rw [if_neg hte] at h
    rcases ite_eq_iff.mp h with ⟨-, h⟩ | ⟨hboth, h⟩
    · cases h
    · cases h
      exact ⟨hboth, Iff.rfl, _, rfl⟩

/-! ## What the header loop leaves alone -/

section frame

variable {req req' : ParsedRequest}

lemma applySemanticHeader_frame {name val} (h : applySemanticHeader name val req = some req') :
    req'.method = req.method ∧ req'.path = req.path ∧ req'.version = req.version ∧
      req'.pathCanon = req.pathCanon ∧ req'.headers = req.headers := by
  unfold applySemanticHeader at h
  split at h
  · cases h
    exact ⟨rfl, rfl, rfl, rfl, rfl⟩
  · dsimp only at h
    split_ifs at h
    · unfold applyContentLength at h
      split at h
      · cases h
      · dsimp only at h
        split_ifs at h <;> cases h <;> exact ⟨rfl, rfl, rfl, rfl, rfl⟩
    · obtain ⟨ka, up, cc, heq⟩ := matchConnectionTokens_frame (listTokens val) req
      cases h
      rw [matchConnection, heq]
      exact ⟨rfl, rfl, rfl, rfl, rfl⟩
    all_goals
      cases h
      exact ⟨rfl, rfl, rfl, rfl, rfl⟩

lemma applyHeaders_frame {hs} (h : applyHeaders hs req = some req') :
    req'.method = req.method ∧ req'.path = req.path ∧ req'.version = req.version ∧
      req'.pathCanon = req.pathCanon ∧ req'.headers = req.headers ++ hs := by
  induction hs generalizing req with
  | nil =>
    cases h
    simp
  | cons hd hs ih =>
    rw [applyHeaders] at h
    cases ha : applySemanticHeader hd.name hd.value { req with headers := req.headers ++ [hd] } with
    | none =>
      rw [ha] at h
      cases h
    | some req₁ =>
      rw [ha] at h
      obtain ⟨hm, hp, hv, hc, hh⟩ := applySemanticHeader_frame ha
      obtain ⟨hm', hp', hv', hc', hh'⟩ := ih h
      exact ⟨hm'.trans hm, hp'.trans hp, hv'.trans hv, hc'.trans hc, by rw [hh', hh]; simp⟩

lemma parse_complete_head {buf n} (h : parse buf = .complete req n) :
    ∃ (l : RequestLine) (ps : List HeaderParts) (rest : Str),
      buf = l.bytes ++ ps.flatMap HeaderParts.bytes ++ ch '\r' :: ch '\n' :: rest ∧ n = buf.length - rest.length ∧
      req.method = l.method ∧ req.path = l.target ∧
      req.pathCanon = (Target.ofPath l.target (canonEndOf l.target)).pathCanon ∧
      req.headers = ps.map HeaderParts.header := by
  obtain ⟨rest, -, hhead, hn⟩ := parse_complete_iff.mp h
  obtain ⟨l, ps, req₀, hbuf, -, happ, hfin⟩ := parseHead_done hhead
  obtain ⟨-, -, te, rfl⟩ := finishRequest_done hfin
  obtain ⟨hm, hp, -, hc, hh⟩ := applyHeaders_frame happ
  exact ⟨l, ps, rest, hbuf, hn, hm, hp, hc, hh⟩

end frame

lemma header_name_not_mem_cr (ps : List HeaderParts) : ∀ hd ∈ ps.map HeaderParts.header, ch '\r' ∉ hd.name := by
  intro hd hm
  obtain ⟨p, -, rfl⟩ := List.mem_map.mp hm
  exact fun hmem => p.not_mem_cr (List.mem_append_left _ hmem)

lemma take_head (x rest : Str) :
    (x ++ ch '\r' :: ch '\n' :: rest).take ((x ++ ch '\r' :: ch '\n' :: rest).length - rest.length) =
      x ++ [ch '\r', ch '\n'] := by
  have hcut : x ++ ch '\r' :: ch '\n' :: rest = (x ++ [ch '\r', ch '\n']) ++ rest := by simp
  rw [hcut, List.length_append, Nat.add_sub_cancel, List.take_left]

lemma parse_framed {buf req h} (hp : parse buf = .complete req h) :
    ∃ req0 te, req = { req0 with transferEncoding := te } ∧ Framed (headFields (buf.take h)) req0 ∧
      ¬ (req.chunked = true ∧ req.hasContentLength = true) ∧
      (req.transferEncoding = .finalChunked ↔ req0.transferEncoding = .finalChunked) := by
  obtain ⟨rest, -, hhead, rfl⟩ := parse_complete_iff.mp hp
  obtain ⟨l, ps, req0, rfl, -, happ, hfin⟩ := parseHead_done hhead
  obtain ⟨hboth, hte, te, heq⟩ := finishRequest_done hfin
  refine ⟨req0, te, heq, ?_, hboth, hte⟩
  rw [take_head, headFields_head]
  have := (framed_nil l).applyHeaders (header_name_not_mem_cr ps) happ
  rw [List.nil_append, List.map_map] at this
  exact this

/-- Request framing is unambiguous. On a complete head with the fields `F`, `chunked` excludes
Content-Length; the Content-Length flags say exactly what the Content-Length fields say; the transfer
encoding is `FinalChunked` exactly for a single well-formed Transfer-Encoding field that ends in its
only `chunked`; and a `close` token anywhere in the Connection fields wins over every other token. -/
theorem parse_framing {buf req h} (hp : parse buf = .complete req h) :
    let F := headFields (buf.take h)
    ¬ (req.chunked = true ∧ req.hasContentLength = true) ∧
    ((req.hasContentLength = true ↔ ∃ f ∈ F, f.Named contentLengthName) ∧
      (∀ f ∈ F, f.Named contentLengthName → IsDecimal f.value req.contentLength) ∧
      req.contentLengthCount = (F.filter (Field.Named contentLengthName ·)).length) ∧
    (req.transferEncoding = .finalChunked ↔
      ∃ f, F.filter (Field.Named transferEncodingName ·) = [f] ∧
        FinalChunked (commaItems f.value)) ∧
    ((req.connectionClose = true ↔ ∃ f ∈ F, f.Named connectionName ∧ HasToken closeToken f.value) ∧
      (req.connectionClose = true → req.keepAlive = false ∧ req.upgrade = false)) := by
  intro F
  obtain ⟨req0, te, rfl, hF, hboth, hte⟩ := parse_framed hp
  refine ⟨hboth, ⟨hF.length.has_iff, hF.length.length_eq, ?_⟩, ?_, hF.close, hF.closeWins⟩
  · rw [← List.countP_eq_length_filter]
    exact hF.length.count_eq
  · rw [hte, hF.transferEncoding]
    exact transferEncodingOf_finalChunked

def closingRequest : Str :=
  lit ['P','U','T',' ','/',' ','H','T','T','P','/','1','.','1','\r','\n'] ++
  (connectionName ++ lit [':'] ++ upgradeToken ++ lit ['\r','\n']) ++
  (connectionName ++ lit [':','x',',',' ','C','L','O','S','E','\r','\n']) ++
  (contentLengthName ++ lit [':','4','2','\r','\n']) ++
  lit ['\r','\n','b','o','d','y']

theorem closingRequest_framing :
    ∃ req, parse closingRequest = .complete req 78 ∧ req.connectionClose = true ∧
      req.keepAlive = false ∧ req.upgrade = false ∧ req.hasContentLength = true ∧
      req.chunked = false ∧ req.contentLengthCount = 1 := by
  have hend : (parse closingRequest).headEnd = some 78 := by decide +kernel
  cases hp : parse closingRequest with
  | incomplete => rw [hp] at hend; cases hend
  | error => rw [hp] at hend; cases hend
  | complete req h =>
    rw [hp] at hend
    cases hend
    obtain ⟨hboth, ⟨hlen, -, hcount⟩, -, hclose, hwins⟩ := parse_framing hp
    have hl := hlen.mpr ⟨_, .tail _ (.tail _ (.head _)), by decide +kernel⟩
    have hc := hclose.mpr ⟨_, .tail _ (.head _), by decide +kernel, lit ['C','L','O','S','E'],
      by decide +kernel, by decide +kernel⟩
    exact ⟨req, rfl, hc, (hwins hc).1, (hwins hc).2, hl, by simpa [hl] using hboth,
      hcount.trans (by decide +kernel)⟩

end Rut.Http
