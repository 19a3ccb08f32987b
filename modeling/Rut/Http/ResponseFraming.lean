import Rut.Http.Framing
import Rut.Http.Response

/-!
# Response framing

What the flags of `HttpResponseParser::parse` say about the fields of a complete head. A `close` token is not kept
against a later Connection field: `match_connection_response` returns at it, but starts afresh on the next field. The
Content-Length fields are counted beside the arm that reads them, by a test that skips the first byte of the name.
-/

namespace Rut.Http

/-- `apply_semantic_header_response` dispatches on the name of the field. -/
lemma applySemanticHeaderResponse_eq {f : Field} {resp} (hcr : ch '\r' ∉ f.name) :
    applySemanticHeaderResponse f.name f.value resp =
      if f.Named contentLengthName then applyContentLengthResponse f.value resp
      else if f.Named connectionName then some (matchConnectionResponse f.value resp)
      else if f.Named transferEncodingName then
        some { resp with
          chunked :=
            resp.chunked || (listTokens f.value).any fun tok => tok.length == 7 && strCiEq tok chunkedToken }
      else some resp := by
  obtain ⟨name, val⟩ := f
  cases name with
  | nil => rfl
  | cons c tail =>
    have hcl := dispatch_iff (w := contentLengthTail) (f := ch 'c') (n := 13) hcr rfl rfl (by decide +kernel)
    have hconn := dispatch_iff (w := connectionTail) (f := ch 'c') (n := 9) hcr rfl rfl (by decide +kernel)
    have hte := dispatch_iff (w := transferEncodingTail) (f := ch 't') (n := 16) hcr rfl rfl (by decide +kernel)
    simp only [Field.Named, contentLengthName, connectionName, transferEncodingName, ← hcl, ← hconn, ← hte,
      applySemanticHeaderResponse]
    have hct : ch 't' ≠ ch 'c' := by decide
    by_cases h₁ : c ||| 0x20 = ch 'c'
    · simp [h₁, hct.symm]
    by_cases h₂ : c ||| 0x20 = ch 't'
    · simp [h₂, hct]
    · simp [h₁, h₂]

/-! ## Connection -/

/-- A Connection field with the token `close`. -/
def Field.Closes (f : Field) : Prop := f.Named connectionName ∧ HasToken closeToken f.value

/-- A Connection field with the token `keep-alive` and without `close`. -/
def Field.Keeps (f : Field) : Prop :=
  f.Named connectionName ∧ HasToken keepAliveToken f.value ∧ ¬ HasToken closeToken f.value

/-- A field that asks to keep the connection stands behind one that closes it, and none that closes follows. -/
def Reopened (F : List Field) : Prop :=
  ∃ F₁ f F₂, F = F₁ ++ f :: F₂ ∧ (∃ g ∈ F₁, g.Closes) ∧ f.Keeps ∧ ∀ g ∈ F₂, ¬ g.Closes

lemma Field.Keeps.not_closes {f : Field} (h : f.Keeps) : ¬ f.Closes := fun hc => h.2.2 hc.2

section reopened

variable {F : List Field} {f : Field}

lemma snoc_eq_append_cons {F₁ F₂ g} (h : F ++ [f] = F₁ ++ g :: F₂) :
    (F₁ = F ∧ g = f ∧ F₂ = []) ∨ ∃ F₃, F₂ = F₃ ++ [f] ∧ F = F₁ ++ g :: F₃ := by
  rcases List.eq_nil_or_concat F₂ with rfl | ⟨F₃, x, rfl⟩
  · obtain ⟨rfl, hx⟩ := List.append_inj' h rfl
    exact .inl ⟨rfl, by simpa using hx.symm, rfl⟩
  · rw [List.concat_eq_append] at h ⊢
    have h' : F ++ [f] = (F₁ ++ g :: F₃) ++ [x] := by simpa using h
    obtain ⟨rfl, hx⟩ := List.append_inj' h' rfl
    exact .inr ⟨F₃, by simpa using hx.symm, rfl⟩

lemma reopened_closes (hf : f.Closes) : ¬ Reopened (F ++ [f]) := by
  rintro ⟨F₁, g, F₂, h, -, hg, hlast⟩
  rcases snoc_eq_append_cons h with ⟨-, rfl, -⟩ | ⟨F₃, rfl, -⟩
  · exact hg.not_closes hf
  · exact hlast f (by simp) hf

lemma reopened_keeps (hf : f.Keeps) : Reopened (F ++ [f]) ↔ ∃ g ∈ F, g.Closes := by
  constructor
  · rintro ⟨F₁, g, F₂, h, ⟨x, hx, hxc⟩, -⟩
    rcases snoc_eq_append_cons h with ⟨rfl, -⟩ | ⟨F₃, -, rfl⟩
    · exact ⟨x, hx, hxc⟩
    · exact ⟨x, List.mem_append_left _ hx, hxc⟩
  · intro h
    exact ⟨F, f, [], rfl, h, hf, by simp⟩

lemma reopened_other (hc : ¬ f.Closes) (hk : ¬ f.Keeps) : Reopened (F ++ [f]) ↔ Reopened F := by
  constructor
  · rintro ⟨F₁, g, F₂, h, hcl, hg, hlast⟩
    rcases snoc_eq_append_cons h with ⟨-, rfl, -⟩ | ⟨F₃, rfl, rfl⟩
    · exact absurd hg hk
    · exact ⟨F₁, g, F₃, rfl, hcl, hg, fun x hx => hlast x (by simp [hx])⟩
  · rintro ⟨F₁, g, F₂, rfl, hcl, hg, hlast⟩
    refine ⟨F₁, g, F₂ ++ [f], by simp, hcl, hg, fun x hx => ?_⟩
    rcases List.mem_append.mp hx with hx | hx
    · exact hlast x hx
    · rw [List.mem_singleton.mp hx]
      exact hc

end reopened

lemma matchConnectionResponseTokens_flags (toks : List Str) (hcr : ∀ tok ∈ toks, ch '\r' ∉ tok)
    (resp : ParsedResponse) :
    let resp' := matchConnectionResponseTokens toks resp
    (resp'.connectionClose = true ↔ resp.connectionClose = true ∨ ∃ tok ∈ toks, lower tok = closeToken) ∧
      (resp'.keepAlive = true ↔ (∀ tok ∈ toks, lower tok ≠ closeToken) ∧
        (resp.keepAlive = true ∨ ∃ tok ∈ toks, lower tok = keepAliveToken)) := by
  induction toks generalizing resp with
  | nil => simp [matchConnectionResponseTokens]
  | cons tok toks ih =>
    have hc : tok.length = 5 ∧ strCiEq tok closeToken = true ↔ lower tok = closeToken := by
      rw [← wordTest_iff (n := 5) rfl (by decide +kernel), Bool.and_eq_true, beq_iff_eq]
    have hk : tok.length = 10 ∧ strCiEq tok keepAliveToken = true ↔ lower tok = keepAliveToken := by
      rw [← strCiEq_name (by decide +kernel) (hcr tok (by simp))]
      exact ⟨fun h => h.2, fun h => ⟨strCiEq_length h, h⟩⟩
    have hne : keepAliveToken ≠ closeToken := by decide
    have ih := ih fun t ht => hcr t (by simp [ht])
    intro resp'
    simp only [resp', matchConnectionResponseTokens, hc, hk]
    by_cases h₁ : lower tok = closeToken
    · simp [h₁]
    by_cases h₂ : lower tok = keepAliveToken
    · simp only [if_neg h₁, if_pos h₂]
      refine ⟨?_, ?_⟩
      · rw [(ih _).1]
        simp [h₂, hne]
      · rw [(ih _).2]
        simp [h₂, hne]
    · simp only [if_neg h₁, if_neg h₂]
      refine ⟨?_, ?_⟩
      · rw [(ih _).1]
        simp [h₁]
      · rw [(ih _).2]
        simp [h₁, h₂]

/-! ## Content-Length -/

/-- A field that is counted: its name is Content-Length but for the first byte. -/
def Field.Counted (f : Field) : Prop := lower f.name.tail = contentLengthTail

instance (f : Field) : Decidable f.Counted := inferInstanceAs (Decidable (lower _ = _))

lemma Field.Named.counted {f : Field} (h : f.Named contentLengthName) : f.Counted := by
  obtain ⟨name, val⟩ := f
  cases name with
  | nil => cases h
  | cons c tail => exact (List.cons.inj h).2

lemma countContentLength_eq {f : Field} {resp} (hcr : ch '\r' ∉ f.name) : countContentLength f.name resp =
      if f.Counted ∧ resp.contentLengthCount ≠ 255 then { resp with contentLengthCount := resp.contentLengthCount + 1 }
      else resp := by
  have hci : strCiEq f.name.tail contentLengthTail = true ↔ f.Counted :=
    strCiEq_name (by decide +kernel) fun hmem => hcr (List.mem_of_mem_tail hmem)
  have hlen : f.Counted → f.name.length = 14 := by
    intro h
    have htail := congrArg List.length h
    rw [lower, List.length_map, List.length_tail] at htail
    have h13 : contentLengthTail.length = 13 := rfl
    omega
  rw [countContentLength]
  by_cases hc : f.Counted
  · simp [hci, hc, hlen hc]
  · simp [hci, hc]

lemma countP_named_le (F : List Field) : F.countP (Field.Named contentLengthName ·) ≤ F.countP (Field.Counted ·) := by
  refine List.countP_mono_left fun f _ hf => ?_
  exact decide_eq_true (Field.Named.counted (of_decide_eq_true hf))

lemma countP_named_eq_iff (F : List Field) : F.countP (Field.Named contentLengthName ·) = F.countP (Field.Counted ·) ↔
      ∀ f ∈ F, f.Counted → f.Named contentLengthName := by
  induction F with
  | nil => simp
  | cons f F ih =>
    rw [List.countP_cons, List.countP_cons, List.forall_mem_cons, ← ih]
    have hle := countP_named_le F
    by_cases hn : f.Named contentLengthName
    · simp [hn, hn.counted]
    · by_cases hc : f.Counted
      · simp only [hn, hc, decide_false, decide_true, if_true, true_implies, false_and, iff_false]
        simp only [Bool.false_eq_true, if_false]
        omega
      · simp [hn, hc]

/-! ## The invariant of the header loop -/

structure ResponseFramed (F : List Field) (resp : ParsedResponse) : Prop where
  has_iff : resp.hasContentLength = true ↔ ∃ f ∈ F, f.Named contentLengthName
  length_eq : ∀ f ∈ F, f.Named contentLengthName → IsDecimal f.value resp.contentLength
  close_iff : resp.connectionClose = true ↔ ∃ f ∈ F, f.Closes
  keep_iff : (∃ f ∈ F, f.Closes) → (resp.keepAlive = true ↔ Reopened F)

def LengthCounted (F : List Field) (resp : ParsedResponse) : Prop :=
  resp.contentLengthCount = min 255 (F.countP (Field.Counted ·))

lemma responseFramed_nil {resp : ParsedResponse} (h : resp.Fresh) : ResponseFramed [] resp where
  has_iff := by simp [h.hasContentLength]
  length_eq := by simp
  close_iff := by simp [h.connectionClose]
  keep_iff := by simp

lemma mem_of_mem_listTokensLoop {s cur tok b} (htok : tok ∈ listTokensLoop s cur) (hb : b ∈ tok) : b ∈ cur ∨ b ∈ s := by
  have hlast : ∀ {cur : Str}, tok ∈ (if cur = [] then [] else [cur]) → b ∈ cur := by
    intro cur h
    split_ifs at h
    · cases h
    · rw [List.mem_singleton.mp h] at hb
      exact hb
  induction s generalizing cur with
  | nil => exact .inl (hlast htok)
  | cons c s ih =>
    rw [listTokensLoop] at htok
    by_cases hsep : isListSep c = true
    · rw [if_pos hsep] at htok
      rcases List.mem_append.mp htok with htok | htok
      · exact .inl (hlast htok)
      · rcases ih htok with hnil | hmem
        · cases hnil
        · exact .inr (List.mem_cons_of_mem _ hmem)
    · rw [if_neg hsep] at htok
      rcases ih htok with hcur | hmem
      · rcases List.mem_append.mp hcur with hcur | hnew
        · exact .inl hcur
        · rw [List.mem_singleton.mp hnew]
          exact .inr List.mem_cons_self
      · exact .inr (List.mem_cons_of_mem _ hmem)

section step

variable {F : List Field} {f : Field} {resp resp' : ParsedResponse}

lemma ResponseFramed.persistence_other (h : ResponseFramed F resp) (hf : ¬ f.Named connectionName)
    (resp' : ParsedResponse) (hclose : resp'.connectionClose = resp.connectionClose) (hkeep : resp'.keepAlive = resp.keepAlive) :
    (resp'.connectionClose = true ↔ ∃ g ∈ F ++ [f], g.Closes) ∧
      ((∃ g ∈ F ++ [f], g.Closes) → (resp'.keepAlive = true ↔ Reopened (F ++ [f]))) := by
  have hc : ¬ f.Closes := fun hc => hf hc.1
  have hk : ¬ f.Keeps := fun hk => hf hk.1
  rw [hclose, hkeep, reopened_other hc hk]
  have hex : (∃ g ∈ F ++ [f], g.Closes) ↔ ∃ g ∈ F, g.Closes := by simp [or_and_right, exists_or, hc]
  rw [hex]
  exact ⟨h.close_iff, h.keep_iff⟩

lemma ResponseFramed.persistence_connection (h : ResponseFramed F resp) (hf : f.Named connectionName)
    (hcr : ch '\r' ∉ f.value) :
    ((matchConnectionResponse f.value resp).connectionClose = true ↔ ∃ g ∈ F ++ [f], g.Closes) ∧
      ((∃ g ∈ F ++ [f], g.Closes) →
        ((matchConnectionResponse f.value resp).keepAlive = true ↔ Reopened (F ++ [f]))) := by
  have htokens : ∀ tok ∈ listTokens f.value, ch '\r' ∉ tok := by
    intro tok htok hmem
    rcases mem_of_mem_listTokensLoop htok hmem with hnil | hvalue
    · cases hnil
    · exact hcr hvalue
  obtain ⟨hclose, hkeep⟩ := matchConnectionResponseTokens_flags (listTokens f.value) htokens resp
  rw [listTokens_eq] at hclose hkeep
  rw [matchConnectionResponse, listTokens_eq]
  have hcloses : f.Closes ↔ HasToken closeToken f.value := ⟨fun hc => hc.2, fun hc => ⟨hf, hc⟩⟩
  by_cases hc : f.Closes
  · refine ⟨⟨fun _ => ⟨f, by simp, hc⟩, fun _ => hclose.mpr (.inr (hcloses.mp hc))⟩, fun _ => ?_⟩
    refine ⟨fun hka => ?_, fun hre => absurd hre (reopened_closes hc)⟩
    obtain ⟨tok, htok, heq⟩ := hcloses.mp hc
    exact absurd heq ((hkeep.mp hka).1 tok htok)
  have hnone : ∀ tok ∈ fieldTokens f.value, lower tok ≠ closeToken :=
    fun tok htok heq => hc (hcloses.mpr ⟨tok, htok, heq⟩)
  have hex : (∃ g ∈ F ++ [f], g.Closes) ↔ ∃ g ∈ F, g.Closes := by simp [or_and_right, exists_or, hc]
  rw [hex]
  refine ⟨?_, fun hold => ?_⟩
  · refine hclose.trans ?_
    rw [h.close_iff]
    apply or_iff_left
    intro hhas
    obtain ⟨tok, htok, heq⟩ := hhas
    exact hnone tok htok heq
  · by_cases hk : HasToken keepAliveToken f.value
    · rw [reopened_keeps ⟨hf, hk, fun hclose => hc (hcloses.mpr hclose)⟩]
      exact ⟨fun _ => hold, fun _ => hkeep.mpr ⟨hnone, .inr hk⟩⟩
    · rw [reopened_other hc fun hkeeps => hk hkeeps.2.1, ← h.keep_iff hold]
      refine hkeep.trans ⟨fun hka => ?_, fun hka => ⟨hnone, .inl hka⟩⟩
      exact hka.2.resolve_right hk

lemma applyContentLengthResponse_some {val} (h : applyContentLengthResponse val resp = some resp') :
    ∃ cl, parseUint val = some cl ∧ (resp.hasContentLength = true → resp.contentLength = cl) ∧
      resp' = { resp with contentLength := cl, hasContentLength := true } := by
  rw [applyContentLengthResponse] at h
  cases hv : parseUint val with
  | none => simp [hv] at h
  | some cl =>
    simp only [hv] at h
    rcases ite_eq_iff.mp h with ⟨hhas, h⟩ | ⟨hhas, h⟩
    · rcases ite_eq_iff.mp h with ⟨-, h⟩ | ⟨heq, h⟩
      · cases h
      · cases h
        rw [ne_eq, not_not] at heq
        subst heq
        exact ⟨_, rfl, fun _ => rfl, by rw [← hhas]⟩
    · cases h
      exact ⟨cl, rfl, fun hc => absurd hc hhas, rfl⟩

lemma ResponseFramed.length_other (h : ResponseFramed F resp) (hf : ¬ f.Named contentLengthName)
    (resp' : ParsedResponse) (hhas : resp'.hasContentLength = resp.hasContentLength) (hlen : resp'.contentLength = resp.contentLength) :
    (resp'.hasContentLength = true ↔ ∃ g ∈ F ++ [f], g.Named contentLengthName) ∧
      ∀ g ∈ F ++ [f], g.Named contentLengthName → IsDecimal g.value resp'.contentLength := by
  rw [hhas, hlen]
  refine ⟨?_, ?_⟩
  · simpa [or_and_right, exists_or, hf] using h.has_iff
  · intro g hg hn
    rcases List.mem_append.mp hg with hg | hg
    · exact h.length_eq g hg hn
    · rw [List.mem_singleton.mp hg] at hn
      exact absurd hn hf

lemma ResponseFramed.length_contentLength (h : ResponseFramed F resp) {cl}
    (hcl : parseUint f.value = some cl) (hsame : resp.hasContentLength = true → resp.contentLength = cl) :
    ∀ g ∈ F ++ [f], g.Named contentLengthName → IsDecimal g.value cl := by
  intro g hg hn
  rcases List.mem_append.mp hg with hg | hg
  · have hdec := h.length_eq g hg hn
    rwa [hsame (h.has_iff.mpr ⟨g, hg, hn⟩)] at hdec
  · rw [List.mem_singleton.mp hg]
    exact parseUint_isDecimal hcl

lemma ResponseFramed.step (hF : ResponseFramed F resp) (hname : ch '\r' ∉ f.name) (hvalue : ch '\r' ∉ f.value)
    (h : applySemanticHeaderResponse f.name f.value resp = some resp') : ResponseFramed (F ++ [f]) resp' := by
  rw [applySemanticHeaderResponse_eq hname] at h
  by_cases hcl : f.Named contentLengthName
  · have hconn : ¬ f.Named connectionName := by rw [Field.Named, hcl]; decide
    rw [if_pos hcl] at h
    obtain ⟨cl, hval, hsame, rfl⟩ := applyContentLengthResponse_some h
    obtain ⟨hclose, hkeep⟩ :=
      hF.persistence_other hconn { resp with contentLength := cl, hasContentLength := true } rfl rfl
    exact ⟨by simp [or_and_right, exists_or, hcl], hF.length_contentLength hval hsame, hclose, hkeep⟩
  rw [if_neg hcl] at h
  by_cases hconn : f.Named connectionName
  · rw [if_pos hconn] at h
    cases h
    obtain ⟨hclose, hkeep⟩ := hF.persistence_connection hconn hvalue
    obtain ⟨ka, cc, heq⟩ := matchConnectionResponseTokens_frame (listTokens f.value) resp
    rw [matchConnectionResponse, heq] at hclose hkeep ⊢
    obtain ⟨hhas, hlen⟩ := hF.length_other hcl { resp with keepAlive := ka, connectionClose := cc } rfl rfl
    exact ⟨hhas, hlen, hclose, hkeep⟩
  rw [if_neg hconn] at h
  have hframe : ∀ c, ResponseFramed (F ++ [f]) { resp with chunked := c } := by
    intro c
    obtain ⟨hclose, hkeep⟩ := hF.persistence_other hconn { resp with chunked := c } rfl rfl
    obtain ⟨hhas, hlen⟩ := hF.length_other hcl { resp with chunked := c } rfl rfl
    exact ⟨hhas, hlen, hclose, hkeep⟩
  rcases ite_eq_iff.mp h with ⟨-, h⟩ | ⟨-, h⟩
  · cases h
    exact hframe _
  · cases h
    exact hframe resp.chunked

lemma matchConnectionResponse_count (val : Str) (resp : ParsedResponse) :
    (matchConnectionResponse val resp).contentLengthCount = resp.contentLengthCount := by
  obtain ⟨ka, cc, heq⟩ := matchConnectionResponseTokens_frame (listTokens val) resp
  rw [matchConnectionResponse, heq]

lemma applySemanticHeaderResponse_count (hname : ch '\r' ∉ f.name)
    (h : applySemanticHeaderResponse f.name f.value resp = some resp') :
    resp'.contentLengthCount = resp.contentLengthCount := by
  rw [applySemanticHeaderResponse_eq hname] at h
  split_ifs at h
  · obtain ⟨cl, -, -, rfl⟩ := applyContentLengthResponse_some h
    rfl
  · cases h
    exact matchConnectionResponse_count _ _
  · cases h
    rfl
  · cases h
    rfl

lemma LengthCounted.count (h : LengthCounted F resp) (hname : ch '\r' ∉ f.name) :
    LengthCounted (F ++ [f]) (countContentLength f.name resp) := by
  rw [LengthCounted] at h ⊢
  rw [countContentLength_eq hname, List.countP_append, List.countP_singleton]
  by_cases hf : f.Counted
  · have hone : (if decide f.Counted = true then 1 else 0) = 1 := if_pos (decide_eq_true hf)
    by_cases hroom : resp.contentLengthCount ≠ 255
    · rw [if_pos ⟨hf, hroom⟩]
      simp only
      omega
    · rw [if_neg fun hboth => hroom hboth.2]
      omega
  · simpa [hf] using h

end step

lemma responseFramed_applyHeaders {F resp resp' hs} (hF : ResponseFramed F resp) (hcount : LengthCounted F resp)
    (hcr : ∀ h ∈ hs, ch '\r' ∉ h.name ∧ ch '\r' ∉ h.value) (h : applyResponseHeaders hs resp = some resp') :
    ResponseFramed (F ++ hs.map Header.field) resp' ∧ LengthCounted (F ++ hs.map Header.field) resp' := by
  induction hs generalizing F resp with
  | nil =>
    cases h
    rw [List.map_nil, List.append_nil]
    exact ⟨hF, hcount⟩
  | cons hd hs ih =>
    rw [applyResponseHeaders] at h
    cases ha : applyResponseHeader hd resp with
    | none =>
      rw [ha] at h
      cases h
    | some resp₂ =>
      rw [ha] at h
      obtain ⟨hname, hvalue⟩ := hcr hd List.mem_cons_self
      obtain ⟨resp₁, hsem, rfl⟩ := Option.map_eq_some_iff.mp ha
      have hstore : ResponseFramed F (storeResponseHeader hd resp) ∧ LengthCounted F (storeResponseHeader hd resp) := by
        rw [storeResponseHeader]
        split
        · exact ⟨⟨hF.has_iff, hF.length_eq, hF.close_iff, hF.keep_iff⟩, hcount⟩
        · exact ⟨⟨hF.has_iff, hF.length_eq, hF.close_iff, hF.keep_iff⟩, hcount⟩
      have hstep : ResponseFramed (F ++ [hd.field]) resp₁ := hstore.1.step hname hvalue hsem
      have hsame : LengthCounted F resp₁ := (applySemanticHeaderResponse_count (f := hd.field) hname hsem).trans hstore.2
      have hframed : ResponseFramed (F ++ [hd.field]) (countContentLength hd.name resp₁) := by
        rw [countContentLength]
        split
        · exact ⟨hstep.has_iff, hstep.length_eq, hstep.close_iff, hstep.keep_iff⟩
        · exact hstep
      have hrest := ih hframed (hsame.count (f := hd.field) hname) (fun h hm => hcr h (List.mem_cons_of_mem _ hm)) h
      rwa [List.append_assoc] at hrest

lemma parseResponse_framed {buf resp h} (hp : parseResponse buf = .complete resp h) :
    ResponseFramed (headFields (buf.take h)) resp ∧ LengthCounted (headFields (buf.take h)) resp := by
  obtain ⟨line, ps, rest, resp₀, rfl, hline, rfl, hfresh, happ⟩ := parseResponse_lines hp
  rw [take_responseHead, headFields_lines hline]
  have hcr : ∀ hd ∈ ps.map HeaderParts.header, ch '\r' ∉ hd.name ∧ ch '\r' ∉ hd.value := by
    intro hd hm
    refine ⟨header_name_not_mem_cr ps hd hm, ?_⟩
    obtain ⟨p, -, rfl⟩ := List.mem_map.mp hm
    exact fun hmem => (p.text_valid _ ((List.rdropWhile_prefix _ _).subset hmem)).1 rfl
  have hcount : LengthCounted [] resp₀ := hfresh.contentLengthCount
  exact responseFramed_applyHeaders (responseFramed_nil hfresh) hcount hcr happ

/-! ## Complete heads -/

/-- A response with a `close` token is closed unless the connection is reopened: the flag of the token is kept, the one
that persistence is decided by is not. -/
theorem response_persistence {buf : Str} {resp : ParsedResponse} {h : Nat}
    (hp : parseResponse buf = .complete resp h) :
    ((∃ f ∈ headFields (buf.take h), f.Named connectionName ∧ HasToken closeToken f.value) →
        resp.connectionClose = true ∧ resp.keepAlive = false) ↔
      ¬ Reopened (headFields (buf.take h)) := by
  have hF := (parseResponse_framed hp).1
  constructor
  · intro hclaim hre
    obtain ⟨F₁, f, F₂, heq, ⟨g, hg, hcloses⟩, -⟩ := id hre
    have hex : ∃ f ∈ headFields (buf.take h), f.Closes := by
      rw [heq]
      exact ⟨g, List.mem_append_left _ hg, hcloses⟩
    have hkeep := (hF.keep_iff hex).mpr hre
    rw [(hclaim hex).2] at hkeep
    cases hkeep
  · intro hre hex
    refine ⟨hF.close_iff.mpr hex, ?_⟩
    exact Bool.eq_false_iff.mpr fun hkeep => hre ((hF.keep_iff hex).mp hkeep)

def reopeningResponse : Str :=
  lit ['H','T','T','P','/','1','.','1',' ','2','0','0',' ','\r','\n'] ++
  (connectionName ++ lit [':'] ++ closeToken ++ lit ['\r','\n']) ++
  (connectionName ++ lit [':'] ++ keepAliveToken ++ lit ['\r','\n']) ++ lit ['\r','\n']

def ResponseResult.flags : ResponseResult → Option (Nat × Bool × Bool)
  | .complete resp h => some (h, resp.connectionClose, resp.keepAlive)
  | _ => none

/-- The second Connection field makes the parser keep the connection, and the theorem says that this is so because of
it. -/
theorem reopeningResponse_reopened : Reopened (headFields (reopeningResponse.take 58)) := by
  have hflags : (parseResponse reopeningResponse).flags = some (58, true, true) := by decide +kernel
  cases hp : parseResponse reopeningResponse with
  | incomplete => rw [hp] at hflags; cases hflags
  | error => rw [hp] at hflags; cases hflags
  | complete resp h =>
    rw [hp] at hflags
    obtain ⟨rfl, -, hkeep⟩ : h = 58 ∧ resp.connectionClose = true ∧ resp.keepAlive = true := by
      simpa [ResponseResult.flags] using hflags
    refine by_contra fun hre => ?_
    have hclaim := (response_persistence hp).mpr hre
    obtain ⟨-, hclosed⟩ := hclaim ⟨_, List.mem_cons_self, by decide, closeToken, by decide, by decide⟩
    rw [hkeep] at hclosed
    cases hclosed

theorem reopeningResponse_kept :
    (parseResponse reopeningResponse).flags = some (58, true, true) ∧
      ∃ f ∈ headFields (reopeningResponse.take 58), f.Named connectionName ∧ HasToken closeToken f.value := by
  exact ⟨by decide +kernel, _, List.mem_cons_self, by decide, closeToken, by decide, by decide⟩

/-- The length of a response is what its Content-Length fields say. Their count is right unless a field is counted that
has another first byte, while it can still be told from the true one. -/
theorem response_length {buf : Str} {resp : ParsedResponse} {h : Nat} (hp : parseResponse buf = .complete resp h) :
    let F := headFields (buf.take h)
    let n := F.countP (Field.Named contentLengthName ·)
    (resp.contentLengthCount = min 255 n ∧ (resp.hasContentLength = true ↔ 0 < n) ∧
        ∀ f ∈ F, f.Named contentLengthName → IsDecimal f.value resp.contentLength) ↔
      (∀ f ∈ F, lower f.name.tail = contentLengthTail → f.Named contentLengthName) ∨ 255 ≤ n := by
  intro F n
  obtain ⟨hF, hcount⟩ : ResponseFramed F resp ∧ LengthCounted F resp := parseResponse_framed hp
  have hhas : resp.hasContentLength = true ↔ 0 < n := by
    rw [hF.has_iff, List.countP_pos_iff]
    simp only [decide_eq_true_eq]
  have hle : n ≤ F.countP (Field.Counted ·) := countP_named_le F
  have heq : n = F.countP (Field.Counted ·) ↔ ∀ f ∈ F, f.Counted → f.Named contentLengthName := countP_named_eq_iff F
  rw [LengthCounted] at hcount
  constructor
  · rintro ⟨hn, -, -⟩
    by_cases hbig : 255 ≤ n
    · exact .inr hbig
    · exact .inl (heq.mp (by omega))
  · intro hcond
    refine ⟨?_, hhas, hF.length_eq⟩
    rcases hcond with hall | hbig
    · rw [heq.mpr hall]
      exact hcount
    · omega

def miscountedResponse : Str :=
  lit ['H','T','T','P','/','1','.','1',' ','2','0','0',' ','\r','\n'] ++
  (contentLengthName ++ lit [':','4','\r','\n']) ++
  (ch 'X' :: contentLengthTail ++ lit [':','4','\r','\n']) ++ lit ['\r','\n']

def ResponseResult.lengthCount : ResponseResult → Option (Nat × Nat)
  | .complete resp h => some (h, resp.contentLengthCount)
  | _ => none

theorem miscountedResponse_counted :
    (parseResponse miscountedResponse).lengthCount = some (53, 2) ∧
      (headFields (miscountedResponse.take 53)).countP (Field.Named contentLengthName ·) = 1 := by
  exact ⟨by decide +kernel, by decide⟩

def countedResponse : Str :=
  lit ['H','T','T','P','/','1','.','1',' ','2','0','0',' ','\r','\n'] ++
  (contentLengthName ++ lit [':','4','\r','\n']) ++
  (ch 'C' :: contentLengthTail ++ lit [':','4','\r','\n']) ++ lit ['\r','\n']

theorem countedResponse_counted :
    ∃ resp, parseResponse countedResponse = .complete resp 53 ∧ resp.contentLengthCount = 2 ∧
      resp.hasContentLength = true ∧ IsDecimal (lit ['4']) resp.contentLength := by
  have hend : (parseResponse countedResponse).lengthCount = some (53, 2) := by decide +kernel
  cases hp : parseResponse countedResponse with
  | incomplete => rw [hp] at hend; cases hend
  | error => rw [hp] at hend; cases hend
  | complete resp h =>
    rw [hp] at hend
    obtain ⟨rfl, hcount⟩ : h = 53 ∧ resp.contentLengthCount = 2 := by
      simpa [ResponseResult.lengthCount] using hend
    have hlength := response_length hp
    obtain ⟨-, hhas, hdec⟩ := hlength.mpr (.inl (by decide))
    exact ⟨resp, rfl, hcount, hhas.mpr (by decide), hdec _ List.mem_cons_self (by decide)⟩

end Rut.Http
