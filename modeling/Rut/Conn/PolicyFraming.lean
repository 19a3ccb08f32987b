import Rut.Conn.PreserveHost

/-!
# Framing of rewritten requests

Under every policy the request that is forwarded has one host and at most one length, which is that of its body, no field
that could be read as another framing, and otherwise fields of the client in their order.
-/

namespace Rut.Conn

open Http Lib

def isContentLength (f : RawField) : Bool := requestPolicyNameEq f.name contentLengthName

def hopNames : List Str := [transferEncodingName, connectionName, keepAliveName, expectName, upgradeName]

/-- Fields that are copied from the client. The policy that keeps the host rewrites two of them. -/
def isCopied (policyId : UInt16) (f : RawField) : Bool :=
  !isHost f && !isContentLength f && !(requestPolicyPreservesHost policyId && (isTe f || isXfp f))

def SameField (policyId : UInt16) (g f : RawField) : Prop :=
  g.name = (if requestPolicyPreservesHost policyId then lower f.name else f.name) ∧ g.field.value = f.field.value

/-- The fields `out` written for the fields `fs` of a request with a body of `bodyLen` bytes. -/
structure PolicyFramed (endpoint : Endpoint) (policyId : UInt16) (fs out : List RawField) (bodyLen : Nat) : Prop where
  host : ∃ h, out.filter isHost = [h] ∧
    if requestPolicyPreservesHost policyId then ∃ g, fs.filter isHost = [g] ∧ h.field.value = g.field.value
    else h.field.value = endpoint.authority
  length : (fs.filter isContentLength = [] ∧ out.filter isContentLength = []) ∨
    ∃ f g, fs.filter isContentLength = [f] ∧ out.filter isContentLength = [g] ∧ IsDecimal g.field.value bodyLen
  hop : ∀ g ∈ out, lower g.name ∉ hopNames
  copied : ∃ kept : List RawField, kept.Sublist fs ∧
    List.Forall₂ (SameField policyId) (out.filter (isCopied policyId)) kept

/-! ## What the parser says of the length -/

lemma headFields_of_grammar {head target m v fs}
    (h : RequestGrammar head m target v fs) : headFields head = fs.map RawField.field := by
  obtain ⟨ps, rfl⟩ := exists_parts_of_fields h.name_ne h.name_token h.raw_value
  have htarget : ∀ c ∈ target, c ≠ ch ' ' ∧ tableAt kUriTable c = true := by
    intro c hc
    refine ⟨?_, h.target_uri c hc⟩
    rintro rfl
    have huri := h.target_uri _ hc
    cases huri
  let l : RequestLine := ⟨m, target, v, h.target_ne, htarget⟩
  have hhead : head = l.bytes ++ ps.flatMap HeaderParts.bytes ++ [ch '\r', ch '\n'] := by
    rw [h.bytes, headBytes, flatMap_rawField]
    simp [l, RequestLine.bytes]
  rw [hhead, headFields_head, map_rawField_field, List.map_map]
  rfl

lemma bodyLength_of_parse {b req h fs} (hp : parse b = .complete req h)
    (hg : RequestGrammar (b.take h) req.method req.path req.version fs) :
    (req.hasContentLength = true ↔ ∃ f ∈ fs, isContentLength f = true) ∧
      (∀ f ∈ fs, isContentLength f = true → IsDecimal f.field.value (PolicyConn.bodyLength req)) ∧
      PolicyConn.bodyLength req < 2 ^ 32 := by
  obtain ⟨req₀, te, hreq, hframed, -⟩ := parse_framed hp
  have hhas : req.hasContentLength = true ↔ ∃ f ∈ headFields (b.take h), f.Named contentLengthName := by
    rw [hreq]
    exact hframed.length.has_iff
  have hvalue : ∀ f ∈ headFields (b.take h), f.Named contentLengthName → IsDecimal f.value req.contentLength := by
    rw [hreq]
    exact hframed.length.length_eq
  rw [headFields_of_grammar hg] at hhas hvalue
  have hnamed : ∀ f : RawField, f.field.Named contentLengthName ↔ isContentLength f = true := by
    intro f
    rw [isContentLength, requestPolicyNameEq_iff, lower_contentLengthName]
    rfl
  have hhas' : req.hasContentLength = true ↔ ∃ f ∈ fs, isContentLength f = true := by
    rw [hhas]
    simp only [List.mem_map, exists_exists_and_eq_and, ← hnamed]
  have hvalue' : ∀ f ∈ fs, isContentLength f = true → IsDecimal f.field.value (PolicyConn.bodyLength req) := by
    intro f hf hname
    rw [PolicyConn.bodyLength, if_pos (hhas'.2 ⟨f, hf, hname⟩)]
    exact hvalue f.field (List.mem_map_of_mem hf) ((hnamed f).2 hname)
  refine ⟨hhas', hvalue', ?_⟩
  by_cases hcl : req.hasContentLength = true
  · obtain ⟨f, hf, hname⟩ := hhas'.1 hcl
    exact (hvalue' f hf hname).fits
  · rw [PolicyConn.bodyLength, if_neg hcl]
    decide

/-! ## Values without blanks -/

lemma isOws_digit : ∀ c : UInt8, ch '0' ≤ c ∧ c ≤ ch '9' → isOws c = false := by decide +kernel

lemma decimalDigits_plain (n : Nat) : ∀ c ∈ decimalDigits n, isOws c = false :=
  fun c hc => isOws_digit c ((decimalDigits_spec n).1 c hc)

lemma trimOws_authority (e : Endpoint) : trimOws e.authority = e.authority := by
  refine trimOws_plain fun c hc => ?_
  have hdot : isOws (ch '.') = false := by decide
  have hcolon : isOws (ch ':') = false := by decide
  rw [Endpoint.authority, Endpoint.octets] at hc
  obtain hc | hc := List.mem_append.1 hc
  · simp only [List.map_cons, List.map_nil, intercalate_cons, List.mem_append, List.mem_flatMap] at hc
    obtain hc | ⟨s, hs, hc⟩ := hc
    · exact decimalDigits_plain _ c hc
    · obtain hc | hc := hc
      · rw [List.mem_singleton.1 hc]
        exact hdot
      · simp only [List.mem_cons, List.not_mem_nil, or_false] at hs
        obtain rfl | rfl | rfl := hs
        · exact decimalDigits_plain _ c hc
        · exact decimalDigits_plain _ c hc
        · exact decimalDigits_plain _ c hc
  · split_ifs at hc
    · cases hc
    · obtain rfl | hc := List.mem_cons.1 hc
      · exact hcolon
      · exact decimalDigits_plain _ c hc

/-! ## The fixed policies -/

section fixed
variable {endpoint : Endpoint} {policyId : UInt16} {req : ParsedRequest} {fs : List RawField} {bodyLen : Nat} {f g : RawField}

def copiedLine (policyId : UInt16) (f : RawField) : Option RawField :=
  if fixedDrops f.name then none
  else some (spacedField f.name (if requestPolicyTrimsSpPreservesHtab policyId then trimSp f.raw else trimOws f.raw))

lemma copiedLine_some (h : copiedLine policyId f = some g) :
    g.name = f.name ∧ g.field.value = f.field.value ∧ fixedDrops g.name = false := by
  obtain ⟨hdrop, h⟩ := Option.ite_none_left_eq_some.1 h
  cases h
  refine ⟨rfl, ?_, Bool.eq_false_of_not_eq_true hdrop⟩
  split_ifs
  · exact trimOws_trimSp f.raw
  · exact trimOws_trimOws f.raw

lemma not_hop (hte : requestPolicyNameEq f.name transferEncodingName = false)
    (hconn : requestPolicyNameEq f.name connectionName = false) (hka : requestPolicyNameEq f.name keepAliveName = false)
    (hexpect : requestPolicyNameEq f.name expectName = false) (hupgrade : requestPolicyNameEq f.name upgradeName = false) :
    lower f.name ∉ hopNames := by
  have hne : ∀ {q : Str}, requestPolicyNameEq f.name q = false → lower f.name ≠ lower q := by
    intro q hq heq
    rw [requestPolicyNameEq_iff.2 heq] at hq
    cases hq
  simp only [hopNames, List.mem_cons, List.not_mem_nil, or_false]
  rintro (hmem | hmem | hmem | hmem | hmem)
  · exact hne hte hmem
  · exact hne hconn hmem
  · exact hne hka hmem
  · exact hne hexpect hmem
  · exact hne hupgrade hmem

lemma fixedDrops_false (h : fixedDrops f.name = false) :
    isHost f = false ∧ isContentLength f = false ∧ lower f.name ∉ hopNames := by
  simp only [fixedDrops, Bool.or_eq_false_iff] at h
  obtain ⟨⟨⟨⟨⟨⟨⟨hcl, hhost⟩, hconn⟩, hka⟩, -⟩, hexpect⟩, hupgrade⟩, hte⟩ := h
  exact ⟨hhost, hcl, not_hop hte hconn hka hexpect hupgrade⟩

lemma fixedLine_eq (f : RawField) : fixedLine policyId bodyLen f =
    if isContentLength f && !requestPolicyPlacesContentLengthAfterHost policyId then
      some (spacedField contentLengthHeader (decimalDigits bodyLen)) else copiedLine policyId f := rfl

def lengthField (bodyLen : Nat) : RawField := spacedField contentLengthHeader (decimalDigits bodyLen)

lemma lengthField_names : isContentLength (lengthField bodyLen) = true ∧ isHost (lengthField bodyLen) = false ∧
    isCopied policyId (lengthField bodyLen) = false ∧ lower (lengthField bodyLen).name ∉ hopNames := by
  have hcl : isContentLength (lengthField bodyLen) = true := by
    change requestPolicyNameEq contentLengthHeader contentLengthName = true
    decide
  refine ⟨hcl, ?_, by rw [isCopied, hcl, Bool.not_true, Bool.and_false, Bool.false_and], ?_⟩
  · change requestPolicyNameEq contentLengthHeader hostName = false
    decide
  · change lower contentLengthHeader ∉ hopNames
    decide

lemma hostField_names {value} : isHost (spacedField hostHeader value) = true ∧
    isContentLength (spacedField hostHeader value) = false ∧ isCopied policyId (spacedField hostHeader value) = false ∧
    lower (spacedField hostHeader value).name ∉ hopNames := by
  have hhost : isHost (spacedField hostHeader value) = true := by
    change requestPolicyNameEq hostHeader hostName = true
    decide
  refine ⟨hhost, ?_, by rw [isCopied, hhost, Bool.not_true, Bool.false_and, Bool.false_and], ?_⟩
  · change requestPolicyNameEq hostHeader contentLengthName = false
    decide
  · change lower hostHeader ∉ hopNames
    decide

lemma fixedLines_filter : (fs.filterMap (fixedLine policyId bodyLen)).filter isHost = [] ∧
    (fs.filterMap (fixedLine policyId bodyLen)).filter isContentLength =
      (if requestPolicyPlacesContentLengthAfterHost policyId then []
        else (fs.filter isContentLength).map fun _ => lengthField bodyLen) ∧
    (requestPolicyPreservesHost policyId = false →
      (fs.filterMap (fixedLine policyId bodyLen)).filter (isCopied policyId) = fs.filterMap (copiedLine policyId)) := by
  obtain ⟨hcl', hhost', hcopied', -⟩ := @lengthField_names policyId bodyLen
  induction fs with
  | nil => simp
  | cons f fs ih =>
    obtain ⟨ihhost, ihcl, ihcopied⟩ := ih
    have hcopyCl : isContentLength f = true → copiedLine policyId f = none := by
      intro hcl
      rw [copiedLine, if_pos]
      rw [fixedDrops, show requestPolicyNameEq f.name contentLengthName = true from hcl]
      rfl
    rw [List.filterMap_cons, fixedLine_eq, List.filterMap_cons, List.filter_cons]
    cases hcl : isContentLength f with
    | true =>
      rw [hcopyCl hcl, if_pos rfl]
      cases hafter : requestPolicyPlacesContentLengthAfterHost policyId with
      | true =>
        rw [hafter, if_pos rfl] at ihcl
        exact ⟨ihhost, ihcl, ihcopied⟩
      | false =>
        rw [hafter, if_neg Bool.false_ne_true] at ihcl
        have hlength : spacedField contentLengthHeader (decimalDigits bodyLen) = lengthField bodyLen := rfl
        simp only [Bool.not_false, Bool.and_true, ↓reduceIte, hlength, List.filter_cons, hhost', hcl', hcopied', ihhost,
          ihcl, Bool.false_eq_true, List.map_cons, true_and]
        exact ihcopied
    | false =>
      rw [Bool.false_and, if_neg Bool.false_ne_true, if_neg Bool.false_ne_true]
      cases hcopy : copiedLine policyId f with
      | none => exact ⟨ihhost, ihcl, ihcopied⟩
      | some g =>
        obtain ⟨hhost, hcl, -⟩ := fixedDrops_false (copiedLine_some hcopy).2.2
        simp only [List.filter_cons, hhost, hcl, Bool.false_eq_true, ↓reduceIte]
        refine ⟨ihhost, ihcl, fun hpreserves => ?_⟩
        rw [ihcopied hpreserves, isCopied, hhost, hcl, hpreserves]
        rfl

lemma fixed_framed (hpreserves : requestPolicyPreservesHost policyId = false)
    (hcount : fs.countP (fun f => requestPolicyNameEq f.name contentLengthName) ≤ 1)
    (hhas : req.hasContentLength = true ↔ ∃ f ∈ fs, isContentLength f = true)
    (hfits : PolicyConn.bodyLength req < 2 ^ 32) :
    PolicyFramed endpoint policyId fs (fixedFields endpoint policyId req fs) (PolicyConn.bodyLength req) := by
  obtain ⟨hfilterHost, hfilterCl, hfilterCopied⟩ := @fixedLines_filter policyId fs (PolicyConn.bodyLength req)
  obtain ⟨hcl', hhost', hcopied', hhop'⟩ := @lengthField_names policyId (PolicyConn.bodyLength req)
  obtain ⟨hhostHost, hhostCl, hhostCopied, hhostHop⟩ := @hostField_names policyId endpoint.authority
  have hlength : spacedField contentLengthHeader (decimalDigits (PolicyConn.bodyLength req)) =
      lengthField (PolicyConn.bodyLength req) := rfl
  have hdecimal : IsDecimal (lengthField (PolicyConn.bodyLength req)).field.value (PolicyConn.bodyLength req) := by
    rw [lengthField, spacedField_value, trimOws_plain (decimalDigits_plain _)]
    exact isDecimal_decimalDigits hfits
  rw [List.countP_eq_length_filter] at hcount
  refine ⟨⟨spacedField hostHeader endpoint.authority, ?_, ?_⟩, ?_, ?_, ?_⟩
  · rw [fixedFields, hlength, List.filter_cons_of_pos hhostHost, List.filter_append, hfilterHost]
    split_ifs <;> simp [hhost']
  · rw [hpreserves, if_neg Bool.false_ne_true, spacedField_value, trimOws_authority]
  · rw [fixedFields, hlength, List.filter_cons_of_neg (by rw [hhostCl]; exact Bool.false_ne_true), List.filter_append,
      hfilterCl]
    cases hlines : fs.filter isContentLength with
    | nil =>
      have hno : req.hasContentLength = false := by
        refine Bool.eq_false_of_not_eq_true fun h => ?_
        obtain ⟨f, hf, hname⟩ := hhas.1 h
        have hmem := List.mem_filter.2 ⟨hf, hname⟩
        rw [hlines] at hmem
        cases hmem
      rw [hno, Bool.and_false]
      exact .inl ⟨rfl, by simp⟩
    | cons f rest =>
      obtain rfl : rest = [] := by
        change (fs.filter isContentLength).length ≤ 1 at hcount
        rw [hlines, List.length_cons] at hcount
        exact List.length_eq_zero_iff.1 (by omega)
      obtain ⟨hf, hname⟩ := List.mem_filter.1 (hlines ▸ List.mem_cons_self : f ∈ fs.filter isContentLength)
      rw [hhas.2 ⟨f, hf, hname⟩, Bool.and_true]
      refine .inr ⟨f, lengthField (PolicyConn.bodyLength req), rfl, ?_, hdecimal⟩
      cases requestPolicyPlacesContentLengthAfterHost policyId <;> simp [hcl']
  · intro g hg
    obtain rfl | hg := List.mem_cons.1 hg
    · exact hhostHop
    obtain hg | hg := List.mem_append.1 hg
    · split_ifs at hg
      · rw [List.mem_singleton.1 hg]
        exact hhop'
      · cases hg
    · obtain ⟨f, -, hline⟩ := List.mem_filterMap.1 hg
      rw [fixedLine_eq, hlength] at hline
      split_ifs at hline
      · rw [← Option.some.inj hline]
        exact hhop'
      · exact (fixedDrops_false (copiedLine_some hline).2.2).2.2
  · obtain ⟨kept, hsub, hall⟩ := filterMap_forall₂ (copiedLine policyId) fs
    refine ⟨kept, hsub, ?_⟩
    have hfilter : (fixedFields endpoint policyId req fs).filter (isCopied policyId) =
        fs.filterMap (copiedLine policyId) := by
      rw [fixedFields, hlength, List.filter_cons_of_neg (by rw [hhostCopied]; exact Bool.false_ne_true),
        List.filter_append, hfilterCopied hpreserves]
      split_ifs <;> simp [hcopied']
    rw [hfilter]
    refine hall.imp fun g f h => ?_
    obtain ⟨hname, hvalue, -⟩ := copiedLine_some h.2
    exact ⟨by rw [hpreserves, if_neg Bool.false_ne_true, hname], hvalue⟩

end fixed

/-! ## The policy that keeps the host -/

section preserved
variable {endpoint : Endpoint} {policyId : UInt16} {fs : List RawField} {s : HostScan} {bodyLen : Nat} {f g : RawField}

open PolicyConn

lemma preserved_filter {p} (hhost : p (spacedField hostName s.hostValue) = false)
    (hproto : p xfpHttp = false) (hp : ∀ f g, keptLine fs f = some g → p g = p f)
    (hte : ∀ f, p f = true → isTe f = false) :
    (preservedFields fs s).filter p = (fs.filter p).filterMap (keptLine fs) := by
  rw [preservedFields, List.filter_cons_of_neg (by rw [hhost]; exact Bool.false_ne_true), List.filter_append,
    filter_emittedLines hp hte]
  split_ifs <;> simp [hproto]

lemma Scanned.host_once (h : Scanned fs s) : ∃ g, fs.filter isHost = [g] ∧
    (preservedFields fs s).filter isHost = [spacedField hostName s.hostValue] ∧ s.hostValue = g.field.value := by
  obtain ⟨-, hcount, hvalue, -⟩ := HostScan.fields_some h.scan
  rw [h.host] at hcount
  rw [Nat.zero_add, List.countP_eq_length_filter] at hcount
  obtain ⟨g, hg⟩ := List.length_eq_one_iff.1 hcount.symm
  rw [hg] at hvalue
  refine ⟨g, hg, ?_, hvalue⟩
  have hself : isHost (spacedField hostName s.hostValue) = true := beq_self_eq_true _
  have hnone : (emittedLines fs s.anyTeTrailers false fs).filter isHost = [] := by
    have hwritten := @filter_emittedLines fs fs s.anyTeTrailers false isHost (fun f g hkept => nameEq_kept hkept _)
      fun f hf => ((names_apart f).1 hf).2.1
    rw [hwritten, List.filterMap_eq_nil_iff]
    intro f hf
    have hdrop : dropFixed f.name = true := by
      rw [dropFixed, show requestPolicyNameEq f.name hostName = true from (List.mem_filter.1 hf).2]
      rfl
    rw [keptLine, hdrop, Bool.true_or, if_pos rfl]
  have hproto : isHost xfpHttp = false := by decide
  rw [preservedFields, List.filter_cons_of_pos hself, List.filter_append, hnone]
  split_ifs <;> simp [hproto]

lemma isContentLength_other (h : isContentLength f = true) : isTe f = false ∧ dropFixed f.name = false := by
  have hname := requestPolicyNameEq_iff.1 h
  rw [isTe, nameEq_congr hname, dropFixed_congr hname]
  decide

lemma dropFixed_false (h : dropFixed f.name = false) (hte : requestPolicyNameEq f.name transferEncodingName = false) :
    lower f.name ∉ hopNames := by
  simp only [dropFixed, Bool.or_eq_false_iff] at h
  obtain ⟨⟨⟨⟨⟨⟨-, hconn⟩, hka⟩, -⟩, hexpect⟩, hupgrade⟩, -⟩ := h
  exact not_hop hte hconn hka hexpect hupgrade

lemma Scanned.framed (h : Scanned fs s) (hpreserves : requestPolicyPreservesHost policyId = true)
    (hcount : fs.countP (fun f => requestPolicyNameEq f.name contentLengthName) ≤ 1)
    (hte : ∀ f ∈ fs, requestPolicyNameEq f.name transferEncodingName = false)
    (hvalue : ∀ f ∈ fs, isContentLength f = true → IsDecimal f.field.value bodyLen) :
    PolicyFramed endpoint policyId fs (preservedFields fs s) bodyLen := by
  rw [List.countP_eq_length_filter] at hcount
  refine ⟨?_, ?_, ?_, ?_⟩
  · obtain ⟨g, hg, hout, hhost⟩ := h.host_once
    refine ⟨_, hout, ?_⟩
    rw [hpreserves, if_pos rfl]
    refine ⟨g, hg, ?_⟩
    rw [spacedField_value, hhost]
    exact trimOws_trimOws g.raw
  · have hfilter : (preservedFields fs s).filter isContentLength =
        (fs.filter isContentLength).filterMap (keptLine fs) :=
      preserved_filter (by change requestPolicyNameEq hostName contentLengthName = false; decide)
        (by decide) (fun f g hkept => nameEq_kept hkept _) fun f hf => (isContentLength_other hf).1
    rw [hfilter]
    cases hlines : fs.filter isContentLength with
    | nil => exact .inl ⟨rfl, rfl⟩
    | cons f rest =>
      obtain rfl : rest = [] := by
        change (fs.filter isContentLength).length ≤ 1 at hcount
        rw [hlines, List.length_cons] at hcount
        exact List.length_eq_zero_iff.1 (by omega)
      obtain ⟨hf, hname⟩ := List.mem_filter.1 (hlines ▸ List.mem_cons_self : f ∈ fs.filter isContentLength)
      have hlower : lower f.name = contentLengthName := (requestPolicyNameEq_iff.1 hname).trans lower_contentLengthName
      obtain ⟨g, hkept⟩ : ∃ g, keptLine fs f = some g := by
        refine keptLine_isSome (isContentLength_other hname).2 (Bool.eq_false_of_not_eq_true fun hno => ?_)
        refine h.not_nominated ?_ (nameNominated_iff.1 hno)
        rw [hlower]
        decide
      refine .inr ⟨f, g, rfl, by simp [hkept], ?_⟩
      have hxfp : isXfp f = false := by
        rw [isXfp, nameEq_congr (requestPolicyNameEq_iff.1 hname)]
        decide
      rw [(keptLine_some hkept).2.2.2.1 hxfp]
      exact hvalue f hf hname
  · intro g hg
    obtain rfl | rfl | rfl | ⟨f, hf, -, hkept⟩ := mem_preservedFields hg
    · change lower hostName ∉ hopNames
      decide
    · decide
    · decide
    · rw [keptLine_name hkept]
      exact dropFixed_false (keptLine_some hkept).2.1 (hte f hf)
  · have hfilter : (preservedFields fs s).filter (isCopied policyId) =
        (fs.filter (isCopied policyId)).filterMap (keptLine fs) := by
      refine preserved_filter ?_ ?_ (fun f g hkept => ?_) fun f hf => ?_
      · have hself : isHost (spacedField hostName s.hostValue) = true := beq_self_eq_true _
        rfl
      · have hself : isXfp xfpHttp = true := by decide
        rw [isCopied, hself, hpreserves, Bool.or_true]
        simp
      · simp only [isCopied, isHost, isContentLength, isTe, isXfp, nameEq_kept hkept]
      · rw [isCopied, hpreserves] at hf
        simpa using (by simpa using hf : (_ ∧ _) ∧ isTe f = false ∧ _).2.1
    obtain ⟨kept, hsub, hall⟩ := filterMap_forall₂ (keptLine fs) (fs.filter (isCopied policyId))
    refine ⟨kept, hsub.trans List.filter_sublist, ?_⟩
    rw [hfilter]
    refine hall.imp fun g f hf => ?_
    have hcopied := (List.mem_filter.1 hf.1).2
    rw [isCopied, hpreserves] at hcopied
    have hxfp : isXfp f = false := (by simpa using hcopied : (_ ∧ _) ∧ _ ∧ isXfp f = false).2.2
    obtain ⟨hname, -, -, hsame, -⟩ := keptLine_some hf.2
    exact ⟨by rw [hpreserves, if_pos rfl, hname], hsame hxfp⟩

end preserved

namespace PolicyConn

variable {cap sendCap : Nat}

lemma commitRequest_false {c : PolicyConn cap sendCap} {policyId req o n} (h : (c.commitRequest policyId req o n).1 = false) :
    ∃ scratch, (c.commitRequest policyId req o n).2 = { c with sendBuf := scratch } := by
  obtain hrefused | ⟨c', hc, -⟩ := @commitRequest_cases cap sendCap c policyId req o n
  · exact ⟨Output.empty sendCap, by rw [hrefused]; rfl⟩
  · rw [hc] at h
    cases h

lemma applyPreserve_false {c : PolicyConn cap sendCap} {policyId}
    (h : (c.applyPreserveHostLowercaseRequestPolicy policyId).1 = false) :
    ∃ scratch, (c.applyPreserveHostLowercaseRequestPolicy policyId).2 = { c with sendBuf := scratch } := by
  rw [applyPreserveHostLowercaseRequestPolicy] at h ⊢
  split_ifs at h ⊢
  · exact ⟨c.sendBuf, rfl⟩
  · exact ⟨c.sendBuf, rfl⟩
  · cases hp : parse c.recvBuf.bytes with
    | incomplete => exact ⟨_, rfl⟩
    | error => exact ⟨_, rfl⟩
    | complete req headerEnd =>
      rw [hp] at h
      dsimp only at h ⊢
      cases hrequest : c.preservedRequest policyId req headerEnd with
      | none => exact ⟨_, rfl⟩
      | some r =>
        rw [hrequest] at h
        exact commitRequest_false h

lemma applyFixed_true {c : PolicyConn cap sendCap} {endpoint policyId} (hne : policyId ≠ 0)
    (hpreserves : requestPolicyPreservesHost policyId = false) (h : (c.applyRequestPolicy endpoint policyId).1 = true) :
    ∃ req headerEnd fs body suffix, parse c.recvBuf.bytes = .complete req headerEnd ∧
      RequestGrammar (c.recvBuf.bytes.take headerEnd) req.method req.path req.version fs ∧
      fs.countP (fun f => requestPolicyNameEq f.name contentLengthName) ≤ 1 ∧
      Rewritten c (c.applyRequestPolicy endpoint policyId).2 req fs (fixedFields endpoint policyId req fs) body suffix := by
  rw [applyRequestPolicy, if_neg hne, hpreserves, if_neg Bool.false_ne_true] at h ⊢
  by_cases hbody : c.inspectRequestPolicyBody policyId ≠ .complete
  · rw [if_pos hbody] at h
    cases h
  rw [if_neg hbody] at h ⊢
  by_cases htab : (requestPolicyTrimsSpPreservesHtab policyId && c.refusesHtab) = true
  · rw [if_pos htab] at h
    cases h
  rw [if_neg htab] at h ⊢
  obtain ⟨hsupported, req, headerEnd, lines, hp, hlines, hcount⟩ := inspect_complete (not_not.1 hbody)
  obtain ⟨fs, hg, hheaders⟩ := grammar_of_parse hp
  obtain ⟨-, -, -, hlines'⟩ := headLines_eq hg
  obtain rfl : lines = fs := Option.some.inj (hlines.symm.trans hlines')
  rw [hp] at h ⊢
  dsimp only at h ⊢
  cases hrequest : c.fixedRequest endpoint policyId req headerEnd with
  | none =>
    rw [hrequest] at h
    cases h
  | some r =>
    rw [hrequest] at h
    obtain ⟨body, suffix, hrewritten⟩ :=
      (fixedRequest_serialized hsupported hg hrequest).rewritten hp hg hheaders (Prod.ext h rfl)
    exact ⟨req, headerEnd, lines, body, suffix, rfl, hg, hcount, hrewritten⟩

lemma applyRequestPolicy_false {c : PolicyConn cap sendCap} {endpoint policyId}
    (h : (c.applyRequestPolicy endpoint policyId).1 = false) :
    ∃ scratch, (c.applyRequestPolicy endpoint policyId).2 = { c with sendBuf := scratch } := by
  rw [applyRequestPolicy] at h ⊢
  split_ifs at h ⊢
  · exact applyPreserve_false h
  · exact ⟨c.sendBuf, rfl⟩
  · exact ⟨c.sendBuf, rfl⟩
  · cases hp : parse c.recvBuf.bytes with
    | incomplete => exact ⟨_, rfl⟩
    | error => exact ⟨_, rfl⟩
    | complete req headerEnd =>
      rw [hp] at h
      dsimp only at h ⊢
      cases hrequest : c.fixedRequest endpoint policyId req headerEnd with
      | none => exact ⟨_, rfl⟩
      | some r =>
        rw [hrequest] at h
        exact commitRequest_false h

/-- A policy that is applied emits one unambiguously framed request, and one that is refused leaves all but the scratch
buffer as it was. -/
theorem request_policy_framed (c : PolicyConn cap sendCap) (endpoint : Endpoint) (policyId : UInt16) :
    ((c.applyRequestPolicy endpoint policyId).1 = true → policyId ≠ 0 →
      ∃ req fs out body suffix, Rewritten c (c.applyRequestPolicy endpoint policyId).2 req fs out body suffix ∧
        PolicyFramed endpoint policyId fs out body.length) ∧
    ((c.applyRequestPolicy endpoint policyId).1 = false →
      ∃ scratch, (c.applyRequestPolicy endpoint policyId).2 = { c with sendBuf := scratch }) := by
  refine ⟨fun h hne => ?_, applyRequestPolicy_false⟩
  cases hpreserves : requestPolicyPreservesHost policyId with
  | true =>
    have heq : c.applyRequestPolicy endpoint policyId = c.applyPreserveHostLowercaseRequestPolicy policyId := by
      rw [applyRequestPolicy, if_neg hne, if_pos hpreserves]
    rw [heq] at h ⊢
    obtain ⟨req, headerEnd, fs, s, body, suffix, hp, hg, hscanned, hcount, hte, hrewritten⟩ := applyPreserve_true h
    refine ⟨req, fs, _, body, suffix, hrewritten, ?_⟩
    rw [hrewritten.body_length]
    exact hscanned.framed hpreserves hcount hte (bodyLength_of_parse hp hg).2.1
  | false =>
    obtain ⟨req, headerEnd, fs, body, suffix, hp, hg, hcount, hrewritten⟩ := applyFixed_true hne hpreserves h
    refine ⟨req, fs, _, body, suffix, hrewritten, ?_⟩
    rw [hrewritten.body_length]
    obtain ⟨hhas, -, hfits⟩ := bodyLength_of_parse hp hg
    exact fixed_framed hpreserves hcount hhas hfits

end PolicyConn

end Rut.Conn
