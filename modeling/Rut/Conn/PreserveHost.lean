import Rut.Conn.PolicyHead

/-!
# Sanitised heads of the policy that keeps the host

Three passes look at the lines of a head: one finds hosts, duplicates and protected nominations, one asks of every name
whether it is nominated, and one writes. What they agree on is stated over the fields of the head that was received and
of the head that is written.
-/

set_option linter.all false
namespace Rut.Conn

open Http Lib

/-! ## The first scan -/

def isHost (f : RawField) : Bool := requestPolicyNameEq f.name hostName
def isConnectionField (f : RawField) : Bool := requestPolicyNameEq f.name connectionName

/-- A TE line with the token `trailers`. -/
def hasTrailers (f : RawField) : Bool := isTe f && requestPolicyCommaValueHasToken (trimOws f.raw) trailersToken

def nominatesProtected (f : RawField) : Bool :=
  isConnectionField f && (requestPolicyTokens (trimOws f.raw)).any requestPolicyConnectionNominationIsProtected

section scan
variable {s s' : HostScan} {f : RawField} {fs : List RawField}

lemma names_apart (f : RawField) : (isHost f = true → isXfp f = false ∧ isTe f = false ∧ isConnectionField f = false) ∧
    (isXfp f = true → isTe f = false ∧ isConnectionField f = false) ∧ (isTe f = true → isConnectionField f = false) := by
  refine ⟨fun h => ?_, fun h => ?_, fun h => ?_⟩
  · have hname := nameEq_congr (requestPolicyNameEq_iff.1 h)
    rw [isXfp, isTe, isConnectionField, hname]
    decide
  · have hname := nameEq_congr (requestPolicyNameEq_iff.1 h)
    rw [isTe, isConnectionField, hname]
    decide
  · have hname := nameEq_congr (requestPolicyNameEq_iff.1 h)
    rw [isConnectionField, hname]
    decide

lemma HostScan.field_some (h : s.field f = some s') :
    nominatesProtected f = false ∧ s'.hostCount = s.hostCount + (isHost f).toNat ∧
      s'.hostValue = (if isHost f then trimOws f.raw else s.hostValue) ∧ s'.xfpCount = s.xfpCount + (isXfp f).toNat ∧
      s'.anyTeTrailers = (s.anyTeTrailers || hasTrailers f) ∧ s'.inlineSeen = s.inlineSeen.mark f.name := by
  obtain ⟨happart, hxfpapart, hteapart⟩ := names_apart f
  change (if isHost f = true then _ else if isXfp f = true then _ else if isTe f = true then _ else
    if nominatesProtected f = true then _ else _) = _ at h
  rw [hasTrailers]
  by_cases hhost : isHost f = true
  · obtain ⟨hxfp, hte, hconn⟩ := happart hhost
    rw [if_pos hhost] at h
    cases h
    simp [nominatesProtected, hhost, hxfp, hte, hconn]
  rw [if_neg hhost] at h
  by_cases hxfp : isXfp f = true
  · obtain ⟨hte, hconn⟩ := hxfpapart hxfp
    rw [if_pos hxfp] at h
    cases h
    simp [nominatesProtected, hhost, hxfp, hte, hconn]
  rw [if_neg hxfp] at h
  by_cases hte : isTe f = true
  · rw [if_pos hte] at h
    cases h
    simp [nominatesProtected, hhost, hxfp, hte, hteapart hte]
  rw [if_neg hte] at h
  obtain ⟨hprotected, h⟩ := Option.ite_none_left_eq_some.1 h
  cases h
  simp [hhost, hxfp, hte, hprotected]

lemma HostScan.fields_some (h : fs.foldlM HostScan.field s = some s') :
    (∀ f ∈ fs, nominatesProtected f = false) ∧ s'.hostCount = s.hostCount + fs.countP isHost ∧
      s'.hostValue = ((fs.filter isHost).getLast?.map fun f => trimOws f.raw).getD s.hostValue ∧
      s'.xfpCount = s.xfpCount + fs.countP isXfp ∧ s'.anyTeTrailers = (s.anyTeTrailers || fs.any hasTrailers) ∧
      s'.inlineSeen = fs.foldl (fun s f => s.mark f.name) s.inlineSeen := by
  induction fs generalizing s with
  | nil =>
    cases h
    simp
  | cons f fs ih =>
    obtain ⟨s₁, hone, h⟩ := Option.bind_eq_some_iff.1 h
    obtain ⟨hprotected, hcount, hvalue, hxfp, hte, hinline⟩ := field_some hone
    obtain ⟨hprotected', hcount', hvalue', hxfp', hte', hinline'⟩ := ih h
    refine ⟨?_, ?_, ?_, ?_, ?_, ?_⟩
    · intro g hg
      obtain rfl | hg := List.mem_cons.1 hg
      · exact hprotected
      · exact hprotected' g hg
    · rw [hcount', hcount, List.countP_cons, Nat.add_assoc, Nat.add_comm (isHost f).toNat]
      cases isHost f <;> rfl
    · rw [hvalue', hvalue, List.filter_cons]
      cases hhost : isHost f with
      | false => rfl
      | true =>
        rw [if_pos rfl, if_pos rfl, List.getLast?_cons]
        cases (fs.filter isHost).getLast? <;> rfl
    · rw [hxfp', hxfp, List.countP_cons, Nat.add_assoc, Nat.add_comm (isXfp f).toNat]
      cases isXfp f <;> rfl
    · rw [hte', hte, List.any_cons, Bool.or_assoc]
    · rw [hinline', hinline, List.foldl_cons]

end scan

/-! ## Inline headers -/

section inline
variable {s : InlineSeen} {name : Str} {i : Nat} {fs : List RawField}

lemma InlineSeen.mark_seen : (s.mark name).seen i = (s.seen i || requestPolicyInlineRequestHeaderIndex name == some i) := by
  rw [mark]
  cases requestPolicyInlineRequestHeaderIndex name with
  | none => simp
  | some j =>
    by_cases hij : i = j
    · simp [hij]
    · simp [hij, Ne.symm hij]

lemma InlineSeen.mark_duplicated : (s.mark name).duplicated i =
    (s.duplicated i || (s.seen i && requestPolicyInlineRequestHeaderIndex name == some i)) := by
  rw [mark]
  cases requestPolicyInlineRequestHeaderIndex name with
  | none => simp
  | some j =>
    by_cases hij : i = j
    · cases hseen : s.seen j <;> simp [hij, hseen]
    · cases hseen : s.seen j <;> simp [hij, Ne.symm hij, hseen]

lemma InlineSeen.marks_duplicated (h : s.duplicated i = true) :
    (fs.foldl (fun s f => s.mark f.name) s).duplicated i = true := by
  induction fs generalizing s with
  | nil => exact h
  | cons f fs ih => exact ih (by rw [mark_duplicated, h, Bool.true_or])

lemma InlineSeen.marks_again (h : s.seen i = true) (hagain : ∃ f ∈ fs, requestPolicyInlineRequestHeaderIndex f.name = some i) :
    (fs.foldl (fun s f => s.mark f.name) s).duplicated i = true := by
  induction fs generalizing s with
  | nil =>
    obtain ⟨f, hf, -⟩ := hagain
    cases hf
  | cons f fs ih =>
    rw [List.foldl_cons]
    obtain ⟨g, hg, hindex⟩ := hagain
    obtain rfl | hg := List.mem_cons.1 hg
    · exact marks_duplicated (by simp [mark_duplicated, h, hindex])
    · exact ih (by rw [mark_seen, h, Bool.true_or]) ⟨g, hg, hindex⟩

lemma InlineSeen.marks_twice (h : 2 ≤ fs.countP fun f => requestPolicyInlineRequestHeaderIndex f.name == some i) :
    (fs.foldl (fun s f => s.mark f.name) s).duplicated i = true := by
  induction fs generalizing s with
  | nil => simp at h
  | cons f fs ih =>
    rw [List.foldl_cons]
    rw [List.countP_cons] at h
    cases hindex : requestPolicyInlineRequestHeaderIndex f.name == some i with
    | false => exact ih (by simpa [hindex] using h)
    | true =>
      have hagain : 0 < fs.countP fun f => requestPolicyInlineRequestHeaderIndex f.name == some i := by
        simp only [hindex, ↓reduceIte] at h
        omega
      obtain ⟨g, hg, hg'⟩ := List.countP_pos_iff.1 hagain
      exact marks_again (by rw [mark_seen, hindex, Bool.or_true]) ⟨g, hg, by simpa using hg'⟩

lemma inlineIndex_entry : ∀ entry ∈ kInlineRequestHeaders.zipIdx,
    requestPolicyInlineRequestHeaderIndex entry.1 = some entry.2 ∧ lower entry.1 = entry.1 :=
  List.all_iff_forall_prop.mp (by decide +kernel)

lemma inlineIndex_congr {a b} (h : lower a = lower b) :
    requestPolicyInlineRequestHeaderIndex a = requestPolicyInlineRequestHeaderIndex b := by
  rw [requestPolicyInlineRequestHeaderIndex, nameEq_congr h, requestPolicyInlineRequestHeaderIndex]

lemma nominated_of_duplicate {n} (hn : n ∈ kInlineRequestHeaders) (h : 2 ≤ fs.countP fun f => lower f.name == n)
    (hadmitted : inlineDuplicatesNominated fs (fs.foldl (fun s f => s.mark f.name) {}) = true) :
    nameNominated fs n = true := by
  obtain ⟨i, hi, rfl⟩ := List.mem_iff_getElem.1 hn
  have hentry : (kInlineRequestHeaders[i], i) ∈ kInlineRequestHeaders.zipIdx := by
    rw [List.mem_zipIdx_iff_getElem?]
    exact List.getElem?_eq_getElem hi
  obtain ⟨hindex, hlower⟩ := inlineIndex_entry _ hentry
  have htwice : 2 ≤ fs.countP fun f => requestPolicyInlineRequestHeaderIndex f.name == some i := by
    refine h.trans (List.countP_mono_left fun f _ hf => ?_)
    rw [beq_iff_eq] at hf ⊢
    rw [← hindex]
    exact inlineIndex_congr (hf.trans hlower.symm)
  have hall := List.all_eq_true.1 hadmitted _ hentry
  rwa [InlineSeen.marks_twice htwice, Bool.not_true, Bool.false_or] at hall

end inline

/-! ## What is written -/

lemma lower_contentLengthName : lower contentLengthName = contentLengthName := by decide
lemma lower_xForwardedProtoName : lower xForwardedProtoName = xForwardedProtoName := by decide

section emitted
variable {lines fs : List RawField} {anyTeTrailers seen : Bool} {f g : RawField}

lemma keptLine_some (h : keptLine lines f = some g) :
    g.name = lower f.name ∧ dropFixed f.name = false ∧ nameNominated lines f.name = false ∧
      (isXfp f = false → g.field.value = f.field.value) ∧
      (isXfp f = true → lower g.field.value = httpScheme ∨ lower g.field.value = httpsScheme) := by
  obtain ⟨hdrop, h⟩ := Option.ite_none_left_eq_some.1 h
  obtain ⟨hfixed, hnominated⟩ : dropFixed f.name = false ∧ nameNominated lines f.name = false := by
    simpa [not_or] using hdrop
  have hvalue : ∀ name, (spacedField name (trimOws f.raw)).field.value = f.field.value := by
    intro name
    rw [spacedField_value, trimOws_trimOws]
    rfl
  by_cases hcl : requestPolicyNameEq f.name contentLengthName = true
  · rw [if_pos hcl] at h
    cases h
    have hname := requestPolicyNameEq_iff.1 hcl
    have hxfp : isXfp f = false := by
      rw [isXfp, nameEq_congr hname]
      decide
    refine ⟨hname.symm, hfixed, hnominated, fun _ => hvalue _, fun hno => ?_⟩
    rw [hxfp] at hno
    cases hno
  rw [if_neg hcl] at h
  by_cases hinvalid : (isXfp f &&
      !(requestPolicyNameEq (trimOws f.raw) httpScheme || requestPolicyNameEq (trimOws f.raw) httpsScheme)) = true
  · rw [if_pos hinvalid] at h
    cases h
    have hxfp : isXfp f = true := (Bool.and_eq_true_iff.1 hinvalid).1
    have hname := requestPolicyNameEq_iff.1 hxfp
    refine ⟨hname.symm, hfixed, hnominated, fun hno => ?_, fun _ => .inl ?_⟩
    · rw [hxfp] at hno
      cases hno
    · decide
  rw [if_neg hinvalid] at h
  cases h
  refine ⟨rfl, hfixed, hnominated, fun _ => hvalue _, fun hxfp => ?_⟩
  have hlower : lower httpScheme = httpScheme ∧ lower httpsScheme = httpsScheme := by decide
  rw [hxfp, Bool.true_and, Bool.not_eq_true', Bool.not_eq_false, Bool.or_eq_true, requestPolicyNameEq_iff,
    requestPolicyNameEq_iff, hlower.1, hlower.2] at hinvalid
  rw [hvalue]
  exact hinvalid

lemma keptLine_name (h : keptLine lines f = some g) : lower g.name = lower f.name := by
  rw [(keptLine_some h).1, lower_lower]

lemma nameEq_kept (h : keptLine lines f = some g) (q : Str) : requestPolicyNameEq g.name q = requestPolicyNameEq f.name q :=
  congrFun (nameEq_congr (keptLine_name h)) q

lemma emittedLines_other : (emittedLines lines anyTeTrailers seen fs).filter (fun g => !isTe g) =
      (fs.filter fun f => !isTe f).filterMap (keptLine lines) := by
  induction fs generalizing seen with
  | nil => rfl
  | cons f fs ih =>
    rw [emittedLines, List.filter_append, ih, List.filter_cons, emittedLine]
    cases hte : isTe f with
    | true =>
      have htrailers : isTe teTrailers = true := by decide
      split_ifs <;> simp_all
    | false =>
      rw [if_neg Bool.false_ne_true, Bool.not_false, if_pos rfl, List.filterMap_cons]
      cases hkept : keptLine lines f with
      | none => rfl
      | some g =>
        have hte' : isTe g = false := (nameEq_kept hkept teName).trans hte
        simp [hte']

lemma emittedLines_te : (emittedLines lines anyTeTrailers seen fs).filter isTe =
      if !seen && anyTeTrailers && fs.any isTe then [teTrailers] else [] := by
  induction fs generalizing seen with
  | nil => simp [emittedLines]
  | cons f fs ih =>
    rw [emittedLines, List.filter_append, ih, emittedLine, List.any_cons]
    cases hte : isTe f with
    | true =>
      have htrailers : isTe teTrailers = true := by decide
      cases seen <;> cases anyTeTrailers <;> simp [htrailers]
    | false =>
      rw [if_neg Bool.false_ne_true, Bool.or_false, Bool.false_or]
      cases hkept : keptLine lines f with
      | none => rfl
      | some g =>
        have hte' : isTe g = false := (nameEq_kept hkept teName).trans hte
        simp [hte']

lemma emittedLines_first {before after} (hbefore : ∀ f ∈ before, isTe f = false) (hf : isTe f = true) :
    emittedLines lines true false (before ++ f :: after) =
      emittedLines lines true false before ++ teTrailers :: emittedLines lines true true after := by
  induction before with
  | nil => simp [emittedLines, emittedLine, hf]
  | cons b before ih =>
    have hb := hbefore b List.mem_cons_self
    rw [List.cons_append, emittedLines, hb, Bool.or_false, ih fun g hg => hbefore g (List.mem_cons_of_mem _ hg), emittedLines,
      hb, Bool.or_false, List.append_assoc]

lemma mem_emittedLines (h : g ∈ emittedLines lines anyTeTrailers seen fs) :
    g = teTrailers ∨ ∃ f ∈ fs, isTe f = false ∧ keptLine lines f = some g := by
  cases hte : isTe g with
  | true =>
    have hmem : g ∈ (emittedLines lines anyTeTrailers seen fs).filter isTe := List.mem_filter.2 ⟨h, hte⟩
    rw [emittedLines_te] at hmem
    split_ifs at hmem
    · exact .inl (List.mem_singleton.1 hmem)
    · cases hmem
  | false =>
    have hmem : g ∈ (emittedLines lines anyTeTrailers seen fs).filter fun g => !isTe g :=
      List.mem_filter.2 ⟨h, by rw [hte]; rfl⟩
    rw [emittedLines_other] at hmem
    obtain ⟨f, hf, hkept⟩ := List.mem_filterMap.1 hmem
    obtain ⟨hf, hother⟩ := List.mem_filter.1 hf
    exact .inr ⟨f, hf, by simpa using hother, hkept⟩

lemma filter_emittedLines {p} (hp : ∀ f g, keptLine lines f = some g → p g = p f)
    (hte : ∀ f, p f = true → isTe f = false) :
    (emittedLines lines anyTeTrailers seen fs).filter p = (fs.filter p).filterMap (keptLine lines) := by
  have hother : ∀ l : List RawField, l.filter p = (l.filter fun f => !isTe f).filter p := by
    intro l
    rw [List.filter_filter]
    refine List.filter_congr fun f _ => ?_
    cases hpf : p f with
    | false => rfl
    | true => rw [hte f hpf]; rfl
  rw [hother, emittedLines_other, hother fs]
  generalize fs.filter (fun f => !isTe f) = l
  induction l with
  | nil => rfl
  | cons f l ih =>
    rw [List.filterMap_cons, List.filter_cons]
    cases hkept : keptLine lines f with
    | none =>
      rw [ih]
      split_ifs
      · rw [List.filterMap_cons, hkept]
      · rfl
    | some g =>
      rw [List.filter_cons, hp f g hkept, ih]
      split_ifs
      · rw [List.filterMap_cons, hkept]
      · rfl

lemma emittedLines_plain (h : (!seen && anyTeTrailers && fs.any isTe) = false) :
    emittedLines lines anyTeTrailers seen fs = (fs.filter fun f => !isTe f).filterMap (keptLine lines) := by
  have hnone := @emittedLines_te lines fs anyTeTrailers seen
  rw [h, if_neg Bool.false_ne_true, List.filter_eq_nil_iff] at hnone
  rw [← @emittedLines_other lines fs anyTeTrailers seen, eq_comm, List.filter_eq_self]
  intro g hg
  rw [Bool.eq_false_of_not_eq_true (hnone g hg)]
  rfl

end emitted

lemma filterMap_forall₂ {α β : Type} (k : α → Option β) (l : List α) :
    ∃ kept : List α, kept.Sublist l ∧ List.Forall₂ (fun b a => a ∈ l ∧ k a = some b) (l.filterMap k) kept := by
  induction l with
  | nil => exact ⟨[], .slnil, .nil⟩
  | cons a l ih =>
    obtain ⟨kept, hsub, hall⟩ := ih
    have hall' := hall.imp fun b a' (h : a' ∈ l ∧ k a' = some b) =>
      (⟨List.mem_cons_of_mem a h.1, h.2⟩ : a' ∈ a :: l ∧ k a' = some b)
    rw [List.filterMap_cons]
    cases hk : k a with
    | none => exact ⟨kept, hsub.cons a, hall'⟩
    | some b => exact ⟨a :: kept, hsub.cons_cons a, .cons ⟨List.mem_cons_self, hk⟩ hall'⟩

lemma names_filterMap (lines fs : List RawField) : ∃ kept : List RawField, kept.Sublist fs ∧
      ((fs.filter fun f => !isTe f).filterMap (keptLine lines)).map RawField.name = kept.map fun f => lower f.name := by
  obtain ⟨kept, hsub, hall⟩ := filterMap_forall₂ (keptLine lines) (fs.filter fun f => !isTe f)
  refine ⟨kept, hsub.trans List.filter_sublist, ?_⟩
  clear hsub
  generalize (fs.filter fun f => !isTe f).filterMap (keptLine lines) = written at hall
  induction hall with
  | nil => rfl
  | cons hkept _ ih => rw [List.map_cons, List.map_cons, ih, (keptLine_some hkept.2).1]

lemma keptLine_isSome {lines f} (hdrop : dropFixed f.name = false)
    (hnominated : nameNominated lines f.name = false) : ∃ g, keptLine lines f = some g := by
  rw [keptLine, hdrop, hnominated, if_neg (by simp)]
  split_ifs
  · exact ⟨_, rfl⟩
  · exact ⟨_, rfl⟩
  · exact ⟨_, rfl⟩

/-! ## The sanitised head -/

/-- The token `trailers` in a TE field. -/
def WantsTrailers (f : RawField) : Prop :=
  lower f.name = teName ∧ ∃ option ∈ commaList f.field.value, lower option = trailersToken

def protectedNames : List Str :=
  [contentLengthName, hostName, xForwardedForName, xForwardedHostName, xForwardedProtoName]

/-- The TE field stands where the first one of the client stood: what comes before it was before it, and what comes
behind it was behind it, the added fields apart. -/
def TePlaced (fs out : List RawField) : Prop :=
  ∃ (before after outBefore outAfter keptBefore keptAfter : List RawField) (first te : RawField) (tail : List Str),
    fs = before ++ first :: after ∧ (∀ f ∈ before, lower f.name ≠ teName) ∧ lower first.name = teName ∧
    out = outBefore ++ te :: outAfter ∧ te.name = teName ∧ te.field.value = trailersToken ∧
    (∀ g ∈ outBefore ++ outAfter, g.name ≠ teName) ∧
    keptBefore.Sublist before ∧ outBefore.map RawField.name = hostName :: keptBefore.map (fun f => lower f.name) ∧
    keptAfter.Sublist after ∧ outAfter.map RawField.name = keptAfter.map (fun f => lower f.name) ++ tail ∧
    (tail = [] ∨ tail = [xForwardedProtoName])

/-- What the fields `out` written for the fields `fs` of the client are. -/
structure Sanitised (fs out : List RawField) : Prop where
  lowercase : ∀ g ∈ out, lower g.name = g.name
  nominated : ∀ g ∈ out, g.name ≠ teName → ¬ FieldNominated fs g.name
  protected_names : ∀ f ∈ fs, lower f.name = connectionName → ∀ option ∈ commaList f.field.value,
    option.head? ≠ some (ch ':') ∧ lower option ∉ protectedNames
  stripped : ∀ g ∈ out, g.name ∉ strippedClientEnvoyHeaders
  inline_once : ∀ n ∈ kInlineRequestHeaders, out.countP (fun g => g.name == n) ≤ 1
  proto : ∃ g, out.filter (fun g => g.name == xForwardedProtoName) = [g] ∧
    (lower g.field.value = httpScheme ∨ lower g.field.value = httpsScheme)
  te_iff : (∃ g ∈ out, g.name = teName) ↔ ∃ f ∈ fs, WantsTrailers f
  te_placed : (∃ g ∈ out, g.name = teName) → TePlaced fs out

structure Scanned (fs : List RawField) (s : HostScan) : Prop where
  scan : fs.foldlM HostScan.field {} = some s
  host : s.hostCount = 1
  proto : s.xfpCount ≤ 1
  inline_nominated : inlineDuplicatesNominated fs s.inlineSeen = true

section sanitised
variable {fs : List RawField} {s : HostScan} {f g : RawField}

open PolicyConn

lemma mem_preservedFields (h : g ∈ preservedFields fs s) :
    g = spacedField hostName s.hostValue ∨ g = teTrailers ∨ g = xfpHttp ∨
      ∃ f ∈ fs, isTe f = false ∧ keptLine fs f = some g := by
  obtain rfl | h := List.mem_cons.1 h
  · exact .inl rfl
  obtain h | h := List.mem_append.1 h
  · obtain rfl | hkept := mem_emittedLines h
    · exact .inr (.inl rfl)
    · exact .inr (.inr (.inr hkept))
  · split_ifs at h
    · cases h
    · exact .inr (.inr (.inl (List.mem_singleton.1 h)))

lemma nominated_lower {name} : FieldNominated fs (lower name) ↔ FieldNominated fs name := by
  rw [FieldNominated, lower_lower]
  rfl

namespace Scanned

lemma not_protected (h : Scanned fs s) : ∀ f ∈ fs, lower f.name = connectionName → ∀ option ∈ commaList f.field.value,
    option.head? ≠ some (ch ':') ∧ lower option ∉ protectedNames := by
  intro f hf hname option hoption
  have hfalse := (HostScan.fields_some h.scan).1 f hf
  have hconn : isConnectionField f = true := requestPolicyNameEq_iff.2 (hname.trans lower_connectionName.symm)
  rw [nominatesProtected, hconn, Bool.true_and, requestPolicyTokens_eq, List.any_eq_false] at hfalse
  have hno := hfalse option hoption
  rw [requestPolicyConnectionNominationIsProtected] at hno
  simp only [Bool.or_eq_true, not_or, beq_iff_eq, requestPolicyNameEq_iff] at hno
  obtain ⟨⟨⟨⟨⟨hcolon, hcl⟩, hhost⟩, hfor⟩, hhost'⟩, hproto⟩ := hno
  refine ⟨hcolon, fun hmem => ?_⟩
  simp only [protectedNames, List.mem_cons, List.not_mem_nil, or_false] at hmem
  obtain hmem | hmem | hmem | hmem | hmem := hmem
  · exact hcl hmem
  · exact hhost hmem
  · exact hfor hmem
  · exact hhost' hmem
  · exact hproto hmem

lemma not_nominated (h : Scanned fs s) {name} (hname : lower name ∈ protectedNames) : ¬ FieldNominated fs name := by
  rintro ⟨f, hf, hconn, option, hoption, heq⟩
  exact (h.not_protected f hf hconn option hoption).2 (heq ▸ hname)

lemma proto_kept (h : Scanned fs s) (hf : isXfp f = true) : ∃ g, keptLine fs f = some g := by
  have hname := requestPolicyNameEq_iff.1 hf
  refine keptLine_isSome ?_ (Bool.eq_false_of_not_eq_true fun hno => ?_)
  · rw [dropFixed_congr hname]
    decide
  · refine h.not_nominated ?_ (nameNominated_iff.1 hno)
    rw [hname]
    decide

lemma lowercase (h : g ∈ preservedFields fs s) : lower g.name = g.name := by
  obtain rfl | rfl | rfl | ⟨f, -, -, hkept⟩ := mem_preservedFields h
  · change lower hostName = hostName
    decide
  · decide
  · decide
  · rw [(keptLine_some hkept).1, lower_lower]

lemma other_nominated (h : Scanned fs s) (hg : g ∈ preservedFields fs s) (hte : g.name ≠ teName) :
    ¬ FieldNominated fs g.name := by
  obtain rfl | rfl | rfl | ⟨f, -, -, hkept⟩ := mem_preservedFields hg
  · refine h.not_nominated ?_
    change lower hostName ∈ protectedNames
    decide
  · exact absurd rfl hte
  · refine h.not_nominated ?_
    decide
  · obtain ⟨hname, -, hnominated, -⟩ := keptLine_some hkept
    rw [hname, nominated_lower, ← nameNominated_iff, hnominated]
    exact Bool.false_ne_true

lemma not_stripped (hg : g ∈ preservedFields fs s) : g.name ∉ strippedClientEnvoyHeaders := by
  obtain rfl | rfl | rfl | ⟨f, -, -, hkept⟩ := mem_preservedFields hg
  · change hostName ∉ strippedClientEnvoyHeaders
    decide
  · decide
  · decide
  · obtain ⟨hname, hdrop, -⟩ := keptLine_some hkept
    intro hmem
    have hlower : ∀ n ∈ strippedClientEnvoyHeaders, lower n = n := by decide
    have hstripped : requestPolicyIsStrippedClientEnvoyHeader f.name = true := by
      rw [requestPolicyIsStrippedClientEnvoyHeader, List.any_eq_true]
      exact ⟨g.name, hmem, requestPolicyNameEq_iff.2 (by rw [hlower _ hmem, hname])⟩
    rw [dropFixed, hstripped, Bool.or_true] at hdrop
    cases hdrop

lemma inline_other : ∀ n ∈ kInlineRequestHeaders, n ≠ hostName ∧ n ≠ xForwardedProtoName ∧ n ≠ lower teName := by
  decide

lemma countP_preservedFields {n} (hhost : n ≠ hostName) (hproto : n ≠ xForwardedProtoName) :
    (preservedFields fs s).countP (fun g => g.name == n) =
      (emittedLines fs s.anyTeTrailers false fs).countP fun g => lower g.name == n := by
  have hlower : (preservedFields fs s).countP (fun g => g.name == n) =
      (preservedFields fs s).countP fun g => lower g.name == n := by
    refine List.countP_congr fun g hg => ?_
    rw [lowercase hg]
  have hfirst : (lower (spacedField hostName s.hostValue).name == n) = false := by
    have hname : lower hostName = hostName := by decide
    exact beq_eq_false_iff_ne.2 (hname ▸ hhost.symm)
  have hdefault : (lower xfpHttp.name == n) = false := by
    exact beq_eq_false_iff_ne.2 hproto.symm
  rw [hlower, preservedFields, List.countP_cons, List.countP_append, hfirst, if_neg Bool.false_ne_true]
  split_ifs <;> simp [hdefault]

lemma inline_count (h : Scanned fs s) {n} (hn : n ∈ kInlineRequestHeaders) :
    (preservedFields fs s).countP (fun g => g.name == n) ≤ 1 := by
  obtain ⟨-, -, -, -, -, hinline⟩ := HostScan.fields_some h.scan
  obtain ⟨hhost, hproto, hte⟩ := inline_other n hn
  have hadmitted := h.inline_nominated
  rw [hinline] at hadmitted
  have hwritten := @filter_emittedLines fs fs s.anyTeTrailers false (fun g => lower g.name == n)
    (fun f g hkept => by rw [keptLine_name hkept])
    (fun f hf => Bool.eq_false_of_not_eq_true fun hno =>
      hte ((beq_iff_eq.1 hf).symm.trans (requestPolicyNameEq_iff.1 hno)))
  rw [countP_preservedFields hhost hproto, List.countP_eq_length_filter, hwritten]
  by_cases htwice : 2 ≤ fs.countP fun f => lower f.name == n
  · -- all lines of the name are nominated, and dropped
    have hnominated := nominated_of_duplicate hn htwice hadmitted
    have hnone : (fs.filter fun f => lower f.name == n).filterMap (keptLine fs) = [] := by
      rw [List.filterMap_eq_nil_iff]
      intro f hf
      rw [Option.eq_none_iff_forall_ne_some]
      intro g hkept
      have hname := beq_iff_eq.1 (List.mem_filter.1 hf).2
      have hno := (keptLine_some hkept).2.2.1
      rw [← Bool.not_eq_true, nameNominated_iff, ← nominated_lower, hname, ← nameNominated_iff] at hno
      exact hno hnominated
    rw [hnone]
    exact Nat.zero_le _
  · have hle := List.length_filterMap_le (keptLine fs) (fs.filter fun f => lower f.name == n)
    rw [← List.countP_eq_length_filter] at hle
    omega

lemma proto_once (h : Scanned fs s) : ∃ g, (preservedFields fs s).filter (fun g => g.name == xForwardedProtoName) = [g] ∧
    (lower g.field.value = httpScheme ∨ lower g.field.value = httpsScheme) := by
  obtain ⟨-, -, -, hcount, -⟩ := HostScan.fields_some h.scan
  have hwritten := @filter_emittedLines fs fs s.anyTeTrailers false isXfp
    (fun f g hkept => nameEq_kept hkept _) (fun f hf => ((names_apart f).2.1 hf).1)
  have hfilter : (preservedFields fs s).filter (fun g => g.name == xForwardedProtoName) =
      (preservedFields fs s).filter isXfp := by
    refine List.filter_congr fun g hg => ?_
    rw [isXfp, requestPolicyNameEq, lowercase hg, lower_xForwardedProtoName]
  have hhost : isXfp (spacedField hostName s.hostValue) = false := by
    change requestPolicyNameEq hostName xForwardedProtoName = false
    decide
  have hany : (emittedLines fs s.anyTeTrailers false fs).any isXfp =
      !((emittedLines fs s.anyTeTrailers false fs).filter isXfp).isEmpty := by
    rw [Bool.eq_iff_iff, List.any_eq_true, Bool.not_eq_true', List.isEmpty_eq_false_iff_exists_mem]
    simp only [List.mem_filter]
  rw [hfilter, preservedFields, List.filter_cons, hhost, if_neg Bool.false_ne_true, List.filter_append, hany, hwritten]
  have hle : (fs.filter isXfp).length ≤ 1 := by
    rw [← List.countP_eq_length_filter]
    have := h.proto
    omega
  cases hlines : fs.filter isXfp with
  | nil =>
    refine ⟨xfpHttp, ?_, .inl (by decide)⟩
    have hdefault : isXfp xfpHttp = true := by decide
    simp [hdefault]
  | cons f rest =>
    obtain rfl : rest = [] := by
      rw [hlines, List.length_cons] at hle
      exact List.length_eq_zero_iff.1 (by omega)
    have hf : isXfp f = true := (List.mem_filter.1 (hlines ▸ List.mem_cons_self)).2
    obtain ⟨g, hkept⟩ := h.proto_kept hf
    refine ⟨g, ?_, (keptLine_some hkept).2.2.2.2 hf⟩
    simp [hkept]

lemma isTe_iff {f} : isTe f = true ↔ lower f.name = teName := by
  have hlower : lower teName = teName := by decide
  rw [isTe, requestPolicyNameEq_iff, hlower]

lemma hasTrailers_iff {f} : hasTrailers f = true ↔ WantsTrailers f := by
  have hlower : lower trailersToken = trailersToken := by decide
  rw [hasTrailers, Bool.and_eq_true, isTe_iff, hasToken_iff, hlower]
  rfl

lemma kept_name {lines} (hg : g ∈ (fs.filter fun f => !isTe f).filterMap (keptLine lines)) : g.name ≠ teName := by
  obtain ⟨f, hf, hkept⟩ := List.mem_filterMap.1 hg
  have hte := (List.mem_filter.1 hf).2
  rw [(keptLine_some hkept).1]
  intro h
  rw [isTe_iff.2 h] at hte
  cases hte

lemma te_name (hg : g ∈ preservedFields fs s) : g.name = teName ↔ g = teTrailers := by
  obtain rfl | rfl | rfl | ⟨f, -, hte, hkept⟩ := mem_preservedFields hg
  · refine ⟨fun h => ?_, fun h => by rw [h]; rfl⟩
    have hne : hostName ≠ teName := by decide
    exact absurd h hne
  · exact ⟨fun _ => rfl, fun _ => rfl⟩
  · exact ⟨fun h => absurd h (by decide), fun h => absurd (congrArg RawField.name h) (by decide)⟩
  · have hname : g.name ≠ teName := by
      rw [(keptLine_some hkept).1]
      exact fun h => Bool.false_ne_true (hte.symm.trans (isTe_iff.2 h))
    exact ⟨fun h => absurd h hname, fun h => absurd (congrArg RawField.name h) hname⟩

/-- A TE line is written for the token `trailers`, and at no other time. -/
lemma te_written (h : Scanned fs s) : (∃ g ∈ preservedFields fs s, g.name = teName) ↔ ∃ f ∈ fs, WantsTrailers f := by
  obtain ⟨-, -, -, -, hany, -⟩ := HostScan.fields_some h.scan
  rw [Bool.false_or] at hany
  have hfirst := @emittedLines_te fs fs s.anyTeTrailers false
  constructor
  · rintro ⟨g, hg, hname⟩
    obtain rfl := (te_name hg).1 hname
    have hmem : teTrailers ∈ emittedLines fs s.anyTeTrailers false fs := by
      obtain h' | h' := List.mem_cons.1 hg
      · have hne : teName ≠ hostName := by decide
        exact absurd (congrArg RawField.name h') hne
      obtain h' | h' := List.mem_append.1 h'
      · exact h'
      · split_ifs at h'
        · cases h'
        · exact absurd (congrArg RawField.name (List.mem_singleton.1 h')) (by decide)
    have hfilter : teTrailers ∈ (emittedLines fs s.anyTeTrailers false fs).filter isTe :=
      List.mem_filter.2 ⟨hmem, by decide⟩
    rw [hfirst] at hfilter
    split_ifs at hfilter with hwanted
    · rw [Bool.and_eq_true, Bool.and_eq_true, hany, List.any_eq_true] at hwanted
      obtain ⟨⟨-, f, hf, htrailers⟩, -⟩ := hwanted
      exact ⟨f, hf, hasTrailers_iff.1 htrailers⟩
    · cases hfilter
  · rintro ⟨f, hf, hwants⟩
    have htrailers : fs.any hasTrailers = true := List.any_eq_true.2 ⟨f, hf, hasTrailers_iff.2 hwants⟩
    have hte : fs.any isTe = true := List.any_eq_true.2 ⟨f, hf, isTe_iff.2 hwants.1⟩
    rw [hany, htrailers, hte] at hfirst
    have hmem : teTrailers ∈ (emittedLines fs true false fs).filter isTe := by
      rw [hfirst]
      exact List.mem_singleton_self _
    refine ⟨teTrailers, ?_, rfl⟩
    rw [preservedFields, hany, htrailers]
    exact List.mem_cons_of_mem _ (List.mem_append_left _ (List.mem_filter.1 hmem).1)

lemma te_placed (h : Scanned fs s) (hte : ∃ g ∈ preservedFields fs s, g.name = teName) :
    TePlaced fs (preservedFields fs s) := by
  obtain ⟨f, hf, hwants⟩ := h.te_written.1 hte
  obtain ⟨-, -, -, -, hany, -⟩ := HostScan.fields_some h.scan
  rw [Bool.false_or, List.any_eq_true.2 ⟨f, hf, hasTrailers_iff.2 hwants⟩] at hany
  obtain ⟨first, hfind⟩ : ∃ first, fs.find? isTe = some first :=
    Option.isSome_iff_exists.1 (List.find?_isSome.2 ⟨f, hf, isTe_iff.2 hwants.1⟩)
  obtain ⟨hfirst, before, after, hfs, hbefore⟩ := List.find?_eq_some_iff_append.1 hfind
  have hbefore' : ∀ f ∈ before, isTe f = false := fun f hf => by simpa using hbefore f hf
  have hemitted := @emittedLines_first fs first before after hbefore' hfirst
  rw [← hfs] at hemitted
  have hplain := @emittedLines_plain fs before true false (by
    rw [Bool.and_eq_false_iff]
    exact .inr (List.any_eq_false.2 fun f hf => by rw [hbefore' f hf]; exact Bool.false_ne_true))
  have hplain' := @emittedLines_plain fs after true true rfl
  obtain ⟨keptBefore, hsub, hnames⟩ := names_filterMap fs before
  obtain ⟨keptAfter, hsub', hnames'⟩ := names_filterMap fs after
  obtain ⟨added, hadded, hdefault⟩ : ∃ added, (added = [] ∨ added = [xfpHttp]) ∧ preservedFields fs s =
      spacedField hostName s.hostValue :: (emittedLines fs true false fs ++ added) := by
    refine ⟨_, ?_, by rw [preservedFields, hany]⟩
    split_ifs
    · exact .inl rfl
    · exact .inr rfl
  have hout : preservedFields fs s = (spacedField hostName s.hostValue :: emittedLines fs true false before) ++
      teTrailers :: (emittedLines fs true true after ++ added) := by
    rw [hdefault, hemitted]
    simp only [List.append_assoc, List.cons_append]
  have hother : ∀ g ∈ (spacedField hostName s.hostValue :: emittedLines fs true false before) ++
      (emittedLines fs true true after ++ added), g.name ≠ teName := by
    intro g hg
    obtain hg | hg := List.mem_append.1 hg
    · obtain rfl | hg := List.mem_cons.1 hg
      · have hne : hostName ≠ teName := by decide
        exact hne
      · rw [hplain] at hg
        exact kept_name hg
    · obtain hg | hg := List.mem_append.1 hg
      · rw [hplain'] at hg
        exact kept_name hg
      · obtain rfl | rfl := hadded
        · cases hg
        · rw [List.mem_singleton.1 hg]
          decide
  refine ⟨before, after, _, _, keptBefore, keptAfter, first, teTrailers, added.map RawField.name, hfs, ?_, isTe_iff.1 hfirst,
    hout, rfl, by decide, hother, hsub, ?_, hsub', ?_, ?_⟩
  · exact fun f hf hname => Bool.false_ne_true ((hbefore' f hf).symm.trans (isTe_iff.2 hname))
  · rw [List.map_cons, hplain, hnames]
    rfl
  · rw [List.map_append, hplain', hnames']
  · obtain rfl | rfl := hadded
    · exact .inl rfl
    · exact .inr rfl

lemma sanitised (h : Scanned fs s) : Sanitised fs (preservedFields fs s) :=
  ⟨fun _ hg => lowercase hg, fun _ hg => h.other_nominated hg, h.not_protected, fun _ hg => not_stripped hg,
    fun _ hn => h.inline_count hn, h.proto_once, h.te_written, h.te_placed⟩

end Scanned

end sanitised

namespace PolicyConn

variable {cap sendCap : Nat}

lemma applyPreserve_true {c : PolicyConn cap sendCap} {policyId}
    (h : (c.applyPreserveHostLowercaseRequestPolicy policyId).1 = true) :
    ∃ req headerEnd fs s body suffix, parse c.recvBuf.bytes = .complete req headerEnd ∧
      RequestGrammar (c.recvBuf.bytes.take headerEnd) req.method req.path req.version fs ∧ Scanned fs s ∧
      fs.countP (fun f => requestPolicyNameEq f.name contentLengthName) ≤ 1 ∧
      (∀ f ∈ fs, requestPolicyNameEq f.name transferEncodingName = false) ∧
      Rewritten c (c.applyPreserveHostLowercaseRequestPolicy policyId).2 req fs (preservedFields fs s) body suffix := by
  rw [applyPreserveHostLowercaseRequestPolicy] at h ⊢
  by_cases htls : c.tlsActive = true
  · rw [if_pos htls] at h
    cases h
  rw [if_neg htls] at h ⊢
  by_cases hbody : c.inspectRequestPolicyBody policyId ≠ .complete
  · rw [if_pos hbody] at h
    cases h
  rw [if_neg hbody] at h ⊢
  obtain ⟨hsupported, req, headerEnd, lines, hp, hlines, hcount⟩ := inspect_complete (not_not.1 hbody)
  obtain ⟨fs, hg, hheaders⟩ := grammar_of_parse hp
  obtain ⟨-, -, -, hlines'⟩ := headLines_eq hg
  obtain rfl : lines = fs := Option.some.inj (hlines.symm.trans hlines')
  rw [hp] at h ⊢
  dsimp only at h ⊢
  cases hrequest : c.preservedRequest policyId req headerEnd with
  | none =>
    rw [hrequest] at h
    cases h
  | some r =>
    rw [hrequest] at h
    obtain ⟨s, hscan, hhost, hxfp, hinline, hserialized, hte⟩ := preservedRequest_serialized hsupported hg hrequest
    obtain ⟨body, suffix, hrewritten⟩ := hserialized.rewritten hp hg hheaders (Prod.ext h rfl)
    exact ⟨req, headerEnd, lines, s, body, suffix, rfl, hg, ⟨hscan, hhost, hxfp, hinline⟩, hcount, hte, hrewritten⟩

/-- What the policy that keeps the host writes is sanitised. -/
theorem preserve_host_sanitised (c : PolicyConn cap sendCap) (policyId : UInt16)
    (h : (c.applyPreserveHostLowercaseRequestPolicy policyId).1 = true) :
    ∃ req fs out body suffix,
      Rewritten c (c.applyPreserveHostLowercaseRequestPolicy policyId).2 req fs out body suffix ∧ Sanitised fs out := by
  obtain ⟨req, headerEnd, fs, s, body, suffix, -, -, hscanned, -, -, hrewritten⟩ := applyPreserve_true h
  exact ⟨req, fs, _, body, suffix, hrewritten, hscanned.sanitised⟩

def received (bytes : Str) : PolicyConn 256 256 where
  recvBuf := Buffer.write ⟨fun _ => 0, 0, Nat.zero_le _⟩ bytes
  sendBuf := Output.empty 256
  recvSlice := true
  sendSlice := true
  http2 := false
  reqHttp11 := true
  tlsActive := false
  reqMethodGet := true
  reqWantsUpgrade := false
  reqBodyMode := .none
  reqBodyRemaining := 0
  reqHeaderEnd := 0
  reqInitialSendLen := 0
  reqSize := 0
  reqKeepAlive := false
  requestPolicyId := 0
  requestBodyFullyBuffered := false
  requestUploadComplete := false
  rawTargetWitness := (0, 0, 0)
  pipelineDepth := 0
  pipelineStashLen := 0
  http1PipelineRequestGeneration := 0
  successorStable := false
  responseReadDeadlineState := .none
  responseReadDeadlineProfile := .none
  responseReadDeadlineBuffering := .none
  responseReadDeadlineSeconds := 0
  responseReadDeadlineRouteMethodGet := false
  uploadRawTotalLength := 0

def nominatingRequest : Str :=
  lit ['G','E','T',' ','/',' ','H','T','T','P','/','1','.','1','\r','\n','H','o','s','t',':',' ','a','\r',
    '\n','T','E',':',' ','x',',',' ','t','r','a','i','l','e','r','s','\r','\n','C','o','n','n','e','c',
    't','i','o','n',':',' ','Y',',',' ','t','e','\r','\n','y',':',' ','1','\r','\n','\r','\n']

theorem nominatingRequest_sanitised :
    ((received nominatingRequest).applyPreserveHostLowercaseRequestPolicy 4).1 = true ∧
      ∃ req fs out body suffix,
        Rewritten (received nominatingRequest) ((received nominatingRequest).applyPreserveHostLowercaseRequestPolicy 4).2
          req fs out body suffix ∧ Sanitised fs out := by
  have h : ((received nominatingRequest).applyPreserveHostLowercaseRequestPolicy 4).1 = true := by decide +kernel
  exact ⟨h, preserve_host_sanitised _ _ h⟩

end PolicyConn

end Rut.Conn
