import Rut.Http.HeaderValidation
import Rut.Http.Response
import Rut.Lib.EditLog

/-!
# Response header mutations

Handlers record mutations of the response headers in a log. Ports of its recording and reading in
`src/jit/runtime_helpers.cc`, and of two of its uses in `include/rut/runtime/callbacks_impl.h`: the headers of a
response of the gateway (`collect_effective_response_headers`), and those of an upstream response forwarded over HTTP/2
(`h2_proxy_finish`).
-/

set_option linter.all false
namespace Rut.Conn

open Http Lib

inductive RespHeaderMutationMode where
  | set
  | add
  | remove
deriving DecidableEq

structure RespHeaderMutation where
  name : Str
  value : Str
  mode : RespHeaderMutationMode
deriving DecidableEq

def kMaxRespHeaderMutations : Nat := 16

namespace RespHeaderMutation

/-- The check every use makes of a mutation. The value of a removal is not looked at. -/
def valid (m : RespHeaderMutation) : Bool :=
  validateResponseHeader m.name (if m.mode = .remove then [] else m.value) == .ok

def field (m : RespHeaderMutation) : Field := ⟨m.name, m.value⟩

end RespHeaderMutation

/-! ## Recording -/

/-- The log of a connection: the entries recorded, how many of them were committed, and the two overflow flags. -/
structure RespHeaderLog where
  entries : List RespHeaderMutation := []
  pendingOverflow : Bool := false
  count : Nat := 0
  overflow : Bool := false
deriving DecidableEq

namespace RespHeaderLog

/-- `record_resp_header`, through which the helpers of the three modes record their entries. -/
def recordRespHeader (c : RespHeaderLog) (m : RespHeaderMutation) : RespHeaderLog :=
  if c.entries.length ≥ kMaxRespHeaderMutations then { c with pendingOverflow := true }
  else { c with entries := c.entries ++ [m] }

def rutHelperRespCommitHeaders (c : RespHeaderLog) : RespHeaderLog :=
  { c with count := c.entries.length, overflow := c.pendingOverflow }

def committed (c : RespHeaderLog) : List RespHeaderMutation := c.entries.take c.count

/-- `rut_helper_resp_header`: the value of a header as the log leaves it, given the one before. -/
def rutHelperRespHeader (c : RespHeaderLog) (name : Str) (fallback : Option Str) : Option Str :=
  c.entries.foldl
    (fun out m =>
      if !httpHeaderNameEqCi m.name name then out
      else if m.mode = .remove then none
      else if m.mode = .set ∨ out.isNone then some m.value
      else out)
    fallback

end RespHeaderLog

/-! ## Uses -/

/-- All fields but those of the name, each moved down over the ones dropped. -/
def dropNamed (name : Str) (fields : List Field) : List Field := fields.filter fun f => !httpHeaderNameEqCi f.name name

structure EffectiveHeaders where
  fields : List Field
  suppressDefaultContentType : Bool := false
deriving DecidableEq

def contentTypeName : Str := lit ['c','o','n','t','e','n','t','-','t','y','p','e']

def collectMutation (capacity : Nat) (out : EffectiveHeaders) (m : RespHeaderMutation) : Option EffectiveHeaders :=
  if !m.valid then none
  else
    let suppress :=
      if httpHeaderNameEqCi m.name contentTypeName then decide (m.mode = .remove) else out.suppressDefaultContentType
    let fields := if m.mode ≠ .add then dropNamed m.name out.fields else out.fields
    if m.mode = .remove then some ⟨fields, suppress⟩
    else if fields.length ≥ capacity then none
    else some ⟨fields ++ [m.field], suppress⟩

/-- `collect_effective_response_headers`, for the fields of the static set. -/
def collectEffectiveResponseHeaders (c : RespHeaderLog) (staticSet : List Field) (capacity : Nat) :
    Option EffectiveHeaders :=
  if c.overflow then none
  else if staticSet.length > capacity then none
  else c.committed.foldlM (collectMutation capacity) ⟨staticSet, false⟩

/-- `response_mutation_survives`, for an entry and the entries behind it. -/
def responseMutationSurvives (current : RespHeaderMutation) (later : List RespHeaderMutation) : Bool :=
  current.mode ≠ .remove && later.all fun m => !(m.mode ≠ .add && httpHeaderNameEqCi current.name m.name)

def connectionName : Str := lit ['c','o','n','n','e','c','t','i','o','n']
def keepAliveName : Str := lit ['k','e','e','p','-','a','l','i','v','e']
def proxyConnectionName : Str :=
  lit ['p','r','o','x','y','-','c','o','n','n','e','c','t','i','o','n']
def transferEncodingName : Str :=
  lit ['t','r','a','n','s','f','e','r','-','e','n','c','o','d','i','n','g']
def teName : Str := lit ['t','e']
def upgradeName : Str := lit ['u','p','g','r','a','d','e']
def contentLengthName : Str := lit ['c','o','n','t','e','n','t','-','l','e','n','g','t','h']

def h2DropResponseHeader (name : Str) : Bool :=
  httpHeaderNameEqCi name connectionName || httpHeaderNameEqCi name keepAliveName ||
    httpHeaderNameEqCi name proxyConnectionName || httpHeaderNameEqCi name transferEncodingName ||
    httpHeaderNameEqCi name teName || httpHeaderNameEqCi name upgradeName || httpHeaderNameEqCi name contentLengthName

/-- The options of a Connection value: what stands between commas, without the blanks around it, where it is not empty.
A turn skips commas and blanks and then reads up to the next comma; each shortens the value, so that its length bounds
the turns. -/
def connectionOptionsLoop : Nat → Str → List Str
  | 0, _ => []
  | turns + 1, value =>
    if value = [] then []
    else
      let rest := value.dropWhile fun c => c == ch ',' || isOws c
      let option := (rest.takeWhile (· != ch ',')).rdropWhile isOws
      (if option = [] then [] else [option]) ++ connectionOptionsLoop turns (rest.dropWhile (· != ch ','))

def connectionOptions (value : Str) : List Str := connectionOptionsLoop value.length value

def h2NameInConnectionTokens (connectionValue name : Str) : Bool :=
  (connectionOptions connectionValue).any fun option => httpHeaderNameEqCi option name

def kMaxForwardHeaders : Nat := kMaxHeaders + kMaxRespHeaderMutations

def h2Forwards (resp : ParsedResponse) (isHead : Bool) (h : Header) : Bool :=
  (if httpHeaderNameEqCi h.name contentLengthName then isHead else !h2DropResponseHeader h.name) &&
    !resp.headers.any fun g => httpHeaderNameEqCi g.name connectionName && h2NameInConnectionTokens g.value h.name

/-- The loop over the log in `h2_proxy_finish`. An error is the status the stream fails with. -/
def h2ApplyMutations : List RespHeaderMutation → List Field → Except Nat (List Field)
  | [], fields => .ok fields
  | m :: later, fields =>
    if m.mode ≠ .remove && !responseMutationSurvives m later then h2ApplyMutations later fields
    else if !m.valid then .error 500
    else
      let fields := if m.mode ≠ .add then dropNamed m.name fields else fields
      if m.mode ≠ .remove && !h2DropResponseHeader m.name then
        if fields.length ≥ kMaxForwardHeaders then .error 500 else h2ApplyMutations later (fields ++ [m.field])
      else h2ApplyMutations later fields

/-- The header list of `h2_proxy_finish`. -/
def h2ProxyFinishHeaders (c : RespHeaderLog) (resp : ParsedResponse) (isHead : Bool) : Except Nat (List Field) :=
  if resp.headersTruncated then .error 502
  else
    let fields := ((resp.headers.filter (h2Forwards resp isHead)).take kMaxHeaders).map fun h => ⟨h.name, h.value⟩
    if c.overflow then .error 500 else h2ApplyMutations c.committed fields

/-! ## Comma lists -/

/-- The elements of a comma list: what stands between the commas, without the blanks around it, where it is not empty. -/
def commaList (value : Str) : List Str := ((value.splitOnP (· == ch ',')).map trimOws).filter (· != [])

section commas
variable {segment s : Str}

lemma not_comma (h : ch ',' ∉ segment) : ∀ c ∈ segment, (c == ch ',') = false := by
  intro c hc
  rw [beq_eq_false_iff_ne]
  rintro rfl
  exact h hc

lemma commaList_single (h : ch ',' ∉ segment) :
    commaList segment = if trimOws segment = [] then [] else [trimOws segment] := by
  rw [commaList, List.splitOnP_eq_singleton (not_comma h), List.map_singleton]
  split_ifs with hnil <;> simp [hnil]

lemma commaList_cons (h : ch ',' ∉ segment) (s : Str) :
    commaList (segment ++ ch ',' :: s) = (if trimOws segment = [] then [] else [trimOws segment]) ++ commaList s := by
  rw [commaList, List.splitOnP_append_cons_of_forall_mem (not_comma h) _ (by simp), List.map_cons, List.filter_cons,
    commaList]
  split_ifs with hnil hne hne <;> simp_all

lemma segment_cases (s : Str) : (ch ',' ∉ s ∧ s.takeWhile (· != ch ',') = s ∧ s.dropWhile (· != ch ',') = []) ∨
      ∃ t, ch ',' ∉ s.takeWhile (· != ch ',') ∧ s = s.takeWhile (· != ch ',') ++ ch ',' :: t ∧
        s.dropWhile (· != ch ',') = ch ',' :: t := by
  have hsplit := List.takeWhile_append_dropWhile (p := (· != ch ',')) (l := s)
  have hno : ch ',' ∉ s.takeWhile (· != ch ',') := by
    intro hmem
    simpa using List.mem_takeWhile_imp hmem
  cases hrest : s.dropWhile (· != ch ',') with
  | nil =>
    rw [hrest, List.append_nil] at hsplit
    rw [hsplit] at hno
    exact .inl ⟨hno, hsplit, rfl⟩
  | cons c t =>
    have hhead := List.head?_dropWhile_not (· != ch ',') s
    rw [hrest] at hhead
    have hc : c = ch ',' := by simpa using hhead
    rw [hrest, hc] at hsplit
    exact .inr ⟨t, hno, hsplit.symm, by rw [hc]⟩

lemma commaList_blank {c} (hc : isOws c = true) (s : Str) : commaList (c :: s) = commaList s := by
  have hne : c ≠ ch ',' := by
    rintro rfl
    exact absurd hc (by decide)
  have htrim : ∀ segment : Str, trimOws (c :: segment) = trimOws segment := by
    intro segment
    rw [trimOws, List.dropWhile_cons_of_pos hc, trimOws]
  rcases segment_cases s with ⟨hno, -, -⟩ | ⟨t, hno, hs, -⟩
  · rw [commaList_single hno, commaList_single (by simp [hno, hne.symm]), htrim]
  · rw [hs, ← List.cons_append, commaList_cons hno, commaList_cons (by simp [hno, hne.symm]), htrim]

lemma commaList_skip (s : Str) : commaList (s.dropWhile fun c => c == ch ',' || isOws c) = commaList s := by
  induction s with
  | nil => rfl
  | cons c s ih =>
    rw [List.dropWhile_cons]
    split_ifs with hc
    · rw [ih]
      rcases Bool.or_eq_true_iff.1 hc with hc | hc
      · rw [beq_iff_eq.1 hc]
        exact (commaList_cons (by simp : ch ',' ∉ ([] : Str)) s).symm
      · exact (commaList_blank hc s).symm
    · rfl

lemma connectionOptionsLoop_eq {turns value} (h : value.length ≤ turns) :
    connectionOptionsLoop turns value = commaList value := by
  induction turns generalizing value with
  | zero =>
    rw [List.length_eq_zero_iff.1 (Nat.le_zero.1 h)]
    rfl
  | succ turns ih =>
    rw [connectionOptionsLoop]
    split_ifs with hnil
    · rw [hnil]
      rfl
    · rw [← commaList_skip value]
      have hshort : (value.dropWhile fun c => c == ch ',' || isOws c).length ≤ value.length :=
        (List.dropWhile_sublist _).length_le
      have hhead := List.head?_dropWhile_not (fun c => c == ch ',' || isOws c) value
      generalize (value.dropWhile fun c => c == ch ',' || isOws c) = rest at hshort hhead
      dsimp only
      -- the first segment does not start with a blank
      have htrim : trimOws (rest.takeWhile (· != ch ',')) = (rest.takeWhile (· != ch ',')).rdropWhile isOws := by
        cases rest with
        | nil => rfl
        | cons c rest =>
          simp only [List.head?_cons, Bool.or_eq_false_iff] at hhead
          rw [trimOws, List.takeWhile_cons_of_pos (by simpa using hhead.1), List.dropWhile_cons_of_neg (by simp [hhead.2])]
      rw [← htrim]
      rcases segment_cases rest with ⟨hno, htake, hdrop⟩ | ⟨t, hno, hsplit, hdrop⟩
      · rw [hdrop, ih (by simp), commaList_single hno, htake]
        exact List.append_nil _
      · have hlength := congrArg List.length hsplit
        rw [List.length_append, List.length_cons] at hlength
        have hcomma : commaList (ch ',' :: t) = commaList t := commaList_cons (by simp : ch ',' ∉ ([] : Str)) t
        -- a byte of the segment was read, so that the rest is shorter
        have hread : rest.takeWhile (· != ch ',') ≠ [] := by
          intro hnone
          rw [hnone, List.nil_append] at hsplit
          rw [hsplit] at hhead
          simp at hhead
        have hpos := List.length_pos_iff.2 hread
        conv_rhs => rw [hsplit, commaList_cons hno]
        rw [hdrop, ih (by rw [List.length_cons]; omega), hcomma]

lemma connectionOptions_eq (value : Str) : connectionOptions value = commaList value :=
  connectionOptionsLoop_eq (Nat.le_refl _)

end commas

/-! ## The meaning of a log -/

section meaning
variable {α : Type} (nameOf : α → Str) (made : RespHeaderMutation → α)

/-- One mutation of a list of fields: a set drops all fields of the name and appends its own, an add appends, a removal
drops. -/
def RespHeaderMutation.apply (fields : List α) (m : RespHeaderMutation) : List α :=
  match m.mode with
  | .set => fields.filter (fun f => lower (nameOf f) ≠ lower m.name) ++ [made m]
  | .add => fields ++ [made m]
  | .remove => fields.filter fun f => lower (nameOf f) ≠ lower m.name

def applyMutations (fields : List α) (log : List RespHeaderMutation) : List α :=
  log.foldl (RespHeaderMutation.apply nameOf made) fields

def RespHeaderMutation.edit (m : RespHeaderMutation) : Edit Str α where
  key := lower m.name
  clears := m.mode ≠ .add
  item := if m.mode = .remove then none else some (made m)

variable {nameOf made} {log : List RespHeaderMutation}

lemma applyMutations_eq (fields : List α) (log : List RespHeaderMutation) : applyMutations nameOf made fields log =
      Edit.applyAll (fun f => lower (nameOf f)) fields (log.map (RespHeaderMutation.edit made)) := by
  rw [applyMutations, Edit.applyAll, List.foldl_map]
  congr 1
  funext fields m
  cases hm : m.mode <;> simp [RespHeaderMutation.apply, Edit.apply, RespHeaderMutation.edit, hm]

lemma keyed_edits (hmade : ∀ m, nameOf (made m) = m.name) (log : List RespHeaderMutation) :
    Edit.Keyed (fun f => lower (nameOf f)) (log.map (RespHeaderMutation.edit made)) := by
  intro e he a ha
  obtain ⟨m, -, rfl⟩ := List.mem_map.1 he
  simp only [RespHeaderMutation.edit] at ha ⊢
  split_ifs at ha
  · cases ha
  · cases ha
    rw [hmade]

lemma dropped_edits (log : List RespHeaderMutation) (name : Str) :
    Edit.dropped (log.map (RespHeaderMutation.edit made)) (lower name) =
      log.any fun m => m.mode ≠ .add && httpHeaderNameEqCi name m.name := by
  rw [Edit.dropped, List.any_map]
  congr 1
  funext m
  rw [Function.comp_apply, RespHeaderMutation.edit, httpHeaderNameEqCi]
  congr 1
  rcases Decidable.em (lower name = lower m.name) with h | h
  · simp [h]
  · simp [h, Ne.symm h]

lemma responseMutationSurvives_eq (made : RespHeaderMutation → α) (m : RespHeaderMutation) (later : List RespHeaderMutation) :
    responseMutationSurvives m later =
      (decide (m.mode ≠ .remove) && !Edit.dropped (later.map (RespHeaderMutation.edit made)) (lower m.name)) := by
  rw [responseMutationSurvives, dropped_edits, List.not_any_eq_all_not]

def survivingFields (made : RespHeaderMutation → α) : List RespHeaderMutation → List α
  | [] => []
  | m :: later => (if responseMutationSurvives m later then [made m] else []) ++ survivingFields made later

lemma survivors_edits (log : List RespHeaderMutation) :
    Edit.survivors (log.map (RespHeaderMutation.edit made)) = survivingFields made log := by
  induction log with
  | nil => rfl
  | cons m later ih =>
    rw [List.map_cons, Edit.survivors, ih, survivingFields, responseMutationSurvives_eq made]
    congr 1
    cases hd : Edit.dropped (later.map (RespHeaderMutation.edit made)) (lower m.name) <;>
      cases hm : m.mode <;> simp [RespHeaderMutation.edit, hm, hd]

end meaning

lemma lower_lower (s : Str) : lower (lower s) = lower s := by
  have hbyte : ∀ c : UInt8, asciiLower (asciiLower c) = asciiLower c :=
    forall_uint8 (P := fun c => asciiLower (asciiLower c) = asciiLower c) (by decide +kernel)
  rw [lower, lower, List.map_map]
  exact List.map_congr_left fun c _ => hbyte c

lemma dropNamed_eq (name : Str) (fields : List Field) :
    dropNamed name fields = fields.filter fun f => lower f.name ≠ lower name := by
  apply List.filter_congr
  intro f _
  rw [httpHeaderNameEqCi, Bool.eq_iff_iff]
  simp

lemma apply_field (fields : List Field) (m : RespHeaderMutation) : m.apply Field.name RespHeaderMutation.field fields =
      (if m.mode ≠ .add then dropNamed m.name fields else fields) ++ if m.mode = .remove then [] else [m.field] := by
  cases hm : m.mode <;> simp [RespHeaderMutation.apply, hm, dropNamed_eq]

section uses
variable {log : List RespHeaderMutation} {capacity : Nat} {fields : List Field}

lemma collectMutation_fields {out out' m} (h : collectMutation capacity out m = some out') :
    out'.fields = m.apply Field.name RespHeaderMutation.field out.fields := by
  obtain ⟨-, h⟩ := Option.ite_none_left_eq_some.1 h
  rw [apply_field]
  rcases Decidable.em (m.mode = .remove) with hm | hm
  · rw [if_pos hm] at h
    rw [if_pos hm, List.append_nil, ← Option.some.inj h]
  · rw [if_neg hm] at h
    obtain ⟨-, h⟩ := Option.ite_none_left_eq_some.1 h
    rw [if_neg hm, ← Option.some.inj h]

lemma collect_fields {out out'} (h : log.foldlM (collectMutation capacity) out = some out') :
    out'.fields = applyMutations Field.name RespHeaderMutation.field out.fields log := by
  induction log generalizing out with
  | nil =>
    cases h
    rfl
  | cons m log ih =>
    obtain ⟨mid, hmid, h⟩ := Option.bind_eq_some_iff.1 h
    rw [ih h, collectMutation_fields hmid, applyMutations, applyMutations, List.foldl_cons]

lemma length_drop_le (m : RespHeaderMutation) (fields : List Field) :
    (if m.mode ≠ .add then dropNamed m.name fields else fields).length ≤ fields.length := by
  split_ifs
  · exact List.length_filter_le ..
  · exact Nat.le_refl _

lemma collect_isSome {out} (hvalid : ∀ m ∈ log, m.valid = true) (hroom : out.fields.length + log.length ≤ capacity) :
    ∃ out', log.foldlM (collectMutation capacity) out = some out' := by
  induction log generalizing out with
  | nil => exact ⟨out, rfl⟩
  | cons m log ih =>
    have hm := hvalid m List.mem_cons_self
    have hrest : ∀ m ∈ log, m.valid = true := fun m hm => hvalid m (List.mem_cons_of_mem _ hm)
    have hle := length_drop_le m out.fields
    rw [List.length_cons] at hroom
    rw [List.foldlM_cons, collectMutation]
    simp only [hm, Bool.not_true, Bool.false_eq_true, if_false]
    rcases Decidable.em (m.mode = .remove) with hmode | hmode
    · rw [if_pos hmode]
      apply ih hrest
      dsimp only
      omega
    · rw [if_neg hmode, if_neg (by omega)]
      apply ih hrest
      rw [List.length_append, List.length_singleton]
      omega

/-- What `h2_drop_response_header` says depends on the letters of the name only. -/
lemma h2DropResponseHeader_lower {a b} (h : lower a = lower b) : h2DropResponseHeader a = h2DropResponseHeader b := by
  simp only [h2DropResponseHeader, httpHeaderNameEqCi, h]

/-- The entries the loop of `h2_proxy_finish` applies. -/
def h2Entries : List RespHeaderMutation → List RespHeaderMutation
  | [] => []
  | m :: later => (if m.mode ≠ .remove && !responseMutationSurvives m later then [] else [m]) ++ h2Entries later

lemma h2Entries_edits (made : RespHeaderMutation → Field) (log : List RespHeaderMutation) :
    (h2Entries log).map (RespHeaderMutation.edit made) = Edit.essential (log.map (RespHeaderMutation.edit made)) := by
  induction log with
  | nil => rfl
  | cons m later ih =>
    rw [h2Entries, List.map_append, ih, List.map_cons, Edit.essential, responseMutationSurvives_eq made]
    congr 1
    cases hd : Edit.dropped (later.map (RespHeaderMutation.edit made)) (lower m.name) <;>
      cases hm : m.mode <;> simp [RespHeaderMutation.edit, hm, hd]

/-- A mutation as an edit of the headers of HTTP/2, to which some fields are not appended. -/
def RespHeaderMutation.h2Edit (m : RespHeaderMutation) : Edit Str Field :=
  { m.edit RespHeaderMutation.field with
    item := (m.edit RespHeaderMutation.field).item.filter fun _ => !h2DropResponseHeader m.name }

/-- The loop of `h2_proxy_finish` applies these entries. -/
lemma h2ApplyMutations_eq (hvalid : ∀ m ∈ log, m.valid = true)
    (hroom : fields.length + log.length ≤ kMaxForwardHeaders) : h2ApplyMutations log fields =
      .ok (Edit.applyAll (fun f => lower f.name) fields ((h2Entries log).map RespHeaderMutation.h2Edit)) := by
  induction log generalizing fields with
  | nil => rfl
  | cons m later ih =>
    have hm := hvalid m List.mem_cons_self
    have hrest : ∀ m ∈ later, m.valid = true := fun m hm => hvalid m (List.mem_cons_of_mem _ hm)
    have hle := length_drop_le m fields
    rw [List.length_cons] at hroom
    have hstep : Edit.apply (fun f => lower f.name) fields m.h2Edit =
        (if m.mode ≠ .add then dropNamed m.name fields else fields) ++
          if m.mode ≠ .remove && !h2DropResponseHeader m.name then [m.field] else [] := by
      cases hmode : m.mode <;> cases hd : h2DropResponseHeader m.name <;>
        simp [Edit.apply, RespHeaderMutation.h2Edit, RespHeaderMutation.edit, Option.filter, dropNamed_eq, hmode, hd]
    rw [h2ApplyMutations, h2Entries]
    generalize (if m.mode ≠ .add then dropNamed m.name fields else fields) = kept at hle hstep ⊢
    dsimp only
    split_ifs with hskip hinvalid hfield hfull
    · rw [List.nil_append, ih hrest (by omega)]
    · simp [hm] at hinvalid
    · omega
    · rw [if_pos hfield] at hstep
      rw [ih hrest (by rw [List.length_append, List.length_singleton]; omega), List.singleton_append, List.map_cons,
        Edit.applyAll, Edit.applyAll, List.foldl_cons, hstep]
    · rw [if_neg hfield, List.append_nil] at hstep
      rw [ih hrest (by omega), List.singleton_append, List.map_cons, Edit.applyAll, Edit.applyAll, List.foldl_cons, hstep]

lemma h2ApplyMutations_filter (hvalid : ∀ m ∈ log, m.valid = true)
    (hroom : fields.length + log.length ≤ kMaxForwardHeaders) :
    h2ApplyMutations log (fields.filter fun f => !h2DropResponseHeader f.name) =
      .ok ((applyMutations Field.name RespHeaderMutation.field fields log).filter fun f => !h2DropResponseHeader f.name) := by
  have hkeyed := keyed_edits (fun _ => rfl : ∀ m, Field.name (RespHeaderMutation.field m) = m.name) log
  have hlower : ∀ name : Str, h2DropResponseHeader name = h2DropResponseHeader (lower name) :=
    fun name => h2DropResponseHeader_lower (lower_lower name).symm
  have hfilter : ∀ l : List Field, l.filter (fun f => !h2DropResponseHeader f.name) =
      l.filter fun f => !h2DropResponseHeader (lower f.name) := by
    intro l
    apply List.filter_congr
    intro f _
    rw [hlower]
  have hle := List.length_filter_le (fun f => !h2DropResponseHeader f.name) fields
  rw [h2ApplyMutations_eq hvalid (by omega), applyMutations_eq, ← Edit.applyAll_essential hkeyed, hfilter, hfilter]
  rw [Edit.filter_applyAll hkeyed.essential fun k => !h2DropResponseHeader k, ← h2Entries_edits, List.map_map]
  congr 2
  apply List.map_congr_left
  intro m _
  simp only [Function.comp_apply, RespHeaderMutation.h2Edit, RespHeaderMutation.edit, ← hlower]

lemma rutHelperRespHeader_eq (c : RespHeaderLog) (name : Str) (fields : List Field) :
    c.rutHelperRespHeader name ((fields.find? fun f => lower f.name = lower name).map Field.value) =
      ((applyMutations Field.name RespHeaderMutation.field fields c.entries).find?
        fun f => lower f.name = lower name).map Field.value := by
  have hkeyed := keyed_edits (fun _ => rfl : ∀ m, Field.name (RespHeaderMutation.field m) = m.name) c.entries
  rw [applyMutations_eq, Edit.find?_applyAll hkeyed, RespHeaderLog.rutHelperRespHeader, Edit.first]
  generalize (fields.find? fun f => decide (lower f.name = lower name)) = fallback
  induction c.entries generalizing fallback with
  | nil => rfl
  | cons m log ih =>
    rw [List.map_cons, List.foldl_cons, List.foldl_cons, ← ih]
    congr 1
    rcases Decidable.em (lower m.name = lower name) with hname | hname
    · cases hmode : m.mode <;> cases fallback <;>
        simp [httpHeaderNameEqCi, hname, RespHeaderMutation.edit, hmode, RespHeaderMutation.field]
    · simp [httpHeaderNameEqCi, hname, RespHeaderMutation.edit]

lemma record_all {c} (h : c.entries.length + log.length ≤ kMaxRespHeaderMutations) :
    log.foldl RespHeaderLog.recordRespHeader c = { c with entries := c.entries ++ log } := by
  induction log generalizing c with
  | nil => simp
  | cons m log ih =>
    rw [List.length_cons] at h
    have hone : c.recordRespHeader m = { c with entries := c.entries ++ [m] } := by
      rw [RespHeaderLog.recordRespHeader, if_neg (by omega)]
    rw [List.foldl_cons, hone, ih]
    · simp
    · rw [List.length_append, List.length_singleton]
      omega

end uses

end Rut.Conn
