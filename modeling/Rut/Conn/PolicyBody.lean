import Rut.Conn.ForwardHeaders
import Rut.Conn.Pipeline

/-!
# Requests under a request policy

Port of the policy ids of `include/rut/common/request_policy.h` and of `inspect_request_policy_body` with the predicates
on names and values it shares with the serializers (`include/rut/runtime/callbacks_impl.h`). The head is scanned again
here, apart from the parser, for what the parser accepts and a policy does not.
-/

set_option linter.all false
namespace Rut.Conn

open Http Lib

/-! ## Policies -/

inductive RequestPolicyId where
  | none
  | http11FixedStrip
  | http11FixedStripContentLengthAfterHost
  | http11FixedTrimSpPreserveHtab
  | http11PreserveHostLowercase
  | invalid
deriving DecidableEq

def RequestPolicyId.code : RequestPolicyId → UInt16
  | none => 0
  | http11FixedStrip => 1
  | http11FixedStripContentLengthAfterHost => 2
  | http11FixedTrimSpPreserveHtab => 3
  | http11PreserveHostLowercase => 4
  | invalid => 0xffff

def requestPolicyIsSupported (id : UInt16) : Bool :=
  id == RequestPolicyId.http11FixedStrip.code || id == RequestPolicyId.http11FixedStripContentLengthAfterHost.code ||
    id == RequestPolicyId.http11FixedTrimSpPreserveHtab.code || id == RequestPolicyId.http11PreserveHostLowercase.code

def requestPolicyTrimsSpPreservesHtab (id : UInt16) : Bool := id == RequestPolicyId.http11FixedTrimSpPreserveHtab.code

def requestPolicyPreservesHost (id : UInt16) : Bool := id == RequestPolicyId.http11PreserveHostLowercase.code

def requestPolicyPlacesContentLengthAfterHost (id : UInt16) : Bool :=
  id == RequestPolicyId.http11FixedStripContentLengthAfterHost.code

/-! ## Names and values -/

def hostName : Str := lit ['h','o','s','t']
def expectName : Str := lit ['e','x','p','e','c','t']
def trailersToken : Str := lit ['t','r','a','i','l','e','r','s']
def xForwardedForName : Str := lit ['x','-','f','o','r','w','a','r','d','e','d','-','f','o','r']
def xForwardedHostName : Str := lit ['x','-','f','o','r','w','a','r','d','e','d','-','h','o','s','t']
def xForwardedProtoName : Str :=
  lit ['x','-','f','o','r','w','a','r','d','e','d','-','p','r','o','t','o']

def requestPolicyNameEq (p q : Str) : Bool := lower p == lower q

def requestPolicyConnectionNominationIsProtected (p : Str) : Bool :=
  p.head? == some (ch ':') || requestPolicyNameEq p contentLengthName || requestPolicyNameEq p hostName ||
    requestPolicyNameEq p xForwardedForName || requestPolicyNameEq p xForwardedHostName ||
    requestPolicyNameEq p xForwardedProtoName

def requestPolicyTokens (value : Str) : List Str :=
  (value.splitOnP (· == ch ',')).filterMap fun t => if trimOws t = [] then none else some (trimOws t)

def requestPolicyCommaValueHasToken (value token : Str) : Bool :=
  (requestPolicyTokens value).any fun t => requestPolicyNameEq t token

def requestPolicyHostAuthorityByteIsValid (c : UInt8) : Bool :=
  (ch 'A' ≤ c && c ≤ ch 'Z') || (ch 'a' ≤ c && c ≤ ch 'z') || (ch '0' ≤ c && c ≤ ch '9') ||
    (lit ['!','$','%','&','\x27','(',')','*','+',',','-','.',':',';','=','@','[',']','_',
      '~']).contains c

def requestPolicyHostAuthorityIsValid (s : Str) : Bool := s.all requestPolicyHostAuthorityByteIsValid

def strippedClientEnvoyHeaders : List Str := [
  lit ['x','-','e','n','v','o','y','-','i','n','t','e','r','n','a','l'],
  lit ['x','-','e','n','v','o','y','-','r','e','t','r','i','a','b','l','e','-','s','t','a','t',
    'u','s','-','c','o','d','e','s'],
  lit ['x','-','e','n','v','o','y','-','r','e','t','r','i','a','b','l','e','-','h','e','a','d',
    'e','r','-','n','a','m','e','s'],
  lit ['x','-','e','n','v','o','y','-','r','e','t','r','y','-','o','n'],
  lit ['x','-','e','n','v','o','y','-','r','e','t','r','y','-','g','r','p','c','-','o','n'],
  lit ['x','-','e','n','v','o','y','-','m','a','x','-','r','e','t','r','i','e','s'],
  lit ['x','-','e','n','v','o','y','-','u','p','s','t','r','e','a','m','-','a','l','t','-','s',
    't','a','t','-','n','a','m','e'],
  lit ['x','-','e','n','v','o','y','-','u','p','s','t','r','e','a','m','-','r','q','-','t','i',
    'm','e','o','u','t','-','m','s'],
  lit ['x','-','e','n','v','o','y','-','u','p','s','t','r','e','a','m','-','r','q','-','p','e',
    'r','-','t','r','y','-','t','i','m','e','o','u','t','-','m','s'],
  lit ['x','-','e','n','v','o','y','-','u','p','s','t','r','e','a','m','-','r','q','-','t','i',
    'm','e','o','u','t','-','a','l','t','-','r','e','s','p','o','n','s','e'],
  lit ['x','-','e','n','v','o','y','-','e','x','p','e','c','t','e','d','-','r','q','-','t','i',
    'm','e','o','u','t','-','m','s'],
  lit ['x','-','e','n','v','o','y','-','f','o','r','c','e','-','t','r','a','c','e'],
  lit ['x','-','e','n','v','o','y','-','i','p','-','t','a','g','s'],
  lit ['x','-','e','n','v','o','y','-','o','r','i','g','i','n','a','l','-','u','r','l'],
  lit ['x','-','e','n','v','o','y','-','h','e','d','g','e','-','o','n','-','p','e','r','-','t',
    'r','y','-','t','i','m','e','o','u','t'],
  lit ['x','-','f','o','r','w','a','r','d','e','d','-','c','l','i','e','n','t','-','c','e','r',
    't'],
  lit ['x','-','e','n','v','o','y','-','e','x','t','e','r','n','a','l','-','a','d','d','r','e',
    's','s']]

def requestPolicyIsStrippedClientEnvoyHeader (name : Str) : Bool :=
  strippedClientEnvoyHeaders.any (requestPolicyNameEq name)

def kInlineRequestHeaders : List Str := [
  lit ['x','-','c','l','i','e','n','t','-','t','r','a','c','e','-','i','d'],
  lit ['x','-','e','n','v','o','y','-','d','o','w','n','s','t','r','e','a','m','-','s','e','r',
    'v','i','c','e','-','c','l','u','s','t','e','r'],
  lit ['x','-','e','n','v','o','y','-','d','o','w','n','s','t','r','e','a','m','-','s','e','r',
    'v','i','c','e','-','n','o','d','e'],
  lit ['x','-','e','n','v','o','y','-','i','s','-','t','i','m','e','o','u','t','-','r','e','t',
    'r','y'],
  lit ['x','-','e','n','v','o','y','-','o','r','i','g','i','n','a','l','-','p','a','t','h'],
  lit ['x','-','e','n','v','o','y','-','o','r','i','g','i','n','a','l','-','h','o','s','t'],
  lit ['x','-','f','o','r','w','a','r','d','e','d','-','f','o','r'],
  lit ['x','-','f','o','r','w','a','r','d','e','d','-','h','o','s','t'],
  lit ['g','r','p','c','-','t','i','m','e','o','u','t'],
  lit ['u','s','e','r','-','a','g','e','n','t'],
  lit ['x','-','e','n','v','o','y','-','u','p','s','t','r','e','a','m','-','s','t','r','e','a',
    'm','-','d','u','r','a','t','i','o','n','-','m','s'],
  lit ['x','-','f','o','r','w','a','r','d','e','d','-','p','o','r','t'],
  lit ['x','-','e','n','v','o','y','-','a','t','t','e','m','p','t','-','c','o','u','n','t'],
  lit ['c','o','n','t','e','n','t','-','t','y','p','e'],
  lit ['x','-','e','n','v','o','y','-','d','e','c','o','r','a','t','o','r','-','o','p','e','r',
    'a','t','i','o','n'],
  lit ['p','r','o','x','y','-','s','t','a','t','u','s'],
  lit ['x','-','r','e','q','u','e','s','t','-','i','d'],
  lit ['v','i','a'],
  lit ['c','d','n','-','l','o','o','p'],
  lit ['a','c','c','e','s','s','-','c','o','n','t','r','o','l','-','r','e','q','u','e','s','t',
    '-','h','e','a','d','e','r','s'],
  lit ['a','c','c','e','s','s','-','c','o','n','t','r','o','l','-','r','e','q','u','e','s','t',
    '-','m','e','t','h','o','d'],
  lit ['o','r','i','g','i','n'],
  lit ['a','c','c','e','s','s','-','c','o','n','t','r','o','l','-','r','e','q','u','e','s','t',
    '-','p','r','i','v','a','t','e','-','n','e','t','w','o','r','k'],
  lit ['a','u','t','h','o','r','i','z','a','t','i','o','n'],
  lit ['p','r','a','g','m','a'],
  lit ['c','a','c','h','e','-','c','o','n','t','r','o','l'],
  lit ['i','f','-','m','a','t','c','h'],
  lit ['i','f','-','n','o','n','e','-','m','a','t','c','h'],
  lit ['i','f','-','m','o','d','i','f','i','e','d','-','s','i','n','c','e'],
  lit ['i','f','-','u','n','m','o','d','i','f','i','e','d','-','s','i','n','c','e'],
  lit ['i','f','-','r','a','n','g','e'],
  lit ['r','e','f','e','r','e','r'],
  lit ['a','c','c','e','p','t','-','e','n','c','o','d','i','n','g'],
  lit ['c','o','n','t','e','n','t','-','e','n','c','o','d','i','n','g'],
  lit ['a','c','c','e','p','t'],
  lit ['g','r','p','c','-','a','c','c','e','p','t','-','e','n','c','o','d','i','n','g'],
  lit ['a','u','t','h','e','n','t','i','c','a','t','i','o','n']]

def requestPolicyInlineRequestHeaderIndex (name : Str) : Option Nat :=
  kInlineRequestHeaders.findIdx? (requestPolicyNameEq name)

structure InlineSeen where
  seen : Nat → Bool := fun _ => false
  duplicated : Nat → Bool := fun _ => false

def InlineSeen.mark (s : InlineSeen) (name : Str) : InlineSeen :=
  match requestPolicyInlineRequestHeaderIndex name with
  | none => s
  | some i =>
    { seen := Function.update s.seen i true
      duplicated := if s.seen i then Function.update s.duplicated i true else s.duplicated }

/-! ## The lines of a head -/

def policyLines : Nat → Str → Option (List RawField)
  | 0, _ => none
  | turns + 1, s =>
    if s.length ≤ 2 then some []
    else
      match cutLine s with
      | none => none
      | some (line, rest) =>
        let name := line.takeWhile (· != ch ':')
        if name = [] ∨ name = line then none
        else (policyLines turns rest).map (⟨name, (line.dropWhile (· != ch ':')).drop 1⟩ :: ·)

/-- The field lines of a head behind its request line. All passes over a head scan it this way. -/
def headLines (head : Str) : Option (List RawField) := (cutLine head).bind fun line => policyLines head.length line.2

/-- `name_nominated`: some Connection line names the field. -/
def nameNominated (lines : List RawField) (name : Str) : Bool :=
  lines.any fun f => requestPolicyNameEq f.name connectionName && requestPolicyCommaValueHasToken (trimOws f.raw) name

/-- An inline header that was seen again is nominated, so that all of its lines are dropped. -/
def inlineDuplicatesNominated (lines : List RawField) (s : InlineSeen) : Bool :=
  kInlineRequestHeaders.zipIdx.all fun entry => !s.duplicated entry.2 || nameNominated lines entry.1

/-! ## The body -/

inductive ForwardResponseBufferingMode where
  | none
  | completeContentLength
  | bounded
deriving DecidableEq

def forwardResponseBufferingUsesContentLengthMachinery : ForwardResponseBufferingMode → Bool
  | .none => false
  | .completeContentLength => true
  | .bounded => true

inductive ResponseReadDeadlineState where
  | none
  | preflight
  | validated
  | armed
  | expiryPending
  | batchPending
  | refreshPending
  | bodyComplete
deriving DecidableEq

inductive ResponseReadDeadlineProfile where
  | none
  | headerOnlyHead
  | bodylessNonHeadContentLengthZero
  | fixedContentLengthUploadNonHeadContentLengthZero
  | fixedContentLengthUploadHeaderOnlyHead
deriving DecidableEq

/-- What the policies read and write of a connection. The send buffer is only written to, and `successorStable` is what
`http1_pipeline_successor_materialization_is_stable` says of the rest of the connection. -/
structure PolicyConn (cap sendCap : Nat) where
  recvBuf : Buffer cap
  sendBuf : Output sendCap
  recvSlice : Bool
  sendSlice : Bool
  http2 : Bool
  reqHttp11 : Bool
  tlsActive : Bool
  reqMethodGet : Bool
  reqWantsUpgrade : Bool
  reqBodyMode : BodyMode
  reqBodyRemaining : Nat
  reqHeaderEnd : Nat
  reqInitialSendLen : Nat
  reqSize : Nat
  reqKeepAlive : Bool
  requestPolicyId : UInt16
  requestBodyFullyBuffered : Bool
  requestUploadComplete : Bool
  rawTargetWitness : Nat × Nat × Nat
  pipelineDepth : Nat
  pipelineStashLen : Nat
  http1PipelineRequestGeneration : Nat
  successorStable : Bool
  responseReadDeadlineState : ResponseReadDeadlineState
  responseReadDeadlineProfile : ResponseReadDeadlineProfile
  responseReadDeadlineBuffering : ForwardResponseBufferingMode
  responseReadDeadlineSeconds : Nat
  responseReadDeadlineRouteMethodGet : Bool
  /-- `response_read_deadline_upload.raw_total_length`. -/
  uploadRawTotalLength : Nat

inductive RequestPolicyBodyState where
  | invalid
  | complete
  | waiting
deriving DecidableEq

structure BodyScan where
  clCount : Nat := 0
  hasTe : Bool := false
  hasExpect : Bool := false
  hasUpgrade : Bool := false
  upgradeValueNonempty : Bool := false
  connectionNominatesUpgrade : Bool := false
  xfpCount : Nat := 0
  inlineSeen : InlineSeen := {}
  hostCount : Nat := 0
  hostValue : Str := []

def BodyScan.field (policyId : UInt16) (s : BodyScan) (f : RawField) : Option BodyScan :=
  let named := requestPolicyNameEq f.name
  let value := trimOws f.raw
  let preserves := requestPolicyPreservesHost policyId
  if named transferEncodingName then none
  else if preserves && named connectionName &&
      (requestPolicyTokens value).any requestPolicyConnectionNominationIsProtected then none
  else
    some
      { clCount := s.clCount + (named contentLengthName).toNat
        hasTe := s.hasTe || named teName
        hasExpect := s.hasExpect || (named expectName && value ≠ [])
        hasUpgrade := s.hasUpgrade || named upgradeName
        upgradeValueNonempty := s.upgradeValueNonempty || (named upgradeName && value ≠ [])
        connectionNominatesUpgrade :=
          s.connectionNominatesUpgrade || (named connectionName && requestPolicyCommaValueHasToken value upgradeName)
        xfpCount := s.xfpCount + (preserves && named xForwardedProtoName).toNat
        inlineSeen := if preserves then s.inlineSeen.mark f.name else s.inlineSeen
        hostCount := s.hostCount + (named hostName).toNat
        hostValue := if named hostName then value else s.hostValue }

namespace PolicyConn

variable {cap sendCap : Nat}

def bodyState (c : PolicyConn cap sendCap) (policyId : UInt16) (req : ParsedRequest) (headerEnd : Nat)
    (lines : List RawField) (s : BodyScan) : RequestPolicyBodyState :=
  let preserves := requestPolicyPreservesHost policyId
  if preserves && (s.hostCount ≠ 1 || s.hostValue = [] || !requestPolicyHostAuthorityIsValid s.hostValue) then
    .invalid
  else if preserves && s.xfpCount > 1 then .invalid
  else if preserves && !inlineDuplicatesNominated lines s.inlineSeen then .invalid
  else if preserves && s.upgradeValueNonempty && s.connectionNominatesUpgrade then .invalid
  else if c.reqWantsUpgrade || s.clCount > 1 then .invalid
  else if s.clCount = 0 then if c.reqBodyMode ≠ .none then .invalid else .complete
  else if s.hasExpect then .invalid
  else if !preserves && s.hasUpgrade then .invalid
  else if s.hasTe && !preserves then .invalid
  else if !req.hasContentLength || req.contentLength > cap - headerEnd then .invalid
  else if requestPolicyPlacesContentLengthAfterHost policyId && req.contentLength = 0 then .invalid
  else if headerEnd + req.contentLength > cap then .invalid
  else if c.recvBuf.len < headerEnd + req.contentLength then .waiting
  else if c.reqBodyMode = .contentLength ∧ c.reqBodyRemaining ≠ 0 then .waiting
  else if c.reqBodyMode ≠ .contentLength ∧ req.contentLength ≠ 0 then .invalid
  else .complete

def inspectRequestPolicyBody (c : PolicyConn cap sendCap) (policyId : UInt16) : RequestPolicyBodyState :=
  if policyId = 0 ∨ !requestPolicyIsSupported policyId ∨ c.http2 ∨ !c.reqHttp11 ∨ !c.recvSlice ∨ !c.sendSlice then
    .invalid
  else if requestPolicyPreservesHost policyId && c.tlsActive then .invalid
  else
    match parse c.recvBuf.bytes with
    | .complete req headerEnd =>
      if req.path.head? ≠ some (ch '/') then .invalid
      else if requestPolicyPreservesHost policyId && req.targetHasFragment then .invalid
      else if requestPolicyTrimsSpPreservesHtab policyId &&
          (req.method ≠ .get || req.hasContentLength || req.chunked || c.reqBodyMode ≠ .none ||
            c.reqBodyRemaining ≠ 0) then .invalid
      else
        match headLines (c.recvBuf.bytes.take headerEnd) with
        | none => .invalid
        | some lines =>
          match lines.foldlM (BodyScan.field policyId) {} with
          | none => .invalid
          | some s => c.bodyState policyId req headerEnd lines s
    | _ => .invalid

end PolicyConn

/-! ## What the scans find -/

lemma requestPolicyNameEq_iff {p q : Str} : requestPolicyNameEq p q = true ↔ lower p = lower q := beq_iff_eq

lemma requestPolicyTokens_eq (value : Str) : requestPolicyTokens value = commaList value := by
  rw [requestPolicyTokens, commaList]
  induction value.splitOnP (· == ch ',') with
  | nil => rfl
  | cons t ts ih =>
    by_cases ht : trimOws t = []
    · simp [ht, ih]
    · simp [ht, ih]

lemma hasToken_iff {value token} :
    requestPolicyCommaValueHasToken value token = true ↔ ∃ option ∈ commaList value, lower option = lower token := by
  rw [requestPolicyCommaValueHasToken, requestPolicyTokens_eq, List.any_eq_true]
  simp only [requestPolicyNameEq_iff]

def FieldNominated (fs : List RawField) (name : Str) : Prop :=
  ∃ f ∈ fs, lower f.name = connectionName ∧ ∃ option ∈ commaList f.field.value, lower option = lower name

lemma lower_connectionName : lower connectionName = connectionName := by decide

lemma nameNominated_iff {fs name} : nameNominated fs name = true ↔ FieldNominated fs name := by
  rw [nameNominated, List.any_eq_true]
  simp only [Bool.and_eq_true, requestPolicyNameEq_iff, hasToken_iff, lower_connectionName]
  rfl

section lines
variable {head target : Str} {m : HttpMethod} {v : HttpVersion} {fs : List RawField}

lemma fieldLine_of_grammar (h : RequestGrammar head m target v fs) : ∀ f ∈ fs, FieldLine f := by
  intro f hf
  refine ⟨h.name_ne f hf, h.name_token f hf, fun hcr => ?_⟩
  have htable := h.raw_value f hf _ hcr
  revert htable
  decide

lemma policyLines_eq (h : ∀ f ∈ fs, FieldLine f) {turns} (ht : fs.length < turns) :
    policyLines turns (fs.flatMap RawField.bytes ++ crlf) = some fs := by
  induction fs generalizing turns with
  | nil =>
    obtain ⟨turns, rfl⟩ := Nat.exists_eq_succ_of_ne_zero (Nat.ne_zero_of_lt ht)
    rfl
  | cons f fs ih =>
    obtain ⟨turns, rfl⟩ := Nat.exists_eq_succ_of_ne_zero (Nat.ne_zero_of_lt ht)
    have hf := h f List.mem_cons_self
    have hname := hf.name_byte
    have hcr : ch '\r' ∉ f.name ++ ch ':' :: f.raw := by
      simp only [List.mem_append, List.mem_cons, not_or]
      exact ⟨fun hmem => (hname _ hmem).1 rfl, by decide, hf.raw_cr⟩
    have hbytes : (f :: fs).flatMap RawField.bytes ++ crlf =
        (f.name ++ ch ':' :: f.raw) ++ crlf ++ (fs.flatMap RawField.bytes ++ crlf) := by simp [RawField.bytes, crlf]
    have hcolon : ∀ c ∈ f.name, (c != ch ':') = true := by simpa using fun c hc => (hname c hc).2.1
    have htake : (f.name ++ ch ':' :: f.raw).takeWhile (· != ch ':') = f.name := by
      rw [List.takeWhile_append_of_pos hcolon]
      simp
    have hdrop : (f.name ++ ch ':' :: f.raw).dropWhile (· != ch ':') = ch ':' :: f.raw := by
      rw [List.dropWhile_append_of_pos hcolon]
      simp
    have hlong : ¬ ((f :: fs).flatMap RawField.bytes ++ crlf).length ≤ 2 := by
      simp [RawField.bytes, crlf]
      omega
    rw [policyLines, if_neg hlong, hbytes, cutLine_line hcr]
    dsimp only
    rw [htake, hdrop, if_neg (by simp [hf.name_ne]), ih (fun g hg => h g (List.mem_cons_of_mem _ hg))
      (by rw [List.length_cons] at ht; omega)]
    rfl

lemma headLines_eq (h : RequestGrammar head m target v fs) :
    ∃ line, cutLine head = some (line, fs.flatMap RawField.bytes ++ crlf) ∧
      m.bytes.length + target.length ≤ line.length ∧ headLines head = some fs := by
  have hcr : ch '\r' ∉ m.bytes ++ target ++ ch ' ' :: v.bytes.take 8 := by
    have huri : tableAt kUriTable (ch '\r') = false := by decide
    simp only [List.mem_append, List.mem_cons, not_or]
    refine ⟨⟨by cases m <;> decide, fun hmem => ?_⟩, by decide, by cases v <;> decide⟩
    rw [h.target_uri _ hmem] at huri
    cases huri
  have hversion : v.bytes = v.bytes.take 8 ++ crlf := by cases v <;> rfl
  have hhead : head = (m.bytes ++ target ++ ch ' ' :: v.bytes.take 8) ++ crlf ++ (fs.flatMap RawField.bytes ++ crlf) := by
    rw [h.bytes, headBytes]
    nth_rewrite 1 [hversion]
    simp [crlf]
  have hcut := cutLine_line hcr (fs.flatMap RawField.bytes ++ crlf)
  rw [← hhead] at hcut
  refine ⟨_, hcut, by simp, ?_⟩
  rw [headLines, hcut]
  refine policyLines_eq (fieldLine_of_grammar h) ?_
  have hlt := length_lt_flatMap fs
  rw [hhead]
  simp only [List.length_append, crlf, List.length_cons, List.length_nil]
  omega

end lines

section scan
variable {policyId : UInt16} {s s' : BodyScan} {f : RawField} {lines : List RawField}

lemma BodyScan.field_some (h : s.field policyId f = some s') : requestPolicyNameEq f.name transferEncodingName = false ∧
      s'.clCount = s.clCount + (requestPolicyNameEq f.name contentLengthName).toNat := by
  obtain ⟨hte, h⟩ := Option.ite_none_left_eq_some.1 h
  obtain ⟨-, h⟩ := Option.ite_none_left_eq_some.1 h
  cases h
  exact ⟨Bool.eq_false_of_not_eq_true hte, rfl⟩

lemma BodyScan.clCount_eq (h : lines.foldlM (BodyScan.field policyId) s = some s') :
    s'.clCount = s.clCount + lines.countP fun f => requestPolicyNameEq f.name contentLengthName := by
  induction lines generalizing s with
  | nil =>
    cases h
    rfl
  | cons f lines ih =>
    obtain ⟨s₁, hs₁, h⟩ := Option.bind_eq_some_iff.1 h
    rw [ih h, (field_some hs₁).2, List.countP_cons]
    cases requestPolicyNameEq f.name contentLengthName with
    | false => simp
    | true =>
      rw [if_pos rfl, Bool.toNat_true]
      omega

end scan

namespace PolicyConn

variable {cap sendCap : Nat} {c : PolicyConn cap sendCap} {policyId : UInt16}

lemma of_refusal {p : Prop} [Decidable p] {x} (h : (if p then RequestPolicyBodyState.invalid else x) = .complete) :
    ¬p ∧ x = .complete := by
  split_ifs at h with hp
  exact ⟨hp, h⟩

lemma bodyState_complete {req headerEnd lines s}
    (h : c.bodyState policyId req headerEnd lines s = .complete) : s.clCount ≤ 1 := by
  rw [bodyState] at h
  obtain ⟨-, h⟩ := of_refusal h
  obtain ⟨-, h⟩ := of_refusal h
  obtain ⟨-, h⟩ := of_refusal h
  obtain ⟨-, h⟩ := of_refusal h
  have hcount := (of_refusal h).1
  rw [Bool.or_eq_true, decide_eq_true_eq] at hcount
  omega

lemma inspect_complete (h : c.inspectRequestPolicyBody policyId = .complete) :
    requestPolicyIsSupported policyId = true ∧ ∃ req headerEnd lines,
      parse c.recvBuf.bytes = .complete req headerEnd ∧ headLines (c.recvBuf.bytes.take headerEnd) = some lines ∧
      lines.countP (fun f => requestPolicyNameEq f.name contentLengthName) ≤ 1 := by
  rw [inspectRequestPolicyBody] at h
  by_cases hadmits : policyId = 0 ∨ (!requestPolicyIsSupported policyId) = true ∨ c.http2 = true ∨
      (!c.reqHttp11) = true ∨ (!c.recvSlice) = true ∨ (!c.sendSlice) = true
  · rw [if_pos hadmits] at h
    cases h
  have hsupported : requestPolicyIsSupported policyId = true := by
    by_contra hno
    exact hadmits (.inr (.inl (by rw [Bool.eq_false_of_not_eq_true hno]; rfl)))
  refine ⟨hsupported, ?_⟩
  split_ifs at h with htls
  cases hp : parse c.recvBuf.bytes with
  | incomplete => rw [hp] at h; cases h
  | error => rw [hp] at h; cases h
  | complete req headerEnd =>
    rw [hp] at h
    dsimp only at h
    split_ifs at h with hpath hfragment hget
    cases hlines : headLines (c.recvBuf.bytes.take headerEnd) with
    | none => rw [hlines] at h; cases h
    | some lines =>
      rw [hlines] at h
      dsimp only at h
      cases hscan : lines.foldlM (BodyScan.field policyId) {} with
      | none => rw [hscan] at h; cases h
      | some s =>
        rw [hscan] at h
        have hcount := BodyScan.clCount_eq hscan
        have hle := bodyState_complete h
        refine ⟨req, headerEnd, lines, rfl, hlines, ?_⟩
        omega

end PolicyConn

end Rut.Conn
