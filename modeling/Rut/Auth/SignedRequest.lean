import Rut.Auth.Crypto
import Rut.Http.Fields
import Rut.Lib.Calendar

/-!
# Signed requests

Port of `src/runtime/signed_request.cc`. A view of the source is the list of its bytes; the fields of an Authorization
value are told apart by a type of their own instead of a bit each.
-/

set_option linter.all false
namespace Rut.Auth

open Http (decimalValue)

def kMaxAuth : Nat := 4096

def kMaxTarget : Nat := 8192

def kMaxBody : Nat := 1024 * 1024

def kDigestSize : Nat := 32

def kBase64Size : Nat := 44

def validKeyId (id : Str) : Bool :=
  id.length ≠ 0 && id.length ≤ 128 &&
    id.all fun c => !(c < 0x21 || c > 0x7e || c == ch '"' || c == ch '\\' || c == ch ',')

def supportedMethods : List Str :=
  [lit ['G','E','T'], lit ['P','O','S','T'], lit ['P','U','T'], lit ['D','E','L','E','T','E'],
    lit ['P','A','T','C','H'], lit ['H','E','A','D'], lit ['O','P','T','I','O','N','S'],
    lit ['T','R','A','C','E']]

def supportedMethod (method : Str) : Bool := supportedMethods.contains method

def validTarget (target : Str) : Bool :=
  target.length ≠ 0 && target.length ≤ kMaxTarget && target.head? == some (ch '/') &&
    target.all fun c => !(c ≤ 0x20 || c == 0x7f || c == ch '#')

/-! ## The Authorization value -/

inductive AuthField where
  | keyId
  | algorithm
  | headers
  | signature
deriving DecidableEq

namespace AuthField

def name : AuthField → Str
  | keyId => lit ['k','e','y','I','d']
  | algorithm => lit ['a','l','g','o','r','i','t','h','m']
  | headers => lit ['h','e','a','d','e','r','s']
  | signature => lit ['s','i','g','n','a','t','u','r','e']

def all : List AuthField := [keyId, algorithm, headers, signature]

def find? (name : Str) : Option AuthField := all.find? fun field => field.name == name

lemma mem_all (field : AuthField) : field ∈ all := by cases field <;> decide

lemma find?_of_some {name field} (h : find? name = some field) : field.name = name := by
  have hfound := List.find?_some (p := fun field : AuthField => field.name == name) h
  exact beq_iff_eq.1 hfound

end AuthField

/-- The parameters seen so far, with their values (`AuthFields`). -/
abbrev AuthFields := AuthField → Option Str

def AuthFields.assign (out : AuthFields) (name value : Str) : Option AuthFields :=
  match AuthField.find? name with
  | none => none
  | some field => if (out field).isSome then none else some (Function.update out field (some value))

def isBlank (c : UInt8) : Bool := c == ch ' ' || c == ch '\t'

def isLetter (c : UInt8) : Bool := (ch 'a' ≤ c && c ≤ ch 'z') || (ch 'A' ≤ c && c ≤ ch 'Z')

def isQuotedByte (c : UInt8) : Bool := !(c < 0x20 || c > 0x7e || c == ch '\\' || c == ch ',')

/-- One parameter, `name="value"`: its name, its value and what follows. -/
def readParameter (s : Str) : Option (Str × Str × Str) :=
  let name := s.takeWhile isLetter
  if name = [] then none
  else
    match s.dropWhile isLetter with
    | eq :: quote :: rest =>
      if eq ≠ ch '=' ∨ quote ≠ ch '"' then none
      else
        let value := rest.takeWhile (· != ch '"')
        if !value.all isQuotedByte then none
        else
          match rest.dropWhile (· != ch '"') with
          | [] => none
          | _ :: rest => some (name, value, rest)
    | _ => none

/-- The loop over the parameters. Each turn shortens the input, so that its length bounds the turns. -/
def authLoop : Nat → Nat → AuthFields → Str → Option (Nat × AuthFields)
  | _, count, out, [] => some (count, out)
  | 0, _, _, _ => none
  | turns + 1, count, out, s =>
    match readParameter (if count ≠ 0 then s.dropWhile isBlank else s) with
    | none => none
    | some (name, value, rest) =>
      match out.assign name value with
      | none => none
      | some out =>
        match rest with
        | [] => some (count + 1, out)
        | c :: rest =>
          if c ≠ ch ',' then none
          else if rest = [] then none
          else authLoop turns (count + 1) out rest

def signatureScheme : Str := lit ['S','i','g','n','a','t','u','r','e',' ']

def parseAuthorization (auth : Str) : Option AuthFields :=
  if auth.length > kMaxAuth ∨ auth.length < 10 ∨ auth.take 10 ≠ signatureScheme then none
  else if auth.any fun c => c == ch '\r' || c == ch '\n' || c == 0 then none
  else
    match authLoop auth.length 0 (fun _ => none) (auth.drop 10) with
    | none => none
    | some (count, out) => if count = 4 ∧ AuthField.all.all fun field => (out field).isSome then some out else none

/-! ## Dates -/

def slice (s : Str) (start length : Nat) : Str := (s.drop start).take length

/-- A number of decimal digits (`number` in `parse_http_date`). -/
def readNumber (s : Str) : Option Nat := if s.all fun c => ch '0' ≤ c && c ≤ ch '9' then some (decimalValue 0 s) else none

def kMonths : List Str :=
  [lit ['J','a','n'], lit ['F','e','b'], lit ['M','a','r'], lit ['A','p','r'], lit ['M','a','y'],
    lit ['J','u','n'], lit ['J','u','l'], lit ['A','u','g'], lit ['S','e','p'], lit ['O','c','t'],
    lit ['N','o','v'], lit ['D','e','c']]

def kDays : List Nat := [31, 28, 31, 30, 31, 30, 31, 31, 30, 31, 30, 31]

def kWeekdays : List Str :=
  [lit ['S','u','n'], lit ['M','o','n'], lit ['T','u','e'], lit ['W','e','d'], lit ['T','h','u'],
    lit ['F','r','i'], lit ['S','a','t']]

def isLeap (year : Nat) : Bool := year % 4 == 0 && (year % 100 != 0 || year % 400 == 0)

def monthDays (year month : Nat) : Nat := kDays.getD month 0 + if month = 1 ∧ isLeap year then 1 else 0

def leapYears (y : Nat) : Nat := y / 4 - y / 100 + y / 400

def epochDays (year month day : Nat) : Nat :=
  (year - 1970) * 365 + leapYears (year - 1) - leapYears 1969 +
    ((List.range month).map (monthDays year)).sum + (day - 1)

def parseHttpDate (value : Str) : Option Nat :=
  if value.length ≠ 29 ∨ slice value 3 2 ≠ lit [',',' '] ∨ slice value 7 1 ≠ lit [' '] ∨ slice value 11 1 ≠ lit [' '] ∨
      slice value 16 1 ≠ lit [' '] ∨ slice value 19 1 ≠ lit [':'] ∨ slice value 22 1 ≠ lit [':'] ∨
      slice value 25 1 ≠ lit [' '] ∨ slice value 26 3 ≠ lit ['G','M','T'] then none
  else
    match readNumber (slice value 5 2), readNumber (slice value 12 4), readNumber (slice value 17 2),
        readNumber (slice value 20 2), readNumber (slice value 23 2) with
    | some day, some year, some hour, some minute, some second =>
      if year < 1970 ∨ hour > 23 ∨ minute > 59 ∨ second > 59 then none
      else
        let month := kMonths.findIdx (· == slice value 8 3)
        if month = 12 then none
        else if day = 0 ∨ day > monthDays year month then none
        else
          let days := epochDays year month day
          if slice value 0 3 ≠ kWeekdays.getD ((days + 4) % 7) [] then none
          else some (days * 86400 + hour * 3600 + minute * 60 + second)
    | _, _, _, _, _ => none

def freshEnough (timestamp : Nat) (now : Int) : Bool :=
  if now ≤ 0 then false
  else
    let current := now.toNat
    if timestamp > current then timestamp - current ≤ 300 else current - timestamp ≤ 300

/-! ## The check -/

def matchesCanonicalBase64 (value bytes : Str) : Bool :=
  match base64EncodeV1 bytes (kBase64Size + 1) with
  | none => false
  | some expected => expected.length == value.length && value == expected

structure SignedRequest where
  method : Str
  requestTarget : Str
  authorization : Str
  date : Str
  digest : Str
  rawBody : Str
  trustedKeyId : Str
  trustedSecret : Str
  unixSeconds : Int
deriving DecidableEq

def digestScheme : Str := lit ['S','H','A','-','2','5','6','=']

def signedHeaders : Str :=
  lit ['@','r','e','q','u','e','s','t','-','t','a','r','g','e','t',' ','d','a','t','e',' ','d','i',
    'g','e','s','t']

namespace SignedRequest

variable (crypto : Crypto)

def digestMatches (r : SignedRequest) : Bool :=
  match crypto.digestV1 .sha256 r.rawBody none kDigestSize with
  | none => false
  | some bodyHash =>
    bodyHash.length == kDigestSize &&
      match base64EncodeV1 bodyHash (kBase64Size + 1) with
      | none => false
      | some expected =>
        expected.length == kBase64Size && r.digest.length == 8 + kBase64Size && r.digest.take 8 == digestScheme &&
          r.digest.drop 8 == expected

/-- The spans fed to the keyed digest (`kParts`). -/
def parts (r : SignedRequest) : List Str :=
  [r.trustedKeyId, lit ['\n'], r.method, lit [' '], r.requestTarget, lit ['\n'], lit ['d','a','t','e',':',' '],
    r.date, lit ['\n'], lit ['d','i','g','e','s','t',':',' '], digestScheme, (r.digest.drop 8).take kBase64Size,
    lit ['\n']]

/-- The checks in front of the comparison of the signatures; the supplied signature. -/
def checks (r : SignedRequest) : Option Str :=
  if !supportedMethod r.method || !validTarget r.requestTarget || !validKeyId r.trustedKeyId ||
      r.trustedSecret.length = 0 || r.trustedSecret.length > 4096 || r.rawBody.length > kMaxBody then none
  else
    match parseAuthorization r.authorization with
    | none => none
    | some fields =>
      match fields .keyId, fields .algorithm, fields .headers, fields .signature with
      | some keyId, some algorithm, some headers, some signature =>
        if !validKeyId keyId || keyId ≠ r.trustedKeyId ||
            algorithm ≠ lit ['h','m','a','c','-','s','h','a','2','5','6'] || headers ≠ signedHeaders then none
        else if signature.length ≠ kBase64Size then none
        else
          match parseHttpDate r.date with
          | none => none
          | some dateSeconds =>
            if !freshEnough dateSeconds r.unixSeconds then none
            else if !r.digestMatches crypto then none
            else some signature
      | _, _, _, _ => none

/-- `signed_request_hmac_sha256_valid`. -/
def valid (r : SignedRequest) : Bool :=
  match r.checks crypto with
  | none => false
  | some signature =>
    match crypto.digestPartsV1 .sha256 r.parts (some r.trustedSecret) kDigestSize with
    | none => false
    | some mac => mac.length == kDigestSize && matchesCanonicalBase64 signature mac

end SignedRequest

/-! ## What an Authorization value says -/

def parameterText (name value : Str) : Str := name ++ ch '=' :: ch '"' :: value ++ [ch '"']

inductive ParametersText : List (Str × Str) → Str → Prop where
  | last {name value} :
    ParametersText [(name, value)] (parameterText name value)
  | more {name value parameters blanks text} :
    (∀ c ∈ blanks, isBlank c = true) →
    ParametersText parameters text →
    ParametersText ((name, value) :: parameters) (parameterText name value ++ ch ',' :: blanks ++ text)

/-- An Authorization value with the four parameters, each once and in any order. -/
structure AuthorizationText (auth : Str) (parameters : List (Str × Str)) : Prop where
  text : ∃ text, auth = signatureScheme ++ text ∧ ParametersText parameters text
  names : (parameters.map Prod.fst).Perm (AuthField.all.map AuthField.name)

lemma readParameter_text {s name value rest} (h : readParameter s = some (name, value, rest)) :
    s = parameterText name value ++ rest := by
  rw [readParameter] at h
  have hs := List.takeWhile_append_dropWhile (p := isLetter) (l := s)
  split_ifs at h with hname
  rcases hrest : s.dropWhile isLetter with - | ⟨eq, - | ⟨quote, tail⟩⟩
  · rw [hrest] at h
    cases h
  · rw [hrest] at h
    cases h
  · rw [hrest] at h hs
    dsimp only at h
    split_ifs at h with heq hvalue
    rw [not_or, not_not, not_not] at heq
    obtain ⟨rfl, rfl⟩ := heq
    have htail := List.takeWhile_append_dropWhile (p := (· != ch '"')) (l := tail)
    rcases hclose : tail.dropWhile (· != ch '"') with - | ⟨c, tail'⟩
    · rw [hclose] at h
      cases h
    · rw [hclose] at h htail
      have hc : c = ch '"' := by
        have hne := List.head?_dropWhile_not (· != ch '"') tail
        rw [hclose] at hne
        simpa using hne
      cases h
      subst hc
      refine hs.symm.trans ?_
      simp only [parameterText, List.append_assoc, List.cons_append, List.nil_append, htail]

def AuthFields.assignAll (out : AuthFields) : List (Str × Str) → Option AuthFields
  | [] => some out
  | (name, value) :: parameters => (out.assign name value).bind fun out => AuthFields.assignAll out parameters

lemma authLoop_spec {turns count count' out out'} {s : Str} (hs : s ≠ [])
    (h : authLoop turns count out s = some (count', out')) :
    ∃ blanks parameters text, s = blanks ++ text ∧ (∀ c ∈ blanks, isBlank c = true) ∧ (count = 0 → blanks = []) ∧
      ParametersText parameters text ∧ out.assignAll parameters = some out' ∧ count' = count + parameters.length := by
  induction turns generalizing count out s with
  | zero =>
    cases s with
    | nil => exact absurd rfl hs
    | cons c s => cases h
  | succ turns ih =>
    cases s with
    | nil => exact absurd rfl hs
    | cons c s =>
      rw [authLoop] at h
      · generalize c :: s = s at hs h
        -- the blanks the loop skips
        have hskip : ∃ blanks, s = blanks ++ (if count ≠ 0 then s.dropWhile isBlank else s) ∧
            (∀ c ∈ blanks, isBlank c = true) ∧ (count = 0 → blanks = []) := by
          rcases Decidable.em (count = 0) with hcount | hcount
          · exact ⟨[], by simp [hcount], by simp, fun _ => rfl⟩
          · refine ⟨s.takeWhile isBlank, ?_, fun c hc => List.mem_takeWhile_imp hc, fun h => absurd h hcount⟩
            rw [if_pos hcount, List.takeWhile_append_dropWhile]
        obtain ⟨blanks, hblanks, hall, hzero⟩ := hskip
        cases hread : readParameter (if count ≠ 0 then s.dropWhile isBlank else s) with
        | none =>
          rw [hread] at h
          cases h
        | some r =>
          obtain ⟨name, value, rest⟩ := r
          rw [hread] at h
          have htext := readParameter_text hread
          rw [htext] at hblanks
          dsimp only at h
          cases hassign : out.assign name value with
          | none =>
            rw [hassign] at h
            cases h
          | some out₁ =>
            rw [hassign] at h
            cases rest with
            | nil =>
              cases h
              refine ⟨blanks, [(name, value)], _, ?_, hall, hzero, .last, ?_, rfl⟩
              · rw [hblanks, List.append_nil]
              · rw [AuthFields.assignAll, hassign]
                rfl
            | cons c rest =>
              dsimp only at h
              split_ifs at h with hc hrest
              obtain rfl := not_not.1 hc
              obtain ⟨blanks', parameters, text, hrest', hall', -, hparameters, hassign', hcount⟩ := ih hrest h
              refine ⟨blanks, (name, value) :: parameters, _, ?_, hall, hzero, .more hall' hparameters, ?_, ?_⟩
              · rw [hblanks, hrest']
                simp
              · rw [AuthFields.assignAll, hassign]
                exact hassign'
              · rw [hcount, List.length_cons]
                omega
      · simp

lemma AuthFields.assignAll_spec {out out' : AuthFields} {parameters} (h : out.assignAll parameters = some out') :
    (parameters.map Prod.fst).Nodup ∧ (∀ p ∈ parameters, ∃ field : AuthField, field.name = p.1 ∧ out field = none) ∧
      ∀ field value, out' field = some value → out field = some value ∨ (field.name, value) ∈ parameters := by
  induction parameters generalizing out with
  | nil =>
    cases h
    exact ⟨List.nodup_nil, by simp, fun _ _ h => .inl h⟩
  | cons p parameters ih =>
    obtain ⟨name, value⟩ := p
    obtain ⟨out₁, hassign, hrest⟩ := Option.bind_eq_some_iff.1 h
    rw [AuthFields.assign] at hassign
    cases hfind : AuthField.find? name with
    | none =>
      rw [hfind] at hassign
      cases hassign
    | some field =>
      rw [hfind] at hassign
      dsimp only at hassign
      split_ifs at hassign with hseen
      cases hassign
      obtain rfl := AuthField.find?_of_some hfind
      have hnone : out field = none := by simpa using hseen
      obtain ⟨hnodup, hnew, hstored⟩ := ih hrest
      -- a name that was stored again would have been seen
      have hfresh : ∀ p ∈ parameters, ∃ f : AuthField, f.name = p.1 ∧ f ≠ field ∧ out f = none := by
        intro p hp
        obtain ⟨f, hf, hfnone⟩ := hnew p hp
        have hne : f ≠ field := by
          rintro rfl
          simp at hfnone
        rw [Function.update_of_ne hne] at hfnone
        exact ⟨f, hf, hne, hfnone⟩
      have hinj : ∀ f : AuthField, f.name = field.name → f = field := by
        intro f hf
        cases f <;> cases field <;> first | rfl | exact absurd hf (by decide)
      refine ⟨?_, ?_, ?_⟩
      · rw [List.map_cons, List.nodup_cons]
        refine ⟨?_, hnodup⟩
        intro hmem
        obtain ⟨p, hp, hname⟩ := List.mem_map.1 hmem
        obtain ⟨f, hf, hne, -⟩ := hfresh p hp
        exact hne (hinj f (hf.trans hname))
      · intro p hp
        rcases List.mem_cons.1 hp with rfl | hp
        · exact ⟨field, rfl, hnone⟩
        · obtain ⟨f, hf, -, hfnone⟩ := hfresh p hp
          exact ⟨f, hf, hfnone⟩
      · intro f v hv
        rcases hstored f v hv with hv | hv
        · rcases Decidable.em (f = field) with rfl | hne
          · rw [Function.update_self] at hv
            cases hv
            exact .inr List.mem_cons_self
          · rw [Function.update_of_ne hne] at hv
            exact .inl hv
        · exact .inr (List.mem_cons_of_mem _ hv)

/-- `parse_authorization` accepts well-formed values only, and its fields are their parameters. -/
lemma parseAuthorization_spec {auth out} (h : parseAuthorization auth = some out) :
    ∃ parameters, AuthorizationText auth parameters ∧
      ∀ field value, out field = some value → (field.name, value) ∈ parameters := by
  rw [parseAuthorization] at h
  split_ifs at h with hshape hbytes
  simp only [not_or, not_not] at hshape
  cases hloop : authLoop auth.length 0 (fun _ => none) (auth.drop 10) with
  | none =>
    rw [hloop] at h
    cases h
  | some r =>
    rw [hloop] at h
    dsimp only at h
    split_ifs at h with hall
    cases h
    have hdrop : auth.drop 10 ≠ [] := by
      intro hnil
      rw [hnil, authLoop] at hloop
      cases hloop
      exact absurd hall.1 (by decide)
    obtain ⟨blanks, parameters, text, htext, -, hzero, hparameters, hassign, hcount⟩ := authLoop_spec hdrop hloop
    obtain rfl := hzero rfl
    obtain ⟨hnodup, hnames, hstored⟩ := AuthFields.assignAll_spec hassign
    refine ⟨parameters, ⟨⟨text, ?_, hparameters⟩, ?_⟩, ?_⟩
    · rw [← hshape.2.2, ← List.nil_append text, ← htext, List.take_append_drop]
    · have hsub : parameters.map Prod.fst ⊆ AuthField.all.map AuthField.name := by
        intro name hname
        obtain ⟨p, hp, rfl⟩ := List.mem_map.1 hname
        obtain ⟨field, hfield, -⟩ := hnames p hp
        exact List.mem_map.2 ⟨field, AuthField.mem_all field, hfield⟩
      apply (hnodup.subperm hsub).perm_of_length_le
      rw [List.length_map, List.length_map, ← Nat.zero_add parameters.length, ← hcount, hall.1]
      rfl
    · intro field value hvalue
      rcases hstored field value hvalue with h | h
      · cases h
      · exact h

/-! ## What a date says -/

/-- A point in time by the Gregorian calendar; months are counted from zero. -/
structure Moment where
  year : Nat
  month : Nat
  day : Nat
  hour : Nat
  minute : Nat
  second : Nat
deriving DecidableEq

def yearDays (year : Nat) : Nat := 365 + if isLeap year then 1 else 0

namespace Moment

def days (m : Moment) : Nat :=
  ((List.range' 1970 (m.year - 1970)).map yearDays).sum + ((List.range m.month).map (monthDays m.year)).sum + (m.day - 1)

def seconds (m : Moment) : Nat := m.days * 86400 + m.hour * 3600 + m.minute * 60 + m.second

structure Valid (m : Moment) : Prop where
  year : 1970 ≤ m.year
  month : m.month < 12
  day : 1 ≤ m.day ∧ m.day ≤ monthDays m.year m.month
  hour : m.hour < 24
  minute : m.minute < 60
  second : m.second < 60

end Moment

/-- A number of `n` decimal digits. -/
structure Digits (n : Nat) (s : Str) (v : Nat) : Prop where
  length : s.length = n
  digits : ∀ c ∈ s, ch '0' ≤ c ∧ c ≤ ch '9'
  value : decimalValue 0 s = v

def Moment.Shown (m : Moment) (value : Str) : Prop :=
  ∃ day year hour minute second, Digits 2 day m.day ∧ Digits 4 year m.year ∧ Digits 2 hour m.hour ∧
    Digits 2 minute m.minute ∧ Digits 2 second m.second ∧
    value = [kWeekdays.getD ((m.days + 4) % 7) [], lit [',',' '], day, lit [' '], kMonths.getD m.month [], lit [' '], year,
      lit [' '], hour, lit [':'], minute, lit [':'], second, lit [' '], lit ['G','M','T']].flatten

lemma leapYears_succ (y : Nat) : leapYears (y + 1) = leapYears y + if isLeap (y + 1) then 1 else 0 := by
  have hleap : isLeap (y + 1) = true ↔ Lib.Calendar.Leap (y + 1) := by
    simp only [isLeap, Lib.Calendar.Leap, Bool.and_eq_true, Bool.or_eq_true, beq_iff_eq, bne_iff_ne, Nat.dvd_iff_mod_eq_zero]
    omega
  rw [if_congr hleap rfl rfl]
  exact Lib.Calendar.leaps_succ y

lemma yearDays_sum (n : Nat) :
    n * 365 + leapYears (1970 + n - 1) - leapYears 1969 = ((List.range' 1970 n).map yearDays).sum := by
  induction n with
  | zero => rfl
  | succ n ih =>
    have hstep := leapYears_succ (1970 + n - 1)
    have hle : leapYears 1969 ≤ leapYears (1970 + n - 1) := by
      clear hstep ih
      induction n with
      | zero => exact Nat.le_refl _
      | succ n ih =>
        have hstep := leapYears_succ (1970 + n - 1)
        rw [show 1970 + (n + 1) - 1 = 1970 + n - 1 + 1 by omega, hstep]
        omega
    rw [List.range'_concat, List.map_append, List.sum_append, ← ih, show 1970 + (n + 1) - 1 = 1970 + n - 1 + 1 by omega,
      hstep]
    simp only [List.map_cons, List.map_nil, List.sum_cons, List.sum_nil, yearDays, Nat.one_mul]
    rw [show 1970 + n - 1 + 1 = 1970 + n by omega]
    clear ih hstep
    generalize leapYears 1969 = a at hle
    generalize leapYears (1970 + n - 1) = b at hle
    generalize (if isLeap (1970 + n) then 1 else 0) = c
    omega

lemma epochDays_eq (m : Moment) (h : 1970 ≤ m.year) : epochDays m.year m.month m.day = m.days := by
  have hsum := yearDays_sum (m.year - 1970)
  rw [show 1970 + (m.year - 1970) - 1 = m.year - 1 by omega] at hsum
  rw [epochDays, hsum, Moment.days]

def pieces (s : Str) (start : Nat) : List Nat → List Str
  | [] => []
  | n :: ns => slice s start n :: pieces s (start + n) ns

lemma pieces_flatten (s : Str) (start : Nat) (ns : List Nat) : (pieces s start ns).flatten = slice s start ns.sum := by
  induction ns generalizing start with
  | nil => simp [pieces, slice]
  | cons n ns ih =>
    rw [pieces, List.flatten_cons, ih, slice, slice, slice, List.sum_cons, ← List.drop_drop, ← List.take_add]

lemma readNumber_digits {s n v} (hlen : s.length = n) (h : readNumber s = some v) : Digits n s v := by
  rw [readNumber] at h
  split_ifs at h with hdigits
  refine ⟨hlen, ?_, Option.some.inj h⟩
  intro c hc
  have hdigit := List.all_eq_true.1 hdigits c hc
  simpa using hdigit

/-- `parse_http_date` reads dates that exist, and counts their seconds. -/
lemma parseHttpDate_spec {value t} (h : parseHttpDate value = some t) :
    ∃ m : Moment, m.Valid ∧ m.Shown value ∧ m.seconds = t := by
  rw [parseHttpDate] at h
  split_ifs at h with hshape
  simp only [not_or, not_not] at hshape
  obtain ⟨hlen, h₃, h₇, h₁₁, h₁₆, h₁₉, h₂₂, h₂₅, h₂₆⟩ := hshape
  have hslice : ∀ start n, start + n ≤ 29 → (slice value start n).length = n := by
    intro start n hn
    rw [slice, List.length_take, List.length_drop, hlen]
    omega
  cases hday : readNumber (slice value 5 2) with
  | none => simp [hday] at h
  | some day =>
  cases hyear : readNumber (slice value 12 4) with
  | none => simp [hday, hyear] at h
  | some year =>
  cases hhour : readNumber (slice value 17 2) with
  | none => simp [hday, hyear, hhour] at h
  | some hour =>
  cases hminute : readNumber (slice value 20 2) with
  | none => simp [hday, hyear, hhour, hminute] at h
  | some minute =>
  cases hsecond : readNumber (slice value 23 2) with
  | none => simp [hday, hyear, hhour, hminute, hsecond] at h
  | some second =>
  rw [hday, hyear, hhour, hminute, hsecond] at h
  dsimp only at h
  split_ifs at h with hclock hmonth hdays hweekday
  simp only [not_or, Nat.not_lt] at hclock hdays
  have hfound : kMonths.findIdx (· == slice value 8 3) < kMonths.length :=
    lt_of_le_of_ne List.findIdx_le_length hmonth
  have hname : kMonths.getD (kMonths.findIdx (· == slice value 8 3)) [] = slice value 8 3 := by
    rw [List.getD_eq_getElem _ _ hfound]
    exact beq_iff_eq.1 (List.findIdx_getElem (p := (· == slice value 8 3)) (w := hfound))
  have hepoch := epochDays_eq ⟨year, kMonths.findIdx (· == slice value 8 3), day, hour, minute, second⟩ hclock.1
  rw [hepoch] at h hweekday
  refine ⟨⟨year, kMonths.findIdx (· == slice value 8 3), day, hour, minute, second⟩, ?_, ?_, Option.some.inj h⟩
  · exact
      { year := hclock.1
        month := hfound
        day := ⟨Nat.pos_of_ne_zero hdays.1, hdays.2⟩
        hour := Nat.lt_succ_of_le hclock.2.1
        minute := Nat.lt_succ_of_le hclock.2.2.1
        second := Nat.lt_succ_of_le hclock.2.2.2 }
  · refine ⟨_, _, _, _, _, readNumber_digits (hslice 5 2 (by omega)) hday, readNumber_digits (hslice 12 4 (by omega)) hyear,
      readNumber_digits (hslice 17 2 (by omega)) hhour, readNumber_digits (hslice 20 2 (by omega)) hminute,
      readNumber_digits (hslice 23 2 (by omega)) hsecond, ?_⟩
    have hpieces := pieces_flatten value 0 [3, 2, 2, 1, 3, 1, 4, 1, 2, 1, 2, 1, 2, 1, 3]
    have hwhole : slice value 0 29 = value := by rw [slice, List.drop_zero, List.take_of_length_le (by omega)]
    simp only [pieces, Nat.reduceAdd, List.sum_cons, List.sum_nil, h₃, h₇, h₁₁, h₁₆, h₁₉, h₂₂, h₂₅, h₂₆] at hpieces
    rw [hwhole] at hpieces
    rw [hname, ← not_not.1 hweekday]
    exact hpieces.symm

lemma freshEnough_iff {t now} : freshEnough t now = true ↔ 0 < now ∧ |(t : Int) - now| ≤ 300 := by
  rw [freshEnough]
  rcases Int.le_total now 0 with hnow | hnow
  · rcases Decidable.em (now ≤ 0) with h | h
    · rw [if_pos h]
      simp only [Bool.false_eq_true, false_iff, not_and]
      intro hpos
      omega
    · omega
  · obtain ⟨n, rfl⟩ := Int.eq_ofNat_of_zero_le hnow
    dsimp only
    split_ifs with hzero hlater
    · simp only [false_iff, not_and]
      intro hpos
      omega
    · rw [decide_eq_true_iff, abs_le]
      omega
    · rw [decide_eq_true_iff, abs_le]
      omega

lemma matchesCanonicalBase64_spec {value bytes} (h : matchesCanonicalBase64 value bytes = true) :
    value = base64.padded bytes := by
  rw [matchesCanonicalBase64] at h
  cases hencode : base64EncodeV1 bytes (kBase64Size + 1) with
  | none => simp [hencode] at h
  | some expected =>
    simp only [hencode, Bool.and_eq_true, beq_iff_eq] at h
    rw [h.2, base64EncodeV1_of_some hencode]

lemma cut_unique {c} {a b x y : Str} (ha : c ∉ a) (hb : c ∉ b) (h : a ++ c :: x = b ++ c :: y) : a = b ∧ x = y := by
  induction a generalizing b with
  | nil =>
    cases b with
    | nil => exact ⟨rfl, (List.cons.inj h).2⟩
    | cons d b => exact absurd ((List.cons.inj h).1 ▸ List.mem_cons_self) hb
  | cons d a ih =>
    cases b with
    | nil => exact absurd ((List.cons.inj h).1 ▸ List.mem_cons_self) ha
    | cons e b =>
      obtain ⟨rfl, hrest⟩ := List.cons.inj h
      obtain ⟨rfl, hxy⟩ := ih (fun hc => ha (List.mem_cons_of_mem _ hc)) (fun hc => hb (List.mem_cons_of_mem _ hc)) hrest
      exact ⟨rfl, hxy⟩

namespace SignedRequest

variable {crypto : Crypto} {r r' : SignedRequest}

structure Checked (crypto : Crypto) (r : SignedRequest) (signature : Str) : Prop where
  method : r.method ∈ supportedMethods
  target : validTarget r.requestTarget = true
  authorization : ∃ parameters, AuthorizationText r.authorization parameters ∧
    (AuthField.signature.name, signature) ∈ parameters ∧ (AuthField.keyId.name, r.trustedKeyId) ∈ parameters
  date : ∃ m : Moment, m.Valid ∧ m.Shown r.date ∧ |(m.seconds : Int) - r.unixSeconds| ≤ 300
  dateLength : r.date.length = 29
  digest : r.digest = digestScheme ++ base64.padded (crypto.hash .sha256 r.rawBody)

lemma digestMatches_spec (h : r.digestMatches crypto = true) :
    r.digest = digestScheme ++ base64.padded (crypto.hash .sha256 r.rawBody) := by
  rw [digestMatches] at h
  cases hhash : crypto.digestV1 .sha256 r.rawBody none kDigestSize with
  | none => simp [hhash] at h
  | some bodyHash =>
    have hbody : bodyHash = crypto.hash .sha256 r.rawBody := Crypto.digestV1_of_some hhash
    subst hbody
    rw [hhash] at h
    cases hencode : base64EncodeV1 (crypto.hash .sha256 r.rawBody) (kBase64Size + 1) with
    | none => simp [hencode] at h
    | some expected =>
      obtain rfl := base64EncodeV1_of_some hencode
      simp only [hencode, Bool.and_eq_true, beq_iff_eq] at h
      obtain ⟨-, ⟨⟨-, -⟩, hscheme⟩, hrest⟩ := h
      rw [← List.take_append_drop 8 r.digest, hscheme, hrest]

lemma checks_spec {signature} (h : r.checks crypto = some signature) : r.Checked crypto signature := by
  obtain ⟨hfirst, h⟩ := Option.ite_none_left_eq_some.1 h
  simp only [Bool.or_eq_true, Bool.not_eq_true', decide_eq_true_eq, not_or, Bool.not_eq_false] at hfirst
  obtain ⟨⟨⟨⟨⟨hmethod, htarget⟩, -⟩, -⟩, -⟩, -⟩ := hfirst
  cases hauth : parseAuthorization r.authorization with
  | none => simp [hauth] at h
  | some fields =>
  rw [hauth] at h
  dsimp only at h
  cases hkeyId : fields .keyId with
  | none => simp [hkeyId] at h
  | some keyId =>
  cases halgorithm : fields .algorithm with
  | none => simp [hkeyId, halgorithm] at h
  | some algorithm =>
  cases hheaders : fields .headers with
  | none => simp [hkeyId, halgorithm, hheaders] at h
  | some headers =>
  cases hsignature : fields .signature with
  | none => simp [hkeyId, halgorithm, hheaders, hsignature] at h
  | some sig =>
  rw [hkeyId, halgorithm, hheaders, hsignature] at h
  obtain ⟨hfields, h⟩ := Option.ite_none_left_eq_some.1 h
  obtain ⟨hlength, h⟩ := Option.ite_none_left_eq_some.1 h
  simp only [Bool.or_eq_true, Bool.not_eq_true', decide_eq_true_eq, not_or, not_not, Bool.not_eq_false] at hfields
  cases hdate : parseHttpDate r.date with
  | none => simp [hdate] at h
  | some t =>
  rw [hdate] at h
  obtain ⟨hfresh, h⟩ := Option.ite_none_left_eq_some.1 h
  obtain ⟨hdigest, h⟩ := Option.ite_none_left_eq_some.1 h
  cases h
  obtain ⟨parameters, htext, hparameters⟩ := parseAuthorization_spec hauth
  obtain ⟨m, hvalid, hshown, rfl⟩ := parseHttpDate_spec hdate
  have hnear := freshEnough_iff.1 (by simpa using hfresh)
  have hlen : r.date.length = 29 := by
    rw [parseHttpDate] at hdate
    split_ifs at hdate with hshape
    simp only [not_or, not_not] at hshape
    exact hshape.1
  exact
    { method := List.contains_iff_mem.1 hmethod
      target := htarget
      authorization := ⟨parameters, htext, hparameters _ _ hsignature, by
        rw [← hfields.1.1.2]
        exact hparameters _ _ hkeyId⟩
      date := ⟨m, hvalid, hshown, hnear.2⟩
      dateLength := hlen
      digest := digestMatches_spec (by simpa using hdigest) }

lemma not_mem_of_supported {method} (h : method ∈ supportedMethods) : ch ' ' ∉ method := by
  revert h
  revert method
  decide

lemma Checked.not_mem_target {signature} (h : r.Checked crypto signature) : ch '\n' ∉ r.requestTarget := by
  intro hmem
  have hall := h.target
  simp only [validTarget, Bool.and_eq_true, List.all_eq_true] at hall
  have := hall.2 _ hmem
  revert this
  decide

lemma parts_inj {signature signature'} (h : r.Checked crypto signature) (h' : r'.Checked crypto signature')
    (hid : r.trustedKeyId = r'.trustedKeyId) (heq : r.parts.flatten = r'.parts.flatten) :
    r.method = r'.method ∧ r.requestTarget = r'.requestTarget ∧ r.date = r'.date ∧ r.digest = r'.digest ∧
      crypto.hash .sha256 r.rawBody = crypto.hash .sha256 r'.rawBody := by
  have hdigest : ∀ {r : SignedRequest} {s : Str}, r.Checked crypto s →
      (r.digest.drop 8).take kBase64Size = base64.padded (crypto.hash .sha256 r.rawBody) := by
    intro r s h
    have hdrop : r.digest.drop 8 = base64.padded (crypto.hash .sha256 r.rawBody) := by
      rw [h.digest]
      exact List.drop_left' rfl
    rw [hdrop, List.take_of_length_le]
    rw [Lib.Alphabet.padded_length, crypto.hash_length]
    exact Nat.le_refl _
  simp only [parts, List.flatten_cons, List.flatten_nil, hid, hdigest h, hdigest h'] at heq
  have heq := List.append_cancel_left (List.append_cancel_left heq)
  obtain ⟨hmethod, heq⟩ := cut_unique (not_mem_of_supported h.method) (not_mem_of_supported h'.method) heq
  obtain ⟨htarget, heq⟩ := cut_unique h.not_mem_target h'.not_mem_target heq
  have heq : r.date ++ _ = r'.date ++ _ := List.append_cancel_left heq
  obtain ⟨hdate, heq⟩ := List.append_inj heq (h.dateLength.trans h'.dateLength.symm)
  have heq := List.append_cancel_left (List.append_cancel_left (List.append_cancel_left heq))
  have hpadded := List.append_cancel_right heq
  refine ⟨hmethod, htarget, hdate, ?_, ?_⟩
  · rw [h.digest, h'.digest, hpadded]
  · have hlen : (crypto.hash .sha256 r.rawBody).length = (crypto.hash .sha256 r'.rawBody).length := by
      rw [crypto.hash_length, crypto.hash_length]
    rw [Lib.Alphabet.padded, Lib.Alphabet.padded, hlen] at hpadded
    exact base64.encode_inj (List.append_cancel_right hpadded)

lemma valid_spec (h : r.valid crypto = true) :
    r.Checked crypto (base64.padded (crypto.hmac .sha256 r.trustedSecret r.parts.flatten)) := by
  rw [valid] at h
  cases hchecks : r.checks crypto with
  | none => simp [hchecks] at h
  | some signature =>
    rw [hchecks] at h
    cases hmac : crypto.digestPartsV1 .sha256 r.parts (some r.trustedSecret) kDigestSize with
    | none => simp [hmac] at h
    | some mac =>
      obtain rfl := Crypto.digestPartsV1_of_some hmac
      simp only [hmac, Bool.and_eq_true] at h
      have hsignature := matchesCanonicalBase64_spec h.2
      have hchecked := checks_spec hchecks
      rwa [hsignature] at hchecked

end SignedRequest

end Rut.Auth
