import Rut.Http.HeaderValidation

/-!
# Negotiation of compression

Port of `ws_select_deflate_offer`, `ws_accept_deflate_response` and `ws_format_deflate_agreement` of
`src/runtime/ws_extensions.cc`. A cursor in a field value is the list of the octets it has not passed. A function that
answers false is `none`.
-/

namespace Rut.Ws

open Http

/-! ## Offers and responses -/

/-- What has been agreed on (`WsDeflateAgreement`). -/
structure WsDeflateAgreement where
  enabled : Bool := false
  server_no_context_takeover : Bool := false
  client_no_context_takeover : Bool := false
  server_window_present : Bool := false
  client_window_present : Bool := false
  server_window : Nat := 15
  client_window : Nat := 15
deriving DecidableEq

/-- The value of a parameter (`Value`). -/
structure ParameterValue where
  present : Bool := false
  number : Nat := 0
  decimal : Bool := true
  digits : Nat := 0
  leading_zero : Bool := false
deriving DecidableEq

def ParameterValue.octet (v : ParameterValue) (b : UInt8) : ParameterValue :=
  let leading_zero := if v.digits = 0 then b == ch '0' else v.leading_zero
  if b < ch '0' ∨ ch '9' < b ∨ 2 ≤ v.digits then { v with leading_zero, decimal := false, digits := v.digits + 1 }
  else { v with leading_zero, number := v.number * 10 + (b.toNat - (ch '0').toNat), digits := v.digits + 1 }

def whitespace (s : Str) : Str := s.dropWhile isOws

/-- The loop of `Cursor::parameter_value`: whether the value is closed, the value and what is behind it. -/
def parameterOctets (kQuoted : Bool) : Str → ParameterValue → Option (Bool × ParameterValue × Str)
  | [], v => some (!kQuoted, v, [])
  | b :: s, v =>
    if kQuoted && b == ch '\x22' then some (true, v, s)
    else if kQuoted && b == ch '\x5c' then
      match s with
      | [] => none
      | b :: s => if isHttpTchar b then parameterOctets kQuoted s (v.octet b) else none
    else if !kQuoted && !isHttpTchar b then some (!kQuoted, v, b :: s)
    else if isHttpTchar b then parameterOctets kQuoted s (v.octet b)
    else none

/-- `Cursor::parameter_value`. -/
def parameter_value (s : Str) : Option (ParameterValue × Str) :=
  match s with
  | [] => none
  | b :: rest =>
    let kQuoted := b == ch '\x22'
    match parameterOctets kQuoted (if kQuoted then rest else s) { present := true } with
    | some (closed, v, s) => if closed && v.digits != 0 then some (v, s) else none
    | none => none

def window (v : ParameterValue) : Bool :=
  v.present && v.decimal && !v.leading_zero && decide (8 ≤ v.number) && decide (v.number ≤ 15)

/-- Name and value of a parameter, from behind its semicolon, and what is behind it. -/
def nextParameter (s : Str) : Option (Str × ParameterValue × Str) :=
  let s := whitespace s
  let kParameter := s.takeWhile isHttpTchar
  if kParameter = [] then none
  else
    match whitespace (s.dropWhile isHttpTchar) with
    | [] => some (kParameter, {}, [])
    | b :: s =>
      if b = ch '=' then (parameter_value (whitespace s)).map fun (v, s) => (kParameter, v, whitespace s)
      else some (kParameter, {}, b :: s)

def permessageDeflate : Str :=
  lit ['p','e','r','m','e','s','s','a','g','e','-','d','e','f','l','a','t','e']
def serverNoContextTakeover : Str :=
  lit ['s','e','r','v','e','r','_','n','o','_','c','o','n','t','e','x','t','_','t','a','k','e',
    'o','v','e','r']
def clientNoContextTakeover : Str :=
  lit ['c','l','i','e','n','t','_','n','o','_','c','o','n','t','e','x','t','_','t','a','k','e',
    'o','v','e','r']
def serverMaxWindowBits : Str :=
  lit ['s','e','r','v','e','r','_','m','a','x','_','w','i','n','d','o','w','_','b','i','t','s']
def clientMaxWindowBits : Str :=
  lit ['c','l','i','e','n','t','_','m','a','x','_','w','i','n','d','o','w','_','b','i','t','s']

structure Candidate where
  agreement : WsDeflateAgreement := {}
  supported : Bool
  seen : Nat := 0

def Candidate.apply (response : Bool) (c : Candidate) (name : Str) (v : ParameterValue) : Candidate × Nat :=
  if name = serverNoContextTakeover then
    ({ c with
        agreement := { c.agreement with server_no_context_takeover := true }
        supported := c.supported && !v.present }, 1)
  else if name = clientNoContextTakeover then
    ({ c with
        agreement := { c.agreement with client_no_context_takeover := true }
        supported := c.supported && !v.present }, 2)
  else if name = serverMaxWindowBits then
    ({ c with
        agreement :=
          { c.agreement with
            server_window_present := true
            server_window := if window v then v.number else c.agreement.server_window }
        supported := c.supported && window v }, 4)
  else if name = clientMaxWindowBits then
    ({ c with
        agreement :=
          { c.agreement with
            client_window_present := true
            client_window := if window v then v.number else c.agreement.client_window }
        supported := c.supported && ((!response && !v.present) || window v) }, 8)
  else ({ c with supported := false }, 0)

def Candidate.parameter (response : Bool) (c : Candidate) (name : Str) (v : ParameterValue) : Candidate :=
  let (d, bit) := c.apply response name v
  { d with supported := d.supported && c.seen &&& bit == 0, seen := c.seen ||| bit }

/-! ### The cursor moves on -/

lemma whitespace_length (s : Str) : (whitespace s).length ≤ s.length := (List.dropWhile_suffix _).length_le

lemma parameterOctets_length {kQuoted closed s r v w}
    (h : parameterOctets kQuoted s v = some (closed, w, r)) : r.length ≤ s.length := by
  fun_induction parameterOctets kQuoted s v with
  | case1 v =>
    cases h
    exact le_rfl
  | case2 b s v _ =>
    cases h
    exact Nat.le_succ _
  | case3 => cases h
  | case4 b v _ _ b' s _ ih => exact (ih h).trans ((Nat.le_succ _).trans (Nat.le_succ _))
  | case5 => cases h
  | case6 b s v _ _ _ =>
    cases h
    exact le_rfl
  | case7 b s v _ _ _ _ ih => exact (ih h).trans (Nat.le_succ _)
  | case8 => cases h

lemma parameter_value_length {s r v} (h : parameter_value s = some (v, r)) : r.length ≤ s.length := by
  cases s with
  | nil => cases h
  | cons b s =>
    unfold parameter_value at h
    dsimp only at h
    split at h
    next closed w r' heq =>
      split_ifs at h
      cases h
      refine (parameterOctets_length heq).trans ?_
      split_ifs
      · exact Nat.le_succ _
      · exact le_rfl
    next => cases h

lemma nextParameter_length {s name r v} (h : nextParameter s = some (name, v, r)) : r.length ≤ s.length := by
  have hrest : (whitespace ((whitespace s).dropWhile isHttpTchar)).length ≤ s.length :=
    (whitespace_length _).trans ((List.dropWhile_suffix _).length_le.trans (whitespace_length s))
  unfold nextParameter at h
  dsimp only at h
  split_ifs at h
  split at h
  next =>
    cases h
    exact Nat.zero_le _
  next b t heq =>
    rw [heq, List.length_cons] at hrest
    split_ifs at h
    · obtain ⟨⟨w, u⟩, hw, hr⟩ := Option.map_eq_some_iff.mp h
      cases hr
      have hvalue := parameter_value_length hw
      have hspace := whitespace_length t
      exact (whitespace_length u).trans (by omega)
    · cases h
      exact hrest

def parameters (response : Bool) (s : Str) (c : Candidate) : Option (Candidate × Str) :=
  match s with
  | [] => some (c, [])
  | b :: rest =>
    if b = ch ';' then
      match _h : nextParameter rest with
      | none => none
      | some (name, v, r) => parameters response r (c.parameter response name v)
    else some (c, s)
termination_by s.length
decreasing_by exact Nat.lt_succ_of_le (nextParameter_length _h)

lemma parameters_length {response s r c d} (h : parameters response s c = some (d, r)) : r.length ≤ s.length := by
  fun_induction parameters response s c with
  | case1 =>
    cases h
    exact le_rfl
  | case2 => cases h
  | case3 rest c name v r' heq ih => exact (ih h).trans ((nextParameter_length heq).trans (Nat.le_succ _))
  | case4 =>
    cases h
    exact le_rfl

structure Selection where
  selected : WsDeflateAgreement := {}
  selections : Nat := 0

/-- The end of an extension: a response may name one supported extension, of an offer the first supported one is
selected. -/
def Selection.take (response : Bool) (st : Selection) (c : Candidate) : Option Selection :=
  if response && (!c.supported || st.selections + 1 != 1) then none
  else
    let selections := if response then st.selections + 1 else st.selections
    if c.supported && !st.selected.enabled then
      let candidate := { c.agreement with enabled := true }
      some ⟨if response then candidate else { candidate with server_no_context_takeover := true }, selections⟩
    else some { st with selections }

def extensions (response : Bool) (s : Str) (st : Selection) : Option Selection :=
  if s = [] then some st
  else
    let kName := s.takeWhile isHttpTchar
    if kName = [] then none
    else
      match _h : parameters response (whitespace (s.dropWhile isHttpTchar)) { supported := kName == permessageDeflate } with
      | none => none
      | some (c, r) =>
        match st.take response c with
        | none => none
        | some st =>
          match r with
          | [] => some st
          | b :: r =>
            if b = ch ',' then
              if whitespace r = [] then none else extensions response (whitespace r) st
            else none
termination_by s.length
decreasing_by
  have hrest := parameters_length _h
  have hspace := whitespace_length (s.dropWhile isHttpTchar)
  have hname := (List.dropWhile_suffix (l := s) isHttpTchar).length_le
  have hnext := whitespace_length r
  simp only [List.length_cons] at hrest
  omega

def extensionsName : Str :=
  lit ['s','e','c','-','w','e','b','s','o','c','k','e','t','-','e','x','t','e','n','s','i','o','n','s']

def selectField (response : Bool) (st : Selection) (f : Field) : Option Selection :=
  if httpHeaderNameEqCi f.name extensionsName then extensions response (whitespace f.value) st else some st

/-- `parse`: the agreement, if it is true. -/
def parse (headers : List Field) (response : Bool) : Option WsDeflateAgreement :=
  if kMaxHeaders < headers.length then none
  else (headers.foldlM (selectField response) {}).map Selection.selected

/-- `ws_select_deflate_offer`. -/
def ws_select_deflate_offer (headers : List Field) : Option WsDeflateAgreement := parse headers false

/-- `ws_accept_deflate_response`. -/
def ws_accept_deflate_response (headers : List Field) : Option WsDeflateAgreement := parse headers true

/-! ## The text of an agreement -/

/-- `append` of `ws_format_deflate_agreement`. -/
def appendText (capacity : Nat) (out text : Str) : Option Str :=
  if capacity - out.length < text.length then none else some (out ++ text)

/-- `number` of `ws_format_deflate_agreement`. -/
def windowDigits (value : Nat) : Str :=
  if 10 ≤ value then [UInt8.ofNat (48 + value / 10), UInt8.ofNat (48 + value % 10)] else [UInt8.ofNat (48 + value % 10)]

def deflateTexts (a : WsDeflateAgreement) : List Str :=
  [permessageDeflate] ++
  (if a.server_no_context_takeover then [lit [';',' '] ++ serverNoContextTakeover] else []) ++
  (if a.client_no_context_takeover then [lit [';',' '] ++ clientNoContextTakeover] else []) ++
  (if a.server_window_present then [lit [';',' '] ++ serverMaxWindowBits ++ [ch '='], windowDigits a.server_window]
    else []) ++
  if a.client_window_present then [lit [';',' '] ++ clientMaxWindowBits ++ [ch '='], windowDigits a.client_window]
  else []

/-- `ws_format_deflate_agreement`: the text that is written, empty for the answer 0. -/
def ws_format_deflate_agreement (a : WsDeflateAgreement) (capacity : Nat) : Str :=
  if !a.enabled || a.server_window < 8 || 15 < a.server_window || a.client_window < 8 || 15 < a.client_window then []
  else ((deflateTexts a).foldlM (appendText capacity) []).getD []

end Rut.Ws
