import Rut.Common.Types

/-!
# Metering keys

Port of `include/rut/common/rate_limit_key_spec.h` and `include/rut/runtime/rate_limit_key.h`. The head of a request is
the part of the receive buffer in front of `req_header_end`; a scan by indices of the source is a recursion over the
octets that are left. A value that is missing is absent; it is hashed like an empty one.
-/

namespace Rut.RateLimit

/-- `RateLimitKeyKind`. -/
inductive KeyKind where
  | ip
  | header
  | query
  | cookie
  | param
deriving DecidableEq

def KeyKind.code : KeyKind → UInt8
  | .ip => 0
  | .header => 1
  | .query => 2
  | .cookie => 3
  | .param => 4

/-- `RateLimitKeyComponent`. -/
structure KeyComponent where
  kind : KeyKind := .ip
  name : Str := []
deriving DecidableEq

structure RouteParam where
  name : Str
  value : Str
deriving DecidableEq

/-- `RateLimitKeyInput`; `head` is what `req_buf` and `req_header_end` show, and is empty if either is missing. -/
structure KeyInput where
  peerAddr : Nat := 0
  head : Str := []
  path : Option Str := none
  pathIsTrusted : Bool := false
  params : List RouteParam := []
deriving DecidableEq

/-! ## Values -/

def lower (c : UInt8) : UInt8 := if ch 'A' ≤ c ∧ c ≤ ch 'Z' then c + 32 else c

def ciEq (a b : Str) : Bool := a.map lower == b.map lower

def isBlank (c : UInt8) : Bool := c == ch ' ' || c == ch '\t'

def trimRight (s : Str) : Str := s.rdropWhile isBlank

def afterLine : Str → Str
  | c :: d :: s => if c = ch '\r' ∧ d = ch '\n' then s else afterLine (d :: s)
  | _ => []

/-- The line up to its end, and what follows it. The last octet of a head whose last line does not end is lost. -/
def cutLine : Str → Str × Str
  | c :: d :: s =>
    if c = ch '\r' ∧ d = ch '\n' then ([], s)
    else
      let (line, rest) := cutLine (d :: s)
      (c :: line, rest)
  | _ => ([], [])

/-- The fields of a head behind its first line: the name and what follows the colon, for each line that has one. -/
def fieldLines : Nat → Str → List (Str × Str)
  | 0, _ => []
  | fuel + 1, s =>
    if s = [] ∨ (lit ['\r','\n']).isPrefixOf s then []
    else
      let name := s.takeWhile fun c => c != ch ':' && c != ch '\r'
      let (line, rest) := cutLine (s.drop name.length)
      if (s.drop name.length).head? = some (ch ':') then (name, line.drop 1) :: fieldLines fuel rest
      else fieldLines fuel rest

def KeyInput.fields (q : KeyInput) : List (Str × Str) := fieldLines (q.head.length + 1) (afterLine q.head)

def authorizationName : Str := lit ['A','u','t','h','o','r','i','z','a','t','i','o','n']
def cookieName : Str := lit ['C','o','o','k','i','e']

def KeyInput.values (q : KeyInput) (name : Str) : List Str :=
  (q.fields.filter fun f => ciEq f.1 name).map fun f => trimRight (f.2.dropWhile isBlank)

/-- `header_value`: the first value, but a second `Authorization` leaves none. -/
def headerValue (q : KeyInput) (name : Str) : Option Str :=
  if ciEq name authorizationName then
    match q.values name with
    | [v] => some v
    | _ => none
  else (q.values name).head?

def trustedPath (q : KeyInput) : Option Str := if q.pathIsTrusted then q.path else none

def endsWord (c : UInt8) : Bool := c == ch ' ' || c == ch '\r' || c == ch '\n'

def requestTarget (q : KeyInput) : Option Str :=
  let s := q.head.dropWhile fun c => !endsWord c
  if s.head? = some (ch ' ') then
    let target := s.tail.takeWhile fun c => !endsWord c
    if (s.tail.drop target.length).head? = some (ch ' ') then some target else trustedPath q
  else trustedPath q

def queryParam (name : Str) : Nat → Str → Option Str
  | 0, _ => none
  | fuel + 1, s =>
    if s = [] ∨ s.head? = some (ch '#') then none
    else
      let key := s.takeWhile fun c => c != ch '=' && c != ch '&' && c != ch '#'
      let s := s.drop key.length
      let hasValue := s.head? == some (ch '=')
      let value := if hasValue then s.tail.takeWhile fun c => c != ch '&' && c != ch '#' else []
      let s := if hasValue then s.tail.drop value.length else s
      if key = name then some value
      else queryParam name fuel (if s.head? = some (ch '&') then s.tail else s)

def queryValue (q : KeyInput) (name : Str) : Option Str :=
  if name = [] then none
  else
    (requestTarget q).bind fun target =>
      let s := target.dropWhile (· != ch '?')
      if s = [] then none else queryParam name (s.length + 1) s.tail

def cookiePair (name : Str) : Nat → Str → Option Str
  | 0, _ => none
  | fuel + 1, s =>
    if s = [] then none
    else
      let s := s.dropWhile fun c => isBlank c || c == ch ';'
      let key := s.takeWhile fun c => c != ch '=' && c != ch ';'
      let s := s.drop key.length
      if s.head? = some (ch '=') then
        let value := s.tail.takeWhile (· != ch ';')
        if trimRight key = name then some (trimRight value) else cookiePair name fuel (s.tail.drop value.length)
      else cookiePair name fuel (s.dropWhile (· != ch ';'))

def cookieValue (q : KeyInput) (name : Str) : Option Str :=
  if name = [] then none
  else (q.values cookieName).findSome? fun v => cookiePair name (v.length + 1) v

def paramValue (q : KeyInput) (name : Str) : Option Str :=
  (q.params.find? fun p => p.name == name).map (·.value)

/-! ## The key -/

/-- `mix`: a step of FNV-1a for each octet. -/
def mix (h : Nat) (s : Str) : Nat := s.foldl (fun h b => (h ^^^ b.toNat) * 1099511628211 % 2 ^ 64) h

def littleEndian (size n : Nat) : Str := (List.range size).map fun i => UInt8.ofNat (n / 256 ^ i)

def KeyComponent.octets (k : KeyComponent) (q : KeyInput) : Str :=
  k.kind.code ::
    match k.kind with
    | .ip => littleEndian 4 q.peerAddr
    | .header => (headerValue q k.name).getD []
    | .query => (queryValue q k.name).getD []
    | .cookie => (cookieValue q k.name).getD []
    | .param => (paramValue q k.name).getD []

def rateLimitKey (rateLimitId : Nat) (comps : List KeyComponent) (q : KeyInput) : Nat :=
  let h := mix 14695981039346656037 (littleEndian 8 rateLimitId)
  let h := if comps = [] then mix h (littleEndian 4 q.peerAddr) else comps.foldl (fun h k => mix h (k.octets q)) h
  if h = 0 then 1 else h

end Rut.RateLimit
