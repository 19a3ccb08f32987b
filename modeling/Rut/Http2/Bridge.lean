import Rut.Http.Request

/-!
# From HTTP/2 fields to requests

Port of `h2_headers_to_request` and its helpers in `src/runtime/http2_conn.cc` and of `h2_synth_h1_request` in
`include/rut/runtime/callbacks_h2.h`. A decoded field is the pair of its name and its value; the fields of a block
fit its scratch buffer, so no length computed in `u32` wraps.
-/

namespace Rut.Http2

open Http

def methodName : Str := lit [':','m','e','t','h','o','d']
def pathName : Str := lit [':','p','a','t','h']
def authorityName : Str := lit [':','a','u','t','h','o','r','i','t','y']
def protocolName : Str := lit [':','p','r','o','t','o','c','o','l']
def schemeName : Str := lit [':','s','c','h','e','m','e']
def hostName : Str := lit ['h','o','s','t']
def cookieName : Str := lit ['c','o','o','k','i','e']
def teName : Str := lit ['t','e']
def trailersValue : Str := lit ['t','r','a','i','l','e','r','s']
def contentLengthField : Str := lit ['c','o','n','t','e','n','t','-','l','e','n','g','t','h']

def h2MethodFromStr (m : Str) : Option HttpMethod :=
  if m = lit ['G','E','T'] then some .get
  else if m = lit ['P','O','S','T'] then some .post
  else if m = lit ['P','U','T'] then some .put
  else if m = lit ['D','E','L','E','T','E'] then some .delete
  else if m = lit ['P','A','T','C','H'] then some .patch
  else if m = lit ['H','E','A','D'] then some .head
  else if m = lit ['O','P','T','I','O','N','S'] then some .options
  else if m = lit ['C','O','N','N','E','C','T'] then some .connect
  else if m = lit ['T','R','A','C','E'] then some .trace
  else none

/-- `h2_canon_path`: one leading `/` and the trailing run of `/` are stripped. -/
def h2CanonPath (path : Str) : Str :=
  let p := path.takeWhile Route.isPathByte
  (if p.head? = some (ch '/') then p.drop 1 else p).rdropWhile Route.isSlash

/-- The loop of `h2_value_to_u32` after a prefix of value `acc`. -/
def h2ValueToU32Loop : Str → Nat → Option Nat
  | [], acc => some acc
  | c :: v, acc =>
    if c < ch '0' ∨ ch '9' < c then none
    else
      let digit := c.toNat - (ch '0').toNat
      if 429496729 < acc ∨ acc = 429496729 ∧ 5 < digit then none else h2ValueToU32Loop v (acc * 10 + digit)

def h2ValueToU32 (v : Str) : Option Nat := if v = [] then none else h2ValueToU32Loop v 0

def h2ValueOk (v : Str) : Bool := v.all fun c => c != 0 && c != ch '\r' && c != ch '\n'

/-- The characters `h2_name_ok` lets pass, 0x27 being the apostrophe and 0x60 the back quote. -/
def isNameByte (c : UInt8) : Bool :=
  (ch 'a' ≤ c && c ≤ ch 'z') || (ch '0' ≤ c && c ≤ ch '9') ||
    c == ch '!' || c == ch '#' || c == ch '$' || c == ch '%' || c == ch '&' || c == 0x27 ||
    c == ch '*' || c == ch '+' || c == ch '-' || c == ch '.' || c == ch '^' || c == ch '_' ||
    c == 0x60 || c == ch '|' || c == ch '~'

def h2NameOk (n : Str) : Bool := n != [] && n.all isNameByte

def h2IsConnectionHeader (n : Str) : Bool :=
  n == lit ['c','o','n','n','e','c','t','i','o','n'] ||
    n == lit ['t','r','a','n','s','f','e','r','-','e','n','c','o','d','i','n','g'] ||
    n == lit ['k','e','e','p','-','a','l','i','v','e'] ||
    n == lit ['u','p','g','r','a','d','e'] ||
    n == lit ['p','r','o','x','y','-','c','o','n','n','e','c','t','i','o','n']

def isPseudo (name : Str) : Bool := name.head? == some (ch ':')

/-! ## `h2_headers_to_request` -/

/-- The variables of `h2_headers_to_request`; a `have_` flag is set where the value is present. -/
structure RequestFields where
  method : Option HttpMethod := none
  path : Option Str := none
  authority : Option Str := none
  scheme : Option Str := none
  protocol : Option Str := none
  seenRegular : Bool := false
  headers : List Http.Header := []
  contentLength : Option Nat := none
deriving DecidableEq

def RequestFields.store (st : RequestFields) (name value : Str) : Option RequestFields :=
  if kMaxHeaders ≤ st.headers.length then none
  else some { st with headers := st.headers ++ [⟨name, value, []⟩] }

/-- A pseudo-header. `extended` says that the caller asks for `:protocol`. -/
def pseudoField (extended : Bool) (st : RequestFields) (name value : Str) : Option RequestFields :=
  if st.seenRegular then none
  else if !h2ValueOk value then none
  else if name = methodName then
    if st.method.isSome then none
    else (h2MethodFromStr value).map fun m => { st with method := some m }
  else if name = pathName then
    if st.path.isSome then none
    else if value = [] then none
    else some { st with path := some value }
  else if name = authorityName then
    if st.authority.isSome then none
    else (st.store hostName value).map fun st => { st with authority := some value }
  else if name = protocolName then
    if !extended || st.protocol.isSome || !h2NameOk value then none else some { st with protocol := some value }
  else if name ≠ schemeName then none
  else if st.scheme.isSome then none
  else some { st with scheme := some value }

def regularField (st : RequestFields) (name value : Str) : Option RequestFields :=
  if !h2NameOk name || !h2ValueOk value then none
  else if h2IsConnectionHeader name then none
  else if name = teName ∧ value ≠ trailersValue then none
  else
    ({ st with seenRegular := true }.store name value).bind fun st =>
      if name = contentLengthField then
        if st.contentLength.isSome then none
        else (h2ValueToU32 value).map fun cl => { st with contentLength := some cl }
      else some st

def requestField (extended : Bool) (st : RequestFields) (f : Str × Str) : Option RequestFields :=
  if isPseudo f.1 then pseudoField extended st f.1 f.2 else regularField st f.1 f.2

/-- A `#` in any `:path`. -/
def pathHasFragment (hs : List (Str × Str)) : Bool := hs.any fun f => f.1 == pathName && f.2.any (· == ch '#')

def isBannedConnectField (name : Str) : Bool :=
  name == contentLengthField || name == teName || name == lit ['e','x','p','e','c','t'] ||
    name == lit ['s','e','c','-','w','e','b','s','o','c','k','e','t','-','k','e','y'] ||
    name == lit ['s','e','c','-','w','e','b','s','o','c','k','e','t','-','a','c','c','e','p','t']

def extendedConnectOk (st : RequestFields) (protocol : Str) (fragment : Bool) : Bool :=
  st.method == some .connect && protocol == lit ['w','e','b','s','o','c','k','e','t'] &&
    (st.authority.any (· != [])) &&
    (st.scheme == some (lit ['h','t','t','p']) || st.scheme == some (lit ['h','t','t','p','s'])) &&
    (st.path.any fun p => p.head? == some (ch '/')) && !fragment &&
    !st.headers.any fun h => isBannedConnectField h.name

def RequestFields.request (st : RequestFields) (method : HttpMethod) (path : Str) (fragment : Bool) :
    ParsedRequest where
  method := method
  path := path
  pathCanon := some (h2CanonPath path)
  targetHasFragment := fragment
  version := .http11
  headers := st.headers
  contentLength := st.contentLength.getD 0
  keepAlive := true
  transferEncoding := .none
  hasContentLength := st.contentLength.isSome
  contentLengthCount := if st.contentLength.isSome then 1 else 0

/-- The request and its `:protocol`, `none` for a malformed one (`h2_headers_to_request`). -/
def h2HeadersToRequest (extended : Bool) (hs : List (Str × Str)) : Option (ParsedRequest × Option Str) :=
  (hs.foldlM (requestField extended) {}).bind fun st =>
    let fragment := pathHasFragment hs
    if st.protocol.any fun p => !extendedConnectOk st p fragment then none
    else
      match st.method, st.path with
      | some method, some path => some (st.request method path fragment, st.protocol)
      | _, _ => none

/-! ## `h2_synth_h1_request` -/

/-- Append to the output if there is room (`put`). -/
def put (cap : Nat) (o s : Str) : Option Str := if cap < o.length + s.length then none else some (o ++ s)

def lastValue (name : Str) (hs : List (Str × Str)) : Str :=
  hs.foldl (fun v f => if f.1 = name then f.2 else v) []

def crlf : Str := lit ['\r','\n']

def synthHost (cap : Nat) (authority : Str) (o : Str) : Option Str :=
  if authority = [] then some o
  else do
    let o ← put cap o (hostName ++ lit [':',' '])
    let o ← put cap o authority
    put cap o crlf

def synthField (cap : Nat) (authority : Str) (o : Str) (f : Str × Str) : Option Str :=
  if isPseudo f.1 then some o
  else if f.1 = cookieName then some o
  else if authority ≠ [] ∧ f.1 = hostName then some o
  else do
    let o ← put cap o f.1
    let o ← put cap o (lit [':',' '])
    let o ← put cap o f.2
    put cap o crlf

/-- The loop over the cookies: the output and `cookie_open`. -/
def synthCookie (cap : Nat) (st : Str × Bool) (f : Str × Str) : Option (Str × Bool) :=
  if f.1 ≠ cookieName then some st
  else do
    let o ← put cap st.1 (if st.2 then lit [';',' '] else cookieName ++ lit [':',' '])
    let o ← put cap o f.2
    some (o, true)

def synthCookieEnd (cap : Nat) (st : Str × Bool) : Option Str := if st.2 then put cap st.1 crlf else some st.1

/-- The HTTP/1 request of decoded fields, `none` for the source's 0 (`h2_synth_h1_request`). -/
def h2SynthH1Request (hs : List (Str × Str)) (cap : Nat) : Option Str :=
  let method := lastValue methodName hs
  let path := lastValue pathName hs
  let authority := lastValue authorityName hs
  if method = [] ∨ path = [] then none
  else do
    let o ← put cap [] method
    let o ← put cap o (lit [' '])
    let o ← put cap o path
    let o ← put cap o (lit [' ','H','T','T','P','/','1','.','1','\r','\n'])
    let o ← synthHost cap authority o
    let o ← hs.foldlM (synthField cap authority) o
    let st ← hs.foldlM (synthCookie cap) (o, false)
    let o ← synthCookieEnd cap st
    put cap o crlf

end Rut.Http2
