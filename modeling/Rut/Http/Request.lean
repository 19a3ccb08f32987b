import Rut.Http.Scan
import Rut.Lib.Incremental
import Rut.Route.Canon

/-!
# The HTTP/1 request parser

Port of `HttpParser::parse` and its helpers in `src/runtime/http_parser.cc`, as an incremental reader over the bytes
that are not parsed yet: `fail` is `return ParseStatus::Error`, the stall reason `needMore` is `return
ParseStatus::Incomplete` and the stall reason `maybe` is `goto maybe_incomplete`, which `parse` resolves by looking for
an empty line in the whole buffer.

The request record is only meaningful on `Complete`, so the other results carry none. The batched loads of `str_ci_eq`
and of the method and version checks compare the same bytes as the byte-wise comparisons here. A buffer is one receive
slice, so no position computed in `u32` wraps.
-/

namespace Rut.Http

open Incremental

/-- Request methods (`HttpMethod`). -/
inductive HttpMethod where
  | get
  | post
  | put
  | delete
  | patch
  | head
  | options
  | connect
  | trace
deriving DecidableEq

/-- Protocol versions (`HttpVersion`). -/
inductive HttpVersion where
  | http10
  | http11
deriving DecidableEq

/-- Framing classification of the Transfer-Encoding fields (`RequestTransferEncoding`). -/
inductive RequestTransferEncoding where
  | unparsed
  | none
  | finalChunked
  | unsupported
deriving DecidableEq

/-- A header field (`Header`). -/
structure Header where
  name : Str
  value : Str
  rawValue : Str
deriving DecidableEq

/-- Capacity of the header list (`kMaxHeaders`). -/
def kMaxHeaders : Nat := 64

/-- The parsed request head (`ParsedRequest`). `pathCanon` is absent for targets that are not in
origin form. -/
structure ParsedRequest where
  method : HttpMethod
  path : Str
  pathCanon : Option Str
  targetHasFragment : Bool
  version : HttpVersion
  headers : List Header := []
  contentLength : Nat := 0
  keepAlive : Bool
  chunked : Bool := false
  transferEncoding : RequestTransferEncoding := .unparsed
  hasContentLength : Bool := false
  contentLengthCount : Nat := 0
  upgrade : Bool := false
  hasUpgradeHeader : Bool := false
  upgradeIsWebsocket : Bool := false
  connectionClose : Bool := false
deriving DecidableEq

/-! ## Semantic headers -/

/-- Comparison up to the bit that tells upper from lower case letters (`str_ci_eq`). -/
def strCiEq (a b : Str) : Bool := a.map (· ||| 0x20) == b.map (· ||| 0x20)

/-- The loop of `parse_uint` after a prefix of value `val`. -/
def parseUintLoop : Str → Nat → Option Nat
  | [], val => some val
  | c :: s, val =>
    if c < ch '0' ∨ ch '9' < c then none
    else
      let d := c.toNat - (ch '0').toNat
      if val > (0xFFFFFFFF - d) / 10 then none else parseUintLoop s (val * 10 + d)

/-- Decimal `u32` (`parse_uint`). -/
def parseUint (s : Str) : Option Nat := if s = [] then none else parseUintLoop s 0

def isOws (b : UInt8) : Bool := b == ch ' ' || b == ch '\t'

/-- Bytes that separate the tokens of a list-valued field in the loops of `match_connection` and
`apply_semantic_header`. -/
def isListSep (b : UInt8) : Bool := b == ch ' ' || b == ch '\t' || b == ch ','

/-- The tokens these loops visit: the maximal runs of other bytes. `cur` is the token being read. -/
def listTokensLoop : Str → Str → List Str
  | [], cur => if cur = [] then [] else [cur]
  | b :: s, cur =>
    if isListSep b then (if cur = [] then [] else [cur]) ++ listTokensLoop s []
    else listTokensLoop s (cur ++ [b])

def listTokens (val : Str) : List Str := listTokensLoop val []

def closeToken : Str := lit ['c','l','o','s','e']
def keepAliveToken : Str := lit ['k','e','e','p','-','a','l','i','v','e']
def upgradeToken : Str := lit ['u','p','g','r','a','d','e']
def chunkedToken : Str := lit ['c','h','u','n','k','e','d']
def websocketToken : Str := lit ['w','e','b','s','o','c','k','e','t']

/-- Apply the tokens of one Connection field in order, `close` ending the scan. -/
def matchConnectionTokens : List Str → ParsedRequest → ParsedRequest
  | [], req => req
  | tok :: toks, req =>
    if tok.length = 5 ∧ strCiEq tok closeToken then
      { req with keepAlive := false, connectionClose := true, upgrade := false }
    else if tok.length = 10 ∧ strCiEq tok keepAliveToken then
      matchConnectionTokens toks (if !req.connectionClose then { req with keepAlive := true } else req)
    else if tok.length = 7 ∧ strCiEq tok upgradeToken then
      matchConnectionTokens toks (if !req.connectionClose then { req with upgrade := true } else req)
    else matchConnectionTokens toks req

/-- One Connection field (`match_connection`). -/
def matchConnection (val : Str) (req : ParsedRequest) : ParsedRequest :=
  matchConnectionTokens (listTokens val) req

/-- Token characters of a transfer coding, 0x27 being the apostrophe and 0x60 the back quote
(`is_transfer_coding_token_char`). -/
def isTransferCodingTokenChar (c : UInt8) : Bool :=
  (ch '0' ≤ c && c ≤ ch '9') || (ch 'A' ≤ c && c ≤ ch 'Z') || (ch 'a' ≤ c && c ≤ ch 'z') ||
    c == ch '!' || c == ch '#' || c == ch '$' || c == ch '%' || c == ch '&' || c == 0x27 ||
    c == ch '*' || c == ch '+' || c == ch '-' || c == ch '.' || c == ch '^' || c == ch '_' ||
    c == 0x60 || c == ch '|' || c == ch '~'

/-- The `for (;;)` of `classify_transfer_encoding`. Each turn reads a token and its comma. -/
def classifyTransferEncodingLoop : Nat → Str → Bool → RequestTransferEncoding
  | 0, _, _ => .unsupported
  | fuel + 1, val, sawChunked =>
    match val.dropWhile isOws with
    | [] => .unsupported
    | c :: s =>
      if c = ch ',' then .unsupported
      else
        let token := (c :: s).takeWhile isTransferCodingTokenChar
        if token = [] then .unsupported
        else
          let isChunked := token.length == 7 && strCiEq token chunkedToken
          if isChunked && sawChunked then .unsupported
          else
            match ((c :: s).dropWhile isTransferCodingTokenChar).dropWhile isOws with
            | [] => if sawChunked || isChunked then .finalChunked else .unsupported
            | d :: rest =>
              if d ≠ ch ',' then .unsupported
              else if isChunked then .unsupported
              else classifyTransferEncodingLoop fuel rest (sawChunked || isChunked)

/-- Classify one Transfer-Encoding field (`classify_transfer_encoding`). -/
def classifyTransferEncoding (val : Str) : RequestTransferEncoding :=
  if val = [] then .unsupported else classifyTransferEncodingLoop (val.length + 1) val false

/-- The comma-separated items of an Upgrade field, OWS trimmed (second loop of the `upgrade` arm). -/
def upgradeItems (val : Str) : List Str :=
  (val.splitOn (ch ',')).map fun item => (item.dropWhile isOws).rdropWhile isOws

def contentLengthTail : Str :=
  lit ['o','n','t','e','n','t','-','l','e','n','g','t','h']
def connectionTail : Str := lit ['o','n','n','e','c','t','i','o','n']
def transferEncodingTail : Str :=
  lit ['r','a','n','s','f','e','r','-','e','n','c','o','d','i','n','g']
def upgradeTail : Str := lit ['p','g','r','a','d','e']

/-- The Content-Length arm of `apply_semantic_header`. -/
def applyContentLength (val : Str) (req : ParsedRequest) : Option ParsedRequest :=
  match parseUint val with
  | none => none
  | some cl =>
    if req.contentLengthCount = 255 then none
    else
      let req := { req with contentLengthCount := req.contentLengthCount + 1 }
      if req.hasContentLength then
        if req.contentLength ≠ cl then none else some req
      else some { req with contentLength := cl, hasContentLength := true }

/-- The Transfer-Encoding arm of `apply_semantic_header`. -/
def applyTransferEncoding (val : Str) (req : ParsedRequest) : ParsedRequest :=
  { req with
    transferEncoding :=
      if req.transferEncoding ≠ .unparsed then .unsupported else classifyTransferEncoding val
    chunked :=
      req.chunked || (listTokens val).any fun tok => tok.length == 7 && strCiEq tok chunkedToken }

/-- The Upgrade arm of `apply_semantic_header`. -/
def applyUpgrade (val : Str) (req : ParsedRequest) : ParsedRequest :=
  { req with
    hasUpgradeHeader := req.hasUpgradeHeader || !(listTokens val).isEmpty
    upgradeIsWebsocket := req.upgradeIsWebsocket ||
      (upgradeItems val).any fun item => item.length == 9 && strCiEq item websocketToken }

/-- Effect of a header field on the request, `none` for `ParseStatus::Error`
(`apply_semantic_header`). The dispatch is on the first byte of the name, its length and its tail. -/
def applySemanticHeader (name val : Str) (req : ParsedRequest) : Option ParsedRequest :=
  match name with
  | [] => some req
  | c :: tail =>
    let first := c ||| 0x20
    if first = ch 'c' then
      if tail.length = 13 ∧ strCiEq tail contentLengthTail then applyContentLength val req
      else if tail.length = 9 ∧ strCiEq tail connectionTail then some (matchConnection val req)
      else some req
    else if first = ch 't' then
      if tail.length = 16 ∧ strCiEq tail transferEncodingTail then some (applyTransferEncoding val req)
      else some req
    else if first = ch 'u' then
      if tail.length = 6 ∧ strCiEq tail upgradeTail then some (applyUpgrade val req) else some req
    else some req

/-! ## The single pass -/

/-- Why a reader of the head stopped at the end of the buffer or at a byte it does not classify. -/
inductive Stop where
  | needMore
  | maybe
deriving DecidableEq

abbrev HeadReader (α : Type) := Reader UInt8 Stop α

/-- Method and the space behind it (`parse_method_direct`). -/
def parseMethodDirect : HeadReader HttpMethod := fun s =>
  if s.length < 4 then .stall .maybe
  else if s.take 4 = lit ['G','E','T',' '] then .done .get (s.drop 4)
  else if s.take 4 = lit ['P','U','T',' '] then .done .put (s.drop 4)
  else if s.length < 5 then .stall .maybe
  else if s.take 5 = lit ['P','O','S','T',' '] then .done .post (s.drop 5)
  else if s.take 5 = lit ['H','E','A','D',' '] then .done .head (s.drop 5)
  else if s.length < 6 then .stall .maybe
  else if s.take 6 = lit ['P','A','T','C','H',' '] then .done .patch (s.drop 6)
  else if s.take 6 = lit ['T','R','A','C','E',' '] then .done .trace (s.drop 6)
  else if s.length < 7 then .stall .maybe
  else if s.take 7 = lit ['D','E','L','E','T','E',' '] then .done .delete (s.drop 7)
  else if s.length < 8 then .stall .maybe
  else if s.take 8 = lit ['O','P','T','I','O','N','S',' '] then .done .options (s.drop 8)
  else if s.take 8 = lit ['C','O','N','N','E','C','T',' '] then .done .connect (s.drop 8)
  else .stall .maybe

structure Target where
  path : Str
  pathCanon : Option Str
  hasFragment : Bool
deriving DecidableEq

/-- The fields `parse` fills from the request target `path`. -/
def Target.ofPath (path : Str) (canonEnd : Nat) : Target where
  path := path
  hasFragment := path.any (· == ch '#')
  pathCanon :=
    if path.head? = some (ch '/') then some (Route.finalizePathCanonical (path.take canonEnd))
    else none

def parseTarget : HeadReader Target := fun s =>
  match scanUri s with
  | .invalid => .fail
  | .atEnd => .stall .maybe
  | .found uriEnd canonEnd =>
    if uriEnd = 0 then .fail
    else .done (Target.ofPath (s.take uriEnd) canonEnd) (s.drop (uriEnd + 1))

def parseVersion : HeadReader HttpVersion := fun s =>
  if s.length < 10 then .stall .maybe
  else if (s.drop 8).take 2 ≠ lit ['\r','\n'] then .fail
  else if s.take 8 = lit ['H','T','T','P','/','1','.','1'] then .done .http11 (s.drop 10)
  else if s.take 8 = lit ['H','T','T','P','/','1','.','0'] then .done .http10 (s.drop 10)
  else .fail

/-- One header line with its CRLF: name, colon, OWS, value. The stored value loses its trailing OWS,
the raw value keeps all bytes between the colon and the CR. -/
def parseHeaderLine : HeadReader Header := fun s =>
  match scanHeaderName s with
  | none => .stall .maybe
  | some (name, afterColon) =>
    if name = [] then .fail
    else if afterColon = [] then .stall .maybe
    else
      let valueStart := afterColon.dropWhile isOws
      if valueStart = [] then .stall .maybe
      else
        match scanHeaderValue valueStart with
        | .invalid => .fail
        | .atEnd => .stall .maybe
        | .found text afterCr =>
          match afterCr with
          | [] => .stall .maybe
          | c :: rest =>
            if c ≠ ch '\n' then .fail
            else
              .done { name := name, value := text.rdropWhile isOws,
                      rawValue := afterColon.takeWhile isOws ++ text } rest

/-- The header loop with room for `slots` more headers. -/
def parseHeaders : Nat → ParsedRequest → HeadReader ParsedRequest
  | slots, req, s =>
    match s with
    | [] => .stall .needMore
    | [_] => .stall .needMore
    | c :: d :: rest =>
      if c = ch '\r' then if d = ch '\n' then .done req rest else .fail
      else
        match parseHeaderLine (c :: d :: rest) with
        | .stall e => .stall e
        | .fail => .fail
        | .done h rest' =>
          match slots with
          | 0 => .fail
          | slots + 1 =>
            match applySemanticHeader h.name h.value { req with headers := req.headers ++ [h] } with
            | none => .fail
            | some req' => parseHeaders slots req' rest'

def ParsedRequest.start (method : HttpMethod) (target : Target) (version : HttpVersion) :
    ParsedRequest where
  method := method
  path := target.path
  pathCanon := target.pathCanon
  targetHasFragment := target.hasFragment
  version := version
  keepAlive := version = .http11

def finishRequest (req : ParsedRequest) : HeadReader ParsedRequest := fun s =>
  let req :=
    if req.transferEncoding = .unparsed then { req with transferEncoding := .none } else req
  if req.chunked ∧ req.hasContentLength then .fail else .done req s

def parseHead : HeadReader ParsedRequest := do
  let method ← parseMethodDirect
  let target ← parseTarget
  let version ← parseVersion
  let req ← parseHeaders kMaxHeaders (.start method target version)
  finishRequest req

/-- Result of `parse` (`ParseStatus`), with the record and the end of the head on `Complete`. -/
inductive ParseResult where
  | complete (req : ParsedRequest) (headerEnd : Nat)
  | incomplete
  | error
deriving DecidableEq

def ParseResult.headEnd : ParseResult → Option Nat
  | .complete _ headerEnd => some headerEnd
  | _ => none

/-- Parse the request head at the start of `buf` (`HttpParser::parse`). -/
def parse (buf : Str) : ParseResult :=
  if buf.length < 4 then .incomplete
  else
    match parseHead buf with
    | .done req rest => .complete req (buf.length - rest.length)
    | .fail => .error
    | .stall .needMore => .incomplete
    | .stall .maybe => if findHeaderEnd buf > 0 then .error else .incomplete

end Rut.Http
