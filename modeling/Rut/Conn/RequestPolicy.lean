import Rut.Conn.PolicyBody

/-!
# The rewriting of a request under a policy

Port of `apply_request_policy` and `apply_preserve_host_lowercase_request_policy` in
`include/rut/runtime/callbacks_impl.h`. Both write the request anew into the send buffer, which is only scratch, and copy
it back. The three fixed policies name the endpoint as the host; the other one keeps the host of the client, and runs
over the head twice, first to measure what it then writes.
-/

namespace Rut.Conn

open Http Lib

/-- The address and port of an endpoint (`sockaddr_in`), in host order. -/
structure Endpoint where
  addr : UInt32
  port : UInt16
deriving DecidableEq

/-- The digits `append_dec` puts. -/
def decimalDigits (n : Nat) : Str := (Nat.toDigits 10 n).map ch

def Endpoint.octets (e : Endpoint) : List Nat :=
  [(e.addr >>> 24).toUInt8.toNat, (e.addr >>> 16).toUInt8.toNat, (e.addr >>> 8).toUInt8.toNat, e.addr.toUInt8.toNat]

def Endpoint.authority (e : Endpoint) : Str :=
  (lit ['.']).intercalate (e.octets.map decimalDigits) ++
    if e.port = 80 then [] else ch ':' :: decimalDigits e.port.toNat

def requestPolicyVersion (id : UInt16) : Str :=
  if requestPolicyIsSupported id then lit ['H','T','T','P','/','1','.','1'] else []

def colonSpace : Str := lit [':',' ']
def hostHeader : Str := lit ['H','o','s','t']
def contentLengthHeader : Str := lit ['C','o','n','t','e','n','t','-','L','e','n','g','t','h']
def httpScheme : Str := lit ['h','t','t','p']
def httpsScheme : Str := lit ['h','t','t','p','s']

/-! ## The fixed policies -/

def writeField {n : Nat} (o : Output n) (name value : Str) : Option (Output n) :=
  (o.write name).bind fun o => (o.write colonSpace).bind fun o => (o.write value).bind fun o => o.write crlf

/-- `append_dec`, one digit at a time. -/
def writeDec {n : Nat} (o : Output n) (value : Nat) : Option (Output n) :=
  (decimalDigits value).foldlM (fun o c => o.write [c]) o

def writeContentLength {n : Nat} (o : Output n) (bodyLen : Nat) : Option (Output n) :=
  (o.write (contentLengthHeader ++ colonSpace)).bind fun o => (writeDec o bodyLen).bind fun o => o.write crlf

def fixedDrops (name : Str) : Bool :=
  requestPolicyNameEq name contentLengthName || requestPolicyNameEq name hostName ||
    requestPolicyNameEq name connectionName || requestPolicyNameEq name keepAliveName ||
    requestPolicyNameEq name teName || requestPolicyNameEq name expectName || requestPolicyNameEq name upgradeName ||
    requestPolicyNameEq name transferEncodingName

def trimSp (s : Str) : Str := (s.dropWhile (· == ch ' ')).rdropWhile (· == ch ' ')

def parsedHeader (req : ParsedRequest) (i : Nat) (f : RawField) : Option Header :=
  (req.headers[i]?).filter fun h => h.name = f.name ∧ h.rawValue = f.raw

def measureLines (req : ParsedRequest) : Nat → List RawField → Option Nat
  | i, [] => if i ≠ req.headers.length then none else some 0
  | i, f :: lines =>
    (parsedHeader req i f).bind fun h => (measureLines req (i + 1) lines).map fun n =>
      (if fixedDrops f.name then 0 else f.name.length + 2 + (trimSp h.rawValue).length + 2) + n

def writeFixedLines {n : Nat} (policyId : UInt16) (req : ParsedRequest) (bodyLen : Nat) :
    Nat → List RawField → Output n → Option (Output n)
  | _, [], o => some o
  | i, f :: lines, o =>
    Option.bind
      (if requestPolicyNameEq f.name contentLengthName && !requestPolicyPlacesContentLengthAfterHost policyId then
        writeContentLength o bodyLen
      else if !fixedDrops f.name then
        if requestPolicyTrimsSpPreservesHtab policyId then
          (parsedHeader req i f).bind fun h => writeField o f.name (trimSp h.rawValue)
        else writeField o f.name (trimOws f.raw)
      else some o)
      (writeFixedLines policyId req bodyLen (i + 1) lines)

namespace PolicyConn

variable {cap sendCap : Nat}

/-- `http1_pipeline_request_is_legacy`. -/
def isLegacy (c : PolicyConn cap sendCap) : Bool := c.pipelineDepth = 0 && c.http1PipelineRequestGeneration = 0

def refusesHtab (c : PolicyConn cap sendCap) : Bool :=
  (!c.isLegacy && !c.successorStable) || c.responseReadDeadlineProfile ≠ .bodylessNonHeadContentLengthZero ||
    !forwardResponseBufferingUsesContentLengthMachinery c.responseReadDeadlineBuffering ||
    c.responseReadDeadlineState = .none ||
    !(1 ≤ c.responseReadDeadlineSeconds && c.responseReadDeadlineSeconds ≤ 63) || !c.reqMethodGet ||
    !c.responseReadDeadlineRouteMethodGet || (c.isLegacy && c.pipelineStashLen ≠ 0)

def coalescedPhase1 (c : PolicyConn cap sendCap) : Bool :=
  c.responseReadDeadlineState = .validated && c.responseReadDeadlineProfile = .bodylessNonHeadContentLengthZero &&
    c.uploadRawTotalLength ≠ 0 && c.uploadRawTotalLength = c.reqInitialSendLen && c.reqInitialSendLen < c.recvBuf.len

def bodyLength (req : ParsedRequest) : Nat := if req.hasContentLength then req.contentLength else 0

def requestLine (policyId : UInt16) (bytes : Str) (req : ParsedRequest) : Str :=
  bytes.take req.method.bytes.length ++ (bytes.drop req.method.bytes.length).take req.path.length ++
    (ch ' ' :: requestPolicyVersion policyId) ++ crlf

def measuredLength (c : PolicyConn cap sendCap) (endpoint : Endpoint) (req : ParsedRequest) (headerEnd : Nat)
    (lines : List RawField) : Option Nat :=
  if (c.recvBuf.len ≠ headerEnd && !(c.coalescedPhase1 && headerEnd = c.reqInitialSendLen)) ||
      req.headers.length > kMaxHeaders || req.hasContentLength || req.chunked || req.method ≠ .get ||
      bodyLength req ≠ 0 then none
  else
    (measureLines req 0 lines).bind fun n =>
      let measured := req.method.bytes.length + req.path.length + 1 + 8 + 2 + (6 + 2) + endpoint.authority.length + n + 2
      if measured > sendCap ∨ measured > cap ∨ measured > 0xffffffff then none else some measured

def fixedHead (c : PolicyConn cap sendCap) (endpoint : Endpoint) (policyId : UInt16) (req : ParsedRequest)
    (lines : List RawField) : Option (Output sendCap) :=
  ((Output.empty sendCap).write (requestLine policyId c.recvBuf.bytes req)).bind fun o =>
  (writeField o hostHeader endpoint.authority).bind fun o =>
  (if requestPolicyPlacesContentLengthAfterHost policyId && req.hasContentLength then
    writeContentLength o (bodyLength req) else some o).bind fun o =>
  (writeFixedLines policyId req (bodyLength req) 0 lines o).bind fun o => o.write crlf

def fixedRequest (c : PolicyConn cap sendCap) (endpoint : Endpoint) (policyId : UInt16) (req : ParsedRequest)
    (headerEnd : Nat) : Option (Output sendCap × Nat) :=
  let bytes := c.recvBuf.bytes
  (cutLine (bytes.take headerEnd)).bind fun line =>
  if req.method.bytes.length + req.path.length > line.1.length then none
  else
    (headLines (bytes.take headerEnd)).bind fun lines =>
    (if requestPolicyTrimsSpPreservesHtab policyId then
      (c.measuredLength endpoint req headerEnd lines).map some else some none).bind fun measured =>
    (c.fixedHead endpoint policyId req lines).bind fun o =>
    let newHeaderLen := o.bytes.length
    let requestEnd := headerEnd + bodyLength req
    if measured.any (· ≠ newHeaderLen + bodyLength req) then none
    else if requestEnd > c.recvBuf.len then none
    else if requestPolicyTrimsSpPreservesHtab policyId && c.recvBuf.len ≠ requestEnd && !c.coalescedPhase1 then none
    else
      (o.write ((bytes.drop headerEnd).take (bodyLength req))).bind fun o =>
      (o.write (bytes.drop requestEnd)).bind fun o =>
      -- the validated successor is still at the end
      let successorLen := c.recvBuf.len - c.reqInitialSendLen
      if c.coalescedPhase1 && (requestEnd ≠ c.reqInitialSendLen || o.bytes.length < successorLen ||
          o.bytes.drop (o.bytes.length - successorLen) ≠ bytes.drop c.reqInitialSendLen) then none
      else some (o, newHeaderLen)

def refused (c : PolicyConn cap sendCap) : Bool × PolicyConn cap sendCap :=
  (false, { c with sendBuf := Output.empty sendCap })

def commitRequest (c : PolicyConn cap sendCap) (policyId : UInt16) (req : ParsedRequest) (o : Output sendCap)
    (newHeaderLen : Nat) : Bool × PolicyConn cap sendCap :=
  if o.bytes.length > cap then c.refused
  else
    let c := { c with rawTargetWitness := (0, 0, 0), recvBuf := c.recvBuf.reset.write o.bytes }
    if c.recvBuf.len ≠ o.bytes.length then c.refused
    else
      (true, { c with
        reqHeaderEnd := newHeaderLen
        reqInitialSendLen := newHeaderLen + bodyLength req
        reqSize := newHeaderLen + bodyLength req
        reqKeepAlive := true
        requestPolicyId := policyId
        requestBodyFullyBuffered := req.hasContentLength
        requestUploadComplete := false
        sendBuf := Output.empty sendCap })

end PolicyConn

/-! ## The policy that keeps the host -/

structure Pass (sendCap : Nat) where
  measuring : Bool
  measured : Nat := 0
  out : Output sendCap := Output.empty sendCap

namespace Pass

variable {sendCap : Nat}

def append (p : Pass sendCap) (s : Str) : Option (Pass sendCap) :=
  if p.measuring then some { p with measured := p.measured + s.length }
  else (p.out.write s).map fun o => { p with out := o }

/-- `append_lower`, one byte at a time. -/
def appendLower (p : Pass sendCap) (s : Str) : Option (Pass sendCap) :=
  s.foldlM (fun p c => p.append [asciiLower c]) p

def length (p : Pass sendCap) : Nat := if p.measuring then p.measured else p.out.bytes.length

end Pass

structure HostScan where
  hostCount : Nat := 0
  hostValue : Str := []
  xfpCount : Nat := 0
  anyTeTrailers : Bool := false
  inlineSeen : InlineSeen := {}

def HostScan.field (s : HostScan) (f : RawField) : Option HostScan :=
  let named := requestPolicyNameEq f.name
  let value := trimOws f.raw
  let s := { s with inlineSeen := s.inlineSeen.mark f.name }
  if named hostName then some { s with hostCount := s.hostCount + 1, hostValue := value }
  else if named xForwardedProtoName then some { s with xfpCount := s.xfpCount + 1 }
  else if named teName then
    some { s with anyTeTrailers := s.anyTeTrailers || requestPolicyCommaValueHasToken value trailersToken }
  else if named connectionName && (requestPolicyTokens value).any requestPolicyConnectionNominationIsProtected then none
  else some s

/-- Lines that the policy does not forward, whatever the client nominates. -/
def dropFixed (name : Str) : Bool :=
  requestPolicyNameEq name hostName || requestPolicyNameEq name connectionName ||
    requestPolicyNameEq name keepAliveName || requestPolicyNameEq name proxyConnectionName ||
    requestPolicyNameEq name expectName || requestPolicyNameEq name upgradeName || requestPolicyIsStrippedClientEnvoyHeader name

structure Emission (sendCap : Nat) where
  pass : Pass sendCap
  sawXfp : Bool := false
  seenTeField : Bool := false

def teTrailersLine : Str := teName ++ colonSpace ++ trailersToken ++ crlf
def xfpHttpLine : Str := xForwardedProtoName ++ colonSpace ++ httpScheme ++ crlf

def Emission.line {sendCap : Nat} (lines : List RawField) (anyTeTrailers : Bool) (s : Emission sendCap) (f : RawField) :
    Option (Emission sendCap) :=
  let named := requestPolicyNameEq f.name
  let value := trimOws f.raw
  let isTe := named teName
  let isXfp := named xForwardedProtoName
  let emitTeHere := isTe && !s.seenTeField && anyTeTrailers
  let xfpInvalid := isXfp && !(requestPolicyNameEq value httpScheme || requestPolicyNameEq value httpsScheme)
  let seenTeField := s.seenTeField || isTe
  if named transferEncodingName then none
  else if dropFixed f.name || (isTe && !emitTeHere) || (!isTe && nameNominated lines f.name) then
    some { s with seenTeField := seenTeField }
  else if named contentLengthName then
    (s.pass.append (contentLengthName ++ colonSpace)).bind fun p => (p.append value).bind fun p =>
      (p.append crlf).map fun p => { s with pass := p, seenTeField := seenTeField }
  else if emitTeHere then (s.pass.append teTrailersLine).map fun p => { s with pass := p, seenTeField := seenTeField }
  else if xfpInvalid then
    (s.pass.append xfpHttpLine).map fun p => { pass := p, sawXfp := true, seenTeField := seenTeField }
  else
    (s.pass.appendLower f.name).bind fun p => (p.append colonSpace).bind fun p => (p.append value).bind fun p =>
      (p.append crlf).map fun p => { pass := p, sawXfp := s.sawXfp || isXfp, seenTeField := seenTeField }

namespace PolicyConn

variable {cap sendCap : Nat}

def runPass (c : PolicyConn cap sendCap) (policyId : UInt16) (req : ParsedRequest) (headerEnd : Nat)
    (lines : List RawField) (s : HostScan) (measuring : Bool) : Option (Pass sendCap × Nat) :=
  let bytes := c.recvBuf.bytes
  (Pass.append { measuring := measuring } (requestLine policyId bytes req)).bind fun p =>
  (p.append (hostName ++ colonSpace)).bind fun p => (p.append s.hostValue).bind fun p => (p.append crlf).bind fun p =>
  (lines.foldlM (Emission.line lines s.anyTeTrailers) { pass := p }).bind fun e =>
  (if !e.sawXfp then e.pass.append xfpHttpLine else some e.pass).bind fun p => (p.append crlf).bind fun p =>
  let newHeaderLen := p.length
  let requestEnd := headerEnd + bodyLength req
  if requestEnd > c.recvBuf.len then none
  else
    (p.append ((bytes.drop headerEnd).take (bodyLength req))).bind fun p =>
    (p.append (bytes.drop requestEnd)).bind fun p =>
    if measuring && (p.measured > sendCap || p.measured > cap) then none else some (p, newHeaderLen)

def preservedRequest (c : PolicyConn cap sendCap) (policyId : UInt16) (req : ParsedRequest) (headerEnd : Nat) :
    Option (Output sendCap × Nat) :=
  let bytes := c.recvBuf.bytes
  if req.targetHasFragment then none
  else
    (cutLine (bytes.take headerEnd)).bind fun line =>
    if req.method.bytes.length + req.path.length > line.1.length then none
    else
      (headLines (bytes.take headerEnd)).bind fun lines =>
      (lines.foldlM HostScan.field {}).bind fun s =>
      if s.hostCount ≠ 1 ∨ s.hostValue = [] ∨ !requestPolicyHostAuthorityIsValid s.hostValue then none
      else if s.xfpCount > 1 then none
      else if !inlineDuplicatesNominated lines s.inlineSeen then none
      else
        (c.runPass policyId req headerEnd lines s true).bind fun _ =>
        (c.runPass policyId req headerEnd lines s false).map fun r => (r.1.out, r.2)

def applyPreserveHostLowercaseRequestPolicy (c : PolicyConn cap sendCap) (policyId : UInt16) :
    Bool × PolicyConn cap sendCap :=
  if c.tlsActive then (false, c)
  else if c.inspectRequestPolicyBody policyId ≠ .complete then (false, c)
  else
    match parse c.recvBuf.bytes with
    | .complete req headerEnd =>
      match c.preservedRequest policyId req headerEnd with
      | none => c.refused
      | some (o, newHeaderLen) => c.commitRequest policyId req o newHeaderLen
    | _ => c.refused

def applyRequestPolicy (c : PolicyConn cap sendCap) (endpoint : Endpoint) (policyId : UInt16) :
    Bool × PolicyConn cap sendCap :=
  if policyId = 0 then (true, c)
  else if requestPolicyPreservesHost policyId then c.applyPreserveHostLowercaseRequestPolicy policyId
  else if c.inspectRequestPolicyBody policyId ≠ .complete then (false, c)
  else if requestPolicyTrimsSpPreservesHtab policyId && c.refusesHtab then (false, c)
  else
    match parse c.recvBuf.bytes with
    | .complete req headerEnd =>
      match c.fixedRequest endpoint policyId req headerEnd with
      | none => c.refused
      | some (o, newHeaderLen) => c.commitRequest policyId req o newHeaderLen
    | _ => c.refused

end PolicyConn

end Rut.Conn
