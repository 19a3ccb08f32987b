import Rut.Http.HeaderValidation
import Rut.Http.Response
import Rut.HttpCache.Store

/-!
# The HTTP cache policy

Port of `HttpCachePolicy` (`src/runtime/http_cache.cc`): which requests have a key, which responses may be stored and
for how long, and when a stored response may be served. Times are natural numbers: every sum and difference of the
source is guarded against wrapping. The bytes of a key that did not fit are not looked at.
-/

set_option linter.all false
namespace Rut.HttpCache

open Http

/-- Longest lifetime in seconds (`kMaxTtl`). -/
def kMaxTtl : Nat := 86400
/-- The largest `u32`. -/
def kMaxU32 : Nat := 0xffffffff
/-- The largest `u64` (`~u64{0}`). -/
def kMaxU64 : Nat := 2 ^ 64 - 1

/-- A non-empty token (`valid_name`). -/
def validName (name : Str) : Bool := !name.isEmpty && name.all isHttpTchar

def word (cs : List Char) : Str := lit cs

def noStoreName : Str := word ['n','o','-','s','t','o','r','e']
def noCacheName : Str := word ['n','o','-','c','a','c','h','e']
def privateName : Str := word ['p','r','i','v','a','t','e']
def onlyIfCachedName : Str := word ['o','n','l','y','-','i','f','-','c','a','c','h','e','d']
def maxAgeName : Str := word ['m','a','x','-','a','g','e']
def sMaxageName : Str := word ['s','-','m','a','x','a','g','e']
def minFreshName : Str := word ['m','i','n','-','f','r','e','s','h']
def cacheControlName : Str := word ['c','a','c','h','e','-','c','o','n','t','r','o','l']
def pragmaName : Str := word ['p','r','a','g','m','a']
def proxyConnectionName : Str :=
  word ['p','r','o','x','y','-','c','o','n','n','e','c','t','i','o','n']
def teName : Str := word ['t','e']
def trailerName : Str := word ['t','r','a','i','l','e','r']
def varyName : Str := word ['v','a','r','y']
def ageName : Str := word ['a','g','e']
def dateName : Str := word ['d','a','t','e']
def expiresName : Str := word ['e','x','p','i','r','e','s']
def setCookieName : Str := word ['s','e','t','-','c','o','o','k','i','e']
def setCookie2Name : Str := word ['s','e','t','-','c','o','o','k','i','e','2']
def contentRangeName : Str := word ['c','o','n','t','e','n','t','-','r','a','n','g','e']
def hostName : Str := word ['h','o','s','t']
def authorizationName : Str := word ['a','u','t','h','o','r','i','z','a','t','i','o','n']
def proxyAuthorizationName : Str := word ['p','r','o','x','y','-'] ++ authorizationName
def xApiKeyName : Str := word ['x','-','a','p','i','-','k','e','y']
def cookieName : Str := word ['c','o','o','k','i','e']
def cookie2Name : Str := word ['c','o','o','k','i','e','2']
def rangeName : Str := word ['r','a','n','g','e']

/-- Comparison with a constant (`eq`). -/
def eq (value text : Str) : Bool := httpHeaderNameEqCi value text

/-! ## Cache-Control -/

def unquote (text : Str) : Str :=
  if 2 ≤ text.length ∧ text.head? = some (ch '"') ∧ text.getLast? = some (ch '"') then text.tail.dropLast else text

/-- The loop of `decimal`, which saturates. -/
def decimalLoop : Str → Nat → Option Nat
  | [], result => some result
  | c :: s, result =>
    if c < ch '0' ∨ ch '9' < c then none
    else decimalLoop s (min (result * 10 + (c.toNat - (ch '0').toNat)) kMaxU32)

/-- A number of seconds, with or without quotes (`decimal`). -/
def decimal (text : Str) : Option Nat :=
  let digits := unquote (trimOws text)
  if digits = [] then none else decimalLoop digits 0

/-- What the Cache-Control fields say (`Controls`). An age or freshness that was seen is `some`. -/
structure Controls where
  blocked : Bool := false
  onlyCached : Bool := false
  maxAge : Option Nat := none
  sharedAge : Option Nat := none
  minFresh : Option Nat := none
deriving DecidableEq

/-- The items of a field, split at the commas outside of quotes: those in front of a backslash, and whether the field
ends well. `item` is the item being read. -/
def controlItems : Str → Str → Bool → List Str × Bool
  | [], item, quoted => if quoted then ([], false) else ([item], true)
  | c :: s, item, quoted =>
    let quoted := if c = ch '"' then !quoted else quoted
    if !quoted ∧ c = ch ',' then
      if s = [] then ([item], false)
      else ((item :: (controlItems s [] false).1), (controlItems s [] false).2)
    else if c = ch '\\' then ([], false)
    else controlItems s (item ++ [c]) quoted

def setOnce (seen : Option Nat) (value : Option Str) : Option Nat :=
  match seen, value with
  | none, some v => decimal v
  | _, _ => none

def directiveOf (item : Str) : Str × Option Str :=
  let item := trimOws item
  (trimOws (item.takeWhile (· != ch '=')),
    if ch '=' ∈ item then some (trimOws ((item.dropWhile (· != ch '=')).drop 1)) else none)

def applyControl (response : Bool) (item : Str) (out : Controls) : Bool × Controls :=
  if trimOws item = [] then (false, out)
  else
    let name := (directiveOf item).1
    let value := (directiveOf item).2
    if !validName name then (false, out)
    else
      let out :=
        if eq name noStoreName || eq name noCacheName || (response && eq name privateName) then
          { out with blocked := true }
        else out
      if !response && eq name onlyIfCachedName && value.isSome then (false, out)
      else
        let out := if !response && eq name onlyIfCachedName then { out with onlyCached := true } else out
        if eq name maxAgeName then
          match setOnce out.maxAge value with
          | some age => (true, { out with maxAge := some age })
          | none => (false, out)
        else if response && eq name sMaxageName then
          match setOnce out.sharedAge value with
          | some age => (true, { out with sharedAge := some age })
          | none => (false, out)
        else if !response && eq name minFreshName then
          match setOnce out.minFresh value with
          | some fresh => (true, { out with minFresh := some fresh })
          | none => (false, out)
        else (true, out)

def applyControls (response : Bool) : List Str → Controls → Bool × Controls
  | [], out => (true, out)
  | item :: items, out =>
    match applyControl response item out with
    | (true, out) => applyControls response items out
    | (false, out) => (false, out)

/-- One Cache-Control field (`controls`). -/
def controls (text : Str) (out : Controls) (response : Bool) : Bool × Controls :=
  if text = [] then (true, out)
  else
    match applyControls response (controlItems text [] false).1 out with
    | (true, out) => ((controlItems text [] false).2, out)
    | (false, out) => (false, out)

/-! ## Vary and Connection -/

/-- Fields that are no part of a key (`ignored_key_header`). -/
def ignoredKeyHeader (name : Str) : Bool :=
  eq name cacheControlName || eq name pragmaName || eq name connectionName || eq name proxyConnectionName ||
    eq name keepAliveToken

/-- Fields of one connection (`hop_header`). -/
def hopHeader (name : Str) : Bool :=
  eq name connectionName || eq name proxyConnectionName || eq name keepAliveToken || eq name transferEncodingName ||
    eq name teName || eq name trailerName || eq name upgradeToken

def tokenAllowed (vary : Bool) (name : Str) : Bool :=
  validName name &&
    if vary then !(eq name (word ['*']) || ignoredKeyHeader name || hopHeader name)
    else eq name closeToken || eq name keepAliveToken

/-- A list of names (`token_list`). The list is refused if it is empty or ends in a comma. -/
def tokenList (text : Str) (vary : Bool) : Bool :=
  !text.isEmpty && ((text.splitOn (ch ',')).map trimOws).all (tokenAllowed vary)

/-! ## Dates -/

/-- A number of `count` digits (`number` of `http_date`). -/
def dateNumber (value : Str) (start count : Nat) : Option Nat :=
  let digits := (value.drop start).take count
  if digits.all fun c => ch '0' ≤ c && c ≤ ch '9' then some (decimalValue 0 digits) else none

/-- The names of the months (`kMonths`). -/
def kMonths : List Str := [word ['J','a','n'], word ['F','e','b'], word ['M','a','r'], word ['A','p','r'],
  word ['M','a','y'], word ['J','u','n'], word ['J','u','l'], word ['A','u','g'], word ['S','e','p'],
  word ['O','c','t'], word ['N','o','v'], word ['D','e','c']]

/-- The days of the months (`kDays`). -/
def kDays : List Nat := [31, 28, 31, 30, 31, 30, 31, 31, 30, 31, 30, 31]

/-- The names of the days (`kWeekdays`). -/
def kWeekdays : List Str := [word ['S','u','n'], word ['M','o','n'], word ['T','u','e'], word ['W','e','d'],
  word ['T','h','u'], word ['F','r','i'], word ['S','a','t']]

def daysOfMonth (leap : Bool) (month : Nat) : Nat := kDays.getD month 0 + if month = 1 && leap then 1 else 0

/-- Leap years up to a year (`leap_years`). -/
def leapYears (y : Nat) : Nat := y / 4 - y / 100 + y / 400

def dateShape (v : Str) : Bool :=
  v.length == 29 && v.getD 3 0 == ch ',' && v.getD 4 0 == ch ' ' && v.getD 7 0 == ch ' ' && v.getD 11 0 == ch ' ' &&
    v.getD 16 0 == ch ' ' && v.getD 19 0 == ch ':' && v.getD 22 0 == ch ':' && v.getD 25 0 == ch ' ' &&
    (v.drop 26).take 3 == word ['G','M','T']

/-- Seconds since 1970 of an IMF-fixdate (`http_date`). -/
def httpDate (v : Str) : Option Nat :=
  if !dateShape v then none
  else
    match dateNumber v 5 2, dateNumber v 12 4, dateNumber v 17 2, dateNumber v 20 2, dateNumber v 23 2 with
    | some day, some year, some hour, some minute, some second =>
      let month := kMonths.findIdx (· == (v.drop 8).take 3)
      let leap := year % 4 == 0 && (year % 100 != 0 || year % 400 == 0)
      if year < 1970 ∨ hour > 23 ∨ minute > 59 ∨ second > 59 ∨ month = 12 ∨ day = 0 ∨ day > daysOfMonth leap month then none
      else
        let days := (year - 1970) * 365 + leapYears (year - 1) - leapYears 1969 +
          ((List.range month).map (daysOfMonth leap)).sum + (day - 1)
        if v.take 3 ≠ kWeekdays.getD ((days + 4) % 7) [] then none
        else some (days * 86400 + hour * 3600 + minute * 60 + second)
    | _, _, _, _, _ => none

/-! ## Responses -/

/-- What the header loop of `response_info` has collected. -/
structure HeaderScan where
  policy : Controls := {}
  age : Option Nat := none
  date : Option Nat := none
  expires : Option Nat := none
deriving DecidableEq

def forbiddenHeader (name : Str) : Bool :=
  eq name setCookieName || eq name setCookie2Name || eq name contentRangeName || eq name trailerName ||
    eq name transferEncodingName || eq name upgradeToken

def fieldOnce (seen : Option Nat) (value : Option Nat) : Option Nat :=
  match seen with
  | none => value
  | some _ => none

/-- One header of a response, `none` if it forbids storing. -/
def scanHeader (h : Header) (st : HeaderScan) : Option HeaderScan :=
  if !validName h.name then none
  else if h.value.any fun c => (c < 0x20 && c != ch '\t') || c == 0x7f then none
  else if eq h.name cacheControlName then
    match controls h.value st.policy true with
    | (true, policy) => some { st with policy := policy }
    | (false, _) => none
  else if eq h.name varyName then if tokenList h.value true then some st else none
  else if eq h.name connectionName then if tokenList h.value false then some st else none
  else if eq h.name ageName then (fieldOnce st.age (decimal h.value)).map fun age => { st with age := some age }
  else if eq h.name dateName then (fieldOnce st.date (httpDate h.value)).map fun date => { st with date := some date }
  else if eq h.name expiresName then
    (fieldOnce st.expires (httpDate h.value)).map fun expires => { st with expires := some expires }
  else if forbiddenHeader h.name then none
  else some st

/-- The header loop of `response_info`. -/
def scanHeaders : List Header → HeaderScan → Option HeaderScan
  | [], st => some st
  | h :: hs, st =>
    match scanHeader h st with
    | none => none
    | some st => scanHeaders hs st

/-- What is stored about a response (`ResponseInfo`). -/
structure ResponseInfo where
  parsed : ParsedResponse
  headerEnd : Nat
  ttl : Nat
  ageUs : Nat
deriving DecidableEq

def responseHead (wire : Str) : Option (ParsedResponse × Nat) :=
  match parseResponse wire with
  | .complete resp headerEnd =>
    if resp.statusCode ≠ 200 ∨ resp.headersTruncated ∨ resp.chunked ∨ !resp.hasContentLength ∨
        resp.contentLengthCount ≠ 1 ∨ resp.contentLength > kMaxResponse - 256 ∨
        headerEnd > kMaxResponse - 256 - resp.contentLength then none
    else some (resp, headerEnd)
  | _ => none

/-- Freshness lifetime in seconds, at most `cap`. -/
def lifetime (st : HeaderScan) (date cap : Nat) : Nat :=
  min cap
    (match st.policy.sharedAge, st.policy.maxAge, st.expires with
    | some age, _, _ => age
    | none, some age, _ => age
    | none, none, some expires => if expires > date then expires - date else 0
    | none, none, none => cap)

/-- Freshness of a response at the wall time `wall`, `delay` after it was asked for (`response_info`). -/
def responseInfo (wire : Str) (cap wall delay : Nat) : Option ResponseInfo :=
  match responseHead wire with
  | none => none
  | some (parsed, headerEnd) =>
    match scanHeaders parsed.headers {} with
    | none => none
    | some st =>
      match st.date with
      | none => none
      | some date =>
        if st.policy.blocked ∨ wall = 0 ∨ cap = 0 ∨ cap > kMaxTtl then none
        else
          let ttl := lifetime st date cap
          let age := st.age.getD 0
          if delay > kMaxU64 - age * 1000000 then none
          else
            let initial := max (wall - date * 1000000) (age * 1000000 + delay)
            if initial ≥ ttl * 1000000 then none
            else some { parsed := parsed, headerEnd := headerEnd, ttl := ttl, ageUs := initial }

/-- The record of a response for a fill (`prepare_record`). -/
def prepareRecord (fill : Fill) (response : Str) (nowUs wallUs : Nat) : Option Record :=
  if response.length > kMaxResponse ∨ nowUs < fill.startedUs then none
  else
    match responseInfo response fill.ttl wallUs (nowUs - fill.startedUs) with
    | none => none
    | some info =>
      if response.length ≠ info.headerEnd + info.parsed.contentLength then none
      else
        let remainingUs := info.ttl * 1000000 - info.ageUs
        if nowUs > kMaxU64 - remainingUs then none
        else some ⟨response, nowUs, nowUs + remainingUs, info.ageUs⟩

def initialAgeUs (st : HeaderScan) (date wallUs delayUs : Nat) : Nat :=
  max (wallUs - date * 1000000) (st.age.getD 0 * 1000000 + delayUs)

/-- What `prepare_record` has checked when it makes a record. -/
structure Prepared (fill : Fill) (response : Str) (nowUs wallUs : Nat) (parsed : ParsedResponse) (headerEnd : Nat)
    (st : HeaderScan) (date : Nat) (r : Record) : Prop where
  head : responseHead response = some (parsed, headerEnd)
  scan : scanHeaders parsed.headers {} = some st
  dated : st.date = some date
  allowed : st.policy.blocked = false
  capped : 0 < fill.ttl ∧ fill.ttl ≤ kMaxTtl
  started : fill.startedUs ≤ nowUs
  fresh : initialAgeUs st date wallUs (nowUs - fill.startedUs) < lifetime st date fill.ttl * 1000000
  record : r = ⟨response, nowUs,
    nowUs + (lifetime st date fill.ttl * 1000000 - initialAgeUs st date wallUs (nowUs - fill.startedUs)),
    initialAgeUs st date wallUs (nowUs - fill.startedUs)⟩

lemma responseInfo_some {wire cap wall delay info} (h : responseInfo wire cap wall delay = some info) :
    ∃ st date, responseHead wire = some (info.parsed, info.headerEnd) ∧ scanHeaders info.parsed.headers {} = some st ∧
      st.date = some date ∧ st.policy.blocked = false ∧ 0 < cap ∧ cap ≤ kMaxTtl ∧
      info.ttl = lifetime st date cap ∧ info.ageUs = initialAgeUs st date wall delay ∧
      initialAgeUs st date wall delay < lifetime st date cap * 1000000 := by
  unfold responseInfo at h
  cases hh : responseHead wire with
  | none => rw [hh] at h; cases h
  | some head =>
    obtain ⟨parsed, headerEnd⟩ := head
    rw [hh] at h
    dsimp only at h
    cases hs : scanHeaders parsed.headers {} with
    | none => rw [hs] at h; cases h
    | some st =>
      rw [hs] at h
      dsimp only at h
      cases hd : st.date with
      | none => rw [hd] at h; cases h
      | some date =>
        rw [hd] at h
        rcases ite_eq_iff.mp h with ⟨-, h⟩ | ⟨hno, h⟩
        · cases h
        rcases ite_eq_iff.mp h with ⟨-, h⟩ | ⟨-, h⟩
        · cases h
        rcases ite_eq_iff.mp h with ⟨-, h⟩ | ⟨hfresh, h⟩
        · cases h
        cases h
        simp only [not_or, Bool.not_eq_true] at hno
        exact ⟨st, date, rfl, hs, hd, hno.1, by omega, by omega, rfl, rfl, Nat.lt_of_not_le hfresh⟩

lemma prepareRecord_some {fill response nowUs wallUs r} (h : prepareRecord fill response nowUs wallUs = some r) :
    ∃ parsed headerEnd st date, Prepared fill response nowUs wallUs parsed headerEnd st date r := by
  rcases ite_eq_iff.mp h with ⟨-, h⟩ | ⟨hno, h⟩
  · cases h
  cases hi : responseInfo response fill.ttl wallUs (nowUs - fill.startedUs) with
  | none => rw [hi] at h; cases h
  | some info =>
    rw [hi] at h
    rcases ite_eq_iff.mp h with ⟨-, h⟩ | ⟨-, h⟩
    · cases h
    rcases ite_eq_iff.mp h with ⟨-, h⟩ | ⟨-, h⟩
    · cases h
    cases h
    obtain ⟨st, date, hhead, hscan, hdate, hblocked, hpos, hcap, httl, hage, hfresh⟩ := responseInfo_some hi
    exact ⟨info.parsed, info.headerEnd, st, date, hhead, hscan, hdate, hblocked, ⟨hpos, hcap⟩, by omega, hfresh,
      by rw [httl, hage]⟩

lemma scanHeaders_mem {hs st st'} (h : scanHeaders hs st = some st') :
    ∀ hd ∈ hs, ∃ st₁ st₂, scanHeader hd st₁ = some st₂ := by
  induction hs generalizing st with
  | nil => simp
  | cons hd hs ih =>
    rw [scanHeaders] at h
    cases hsc : scanHeader hd st with
    | none =>
      rw [hsc] at h
      cases h
    | some st₁ =>
      rw [hsc] at h
      intro g hg
      rcases List.mem_cons.mp hg with rfl | hg
      · exact ⟨st, st₁, hsc⟩
      · exact ih h g hg

lemma responseHead_some {wire parsed headerEnd} (h : responseHead wire = some (parsed, headerEnd)) :
    parseResponse wire = .complete parsed headerEnd ∧ parsed.headersTruncated = false := by
  unfold responseHead at h
  cases hp : parseResponse wire with
  | incomplete => rw [hp] at h; cases h
  | error => rw [hp] at h; cases h
  | complete resp e =>
    rw [hp] at h
    rcases ite_eq_iff.mp h with ⟨-, h⟩ | ⟨hno, h⟩
    · cases h
    cases h
    simp only [not_or, Bool.not_eq_true] at hno
    exact ⟨rfl, hno.2.1⟩

/-! ## Serving -/

/-- Append if it fits (`add` of `copy_response`). -/
def add (capacity : Nat) (out bytes : Str) : Option Str :=
  if bytes.length > capacity - out.length then none else some (out ++ bytes)

def addAll (capacity : Nat) : List Str → Str → Option Str
  | [], out => some out
  | p :: ps, out =>
    match add capacity out p with
    | none => none
    | some out => addAll capacity ps out

/-- Decimal digits of a number, `fuel` being their greatest number. -/
def digits : Nat → Nat → Str
  | 0, _ => []
  | fuel + 1, n => (if n / 10 = 0 then [] else digits fuel (n / 10)) ++ [UInt8.ofNat (48 + n % 10)]

def crlf : Str := word ['\r','\n']

def headerPieces (h : Header) : List Str :=
  if hopHeader h.name || eq h.name ageName then [] else [h.name, word [':',' '], h.value, crlf]

def connectionLine (keepAlive : Bool) : Str :=
  if keepAlive then
    word ['\r','\n','C','o','n','n','e','c','t','i','o','n',':',' ','k','e','e','p','-','a','l','i',
      'v','e','\r','\n','\r','\n']
  else
    word ['\r','\n','C','o','n','n','e','c','t','i','o','n',':',' ','c','l','o','s','e','\r','\n',
      '\r','\n']

def statusLine (http10 : Bool) : Str :=
  if http10 then
    word ['H','T','T','P','/','1','.','0',' ','2','0','0',' ','O','K','\r','\n']
  else
    word ['H','T','T','P','/','1','.','1',' ','2','0','0',' ','O','K','\r','\n']

/-- Write a stored response (`copy_response`). -/
def copyResponse (entry : Record) (now : Nat) (keepAlive http10 : Bool) (capacity : Nat) : Option Str :=
  if entry.response.length > kMaxResponse then none
  else
    match parseResponse entry.response with
    | .complete resp headerEnd =>
      if resp.statusCode ≠ 200 ∨ resp.headersTruncated ∨ resp.chunked ∨ !resp.hasContentLength ∨
          resp.contentLengthCount ≠ 1 ∨ headerEnd > entry.response.length ∨
          resp.contentLength ≠ entry.response.length - headerEnd then none
      else
        addAll capacity
          ([statusLine http10] ++ resp.headers.flatMap headerPieces ++
            [word ['A','g','e',':',' '], digits 20 ((entry.initialAgeUs + (now - entry.storedUs)) / 1000000),
              connectionLine keepAlive, (entry.response.drop headerEnd).take resp.contentLength]) []
    | _ => none

/-- The key of a request with what its Cache-Control fields ask for (`Key`). -/
structure Key where
  bytes : Str := []
  hash : UInt64 := 0
  config : UInt64 := 0
  host : UInt64 := 0
  eligible : Bool := false
  http10 : Bool := false
  isUnsafe : Bool := false
  onlyCached : Bool := false
  maxAge : Nat := kMaxU32
  minFresh : Nat := 0
deriving DecidableEq

/-- Serve a record if it is fresh enough for the key (`read_response`). -/
def readResponse (key : Key) (record : Record) (nowUs : Nat) (keepAlive : Bool) (capacity : Nat) : Option Str :=
  let elapsed := if nowUs ≥ record.storedUs then nowUs - record.storedUs else kMaxU64
  let ageUs := if elapsed ≤ kMaxU64 - record.initialAgeUs then elapsed + record.initialAgeUs else kMaxU64
  if nowUs < record.expiresUs ∧ nowUs ≥ record.storedUs ∧ ageUs ≤ key.maxAge * 1000000 ∧ key.minFresh ≤ kMaxTtl ∧
      key.minFresh * 1000000 < record.expiresUs - nowUs then
    copyResponse record nowUs keepAlive key.http10 capacity
  else none

/-! ## Keys -/

def kHashBasis : UInt64 := 1469598103934665603

/-- FNV-1a (`hash_bytes`). -/
def hashBytes (hash : UInt64) (bytes : Str) : UInt64 :=
  bytes.foldl (fun h b => (h ^^^ b.toUInt64) * 1099511628211) hash

/-- Append if the key stays short enough (`append`). -/
def append (key bytes : Str) : Option Str := if bytes.length > kMaxKey - key.length then none else some (key ++ bytes)

def appendAll : List Str → Str → Option Str
  | [], key => some key
  | p :: ps, key =>
    match append key p with
    | none => none
    | some key => appendAll ps key

/-- The bytes of a `u32` in memory, little-endian. -/
def u32Bytes (n : UInt32) : Str :=
  [n.toUInt8, (n >>> 8).toUInt8, (n >>> 16).toUInt8, (n >>> 24).toUInt8]

def versionByte : HttpVersion → UInt8
  | .http10 => 0
  | .http11 => 1

def boolByte (b : Bool) : UInt8 := if b then 1 else 0

def blockingHeader (name : Str) : Bool :=
  eq name authorizationName || eq name proxyAuthorizationName || eq name xApiKeyName || eq name cookieName ||
    eq name cookie2Name || eq name rangeName || eq name upgradeToken || eq name transferEncodingName ||
    (3 ≤ name.length && eq (name.take 3) (word ['i','f','-'])) || eq name pragmaName

/-- What the header loop of `make_key` has collected: the host fields, the controls and whether the request is
blocked. -/
structure RequestScan where
  hosts : List Str := []
  policy : Controls := {}
  blocked : Bool := false
deriving DecidableEq

def scanRequestHeader (h : Header) (st : RequestScan) : RequestScan :=
  let st := if eq h.name hostName then { st with hosts := st.hosts ++ [h.value] } else st
  let st := if blockingHeader h.name then { st with blocked := true } else st
  if eq h.name cacheControlName then
    { st with
      policy := (controls h.value st.policy false).2
      blocked := st.blocked || !(controls h.value st.policy false).1 }
  else st

/-- The pieces a field adds to a key. The bytes of the name are appended one by one. -/
def fieldPieces (h : Header) : List Str :=
  if ignoredKeyHeader h.name then []
  else (lower h.name).map (fun c => [c]) ++ [word [':'], h.value, word ['\n']]

def keyPieces (req : ParsedRequest) (route : UInt32) (tls : Bool) (peer : UInt32) : List Str :=
  [u32Bytes route, [versionByte req.version], [boolByte tls], u32Bytes peer, req.path, word ['\n']] ++
    req.headers.flatMap fieldPieces

/-- The key of a request, with `true` if the request could be read (`make_key`). -/
def makeKey (request : Str) (config : UInt64) (route : UInt32) (tls : Bool) (peer : UInt32) : Bool × Key :=
  let key : Key := { config := config }
  match parse request with
  | .complete req _ =>
    if config = 0 ∨ req.headers.length ≥ kMaxHeaders then (false, key)
    else
      let blocked := req.method ≠ .get ∨ req.chunked ∨ req.contentLengthCount > 1 ∨
        (req.hasContentLength ∧ req.contentLength ≠ 0)
      let st := req.headers.foldl (fun st h => scanRequestHeader h st) {}
      let key := { key with
        http10 := req.version = .http10
        isUnsafe := req.method ≠ .get ∧ req.method ≠ .head ∧ req.method ≠ .options ∧ req.method ≠ .trace
        onlyCached := st.policy.onlyCached
        maxAge := st.policy.maxAge.getD kMaxU32
        minFresh := st.policy.minFresh.getD 0 }
      match st.hosts with
      | [host] =>
        if host = [] ∨ req.path.head? ≠ some (ch '/') then (false, key)
        else
          let key := { key with host := hashBytes kHashBasis (boolByte tls :: lower host) }
          if blocked ∨ st.blocked ∨ st.policy.blocked then (true, key)
          else
            match appendAll (keyPieces req route tls peer) [] with
            | none => (true, key)
            | some bytes => (true, { key with bytes := bytes, hash := hashBytes kHashBasis bytes, eligible := true })
      | _ => (false, key)
  | _ => (false, key)

end Rut.HttpCache
