import Rut.Auth.Jwt
import Rut.Conn.PolicyFraming

/-!
# Requests of a callout

Port of `http_call_request` of `src/runtime/http_call.cc` with the endpoints of `src/runtime/https_fetch.cc`. A handler
gives the method, the fields and the body of a request as a JSON object, the configuration gives everything else.

What is written is one request: a decoded name or value cannot end its line.
-/

set_option linter.all false
namespace Rut.Callout

open Http Json Auth Conn

/-! ## Endpoints -/

def cString (a : Str) : Str := a.takeWhile (· != 0)

def terminated (a : Str) : Bool := a.any (· == 0)

structure UpstreamTlsSpec where
  enabled : Bool
  ca : Str
  server_name : Str
  cert : Str
  key : Str

/-- The loop of `kLiteral`, from index `i` on. -/
def literalLoop (required : Bool) : Nat → Str → Bool
  | _, [] => false
  | i, c :: rest =>
    if c = 0 then decide (i ≠ 0) || !required
    else if c < 32 ∨ c = 127 ∨ c = ch '\x5c' then false
    else literalLoop required (i + 1) rest

def isServerNameByte (c : UInt8) : Bool :=
  (ch 'a' ≤ c && c ≤ ch 'z') || (ch 'A' ≤ c && c ≤ ch 'Z') || (ch '0' ≤ c && c ≤ ch '9') || c == ch '.' || c == ch '-'

/-- `valid_upstream_tls`. -/
def valid_upstream_tls (spec : UpstreamTlsSpec) : Bool :=
  if !spec.enabled then true
  else if !literalLoop true 0 spec.ca || !literalLoop true 0 spec.server_name || !literalLoop false 0 spec.cert ||
      !literalLoop false 0 spec.key || (spec.cert.headD 0 != 0) != (spec.key.headD 0 != 0) then false
  else (cString spec.server_name).all isServerNameByte

structure HttpsEndpoint where
  address : Str
  port : Nat
  path : Str
  tls : UpstreamTlsSpec
  port_fits : port < 2 ^ 16

def isPathByte (c : UInt8) : Bool := !(c ≤ 32 || c ≥ 127 || c == ch '#' || c == ch '\x5c')

/-- `HttpsEndpoint::valid`, where `inet_pton` says whether a text is an address. -/
def HttpsEndpoint.valid (inet_pton : Str → Bool) (e : HttpsEndpoint) : Bool :=
  if e.port = 0 ∨ !e.tls.enabled ∨ !valid_upstream_tls e.tls ∨ !terminated e.address ∨ !inet_pton (cString e.address) ∨
      !terminated e.path ∨ e.path.head? ≠ some (ch '/') then false
  else (cString e.path).all isPathByte

/-! ## The members of the input -/

def decoded (d : Document) (node cap : Nat) : Option Str :=
  match d.string node (.fresh cap) with
  | none => none
  | some w => if w.ok then some w.out else none

structure CallMembers where
  method : Str := []
  body : Str := []
  headers : Option Nat := none
  seen : Nat := 0
deriving DecidableEq

/-- The end of a turn, `if (seen & bit) return false; seen |= bit`. -/
def CallMembers.mark (c : CallMembers) (bit : Nat) : Option CallMembers :=
  if c.seen &&& bit ≠ 0 then none else some { c with seen := c.seen ||| bit }

def methodName : Str := lit ['m','e','t','h','o','d']
def headersName : Str := lit ['h','e','a','d','e','r','s']
def bodyName : Str := lit ['b','o','d','y']

def memberStep (d : Document) (n : Nat) (c : CallMembers) : Option CallMembers :=
  match (d.nodes n).key.bind d.content with
  | none => none
  | some name =>
    if name = methodName then (decoded d n 8).bind fun method => { c with method }.mark 1
    else if name = headersName then
      if (d.nodes n).kind ≠ .object then none else { c with headers := some n }.mark 2
    else if name = bodyName then (decoded d n 4096).bind fun body => { c with body }.mark 4
    else none

def membersLoop (d : Document) : Nat → Option Nat → CallMembers → Option CallMembers
  | _, none, c => some c
  | 0, some _, _ => none
  | turns + 1, some n, c => (memberStep d n c).bind fun c => membersLoop d turns (d.nodes n).next c

/-! ## The fields -/

/-- The names of the loop in `header_allowed`. -/
def forbidden : List Str :=
  [lit "Host".toList, lit "Content-Length".toList, lit "Transfer-Encoding".toList, lit "Connection".toList,
    lit "Keep-Alive".toList, lit "Upgrade".toList, lit "TE".toList, lit "Trailer".toList, lit "Proxy-Connection".toList,
    lit "Accept-Encoding".toList]

/-- `header_allowed`. -/
def header_allowed (name : Str) : Bool :=
  if name.length = 0 ∨ name.length > 128 ∨ validateResponseHeader name [] ≠ .ok then false
  else !forbidden.any fun field => httpHeaderNameEqCi name field

def headerStep (d : Document) (n : Nat) (names : List Str) (wire : Writer) : Option (List Str × Writer) :=
  if names.length = 16 then none
  else
    match (d.nodes n).key.bind fun key => d.string key (.fresh 128) with
    | none => none
    | some key =>
      if !header_allowed key.out || names.any fun name => httpHeaderNameEqCi key.out name then none
      else
        match decoded d n 2048 with
        | none => none
        | some value =>
          if validateResponseHeader key.out value ≠ .ok then none
          else some (names ++ [key.out], (((wire.text key.out).text colonSpace).text value).text crlf)

def headersLoop (d : Document) : Nat → Option Nat → List Str → Writer → Option Writer
  | _, none, _, wire => some wire
  | 0, some _, _, _ => none
  | turns + 1, some n, names, wire =>
    (headerStep d n names wire).bind fun s => headersLoop d turns (d.nodes n).next s.1 s.2

def writeHeaders (d : Document) (headers : Option Nat) (wire : Writer) : Option Writer :=
  match headers with
  | none => some wire
  | some headers => headersLoop d d.count (d.nodes headers).child [] wire

def methods : List Str :=
  [lit "GET".toList, lit "POST".toList, lit "PUT".toList, lit "PATCH".toList, lit "DELETE".toList, lit "OPTIONS".toList]

/-- What `snprintf` writes. -/
def callPrefix (e : HttpsEndpoint) (method : Str) (body_len : Nat) : Str :=
  method ++ lit [' '] ++ cString e.path ++ lit " HTTP/1.1\r\nHost: ".toList ++ cString e.tls.server_name ++ lit [':'] ++
    decimalDigits e.port ++ lit "\r\nAccept-Encoding: identity\r\nConnection: close\r\nContent-Length: ".toList ++
    decimalDigits body_len ++ crlf

/-- `http_call_request`: the bytes of the request. -/
def http_call_request (inet_pton : Str → Bool) (d : Document) (e : HttpsEndpoint) (input : Str) (cap : Nat) : Option Str :=
  if !e.valid inet_pton || cap == 0 || decide (input.length > kMaxBytes) then none
  else if !(d.parse input).2 || ((d.parse input).1.nodes 0).kind ≠ .object then none
  else
    let d := (d.parse input).1
    match membersLoop d d.count (d.nodes 0).child {} with
    | none => none
    | some c =>
      if !methods.contains c.method || c.seen &&& 1 == 0 then none
      else
        let out := callPrefix e c.method c.body.length
        if h : out.length ≥ cap then none
        else
          let wire : Writer := ⟨out, cap, true, Nat.le_of_not_ge h⟩
          match writeHeaders d c.headers wire with
          | none => none
          | some wire =>
            let wire := (wire.text crlf).text c.body
            if !wire.ok then none else some wire.out

/-! ## The input as a text -/

def entries {ρ : Type} : Forest ρ → List (Str × Value ρ)
  | .nil => []
  | .cons name mark shape children next => (name.map fun n => (n.2, ⟨mark, shape, children⟩)).toList ++ entries next

/-- The input is an object of a method, of fields and of a body, the last two of which may be missing. -/
structure CallText (input method : Str) (headers : List (Str × Str)) (body : Str) (f : Forest Span) : Prop where
  object : ObjectText input f
  names : ∀ n ∈ f.names, n = methodName ∨ n = headersName ∨ n = bodyName
  method : (methodName, .string method) ∈ members f
  headers : (∃ mark children, (headersName, ⟨mark, .object, children⟩) ∈ entries f ∧
    members children = headers.map fun h => (h.1, .string h.2)) ∨ headersName ∉ f.names ∧ headers = []
  body : (bodyName, .string body) ∈ members f ∨ bodyName ∉ f.names ∧ body = []

section members

variable {d : Document} {n cap base turns : Nat} {head : Option Nat} {mark : Span} {shape : Shape} {s : Str}
  {children next : Forest Span} {f : Forest Span} {c c' : CallMembers}

lemma decoded_shows (hd : d.Sane) (h : d.Shows n mark shape) (hn : n < d.count) (hs : decoded d n cap = some s) :
    shape = .string s ∧ s.length ≤ cap := by
  unfold decoded at hs
  cases hw : d.string n (.fresh cap) with
  | none =>
    rw [hw] at hs
    cases hs
  | some w =>
    have hkind : shape.kind = .string := by
      rw [← h.kind]
      by_contra hne
      rw [Document.string, if_pos hne] at hw
      split_ifs at hw
    cases shape with
    | string t =>
      rw [h.string hd hn] at hw
      obtain ⟨hfits, hout, -, hok⟩ := Writer.emit_eq_some hw
      rw [h.string hd hn, hw] at hs
      dsimp only at hs
      rw [if_pos hok, hout] at hs
      cases hs
      exact ⟨rfl, by simpa using hfits⟩
    | _ => cases hkind

lemma memberStep_spec {m} (hd : d.Sane) (h : d.Shows n mark shape) (hn : n < d.count)
    (hkey : (d.nodes n).key.bind d.content = some m) (hc : memberStep d n c = some c') :
    (m = methodName ∧ ∃ s, shape = .string s ∧ c' = { c with method := s, seen := c.seen ||| 1 }) ∨
      (m = headersName ∧ shape = .object ∧ c' = { c with headers := some n, seen := c.seen ||| 2 }) ∨
      (m = bodyName ∧ ∃ s, shape = .string s ∧ s.length ≤ 4096 ∧ c' = { c with body := s, seen := c.seen ||| 4 }) := by
  have hmark : ∀ {c c' : CallMembers} {bit : Nat}, c.mark bit = some c' → c' = { c with seen := c.seen ||| bit } := by
    intro c c' bit hm
    unfold CallMembers.mark at hm
    split_ifs at hm
    exact (Option.some_inj.mp hm).symm
  rw [memberStep, hkey] at hc
  dsimp only at hc
  split_ifs at hc with hmethod hheaders hkind hbody
  · obtain ⟨s, hs, hc⟩ := Option.bind_eq_some_iff.mp hc
    exact .inl ⟨hmethod, s, (decoded_shows hd h hn hs).1, hmark hc⟩
  · rw [not_not, h.kind] at hkind
    refine .inr (.inl ⟨hheaders, ?_, hmark hc⟩)
    cases shape <;> first | rfl | cases hkind
  · obtain ⟨s, hs, hc⟩ := Option.bind_eq_some_iff.mp hc
    obtain ⟨hshape, hlen⟩ := decoded_shows hd h hn hs
    exact .inr (.inr ⟨hbody, s, hshape, hlen, hmark hc⟩)

structure Found (d : Document) (f : Forest Span) (c c' : CallMembers) : Prop where
  names : ∀ n ∈ f.names, n = methodName ∨ n = headersName ∨ n = bodyName
  method : (methodName, .string c'.method) ∈ members f ∨ c'.method = c.method ∧ c'.seen &&& 1 = c.seen &&& 1
  headers : (∃ n mark children, c'.headers = some n ∧ d.Stands n ⟨mark, .object, children⟩ ∧
    (headersName, ⟨mark, .object, children⟩) ∈ entries f) ∨ headersName ∉ f.names ∧ c'.headers = c.headers
  body : (bodyName, .string c'.body) ∈ members f ∧ c'.body.length ≤ 4096 ∨ bodyName ∉ f.names ∧ c'.body = c.body

lemma Found.cons {m c₁} (h : Found d next c₁ c') (hn : d.Stands n ⟨mark, shape, children⟩)
    (hstep : (m.2 = methodName ∧ ∃ s, shape = .string s ∧ c₁ = { c with method := s, seen := c.seen ||| 1 }) ∨
      (m.2 = headersName ∧ shape = .object ∧ c₁ = { c with headers := some n, seen := c.seen ||| 2 }) ∨
      (m.2 = bodyName ∧ ∃ s, shape = .string s ∧ s.length ≤ 4096 ∧ c₁ = { c with body := s, seen := c.seen ||| 4 })) :
    Found d (.cons (some m) mark shape children next) c c' := by
  have hmembers : members (Forest.cons (some m) mark shape children next) = (m.2, shape) :: members next := rfl
  have hentries : entries (Forest.cons (some m) mark shape children next) = (m.2, ⟨mark, shape, children⟩) :: entries next := rfl
  have hnames : (Forest.cons (some m) mark shape children next).names = m.2 :: next.names := rfl
  have hbits : ∀ bit, bit &&& 1 = 0 → (c.seen ||| bit) &&& 1 = c.seen &&& 1 := by
    intro bit hbit
    rw [Nat.and_or_distrib_right, hbit, Nat.or_zero]
  obtain ⟨hall, hmethod, hheaders, hbody⟩ := h
  refine ⟨?_, ?_, ?_, ?_⟩
  · rw [hnames]
    refine List.forall_mem_cons.mpr ⟨?_, hall⟩
    rcases hstep with ⟨hm, -⟩ | ⟨hm, -⟩ | ⟨hm, -⟩
    · exact .inl hm
    · exact .inr (.inl hm)
    · exact .inr (.inr hm)
  · rw [hmembers]
    rcases hmethod with hin | ⟨hsame, hseen⟩
    · exact .inl (List.mem_cons_of_mem _ hin)
    · rcases hstep with ⟨hm, s, rfl, rfl⟩ | ⟨-, -, rfl⟩ | ⟨-, s, -, -, rfl⟩
      · exact .inl (by rw [hsame, hm]; exact List.mem_cons_self)
      · exact .inr ⟨hsame, by rw [hseen]; exact hbits 2 rfl⟩
      · exact .inr ⟨hsame, by rw [hseen]; exact hbits 4 rfl⟩
  · rw [hentries, hnames]
    rcases hheaders with ⟨k, mark', children', hk, hstands, hin⟩ | ⟨hno, hsame⟩
    · exact .inl ⟨k, mark', children', hk, hstands, List.mem_cons_of_mem _ hin⟩
    · rcases hstep with ⟨hm, s, -, rfl⟩ | ⟨hm, rfl, rfl⟩ | ⟨hm, s, -, -, rfl⟩
      · refine .inr ⟨List.not_mem_cons_of_ne_of_not_mem ?_ hno, hsame⟩
        rw [hm]
        decide
      · exact .inl ⟨n, mark, children, hsame, hn, by rw [hm]; exact List.mem_cons_self⟩
      · refine .inr ⟨List.not_mem_cons_of_ne_of_not_mem ?_ hno, hsame⟩
        rw [hm]
        decide
  · rw [hmembers, hnames]
    rcases hbody with ⟨hin, hlen⟩ | ⟨hno, hsame⟩
    · exact .inl ⟨List.mem_cons_of_mem _ hin, hlen⟩
    · rcases hstep with ⟨hm, s, -, rfl⟩ | ⟨hm, -, rfl⟩ | ⟨hm, s, rfl, hlen, rfl⟩
      · refine .inr ⟨List.not_mem_cons_of_ne_of_not_mem ?_ hno, hsame⟩
        rw [hm]
        decide
      · refine .inr ⟨List.not_mem_cons_of_ne_of_not_mem ?_ hno, hsame⟩
        rw [hm]
        decide
      · exact .inl ⟨by rw [hsame, hm]; exact List.mem_cons_self, by rw [hsame]; exact hlen⟩

lemma membersLoop_spec (hd : d.Sane) (h : d.Stand true f base head) (hc : membersLoop d turns head c = some c') :
    Found d f c c' := by
  induction f generalizing base head turns c with
  | nil =>
    cases h.holds
    have hsame : some c = some c' := by
      cases turns <;> exact hc
    cases hsame
    exact ⟨List.forall_mem_nil _, .inr ⟨rfl, rfl⟩, .inr ⟨List.not_mem_nil, rfl⟩, .inr ⟨List.not_mem_nil, rfl⟩⟩
  | cons name mark shape children next _ ihn =>
    obtain ⟨m, rfl, hkey⟩ := h.keyName hd
    have hfirst := h.first
    have hroom := hfirst.room
    obtain ⟨rfl, -⟩ := h.holds
    cases turns with
    | zero => cases hc
    | succ turns =>
      obtain ⟨c₁, hstep, hrest⟩ := Option.bind_eq_some_iff.mp hc
      rw [Value.size] at hroom
      exact (ihn h.tail hrest).cons hfirst (memberStep_spec hd hfirst.shows (by omega) hkey hstep)

/-! ## The fields that are written -/

lemma text_ok {w : Writer} (h : (w.text s).ok = true) : w.ok = true ∧ (w.text s).out = w.out ++ s := by
  unfold Writer.text at h ⊢
  split_ifs at h ⊢
  exact ⟨h, rfl⟩

structure FieldOk (h : Str × Str) : Prop where
  allowed : header_allowed h.1 = true
  valid : validateResponseHeader h.1 h.2 = .ok

def callField (h : Str × Str) : RawField := spacedField h.1 h.2

lemma callField_injective : Function.Injective callField := by
  rintro ⟨name, value⟩ ⟨name', value'⟩ h
  simp only [callField, spacedField, RawField.mk.injEq, List.cons.injEq, true_and] at h
  rw [h.1, h.2]

lemma headerStep_spec {k mk m names names' wire wire'} (hd : d.Sane)
    (h : d.Shows n mark shape) (hn : n < d.count) (hkey : (d.nodes n).key = some k) (hk : d.Shows k mk (.string m))
    (hcount : k < d.count) (hc : headerStep d n names wire = some (names', wire')) :
    ∃ value, shape = .string value ∧ FieldOk (m, value) ∧ (∀ name ∈ names, httpHeaderNameEqCi m name = false) ∧
      names.length ≠ 16 ∧ names' = names ++ [m] ∧
      (wire'.ok = true → wire.ok = true ∧ wire'.out = wire.out ++ (callField (m, value)).bytes) := by
  unfold headerStep at hc
  split_ifs at hc with hfull
  rw [hkey, Option.bind_some, hk.string hd hcount] at hc
  cases hemit : (Writer.fresh 128).emit m with
  | none =>
    rw [hemit] at hc
    cases hc
  | some key =>
    obtain ⟨-, hout, -, -⟩ := Writer.emit_eq_some hemit
    have hname : key.out = m := hout
    rw [hemit] at hc
    dsimp only at hc
    rw [hname] at hc
    split_ifs at hc with hbad
    obtain ⟨hallowed, hnew⟩ := Bool.or_eq_false_iff.mp (Bool.not_eq_true _ ▸ hbad)
    cases hvalue : decoded d n 2048 with
    | none =>
      rw [hvalue] at hc
      cases hc
    | some value =>
      rw [hvalue] at hc
      dsimp only at hc
      split_ifs at hc with hvalid
      cases hc
      refine ⟨value, (decoded_shows hd h hn hvalue).1, ⟨by simpa using hallowed, not_not.mp hvalid⟩, ?_, hfull, rfl, ?_⟩
      · intro name hname'
        have hany := List.any_eq_false.mp hnew name hname'
        simpa using hany
      · intro hok
        obtain ⟨h₁, hout₁⟩ := text_ok hok
        obtain ⟨h₂, hout₂⟩ := text_ok h₁
        obtain ⟨h₃, hout₃⟩ := text_ok h₂
        obtain ⟨h₄, hout₄⟩ := text_ok h₃
        refine ⟨h₄, ?_⟩
        rw [hout₁, hout₂, hout₃, hout₄, callField, spacedField_bytes]
        simp only [List.append_assoc]

structure Written (f : Forest Span) (hs : List (Str × Str)) (names : List Str) (wire wire' : Writer) : Prop where
  members : members f = hs.map fun h => (h.1, .string h.2)
  fields : ∀ h ∈ hs, FieldOk h
  distinct : (hs.map Prod.fst).Pairwise fun a b => httpHeaderNameEqCi b a = false
  fresh : ∀ h ∈ hs, ∀ name ∈ names, httpHeaderNameEqCi h.1 name = false
  count : names.length ≤ 16 → names.length + hs.length ≤ 16
  out : wire'.ok = true → wire.ok = true ∧ wire'.out = wire.out ++ (hs.map callField).flatMap RawField.bytes

lemma headersLoop_spec {names wire wire'} (hd : d.Sane) (h : d.Stand true f base head)
    (hc : headersLoop d turns head names wire = some wire') : ∃ hs, Written f hs names wire wire' := by
  induction f generalizing base head turns names wire with
  | nil =>
    cases h.holds
    have hsame : some wire = some wire' := by
      cases turns <;> exact hc
    cases hsame
    exact ⟨[], rfl, List.forall_mem_nil _, .nil, List.forall_mem_nil _, fun h => h, fun h => ⟨h, (List.append_nil _).symm⟩⟩
  | cons name mark shape children next _ ihn =>
    obtain ⟨m, rfl, -⟩ := h.keyName hd
    have hfirst := h.first
    have hroom := hfirst.room
    obtain ⟨rfl, hkey, hname, -⟩ := h.holds
    rw [Value.size] at hroom
    have hbase : base < d.count := by omega
    cases turns with
    | zero => cases hc
    | succ turns =>
      obtain ⟨⟨names₁, wire₁⟩, hstep, hrest⟩ := Option.bind_eq_some_iff.mp hc
      obtain ⟨value, rfl, hok, hnew, hfull, rfl, hout⟩ := headerStep_spec hd hfirst.shows (by omega) hkey
        (hname m rfl) hbase hstep
      obtain ⟨hs, hmembers, hfields, hdistinct, hfresh, hcount, hrestout⟩ := ihn h.tail hrest
      refine ⟨(m.2, value) :: hs, ?_, List.forall_mem_cons.mpr ⟨hok, hfields⟩, ?_, ?_, ?_, ?_⟩
      · rw [Auth.members, hmembers]
        rfl
      · rw [List.map_cons, List.pairwise_cons]
        refine ⟨fun a ha => ?_, hdistinct⟩
        obtain ⟨g, hg, rfl⟩ := List.mem_map.mp ha
        exact hfresh g hg m.2 (List.mem_append_right _ List.mem_cons_self)
      · refine List.forall_mem_cons.mpr ⟨hnew, fun g hg name hname' => ?_⟩
        exact hfresh g hg name (List.mem_append_left _ hname')
      · intro hle
        rw [List.length_append, List.length_singleton] at hcount
        rw [List.length_cons]
        omega
      · intro hw
        obtain ⟨h₁, hout₁⟩ := hrestout hw
        obtain ⟨h₀, hout₀⟩ := hout h₁
        refine ⟨h₀, ?_⟩
        rw [hout₁, hout₀, List.map_cons, List.flatMap_cons, List.append_assoc]

end members

/-! ## The request -/

def fixedFields (e : HttpsEndpoint) (body_len : Nat) : List (Str × Str) :=
  [(lit "Host".toList, cString e.tls.server_name ++ lit [':'] ++ decimalDigits e.port),
    (lit "Accept-Encoding".toList, lit "identity".toList), (lit "Connection".toList, lit "close".toList),
    (lit "Content-Length".toList, decimalDigits body_len)]

structure LineOk (h : Str × Str) : Prop where
  name_ne : h.1 ≠ []
  name_token : ∀ b ∈ h.1, tableAt kTokenTable b = true
  value : ∀ b ∈ h.2, tableAt kHeaderValueTable b = true

section request

variable {e : HttpsEndpoint} {inet_pton : Str → Bool} {hs : List (Str × Str)} {n : Nat}

lemma lineOk_of_valid {h} (hvalid : validateResponseHeader h.1 h.2 = .ok) : LineOk h := by
  unfold validateResponseHeader at hvalid
  split_ifs at hvalid with hne htoken hreserved hvalue
  refine ⟨hne, fun b hb => ?_, fun b hb => ?_⟩
  · rw [Bool.not_eq_true', Bool.not_eq_false, List.all_eq_true] at htoken
    rw [← isHttpTchar_eq]
    exact htoken b hb
  · rw [Bool.not_eq_true', Bool.not_eq_false, List.all_eq_true] at hvalue
    rw [← isValueByte_eq]
    exact hvalue b hb

lemma serverName_value : ∀ c : UInt8, isServerNameByte c = true → tableAt kHeaderValueTable c = true ∧ isOws c = false := by
  simp only [tableAt_value]
  exact forall_uint8 (by decide +kernel)

lemma path_uri : ∀ c : UInt8, isPathByte c = true → tableAt kUriTable c = true := by
  simp only [tableAt_uri]
  exact forall_uint8 (by decide +kernel)

lemma digit_value : ∀ c : UInt8, ch '0' ≤ c ∧ c ≤ ch '9' → tableAt kHeaderValueTable c = true := by
  simp only [tableAt_value]
  exact forall_uint8 (by decide +kernel)

lemma valid_endpoint (h : e.valid inet_pton = true) :
    (∀ c ∈ cString e.tls.server_name, isServerNameByte c = true) ∧ cString e.path ≠ [] ∧
      ∀ c ∈ cString e.path, tableAt kUriTable c = true := by
  unfold HttpsEndpoint.valid at h
  split_ifs at h with hbad
  simp only [not_or] at hbad
  obtain ⟨-, henabled, htls, -, -, -, hslash⟩ := hbad
  refine ⟨?_, ?_, fun c hc => path_uri c (List.all_eq_true.mp h c hc)⟩
  · rw [Bool.not_eq_true', Bool.not_eq_false] at htls henabled
    rw [valid_upstream_tls, henabled] at htls
    simp only [Bool.not_true, Bool.false_eq_true, if_false] at htls
    split_ifs at htls
    exact List.all_eq_true.mp htls
  · rw [not_not] at hslash
    obtain ⟨rest, hpath⟩ : ∃ rest, e.path = ch '/' :: rest := by
      cases hp : e.path with
      | nil =>
        rw [hp] at hslash
        cases hslash
      | cons c rest =>
        rw [hp] at hslash
        exact ⟨rest, by rw [Option.some_inj.mp hslash]⟩
    rw [cString, hpath, List.takeWhile_cons]
    simp [show (ch '/' != 0) = true by decide]

lemma host_value (h : e.valid inet_pton = true) : ∀ c ∈ cString e.tls.server_name ++ lit [':'] ++ decimalDigits e.port,
      tableAt kHeaderValueTable c = true ∧ isOws c = false := by
  intro c hc
  rcases List.mem_append.mp hc with hc | hc
  · rcases List.mem_append.mp hc with hc | hc
    · exact serverName_value c ((valid_endpoint h).1 c hc)
    · rw [List.mem_singleton.mp hc]
      decide
  · exact ⟨digit_value c ((decimalDigits_spec _).1 c hc), decimalDigits_plain _ c hc⟩

lemma fixedFields_ok (h : e.valid inet_pton = true) : ∀ g ∈ fixedFields e n, LineOk g := by
  have hnames : ∀ name ∈ [lit "Host".toList, lit "Accept-Encoding".toList, lit "Connection".toList, lit "Content-Length".toList],
      (!name.isEmpty && name.all (tableAt kTokenTable)) = true := List.all_eq_true.mp (by decide +kernel)
  have htexts : ∀ b ∈ lit "identity".toList ++ lit "close".toList, tableAt kHeaderValueTable b = true :=
    List.all_eq_true.mp (by decide +kernel)
  have hvalue : ∀ g ∈ fixedFields e n, ∀ b ∈ g.2, tableAt kHeaderValueTable b = true := by
    simp only [fixedFields, List.forall_mem_cons]
    exact ⟨fun b hb => (host_value h b hb).1, fun b hb => htexts b (List.mem_append_left _ hb),
      fun b hb => htexts b (List.mem_append_right _ hb), fun b hb => digit_value b ((decimalDigits_spec _).1 b hb),
      List.forall_mem_nil _⟩
  intro g hg
  have hname := hnames g.1 (List.mem_map_of_mem hg)
  simp only [Bool.and_eq_true, Bool.not_eq_true', List.isEmpty_eq_false_iff, List.all_eq_true] at hname
  exact ⟨hname.1, hname.2, hvalue g hg⟩

lemma field_free {g} (h : FieldOk g) : ∀ field ∈ forbidden, httpHeaderNameEqCi g.1 field = false := by
  have hallowed := h.allowed
  unfold header_allowed at hallowed
  split_ifs at hallowed
  rw [Bool.not_eq_true', List.any_eq_false] at hallowed
  exact fun field hfield => by simpa using hallowed field hfield

lemma field_not_named {g} (h : FieldOk g) (field : Str) {name} (hfield : field ∈ forbidden)
    (hname : lower field = name) : ¬(callField g).field.Named name := by
  intro hnamed
  have hfree := field_free h field hfield
  rw [httpHeaderNameEqCi, beq_eq_false_iff_ne] at hfree
  exact hfree (Eq.trans hnamed hname.symm)

lemma callPrefix_eq (e : HttpsEndpoint) (method : Str) (n : Nat) :
    callPrefix e method n = method ++ [ch ' '] ++ cString e.path ++ ch ' ' :: HttpVersion.http11.bytes ++
      ((fixedFields e n).map callField).flatMap RawField.bytes := by
  have hfirst : lit " HTTP/1.1\r\nHost: ".toList = ch ' ' :: HttpVersion.http11.bytes ++ (lit "Host".toList ++ colonSpace) := by
    rw [String.toList_ofList, String.toList_ofList]
    decide +kernel
  have hmiddle : lit "\r\nAccept-Encoding: identity\r\nConnection: close\r\nContent-Length: ".toList =
      crlf ++ ((lit "Accept-Encoding".toList ++ colonSpace ++ lit "identity".toList ++ crlf) ++
        ((lit "Connection".toList ++ colonSpace ++ lit "close".toList ++ crlf) ++
          (lit "Content-Length".toList ++ colonSpace))) := by
    iterate 6 rw [String.toList_ofList]
    decide +kernel
  rw [callPrefix, hfirst, hmiddle]
  simp only [fixedFields, List.map_cons, List.map_nil, List.flatMap_cons, List.flatMap_nil, callField, spacedField_bytes,
    List.append_assoc, List.cons_append, List.nil_append, List.append_nil]
  rfl

lemma methods_verb {method} (h : methods.contains method = true) :
    ∃ verb : HttpMethod, verb.bytes = method ++ [ch ' '] := by
  rw [List.contains_iff_mem] at h
  simp only [methods, List.mem_cons, List.not_mem_nil, or_false] at h
  rcases h with rfl | rfl | rfl | rfl | rfl | rfl
  · exact ⟨.get, by decide⟩
  · exact ⟨.post, by decide⟩
  · exact ⟨.put, by decide⟩
  · exact ⟨.patch, by decide⟩
  · exact ⟨.delete, by decide⟩
  · exact ⟨.options, by decide⟩

lemma fixedFields_length (hn : n < 2 ^ 32) :
    ∀ g ∈ fixedFields e n, (callField g).field.Named Http.contentLengthName → IsDecimal (callField g).field.value n := by
  have hother : ∀ name ∈ [lit "Host".toList, lit "Accept-Encoding".toList, lit "Connection".toList],
      lower name ≠ Http.contentLengthName := by decide
  simp only [fixedFields, List.forall_mem_cons]
  refine ⟨fun h => absurd h (hother (lit "Host".toList) ?_), fun h => absurd h (hother (lit "Accept-Encoding".toList) ?_),
    fun h => absurd h (hother (lit "Connection".toList) ?_), fun _ => ?_, List.forall_mem_nil _⟩
  · decide
  · decide
  · decide
  rw [callField, spacedField_value, trimOws_plain (decimalDigits_plain n)]
  exact isDecimal_decimalDigits hn

lemma fixedFields_transfer : ∀ g ∈ fixedFields e n, ¬(callField g).field.Named Http.transferEncodingName := by
  have hother : ∀ name ∈ [lit "Host".toList, lit "Accept-Encoding".toList, lit "Connection".toList, lit "Content-Length".toList],
      lower name ≠ Http.transferEncodingName := by decide
  intro g hg
  exact hother g.1 (List.mem_map_of_mem hg)

lemma call_grammar (verb : HttpMethod) (he : e.valid inet_pton = true) (hn : n < 2 ^ 32) (hcount : hs.length ≤ 16)
    (hfields : ∀ h ∈ hs, FieldOk h) :
    RequestGrammar (headBytes verb (cString e.path) .http11 ((fixedFields e n ++ hs).map callField)) verb (cString e.path)
      .http11 ((fixedFields e n ++ hs).map callField) := by
  have hok : ∀ g ∈ fixedFields e n ++ hs, LineOk g := by
    intro g hg
    rcases List.mem_append.mp hg with hg | hg
    · exact fixedFields_ok he g hg
    · exact lineOk_of_valid (hfields g hg).valid
  obtain ⟨-, hpath, huri⟩ := valid_endpoint he
  refine ⟨rfl, hpath, huri, ?_, ?_, ?_, ?_, ⟨n, ?_⟩, ?_⟩
  · have hlength : (fixedFields e n).length = 4 := rfl
    rw [List.length_map, List.length_append, hlength, kMaxHeaders]
    omega
  · intro f hf
    obtain ⟨g, hg, rfl⟩ := List.mem_map.mp hf
    exact (hok g hg).name_ne
  · intro f hf
    obtain ⟨g, hg, rfl⟩ := List.mem_map.mp hf
    exact (hok g hg).name_token
  · intro f hf b hb
    obtain ⟨g, hg, rfl⟩ := List.mem_map.mp hf
    rcases List.mem_cons.mp hb with rfl | hb
    · decide
    · exact (hok g hg).value b hb
  · intro f hf hnamed
    obtain ⟨g, hg, rfl⟩ := List.mem_map.mp hf
    rcases List.mem_append.mp hg with hg | hg
    · exact fixedFields_length hn g hg hnamed
    · exact absurd hnamed (field_not_named (hfields g hg) (lit "Content-Length".toList) (by decide) (by decide))
  · rintro ⟨-, f, hf, hnamed, -⟩
    obtain ⟨g, hg, rfl⟩ := List.mem_map.mp hf
    rcases List.mem_append.mp hg with hg | hg
    · exact fixedFields_transfer g hg hnamed
    · exact field_not_named (hfields g hg) (lit "Transfer-Encoding".toList) (by decide) (by decide) hnamed

section call

variable {d : Document} {input out : Str} {cap : Nat}

lemma http_call_request_steps (h : http_call_request inet_pton d e input cap = some out) :
    e.valid inet_pton = true ∧ (d.parse input).2 = true ∧ ((d.parse input).1.nodes 0).kind = .object ∧
      ∃ c wire wire', membersLoop (d.parse input).1 (d.parse input).1.count ((d.parse input).1.nodes 0).child {} = some c ∧
        methods.contains c.method = true ∧ c.seen &&& 1 ≠ 0 ∧ wire.out = callPrefix e c.method c.body.length ∧
        writeHeaders (d.parse input).1 c.headers wire = some wire' ∧ ((wire'.text crlf).text c.body).ok = true ∧
        out = ((wire'.text crlf).text c.body).out := by
  unfold http_call_request at h
  split_ifs at h with hbad hparse
  simp only [Bool.or_eq_true, not_or, Bool.not_eq_true', Bool.not_eq_false] at hbad hparse
  obtain ⟨⟨hvalid, -⟩, -⟩ := hbad
  obtain ⟨hok, hkind⟩ := hparse
  refine ⟨hvalid, hok, by simpa using hkind, ?_⟩
  dsimp only at h
  cases hc : membersLoop (d.parse input).1 (d.parse input).1.count ((d.parse input).1.nodes 0).child {} with
  | none =>
    rw [hc] at h
    cases h
  | some c =>
    rw [hc] at h
    dsimp only at h
    split_ifs at h with hmethod hlong
    simp only [Bool.or_eq_true, not_or, Bool.not_eq_true', Bool.not_eq_false, beq_iff_eq] at hmethod
    cases hw : writeHeaders (d.parse input).1 c.headers ⟨callPrefix e c.method c.body.length, cap, true, Nat.le_of_not_ge hlong⟩ with
    | none =>
      rw [hw] at h
      cases h
    | some wire' =>
      rw [hw] at h
      dsimp only at h
      split_ifs at h with hwire
      rw [Bool.not_eq_true', Bool.not_eq_false] at hwire
      exact ⟨c, _, wire', rfl, hmethod.1, hmethod.2, rfl, hw, hwire, (Option.some_inj.mp h).symm⟩

lemma writeHeaders_spec {f c wire wire'} (hd : d.Sane) (hfound : Found d f {} c)
    (hw : writeHeaders d c.headers wire = some wire') :
    ∃ hs, ((∃ mark children, (headersName, ⟨mark, .object, children⟩) ∈ entries f ∧
          members children = hs.map fun h => (h.1, .string h.2)) ∨ headersName ∉ f.names ∧ hs = []) ∧
      (∀ h ∈ hs, FieldOk h) ∧ (hs.map Prod.fst).Pairwise (fun a b => httpHeaderNameEqCi b a = false) ∧ hs.length ≤ 16 ∧
      (wire'.ok = true → wire'.out = wire.out ++ (hs.map callField).flatMap RawField.bytes) := by
  rcases hfound.headers with ⟨n, mark, children, hn, hstands, hin⟩ | ⟨hno, hsame⟩
  · rw [hn] at hw
    have hstand := hstands.items (show _ = container true from rfl)
    obtain ⟨hs, hwritten⟩ := headersLoop_spec hd hstand hw
    refine ⟨hs, .inl ⟨mark, children, hin, hwritten.members⟩, hwritten.fields, hwritten.distinct, ?_, fun hok => (hwritten.out hok).2⟩
    simpa using hwritten.count (Nat.zero_le _)
  · rw [hsame] at hw
    cases hw
    exact ⟨[], .inr ⟨hno, rfl⟩, List.forall_mem_nil _, .nil, Nat.zero_le _, fun _ => (List.append_nil _).symm⟩

lemma call_bytes (h : http_call_request inet_pton d e input cap = some out) :
    ∃ f method hs body verb, CallText input method hs body f ∧ verb.bytes = method ++ [ch ' '] ∧ body.length < 2 ^ 32 ∧
      (∀ g ∈ hs, FieldOk g) ∧ (hs.map Prod.fst).Pairwise (fun a b => httpHeaderNameEqCi b a = false) ∧ hs.length ≤ 16 ∧
      out = headBytes verb (cString e.path) .http11 ((fixedFields e body.length ++ hs).map callField) ++ body := by
  obtain ⟨-, hok, hkind, c, wire, wire', hc, hmethod, hseen, hprefix, hw, hwire, rfl⟩ := http_call_request_steps h
  obtain ⟨f, hobject⟩ := parse_object.mp ⟨hok, hkind⟩
  have htext := hobject
  obtain ⟨mark, htree, hlimits⟩ := hobject
  obtain ⟨hrep, hsane, -⟩ := Document.parse_represents hok htree
  have hstand := (hrep.stands htree).items (show _ = container true from rfl)
  have hfound := membersLoop_spec hsane hstand hc
  obtain ⟨hs, hheaders, hfields, hdistinct, hcount, hout⟩ := writeHeaders_spec hsane hfound hw
  obtain ⟨verb, hverb⟩ := methods_verb hmethod
  have hmember : (methodName, .string c.method) ∈ members f :=
    hfound.method.resolve_right fun hno => hseen (by rw [hno.2]; rfl)
  have hbody : (bodyName, .string c.body) ∈ members f ∨ bodyName ∉ f.names ∧ c.body = [] :=
    hfound.body.imp_left And.left
  have hlength : c.body.length < 2 ^ 32 := by
    rcases hfound.body with ⟨-, hlen⟩ | ⟨-, hnil⟩
    · omega
    · rw [hnil]
      decide
  obtain ⟨h₁, hout₁⟩ := text_ok hwire
  obtain ⟨h₂, hout₂⟩ := text_ok h₁
  refine ⟨f, c.method, hs, c.body, verb, ⟨htext, hfound.names, hmember, hheaders, hbody⟩, hverb, hlength, hfields, hdistinct,
    hcount, ?_⟩
  rw [hout₁, hout₂, hout h₂, hprefix, callPrefix_eq, headBytes, hverb, List.map_append, List.flatMap_append]
  simp only [List.append_assoc, List.cons_append]
  rfl

/-- The bytes `out` are one request, of the method, the fields `hs` and the body of the input. -/
structure OneRequest (e : HttpsEndpoint) (method : Str) (hs : List (Str × Str)) (body out : Str) (req : ParsedRequest)
    (header_end : Nat) : Prop where
  parsed : parse out = .complete req header_end
  length : header_end + req.contentLength = out.length
  method : req.method.bytes = method ++ [ch ' ']
  path : req.path = cString e.path
  fields : (req.headers.map fun h => (h.name, h.value)) =
    fixedFields e body.length ++ hs.map fun h => (h.1, trimOws h.2)
  raw : req.headers.map Header.rawValue = (fixedFields e body.length ++ hs).map fun h => ch ' ' :: h.2
  distinct : (req.headers.map Header.name).Pairwise fun a b => httpHeaderNameEqCi b a = false
  allowed : ∀ h ∈ hs, ∀ field ∈ forbidden, httpHeaderNameEqCi h.1 field = false
  body : out.drop header_end = body

lemma fixedFields_trim (he : e.valid inet_pton = true) : ∀ g ∈ fixedFields e n, trimOws g.2 = g.2 := by
  simp only [fixedFields, List.forall_mem_cons]
  exact ⟨trimOws_plain fun c hc => (host_value he c hc).2, by decide, by decide, trimOws_plain (decimalDigits_plain n),
    List.forall_mem_nil _⟩

lemma call_distinct (hfields : ∀ g ∈ hs, FieldOk g)
    (hdistinct : (hs.map Prod.fst).Pairwise fun a b => httpHeaderNameEqCi b a = false) :
    ((fixedFields e n ++ hs).map Prod.fst).Pairwise fun a b => httpHeaderNameEqCi b a = false := by
  rw [List.map_append, List.pairwise_append]
  have hfixed : [lit "Host".toList, lit "Accept-Encoding".toList, lit "Connection".toList, lit "Content-Length".toList].Pairwise
      fun a b => httpHeaderNameEqCi b a = false := by decide
  refine ⟨hfixed, hdistinct, fun a ha b hb => ?_⟩
  obtain ⟨g, hg, rfl⟩ := List.mem_map.mp hb
  have hforbidden : ∀ name ∈ [lit "Host".toList, lit "Accept-Encoding".toList, lit "Connection".toList, lit "Content-Length".toList],
      name ∈ forbidden := by decide
  exact field_free (hfields g hg) a (hforbidden a ha)

lemma call_parsed {verb body} (he : e.valid inet_pton = true) (hlength : body.length < 2 ^ 32)
    (hcount : hs.length ≤ 16) (hfields : ∀ g ∈ hs, FieldOk g)
    (hout : out = headBytes verb (cString e.path) .http11 ((fixedFields e body.length ++ hs).map callField) ++ body) :
    ∃ req header_end, parse out = .complete req header_end ∧ header_end + req.contentLength = out.length ∧
      req.method = verb ∧ req.path = cString e.path ∧
      req.headers = ((fixedFields e body.length ++ hs).map callField).map RawField.header ∧ out.drop header_end = body := by
  obtain ⟨head, hhead⟩ : ∃ head, head =
      headBytes verb (cString e.path) .http11 ((fixedFields e body.length ++ hs).map callField) := ⟨_, rfl⟩
  have hgrammar := call_grammar verb he hlength hcount hfields
  rw [← hhead] at hgrammar hout
  have htake : out.take head.length = head := by rw [hout, List.take_left]
  have hle : head.length ≤ out.length := by
    rw [hout, List.length_append]
    exact Nat.le_add_right _ _
  rw [← htake] at hgrammar
  obtain ⟨req, hp, rfl, hpath, hversion, hheaders⟩ := parse_of_grammar hle hgrammar
  rw [← hpath, ← hversion] at hgrammar
  obtain ⟨hhas, hvalue, -⟩ := bodyLength_of_parse hp hgrammar
  -- The one Content-Length field says the length of the body.
  have hlast : callField (lit "Content-Length".toList, decimalDigits body.length) ∈ (fixedFields e body.length ++ hs).map callField :=
    List.mem_map_of_mem (List.mem_append_left _ (by simp [fixedFields]))
  have hname : isContentLength (callField (lit "Content-Length".toList, decimalDigits body.length)) = true := by
    change requestPolicyNameEq (lit "Content-Length".toList) _ = true
    decide
  have hdecimal := hvalue _ hlast hname
  rw [callField, spacedField_value, trimOws_plain (decimalDigits_plain _)] at hdecimal
  have hcontent : req.contentLength = body.length := by
    have hbody := hdecimal.value.symm.trans (isDecimal_decimalDigits hlength).value
    rwa [PolicyConn.bodyLength, if_pos (hhas.mpr ⟨_, hlast, hname⟩)] at hbody
  refine ⟨req, head.length, hp, ?_, rfl, hpath, hheaders, ?_⟩
  · rw [hcontent, hout, List.length_append]
  · rw [hout, List.drop_left]

/-- What a call writes is one request. Its fields are those of the endpoint and, in their order, those of the input,
whose values are parsed without the blanks around them. -/
theorem call_request_one (h : http_call_request inet_pton d e input cap = some out) :
    ∃ f method hs body req header_end, CallText input method hs body f ∧ OneRequest e method hs body out req header_end := by
  obtain ⟨he, -⟩ := http_call_request_steps h
  obtain ⟨f, method, hs, body, verb, htext, hverb, hlength, hfields, hdistinct, hcount, hout⟩ := call_bytes h
  obtain ⟨req, header_end, hparse, hend, hmethod, hpath, hheaders, hbody⟩ := call_parsed he hlength hcount hfields hout
  refine ⟨f, method, hs, body, req, header_end, htext, hparse, hend, by rw [hmethod, hverb], hpath, ?_, ?_, ?_,
    fun g hg => field_free (hfields g hg), hbody⟩
  · have hpairs : (req.headers.map fun h => (h.name, h.value)) =
        (fixedFields e body.length ++ hs).map fun g => (g.1, trimOws g.2) := by
      rw [hheaders, List.map_map, List.map_map]
      refine List.map_congr_left fun g _ => ?_
      exact Prod.ext rfl (trimOws_space g.2)
    rw [hpairs, List.map_append]
    congr 1
    refine (List.map_congr_left fun g hg => ?_).trans (List.map_id _)
    exact Prod.ext rfl (fixedFields_trim he g hg)
  · rw [hheaders, List.map_map, List.map_map]
    rfl
  · have hnames : req.headers.map Header.name = (fixedFields e body.length ++ hs).map Prod.fst := by
      rw [hheaders, List.map_map, List.map_map]
      rfl
    rw [hnames]
    exact call_distinct hfields hdistinct

def probeEndpoint : HttpsEndpoint where
  address := lit "10.0.0.1\x00".toList
  port := 443
  path := lit "/a?b\x00".toList
  tls := ⟨true, lit "ca\x00".toList, lit "h.x\x00".toList, [0], [0]⟩
  port_fits := by decide

def isProbeAddress (s : Str) : Bool := s == lit "10.0.0.1".toList

def probeInput : Str := lit "\x7b\x22method\x22:\x22GET\x22,\x22headers\x22:\x7b\x22a\x22:\x22 b\x22\x7d\x7d".toList

def probeRequest : Str :=
  lit "GET /a?b HTTP/1.1\r\nHost: h.x:443\r\nAccept-Encoding: identity\r\nConnection: close\r\nContent-Length: 0\r\na:  b\r\n\r\n".toList

lemma probe_request : http_call_request isProbeAddress Document.blank probeEndpoint probeInput 256 = some probeRequest := by
  unfold probeInput probeRequest
  rw [String.toList_ofList, String.toList_ofList]
  decide +kernel

theorem probe_one :
    http_call_request isProbeAddress Document.blank probeEndpoint probeInput 256 = some probeRequest ∧
      ∃ f method hs body req header_end, CallText probeInput method hs body f ∧
        OneRequest probeEndpoint method hs body probeRequest req header_end :=
  ⟨probe_request, call_request_one probe_request⟩

def laterHeaders (r : ParseResult) : List Header :=
  match r with
  | .complete req _ => req.headers.drop 4
  | _ => []

/-- A blank in front of a value is not part of what is parsed. -/
theorem probe_trimmed :
    http_call_request isProbeAddress Document.blank probeEndpoint probeInput 256 = some probeRequest ∧
      ∃ f method hs body req header_end, CallText probeInput method hs body f ∧ hs = [(lit ['a'], lit [' ','b'])] ∧
        parse probeRequest = .complete req header_end ∧
        ((req.headers.drop 4).map fun h => (h.name, h.value)) = [(lit ['a'], lit ['b'])] := by
  obtain ⟨he, -⟩ := http_call_request_steps probe_request
  obtain ⟨f, method, hs, body, verb, htext, -, hlength, hfields, -, hcount, hout⟩ := call_bytes probe_request
  obtain ⟨req, header_end, hparse, -, -, -, hheaders, -⟩ := call_parsed he hlength hcount hfields hout
  have hlater : laterHeaders (parse probeRequest) = [⟨lit ['a'], lit ['b'], lit [' ',' ','b']⟩] := by
    unfold probeRequest
    rw [String.toList_ofList]
    decide +kernel
  rw [hparse, laterHeaders] at hlater
  have hdrop : (req.headers.drop 4) = (hs.map callField).map RawField.header := by
    rw [hheaders, List.map_append, List.map_append]
    rfl
  have hfield : (hs.map callField).map RawField.header = [callField (lit ['a'], lit [' ','b'])].map RawField.header := by
    rw [← hdrop, hlater]
    decide
  have hsame : hs = [(lit ['a'], lit [' ','b'])] := by
    have hmap := List.map_injective_iff.mpr RawField.header_injective hfield
    refine List.map_injective_iff.mpr callField_injective ?_
    rw [hmap]
    rfl
  refine ⟨probe_request, f, method, hs, body, req, header_end, htext, hsame, hparse, ?_⟩
  rw [hlater]
  decide

end call

end request

end Rut.Callout
