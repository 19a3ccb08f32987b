import Rut.Http.Framing
import Rut.Http2.Bridge
import Rut.Lib.Loop

/-!
# Requests over HTTP/2 and over HTTP/1

What `h2_headers_to_request` accepts, `h2_synth_h1_request` writes as lines without CR or LF, so the HTTP/1 parser
reads back one head with the same fields. The two parsers do not store the same canonical path: they agree on
targets in origin form whose leading `/` is a single one.
-/

set_option linter.all false
namespace Rut.Http2

open Http Route

/-! ## Canonical paths -/

/-- The target is in origin form and its path part starts with one `/` or consists of `/` only. -/
def SingleSlash (target : Str) : Prop :=
  target.head? = some (ch '/') ∧
    ((target.takeWhile isPathByte)[1]? ≠ some (ch '/') ∨ ∀ b ∈ target.takeWhile isPathByte, b = ch '/')

lemma slash_iff {l : Str} : (∀ b ∈ l, isSlash b = true) ↔ ∀ b ∈ l, b = ch '/' := by simp [isSlash]

lemma rdropWhile_head {l : Str} (h : l.rdropWhile isSlash ≠ []) : (l.rdropWhile isSlash).head? = l.head? := by
  obtain ⟨t, ht⟩ := List.rdropWhile_prefix isSlash l
  nth_rewrite 2 [← ht]
  rw [List.head?_append_of_ne_nil _ h]

/-- Stripping a leading run of `/` as well changes nothing exactly if there is none or nothing else. -/
lemma strip_eq_iff (r : Str) : (r.dropWhile isSlash).rdropWhile isSlash = r.rdropWhile isSlash ↔
      r.head? ≠ some (ch '/') ∨ ∀ b ∈ r, b = ch '/' := by
  cases hhead : r.head? with
  | none => simp [List.head?_eq_none_iff.mp hhead]
  | some b =>
    by_cases hb : b = ch '/'
    · subst hb
      rw [← slash_iff, ← List.rdropWhile_eq_nil_iff]
      constructor
      · intro h
        refine .inr ?_
        by_contra hne
        -- The left side starts with another byte, the right side with `/`.
        have hleft := rdropWhile_head (h ▸ hne : (r.dropWhile isSlash).rdropWhile isSlash ≠ [])
        have hright := rdropWhile_head hne
        have hslash := List.head?_dropWhile_not isSlash r
        rw [← hleft, h, hright, hhead] at hslash
        exact absurd hslash (by decide)
      · rintro (h | h)
        · exact absurd rfl h
        · have hall := List.rdropWhile_eq_nil_iff.mp h
          rw [h, List.dropWhile_eq_nil_iff.mpr hall]
          rfl
    · have hdrop : r.dropWhile isSlash = r := by
        rw [List.dropWhile_eq_self_iff]
        intro hlen
        have hget : r[0] = b := by
          rw [List.head?_eq_getElem?, List.getElem?_eq_getElem hlen] at hhead
          exact Option.some.inj hhead
        simpa [isSlash, hget] using hb
      simp [hdrop, hb]

lemma h2HeadersToRequest_pathCanon {extended hs req protocol} (h : h2HeadersToRequest extended hs = some (req, protocol)) :
    req.pathCanon = some (h2CanonPath req.path) := by
  obtain ⟨st, -, h⟩ := Option.bind_eq_some_iff.mp h
  dsimp only at h
  split_ifs at h
  split at h
  · cases h
    rfl
  · cases h

/-- The two parsers store the same canonical path of a target exactly if it starts with one `/`. -/
theorem pathCanon_agree_iff {buf : Str} {req : ParsedRequest} {n : Nat} {extended : Bool} {hs : List (Str × Str)}
    {req₂ : ParsedRequest} {protocol : Option Str} (h₁ : parse buf = .complete req n)
    (h₂ : h2HeadersToRequest extended hs = some (req₂, protocol)) (hpath : req.path = req₂.path) :
    req.pathCanon = req₂.pathCanon ↔ SingleSlash req.path := by
  obtain ⟨l, ps, rest, -, -, -, hp, hc, -⟩ := parse_complete_head h₁
  rw [h2HeadersToRequest_pathCanon h₂, ← hpath, hc, hp, SingleSlash, Target.ofPath]
  generalize l.target = t
  by_cases hhead : t.head? = some (ch '/')
  · cases t with
    | nil => cases hhead
    | cons b t =>
      obtain rfl := Option.some.inj hhead
      have hbyte : isPathByte (ch '/') = true := by decide
      have htake : (ch '/' :: t).take (canonEndOf (ch '/' :: t)) = ch '/' :: t.takeWhile isPathByte := by
        rw [canonEndOf, List.takeWhile_cons_of_pos hbyte]
        have hpre := List.prefix_iff_eq_take.mp (List.takeWhile_prefix isPathByte (l := t))
        rw [List.length_cons, List.take_succ_cons, ← hpre]
      rw [if_pos hhead, htake, finalizePathCanonical, h2CanonPath, List.takeWhile_cons_of_pos hbyte]
      have hslash : isSlash (ch '/') = true := by decide
      rw [List.dropWhile_cons_of_pos hslash]
      simp only [List.head?_cons, if_true, List.drop_one, List.tail_cons, Option.some.injEq, true_and]
      rw [strip_eq_iff]
      simp [List.head?_eq_getElem?]
  · simp [hhead]

def getHead (target : Str) : Str :=
  lit ['G','E','T',' '] ++ target ++ lit [' ','H','T','T','P','/','1','.','1','\r','\n','\r','\n']

def getFields (target : Str) : List (Str × Str) := [(methodName, lit ['G','E','T']), (pathName, target)]

/-- What both parsers store of such a request with the canonical path `canon`. -/
def getRequest (target canon : Str) : ParsedRequest where
  method := .get
  path := target
  pathCanon := some canon
  targetHasFragment := false
  version := .http11
  keepAlive := true
  transferEncoding := .none

theorem pathCanon_agree_users :
    parse (getHead (lit ['/','u','/','?','q'])) =
        .complete (getRequest (lit ['/','u','/','?','q']) (lit ['u'])) 22 ∧
      h2HeadersToRequest false (getFields (lit ['/','u','/','?','q'])) =
        some (getRequest (lit ['/','u','/','?','q']) (lit ['u']), none) ∧
      SingleSlash (lit ['/','u','/','?','q']) := by
  have h₁ : parse (getHead (lit ['/','u','/','?','q'])) =
      .complete (getRequest (lit ['/','u','/','?','q']) (lit ['u'])) 22 := by decide
  have h₂ : h2HeadersToRequest false (getFields (lit ['/','u','/','?','q'])) =
      some (getRequest (lit ['/','u','/','?','q']) (lit ['u']), none) := by decide
  exact ⟨h₁, h₂, (pathCanon_agree_iff h₁ h₂ rfl).mp rfl⟩

/-- Over HTTP/1 the path of `//u` is `u`, over HTTP/2 it is `/u`. -/
theorem pathCanon_disagree :
    parse (getHead (lit ['/','/','u'])) = .complete (getRequest (lit ['/','/','u']) (lit ['u'])) 20 ∧
      h2HeadersToRequest false (getFields (lit ['/','/','u'])) =
        some (getRequest (lit ['/','/','u']) (lit ['/','u']), none) ∧
      (getRequest (lit ['/','/','u']) (lit ['u'])).pathCanon ≠
        (getRequest (lit ['/','/','u']) (lit ['/','u'])).pathCanon := by
  refine ⟨by decide, by decide, by decide⟩

/-! ## Accepted field lists -/

/-- What acceptance of the fields `hs` says about them. -/
structure Accepted (hs : List (Str × Str)) (st : RequestFields) : Prop where
  values : ∀ f ∈ hs, h2ValueOk f.2 = true
  names : ∀ f ∈ hs, isPseudo f.1 = false → h2NameOk f.1 = true
  methods : (hs.filter (·.1 == methodName)).map (fun f => h2MethodFromStr f.2) = st.method.toList.map some
  paths : (hs.filter (·.1 == pathName)).map Prod.snd = st.path.toList

structure FieldAccepted (st st' : RequestFields) (f : Str × Str) : Prop where
  value : h2ValueOk f.2 = true
  name : isPseudo f.1 = false → h2NameOk f.1 = true
  method : if f.1 = methodName then st.method = none ∧ st'.method.isSome ∧ st'.method = h2MethodFromStr f.2
    else st'.method = st.method
  path : if f.1 = pathName then st.path = none ∧ st'.path = some f.2 else st'.path = st.path

lemma store_eq_some {st st' : RequestFields} {name value} (h : st.store name value = some st') :
    st'.method = st.method ∧ st'.path = st.path := by
  unfold RequestFields.store at h
  split_ifs at h
  cases h
  exact ⟨rfl, rfl⟩

lemma pseudoField_accepted {extended st st' f} (hf : isPseudo f.1 = true)
    (h : pseudoField extended st f.1 f.2 = some st') : FieldAccepted st st' f := by
  unfold pseudoField at h
  have hname : isPseudo f.1 = false → h2NameOk f.1 = true := fun h => absurd (hf.symm.trans h) (by decide)
  obtain ⟨-, ⟨⟩⟩ | ⟨-, h⟩ := ite_eq_iff.mp h
  obtain ⟨-, ⟨⟩⟩ | ⟨hval, h⟩ := ite_eq_iff.mp h
  obtain ⟨hm, h⟩ | ⟨hm, h⟩ := ite_eq_iff.mp h
  · obtain ⟨-, ⟨⟩⟩ | ⟨hsome, h⟩ := ite_eq_iff.mp h
    obtain ⟨m, hmeth, rfl⟩ := Option.map_eq_some_iff.mp h
    refine ⟨by simpa using hval, hname, ?_, ?_⟩
    · rw [if_pos hm]
      exact ⟨by simpa using hsome, rfl, hmeth.symm⟩
    · rw [if_neg (by rw [hm]; decide)]
  obtain ⟨hp, h⟩ | ⟨hp, h⟩ := ite_eq_iff.mp h
  · obtain ⟨-, ⟨⟩⟩ | ⟨hsome, h⟩ := ite_eq_iff.mp h
    obtain ⟨-, ⟨⟩⟩ | ⟨-, ⟨⟩⟩ := ite_eq_iff.mp h
    refine ⟨by simpa using hval, hname, by rw [if_neg hm], ?_⟩
    rw [if_pos hp]
    exact ⟨by simpa using hsome, rfl⟩
  obtain ⟨-, h⟩ | ⟨-, h⟩ := ite_eq_iff.mp h
  · obtain ⟨-, ⟨⟩⟩ | ⟨-, h⟩ := ite_eq_iff.mp h
    obtain ⟨st₁, hst, rfl⟩ := Option.map_eq_some_iff.mp h
    obtain ⟨h₁, h₂⟩ := store_eq_some hst
    exact ⟨by simpa using hval, hname, by rw [if_neg hm]; exact h₁, by rw [if_neg hp]; exact h₂⟩
  have hkept : st'.method = st.method ∧ st'.path = st.path := by
    obtain ⟨-, h⟩ | ⟨-, h⟩ := ite_eq_iff.mp h
    · obtain ⟨-, ⟨⟩⟩ | ⟨-, ⟨⟩⟩ := ite_eq_iff.mp h
      exact ⟨rfl, rfl⟩
    · obtain ⟨-, ⟨⟩⟩ | ⟨-, h⟩ := ite_eq_iff.mp h
      obtain ⟨-, ⟨⟩⟩ | ⟨-, ⟨⟩⟩ := ite_eq_iff.mp h
      exact ⟨rfl, rfl⟩
  exact ⟨by simpa using hval, hname, by rw [if_neg hm]; exact hkept.1, by rw [if_neg hp]; exact hkept.2⟩

lemma regularField_accepted {st st' f} (hf : isPseudo f.1 = false)
    (h : regularField st f.1 f.2 = some st') : FieldAccepted st st' f := by
  have hm : f.1 ≠ methodName := fun hm => absurd hf (by rw [hm]; decide)
  have hp : f.1 ≠ pathName := fun hp => absurd hf (by rw [hp]; decide)
  obtain ⟨-, h⟩ | ⟨hok, h⟩ := ite_eq_iff.mp h
  · cases h
  obtain ⟨-, h⟩ | ⟨-, h⟩ := ite_eq_iff.mp h
  · cases h
  obtain ⟨-, h⟩ | ⟨-, h⟩ := ite_eq_iff.mp h
  · cases h
  obtain ⟨st₁, hst, h⟩ := Option.bind_eq_some_iff.mp h
  obtain ⟨h₁, h₂⟩ := store_eq_some hst
  simp only [Bool.or_eq_true, Bool.not_eq_eq_eq_not, Bool.not_true, not_or, Bool.not_eq_false] at hok
  have hline : st'.method = st₁.method ∧ st'.path = st₁.path := by
    split_ifs at h
    · obtain ⟨cl, -, rfl⟩ := Option.map_eq_some_iff.mp h
      exact ⟨rfl, rfl⟩
    · cases h
      exact ⟨rfl, rfl⟩
  refine ⟨hok.2, fun _ => hok.1, ?_, ?_⟩
  · rw [if_neg hm]
    exact hline.1.trans h₁
  · rw [if_neg hp]
    exact hline.2.trans h₂

lemma Accepted.step {extended hs st st' f}
    (A : Accepted hs st) (h : requestField extended st f = some st') : Accepted (hs ++ [f]) st' := by
  have F : FieldAccepted st st' f := by
    unfold requestField at h
    split_ifs at h with hf
    · exact pseudoField_accepted hf h
    · exact regularField_accepted (by simpa using hf) h
  constructor
  · intro g hg
    rcases List.mem_append.mp hg with hg | hg
    · exact A.values g hg
    · rw [List.mem_singleton.mp hg]
      exact F.value
  · intro g hg
    rcases List.mem_append.mp hg with hg | hg
    · exact A.names g hg
    · rw [List.mem_singleton.mp hg]
      exact F.name
  · have hmeth := F.method
    rw [List.filter_append, List.map_append, A.methods]
    split_ifs at hmeth with hm
    · obtain ⟨hnone, hsome, heq⟩ := hmeth
      obtain ⟨m, hmeq⟩ := Option.isSome_iff_exists.mp hsome
      simp [hm, hnone, ← heq, hmeq]
    · simp [hm, hmeth]
  · have hpath := F.path
    rw [List.filter_append, List.map_append, A.paths]
    split_ifs at hpath with hp
    · obtain ⟨hnone, heq⟩ := hpath
      simp [hp, hnone, heq]
    · simp [hp, hpath]

/-- An accepted list has one `:method`, one `:path` and no byte that ends a line. -/
lemma h2HeadersToRequest_accepted {extended hs req protocol} (h : h2HeadersToRequest extended hs = some (req, protocol)) :
    ∃ st, Accepted hs st ∧ st.method = some req.method ∧ st.path = some req.path := by
  obtain ⟨st, hfold, h⟩ := Option.bind_eq_some_iff.mp h
  have A : Accepted ([] ++ hs) st :=
    Lib.foldlM_inv Accepted (fun A h => A.step h) _ ⟨by simp, by simp, rfl, rfl⟩ hfold
  dsimp only at h
  split_ifs at h
  split at h
  · next method path hm hp =>
    cases h
    exact ⟨st, A, hm, hp⟩
  · cases h

/-! ## The synthesized request -/

def fieldLine (f : Str × Str) : Str := f.1 ++ lit [':',' '] ++ f.2

def isKept (authority : Str) (f : Str × Str) : Bool :=
  !isPseudo f.1 && f.1 != cookieName && (authority == [] || f.1 != hostName)

def cookies (hs : List (Str × Str)) : List Str := (hs.filter (·.1 == cookieName)).map Prod.snd

/-- The fields a request over HTTP/1 has for the fields `hs` over HTTP/2: the host of a non-empty `:authority`,
the regular fields in order, without a host that it overrides, and the cookies in one field. -/
def h1Fields (hs : List (Str × Str)) : List (Str × Str) :=
  (if lastValue authorityName hs = [] then [] else [(hostName, lastValue authorityName hs)]) ++
    hs.filter (isKept (lastValue authorityName hs)) ++
    (if cookies hs = [] then [] else [(cookieName, List.intercalate (lit [';',' ']) (cookies hs))])

def h1RequestLine (hs : List (Str × Str)) : Str :=
  lastValue methodName hs ++ lit [' '] ++ lastValue pathName hs ++ lit [' ','H','T','T','P','/','1','.','1']

lemma put_eq_some {cap o s o'} (h : put cap o s = some o') : o' = o ++ s := by
  unfold put at h
  split_ifs at h
  exact (Option.some.inj h).symm

lemma synthField_fold {cap authority o o'} {hs : List (Str × Str)}
    (h : hs.foldlM (synthField cap authority) o = some o') :
    o' = o ++ ((hs.filter (isKept authority)).map fieldLine).flatMap (· ++ crlf) := by
  have hinv := Lib.foldlM_inv
    (fun done s => s = o ++ ((done.filter (isKept authority)).map fieldLine).flatMap (· ++ crlf)) ?_ [] (by simp) h
  · simpa using hinv
  · rintro done s f s' rfl hstep
    unfold synthField at hstep
    split_ifs at hstep with hpseudo hcookie hhost
    · cases hstep
      simp [isKept, hpseudo]
    · cases hstep
      simp [isKept, hcookie]
    · cases hstep
      simp [isKept, hhost]
    · simp only [Option.bind_eq_bind, Option.bind_eq_some_iff] at hstep
      obtain ⟨o₁, h₁, o₂, h₂, o₃, h₃, h₄⟩ := hstep
      have hkept : isKept authority f = true := by
        simp only [isKept, Bool.and_eq_true, Bool.or_eq_true, Bool.not_eq_true', beq_iff_eq, bne_iff_ne]
        refine ⟨⟨by simpa using hpseudo, hcookie⟩, ?_⟩
        by_cases ha : authority = []
        · exact .inl ha
        · exact .inr fun hh => hhost ⟨ha, hh⟩
      rw [put_eq_some h₄, put_eq_some h₃, put_eq_some h₂, put_eq_some h₁]
      simp [hkept, fieldLine]

lemma intercalate_cons (sep c : Str) (cs : List Str) : List.intercalate sep (c :: cs) = c ++ cs.flatMap (sep ++ ·) := by
  induction cs generalizing c with
  | nil => simp [List.intercalate]
  | cons d cs ih =>
    rw [List.flatMap_cons, List.append_assoc, ← ih d]
    simp [List.intercalate]

lemma synthCookie_fold {cap} {o o' : Str} {cookieOpen hs}
    (h : hs.foldlM (synthCookie cap) (o, false) = some (o', cookieOpen)) : (cookieOpen = false ↔ cookies hs = []) ∧
    o' = o ++ if cookies hs = [] then [] else fieldLine (cookieName, List.intercalate (lit [';',' ']) (cookies hs)) := by
  have hinv := Lib.foldlM_inv (s := (o, false))
    (fun done s => (s.2 = false ↔ cookies done = []) ∧ s.1 = o ++ if cookies done = [] then []
      else fieldLine (cookieName, List.intercalate (lit [';',' ']) (cookies done))) ?_ [] (by simp [cookies]) h
  · simpa using hinv
  · rintro done ⟨s, b⟩ f s' ⟨hopen, hs⟩ hstep
    dsimp only at hopen hs hstep
    rcases ite_eq_iff.mp hstep with ⟨hname, hstep⟩ | ⟨hname, hstep⟩
    · cases hstep
      have hsame : cookies (done ++ [f]) = cookies done := by simp [cookies, hname]
      rw [hsame]
      exact ⟨hopen, hs⟩
    · simp only [Option.bind_eq_bind, Option.bind_eq_some_iff, Option.some.injEq] at hstep
      obtain ⟨o₁, h₁, o₂, h₂, rfl⟩ := hstep
      have hmore : cookies (done ++ [f]) = cookies done ++ [f.2] := by simp [cookies, not_not.mp hname]
      have ho₂ := put_eq_some h₂
      rw [put_eq_some h₁, hs] at ho₂
      rw [hmore, ho₂]
      refine ⟨by simp, ?_⟩
      cases hc : cookies done with
      | nil =>
        have hb : b = false := hopen.mpr hc
        simp [hb, fieldLine, List.intercalate]
      | cons c cs =>
        have hb : b = true := by
          by_contra hb
          rw [hopen.mp (by simpa using hb)] at hc
          cases hc
        rw [hb, if_neg (by simp), if_pos rfl, if_neg (by simp), List.cons_append, intercalate_cons, intercalate_cons]
        simp [fieldLine]

lemma h2SynthH1Request_eq {hs cap out} (h : h2SynthH1Request hs cap = some out) :
    lastValue methodName hs ≠ [] ∧ lastValue pathName hs ≠ [] ∧
    out = (h1RequestLine hs :: (h1Fields hs).map fieldLine).flatMap (· ++ crlf) ++ crlf := by
  rcases ite_eq_iff.mp h with ⟨-, h⟩ | ⟨hne, h⟩
  · cases h
  · push Not at hne
    refine ⟨hne.1, hne.2, ?_⟩
    simp only [Option.bind_eq_bind, Option.bind_eq_some_iff] at h
    obtain ⟨o₁, h₁, o₂, h₂, o₃, h₃, o₄, h₄, o₅, h₅, o₆, h₆, ⟨o₇, b⟩, h₇, o₈, h₈, h₉⟩ := h
    rw [synthHost] at h₅
    rw [synthCookieEnd] at h₈
    obtain ⟨hopen, ho₇⟩ := synthCookie_fold h₇
    have ho₄ : o₄ = h1RequestLine hs ++ crlf := by
      rw [put_eq_some h₄, put_eq_some h₃, put_eq_some h₂, put_eq_some h₁]
      simp [h1RequestLine, crlf, lit]
    have ho₅ : o₅ = o₄ ++ (if lastValue authorityName hs = [] then []
        else [fieldLine (hostName, lastValue authorityName hs)]).flatMap (· ++ crlf) := by
      split_ifs at h₅ ⊢
      · cases h₅
        simp
      · simp only [Option.bind_eq_bind, Option.bind_eq_some_iff] at h₅
        obtain ⟨p₁, k₁, p₂, k₂, k₃⟩ := h₅
        rw [put_eq_some k₃, put_eq_some k₂, put_eq_some k₁]
        simp [fieldLine]
    have ho₈ : o₈ = o₆ ++ (if cookies hs = [] then []
        else [fieldLine (cookieName, List.intercalate (lit [';',' ']) (cookies hs))]).flatMap (· ++ crlf) := by
      by_cases hc : cookies hs = []
      · rw [hopen.mpr hc] at h₈
        cases h₈
        simp [ho₇, hc]
      · have hb : b = true := by
          by_contra hb
          exact hc (hopen.mp (by simpa using hb))
        rw [hb, if_pos rfl] at h₈
        rw [put_eq_some h₈, ho₇]
        simp [hc]
    rw [put_eq_some h₉, ho₈, synthField_fold h₆, ho₅, ho₄, h1Fields]
    split_ifs <;> simp

lemma lastValue_eq (name : Str) (hs : List (Str × Str)) :
    lastValue name hs = ((hs.filter (·.1 == name)).map Prod.snd).getLastD [] := by
  have hfold : ∀ d : Str, hs.foldl (fun v f => if f.1 = name then f.2 else v) d =
      ((hs.filter (·.1 == name)).map Prod.snd).getLastD d := by
    induction hs with
    | nil => exact fun d => rfl
    | cons f hs ih =>
      intro d
      rw [List.foldl_cons, ih]
      by_cases hf : f.1 = name
      · rw [if_pos hf, List.filter_cons_of_pos (by simpa using hf), List.map_cons, List.getLastD_cons]
      · rw [if_neg hf, List.filter_cons_of_neg (by simpa using hf)]
  exact hfold []

def LineFree (s : Str) : Prop := ch '\r' ∉ s ∧ ch '\n' ∉ s

lemma LineFree.append {s t} (hs : LineFree s) (ht : LineFree t) : LineFree (s ++ t) := by
  simp only [LineFree, List.mem_append, not_or]
  exact ⟨⟨hs.1, ht.1⟩, hs.2, ht.2⟩

lemma lineFree_of_value {v} (h : h2ValueOk v = true) : LineFree v := by
  rw [h2ValueOk, List.all_eq_true] at h
  exact ⟨fun hm => absurd (h _ hm) (by decide), fun hm => absurd (h _ hm) (by decide)⟩

lemma lineFree_of_name {n} (h : h2NameOk n = true) : LineFree n ∧ ch ':' ∉ n := by
  rw [h2NameOk, Bool.and_eq_true, List.all_eq_true] at h
  exact ⟨⟨fun hm => absurd (h.2 _ hm) (by decide), fun hm => absurd (h.2 _ hm) (by decide)⟩,
    fun hm => absurd (h.2 _ hm) (by decide)⟩

section synthesis

variable {hs : List (Str × Str)} {st : RequestFields}

lemma Accepted.lastValue_lineFree (A : Accepted hs st) (name : Str) : LineFree (lastValue name hs) := by
  rw [lastValue_eq]
  cases hl : (hs.filter (·.1 == name)).map Prod.snd with
  | nil => exact ⟨by simp, by simp⟩
  | cons v vs =>
    have hmem : (v :: vs).getLastD [] ∈ (hs.filter (·.1 == name)).map Prod.snd := by
      rw [hl, List.getLastD_eq_getLast?, List.getLast?_eq_getLast_of_ne_nil (by simp)]
      exact List.getLast_mem _
    obtain ⟨f, hf, hv⟩ := List.mem_map.mp hmem
    rw [← hv]
    exact lineFree_of_value (A.values f (List.mem_filter.mp hf).1)

lemma Accepted.cookies_lineFree (A : Accepted hs st) : LineFree (List.intercalate (lit [';',' ']) (cookies hs)) := by
  have hall : ∀ c ∈ cookies hs, LineFree c := by
    intro c hc
    obtain ⟨f, hf, rfl⟩ := List.mem_map.mp hc
    exact lineFree_of_value (A.values f (List.mem_filter.mp hf).1)
  cases hc : cookies hs with
  | nil => exact ⟨by decide, by decide⟩
  | cons c cs =>
    rw [hc] at hall
    rw [intercalate_cons]
    refine (hall c (by simp)).append ?_
    have hsep : LineFree (lit [';',' ']) := ⟨by decide, by decide⟩
    constructor
    · intro hm
      obtain ⟨d, hd, hm⟩ := List.mem_flatMap.mp hm
      exact (hsep.append (hall d (by simp [hd]))).1 hm
    · intro hm
      obtain ⟨d, hd, hm⟩ := List.mem_flatMap.mp hm
      exact (hsep.append (hall d (by simp [hd]))).2 hm

lemma Accepted.h1Fields_lineFree (A : Accepted hs st) {f} (hf : f ∈ h1Fields hs) :
    LineFree f.1 ∧ ch ':' ∉ f.1 ∧ LineFree f.2 := by
  rw [h1Fields, List.mem_append, List.mem_append] at hf
  rcases hf with (hf | hf) | hf
  · split_ifs at hf
    · cases hf
    · have hhost : LineFree hostName ∧ ch ':' ∉ hostName := ⟨⟨by decide, by decide⟩, by decide⟩
      rw [List.mem_singleton.mp hf]
      exact ⟨hhost.1, hhost.2, A.lastValue_lineFree _⟩
  · obtain ⟨hmem, hkept⟩ := List.mem_filter.mp hf
    simp only [isKept, Bool.and_eq_true, Bool.not_eq_true'] at hkept
    obtain ⟨hname, hcolon⟩ := lineFree_of_name (A.names f hmem hkept.1.1)
    exact ⟨hname, hcolon, lineFree_of_value (A.values f hmem)⟩
  · split_ifs at hf
    · cases hf
    · have hcookie : LineFree cookieName ∧ ch ':' ∉ cookieName := ⟨⟨by decide, by decide⟩, by decide⟩
      rw [List.mem_singleton.mp hf]
      exact ⟨hcookie.1, hcookie.2, A.cookies_lineFree⟩

lemma Accepted.fieldLine_lineFree (A : Accepted hs st) {f} (hf : f ∈ h1Fields hs) : LineFree (fieldLine f) := by
  obtain ⟨hname, -, hvalue⟩ := A.h1Fields_lineFree hf
  exact (hname.append ⟨by decide, by decide⟩).append hvalue

lemma Accepted.h1RequestLine_lineFree (A : Accepted hs st) : LineFree (h1RequestLine hs) :=
  (((A.lastValue_lineFree _).append ⟨by decide, by decide⟩).append (A.lastValue_lineFree _)).append
    ⟨by decide, by decide⟩

lemma Accepted.line_lineFree (A : Accepted hs st) :
    ∀ l ∈ h1RequestLine hs :: (h1Fields hs).map fieldLine, l ≠ [] ∧ ch '\r' ∉ l ∧ ch '\n' ∉ l := by
  intro l hl
  rcases List.mem_cons.mp hl with rfl | hl
  · exact ⟨by simp [h1RequestLine, lit], A.h1RequestLine_lineFree⟩
  · obtain ⟨f, hf, rfl⟩ := List.mem_map.mp hl
    exact ⟨by simp [fieldLine, lit], A.fieldLine_lineFree hf⟩

lemma fieldOfLine_fieldLine {f} (hcolon : ch ':' ∉ f.1) : fieldOfLine (fieldLine f) = ⟨f.1, trimOws f.2⟩ := by
  have hname : ∀ b ∈ f.1, (b != ch ':') = true := by
    intro b hb
    rw [bne_iff_ne]
    rintro rfl
    exact hcolon hb
  have hows : isOws (ch ' ') = true := by decide
  rw [fieldOfLine, fieldLine, List.append_assoc, List.takeWhile_append_of_pos hname,
    List.dropWhile_append_of_pos hname]
  simp [lit, trimOws, hows]

lemma h2MethodFromStr_bytes {v m} (h : h2MethodFromStr v = some m) : v ++ lit [' '] = m.bytes := by
  unfold h2MethodFromStr at h
  repeat
    obtain ⟨rfl, ⟨⟩⟩ | ⟨-, h⟩ := ite_eq_iff.mp h
    · rfl
  cases h

/-- The method and the path behind `h1RequestLine` are those of the pseudo-headers. -/
lemma Accepted.pseudo {m p} (A : Accepted hs st) (hm : st.method = some m) (hp : st.path = some p) :
    (∃ v, hs.filter (·.1 == methodName) = [(methodName, v)] ∧ h2MethodFromStr v = some m ∧
      lastValue methodName hs = v) ∧ hs.filter (·.1 == pathName) = [(pathName, p)] ∧ lastValue pathName hs = p := by
  have hmeth := A.methods
  have hpath := A.paths
  rw [hm] at hmeth
  rw [hp] at hpath
  obtain ⟨⟨n, v⟩, hfilter, hv⟩ := List.map_eq_singleton_iff.mp hmeth
  obtain ⟨⟨n', p'⟩, hfilter', hp'⟩ := List.map_eq_singleton_iff.mp hpath
  have hn : n = methodName := by
    have hmem : (n, v) ∈ hs.filter (·.1 == methodName) := by rw [hfilter]; simp
    simpa using (List.mem_filter.mp hmem).2
  have hn' : n' = pathName := by
    have hmem : (n', p') ∈ hs.filter (·.1 == pathName) := by rw [hfilter']; simp
    simpa using (List.mem_filter.mp hmem).2
  cases hn
  cases hn'
  cases hp'
  refine ⟨⟨v, hfilter, hv, ?_⟩, hfilter', ?_⟩
  · rw [lastValue_eq, hfilter]
    rfl
  · rw [lastValue_eq, hfilter']
    rfl

end synthesis

lemma lines_eq {ls : List Str} (hls : ∀ l ∈ ls, l ≠ [] ∧ ch '\r' ∉ l) {l : RequestLine} {ps : List HeaderParts}
    {t rest : Str} (h : ls.flatMap (· ++ crlf) ++ (crlf ++ t) =
      l.bytes ++ ps.flatMap HeaderParts.bytes ++ ch '\r' :: ch '\n' :: rest) :
    ls = l.line :: ps.map HeaderParts.line ∧ rest = t := by
  have hcr : ∀ x ∈ l.line :: ps.map HeaderParts.line, x ≠ [] ∧ ch '\r' ∉ x := by
    intro x hx
    rcases List.mem_cons.mp hx with rfl | hx
    · exact ⟨by simp [RequestLine.line], l.line_not_mem_cr⟩
    · obtain ⟨p, -, rfl⟩ := List.mem_map.mp hx
      exact ⟨p.line_ne, p.not_mem_cr⟩
  rw [head_lines] at h
  have hlines : ls = l.line :: ps.map HeaderParts.line := by
    have hsplit := congrArg (fun s => (crlfLines s).takeWhile (· != [])) h
    rw [show crlf = [ch '\r', ch '\n'] from rfl, crlfLines_lines fun x hx => (hls x hx).2,
      crlfLines_lines fun x hx => (hcr x hx).2, List.takeWhile_append_of_pos fun x hx => by simpa using (hls x hx).1,
      List.takeWhile_append_of_pos fun x hx => by simpa using (hcr x hx).1, List.cons_append, List.singleton_append]
      at hsplit
    have hempty : ∀ t : Str, crlfLines (ch '\r' :: ch '\n' :: t) = [] :: crlfLines t := fun t => by simp [crlfLines]
    rw [hempty, hempty] at hsplit
    simpa using hsplit
  refine ⟨hlines, ?_⟩
  rw [← hlines] at h
  have hrest := List.append_cancel_left h
  simpa [crlf, lit] using hrest.symm

/-- No request splitting: the request written for accepted fields has one empty line, at its end, and what the
HTTP/1 parser reads in it is the method, the path and the fields of the list, and nothing behind them. -/
theorem h2SynthH1Request_exact {extended : Bool} {hs : List (Str × Str)} {req : ParsedRequest}
    {protocol : Option Str} {cap : Nat} {out : Str} (haccept : h2HeadersToRequest extended hs = some (req, protocol))
    (hsynth : h2SynthH1Request hs cap = some out) :
    (∃ lines : List Str, (∀ l ∈ lines, l ≠ [] ∧ ch '\r' ∉ l ∧ ch '\n' ∉ l) ∧
      out = lines.flatMap (· ++ crlf) ++ crlf) ∧
    ∀ req₁ n, parse out = .complete req₁ n →
      n = out.length ∧
      (∃ v, hs.filter (·.1 == methodName) = [(methodName, v)] ∧ h2MethodFromStr v = some req₁.method) ∧
      hs.filter (·.1 == pathName) = [(pathName, req₁.path)] ∧
      req₁.headers.map Http.Header.field = (h1Fields hs).map fun f => ⟨f.1, trimOws f.2⟩ := by
  obtain ⟨st, A, hm, hp⟩ := h2HeadersToRequest_accepted haccept
  obtain ⟨-, -, hout⟩ := h2SynthH1Request_eq hsynth
  obtain ⟨⟨v, hmethod, hv, hlastm⟩, hpath, hlastp⟩ := A.pseudo hm hp
  have hlines := A.line_lineFree
  refine ⟨⟨_, hlines, hout⟩, ?_⟩
  intro req₁ n hparse
  obtain ⟨l, ps, rest, hbuf, hn, hmeth₁, hpath₁, -, hheaders⟩ := parse_complete_head hparse
  obtain ⟨heq, rfl⟩ := lines_eq (t := []) (fun x hx => ⟨(hlines x hx).1, (hlines x hx).2.1⟩) (by
    rw [List.append_nil, ← hout]
    exact hbuf)
  obtain ⟨hline, hfields⟩ := List.cons.inj heq
  -- Both request lines start with a method and end with the nine bytes behind the target.
  rw [h1RequestLine, hlastm, hlastp, h2MethodFromStr_bytes hv, RequestLine.line, List.append_assoc,
    List.append_assoc] at hline
  have hmreq : req.method = l.method ∧
      req.path ++ lit [' ','H','T','T','P','/','1','.','1'] = l.target ++ ch ' ' :: l.version.bytes.take 8 := by
    have hdone := parseMethodDirect_append req.method (req.path ++ lit [' ','H','T','T','P','/','1','.','1'])
    rw [hline, parseMethodDirect_append] at hdone
    obtain ⟨h₁, h₂⟩ := Incremental.Read.done.inj hdone
    exact ⟨h₁.symm, h₂.symm⟩
  have hpreq : req.path = l.target := by
    refine (List.append_inj' hmreq.2 ?_).1
    cases l.version <;> rfl
  refine ⟨by simpa using hn, ⟨v, hmethod, ?_⟩, ?_, ?_⟩
  · rw [hv, hmeth₁, hmreq.1]
  · rw [hpath, hpath₁, hpreq]
  · calc req₁.headers.map Http.Header.field
        = ps.map fun p => fieldOfLine p.line := by
          rw [hheaders, List.map_map]
          exact List.map_congr_left fun p _ => (fieldOfLine_line p).symm
      _ = ((h1Fields hs).map fieldLine).map fieldOfLine := by rw [hfields, List.map_map]; rfl
      _ = (h1Fields hs).map fun f => ⟨f.1, trimOws f.2⟩ := by
          rw [List.map_map]
          exact List.map_congr_left fun f hf => fieldOfLine_fieldLine (A.h1Fields_lineFree hf).2.1

def cookieFields : List (Str × Str) :=
  getFields (lit ['/']) ++ [(authorityName, lit ['a']), (cookieName, lit ['b','=','1']), (hostName, lit ['h']),
    (teName, trailersValue), (cookieName, lit ['c',' '])]

theorem cookieFields_exact :
    ∃ out req n, h2SynthH1Request cookieFields 100 = some out ∧ parse out = .complete req n ∧ n = out.length ∧
      req.headers.map Http.Header.field =
        [⟨hostName, lit ['a']⟩, ⟨teName, trailersValue⟩, ⟨cookieName, lit ['b','=','1',';',' ','c']⟩] := by
  have haccept : (h2HeadersToRequest false cookieFields).isSome := by decide +kernel
  have hsynth : (h2SynthH1Request cookieFields 100).isSome := by decide +kernel
  obtain ⟨⟨req, protocol⟩, haccept⟩ := Option.isSome_iff_exists.mp haccept
  obtain ⟨out, hsynth⟩ := Option.isSome_iff_exists.mp hsynth
  have hend : (h2SynthH1Request cookieFields 100).bind (fun out => (parse out).headEnd) = some 58 := by decide +kernel
  rw [hsynth, Option.bind_some] at hend
  cases hparse : parse out with
  | incomplete =>
    rw [hparse] at hend
    cases hend
  | error =>
    rw [hparse] at hend
    cases hend
  | complete req₁ n =>
    obtain ⟨hn, -, -, hfields⟩ := (h2SynthH1Request_exact haccept hsynth).2 req₁ n hparse
    exact ⟨out, req₁, n, hsynth, hparse, hn, hfields.trans (by decide)⟩

end Rut.Http2
