import Rut.Http.Grammar
import Rut.RateLimit.Key

/-!
# Identities of a request

The request helpers of `src/jit/runtime_helpers.cc` that look up a header, a cookie or a query parameter, and their
agreement with the scanners of the metering key: the helpers read the parsed request, the scanners the octets of the
head. The scanner of the query does not stop at a `#` in front of the first `?`, the helper does. A target with a
literal `#` is refused before it is metered or handled.
-/

set_option linter.all false
namespace Rut.RateLimit

open Http

/-! ## What a handler sees -/

/-- The loop of `lookup_req_header`; `out` is the value found so far. -/
def lookupReqHeaderLoop (name : Str) (unique : Bool) : Option Str → List Header → Option Str
  | out, [] => out
  | out, h :: hs =>
    if ciEq h.name name then
      if out.isSome then none
      else if !unique then some h.value
      else lookupReqHeaderLoop name unique (some h.value) hs
    else lookupReqHeaderLoop name unique out hs

/-- The request that `parse_cached` shows, if it is complete. -/
def parseCached (buf : Str) : Option ParsedRequest :=
  match parse buf with
  | .complete req _ => some req
  | _ => none

/-- `rut_helper_req_header`. -/
def reqHeader (buf name : Str) : Option Str :=
  (parseCached buf).bind fun req => lookupReqHeaderLoop name (ciEq name authorizationName) none req.headers

/-- The loop of `rut_helper_req_cookie` over the value of a Cookie field. -/
def reqCookieLoop (name : Str) : Nat → Str → Option Str
  | 0, _ => none
  | fuel + 1, p =>
    if p = [] then none
    else
      let key := p.dropWhile fun c => isBlank c || c == ch ';'
      let rest := key.dropWhile fun c => c != ch '=' && c != ch ';'
      let key := trimRight (key.takeWhile fun c => c != ch '=' && c != ch ';')
      if rest.head? ≠ some (ch '=') then reqCookieLoop name fuel (rest.dropWhile (· != ch ';'))
      else if key = name then some (trimRight (rest.tail.takeWhile (· != ch ';')))
      else reqCookieLoop name fuel (rest.tail.dropWhile (· != ch ';'))

/-- `rut_helper_req_cookie`. -/
def reqCookie (buf name : Str) : Option Str :=
  if name = [] then none
  else
    (parseCached buf).bind fun req =>
      (req.headers.filter fun h => ciEq h.name cookieName).findSome? fun h =>
        reqCookieLoop name (h.value.length + 1) h.value

/-- The loop of `rut_helper_req_query`; the text is cut at the fragment. -/
def reqQueryLoop (name : Str) : Nat → Str → Option Str
  | 0, _ => none
  | fuel + 1, query =>
    if query = [] then none
    else
      let query := query.dropWhile (· == ch '&')
      let key := query.takeWhile fun c => c != ch '&' && c != ch '='
      let rest := query.dropWhile fun c => c != ch '&' && c != ch '='
      if rest.head? = some (ch '=') then
        if key = name then some (rest.tail.takeWhile (· != ch '&'))
        else reqQueryLoop name fuel (rest.tail.dropWhile (· != ch '&'))
      else if key = name then some []
      else reqQueryLoop name fuel rest

/-- `rut_helper_req_query`. -/
def reqQuery (buf name : Str) : Option Str :=
  if name = [] then none
  else
    (parseCached buf).bind fun req =>
      let rest := req.path.dropWhile fun c => c != ch '?' && c != ch '#'
      if rest.head? = some (ch '?') then
        let query := rest.tail.takeWhile (· != ch '#')
        reqQueryLoop name (query.length + 1) query
      else none

/-! ## Parameters -/

def pairKey (pair : Str) : Str := pair.takeWhile (· != ch '=')

def lookupPair (name query : Str) : Option Str :=
  ((query.splitOn (ch '&')).find? fun pair => pairKey pair == name).map fun pair => (pair.dropWhile (· != ch '=')).tail

/-- The text between the first `?` of a target and the fragment behind it. -/
def queryText (target : Str) : Str := ((target.dropWhile (· != ch '?')).tail).takeWhile (· != ch '#')

def queryKeys (target : Str) : List Str := ((queryText target).splitOn (ch '&')).map pairKey

/-- The first `?` of the target stands behind a `#`, and the parameter behind that `?`. -/
def InFragment (target name : Str) : Prop :=
  ch '#' ∈ target.takeWhile (· != ch '?') ∧ ch '?' ∈ target ∧ name ∈ queryKeys target

instance (target name : Str) : Decidable (InFragment target name) :=
  inferInstanceAs (Decidable (_ ∧ _ ∧ _))

section cut

variable {p p' : UInt8 → Bool} {w r : Str}

lemma takeWhile_stop (hr : ∀ c, r.head? = some c → p c = false) : (w ++ r).takeWhile p = w.takeWhile p := by
  induction w with
  | nil =>
    cases r with
    | nil => rfl
    | cons c r => simp [hr c rfl]
  | cons c w ih =>
    rw [List.cons_append, List.takeWhile_cons, List.takeWhile_cons, ih]

lemma dropWhile_stop (hr : ∀ c, r.head? = some c → p c = false) : (w ++ r).dropWhile p = w.dropWhile p ++ r := by
  induction w with
  | nil =>
    cases r with
    | nil => rfl
    | cons c r => simp [hr c rfl]
  | cons c w ih =>
    rw [List.cons_append, List.dropWhile_cons, List.dropWhile_cons, ih]
    split_ifs <;> rfl

lemma takeWhile_same (h : ∀ c ∈ w, p c = p' c) : w.takeWhile p = w.takeWhile p' := by
  induction w with
  | nil => rfl
  | cons c w ih =>
    rw [List.takeWhile_cons, List.takeWhile_cons, h c List.mem_cons_self, ih fun d hd => h d (List.mem_cons_of_mem _ hd)]

lemma dropWhile_same (h : ∀ c ∈ w, p c = p' c) : w.dropWhile p = w.dropWhile p' := by
  induction w with
  | nil => rfl
  | cons c w ih =>
    rw [List.dropWhile_cons, List.dropWhile_cons, h c List.mem_cons_self, ih fun d hd => h d (List.mem_cons_of_mem _ hd)]

lemma head_dropWhile (p : UInt8 → Bool) (s : Str) : ∀ c, (s.dropWhile p).head? = some c → p c = false := by
  intro c hc
  have hhead := List.head?_dropWhile_not p s
  simpa [hc] using hhead

lemma drop_takeWhile (p : UInt8 → Bool) (s : Str) : s.drop (s.takeWhile p).length = s.dropWhile p := by
  nth_rewrite 2 [← List.takeWhile_append_dropWhile (p := p) (l := s)]
  exact List.drop_left

end cut

section query

variable {name pair r s : Str} {fuel : Nat}

lemma lookupPair_single (h : ch '&' ∉ pair) :
    lookupPair name pair = if pairKey pair = name then some (pair.dropWhile (· != ch '=')).tail else none := by
  rw [lookupPair, List.splitOn_eq_singleton h]
  by_cases hk : pairKey pair = name <;> simp [hk]

lemma lookupPair_cons (h : ch '&' ∉ pair) : lookupPair name (pair ++ ch '&' :: r) =
      if pairKey pair = name then some (pair.dropWhile (· != ch '=')).tail else lookupPair name r := by
  rw [lookupPair, List.splitOn_append_cons_self_of_not_mem h]
  by_cases hk : pairKey pair = name <;> simp [hk, lookupPair]

lemma lookupPair_nil (hn : name ≠ []) : lookupPair name [] = none := by
  rw [lookupPair_single (by simp), if_neg fun h => hn (by simpa [pairKey] using h.symm)]

lemma lookupPair_skip (hn : name ≠ []) (s : Str) : lookupPair name (ch '&' :: s) = lookupPair name s := by
  have h : lookupPair name ([] ++ ch '&' :: s) = _ := lookupPair_cons List.not_mem_nil
  rwa [List.nil_append, if_neg fun h => hn (by simpa [pairKey] using h.symm)] at h

lemma lookupPair_skips (hn : name ≠ []) (s : Str) : lookupPair name (s.dropWhile (· == ch '&')) = lookupPair name s := by
  induction s with
  | nil => rfl
  | cons c s ih =>
    by_cases hc : c = ch '&'
    · rw [List.dropWhile_cons_of_pos (by simp [hc]), ih, hc, lookupPair_skip hn]
    · rw [List.dropWhile_cons_of_neg (by simpa using hc)]

lemma lookupPair_isSome (name query : Str) :
    (lookupPair name query).isSome = true ↔ name ∈ (query.splitOn (ch '&')).map pairKey := by
  rw [lookupPair, Option.isSome_map, List.find?_isSome, List.mem_map]
  simp

lemma queryParam_pair (hpair : ∀ c ∈ pair, c ≠ ch '&' ∧ c ≠ ch '#') (hr : ∀ c, r.head? = some c → c = ch '&' ∨ c = ch '#')
    (hs : ¬(pair ++ r = [] ∨ (pair ++ r).head? = some (ch '#'))) : queryParam name (fuel + 1) (pair ++ r) =
      if pairKey pair = name then some (pair.dropWhile (· != ch '=')).tail
      else queryParam name fuel (if r.head? = some (ch '&') then r.tail else r) := by
  have hstop : ∀ c, r.head? = some c → (c != ch '=' && c != ch '&' && c != ch '#') = false := by
    intro c hc
    rcases hr c hc with rfl | rfl <;> rfl
  have hstop' : ∀ c, r.head? = some c → (c != ch '&' && c != ch '#') = false := by
    intro c hc
    rcases hr c hc with rfl | rfl <;> rfl
  have hsame : ∀ c ∈ pair, (c != ch '=' && c != ch '&' && c != ch '#') = (c != ch '=') := by
    intro c hc
    obtain ⟨h₁, h₂⟩ := hpair c hc
    simp only [bne_iff_ne.mpr h₁, bne_iff_ne.mpr h₂, Bool.and_true]
  have hkey := (takeWhile_stop hstop).trans (takeWhile_same hsame)
  have hrest : (pair ++ r).dropWhile (fun c => c != ch '=' && c != ch '&' && c != ch '#') =
      pair.dropWhile (· != ch '=') ++ r := by
    rw [dropWhile_stop hstop, dropWhile_same hsame]
  rw [queryParam, if_neg hs]
  simp only [drop_takeWhile, hrest]
  rw [hkey]
  cases hd : pair.dropWhile (· != ch '=') with
  | nil =>
    have hne : ¬r.head? = some (ch '=') := by
      intro h
      rcases hr _ h with h | h <;> cases h
    simp only [List.nil_append, beq_eq_false_iff_ne.mpr hne, Bool.false_eq_true, if_false, List.tail_nil]
    rfl
  | cons c v =>
    -- What the key stops at is the equals sign, and the value ends with the pair.
    have hc : c = ch '=' := by simpa using head_dropWhile (· != ch '=') pair c (by rw [hd]; rfl)
    have hv : v.takeWhile (fun c => c != ch '&' && c != ch '#') = v := by
      apply List.takeWhile_eq_self_iff.mpr
      intro d hd'
      have hmem : d ∈ pair := (List.dropWhile_suffix _).subset (hd ▸ List.mem_cons_of_mem c hd')
      simpa using hpair d hmem
    subst hc
    simp only [List.cons_append, List.head?_cons, beq_self_eq_true, if_true, List.tail_cons, takeWhile_stop hstop', hv,
      List.drop_left]
    rfl

lemma queryParam_eq (hn : name ≠ []) (hfuel : s.length < fuel) :
    queryParam name fuel s = lookupPair name (s.takeWhile (· != ch '#')) := by
  induction fuel generalizing s with
  | zero => omega
  | succ fuel ih =>
    by_cases hs : s = [] ∨ s.head? = some (ch '#')
    · have hcut : s.takeWhile (· != ch '#') = [] := by
        rcases hs with rfl | hs
        · rfl
        · cases s with
          | nil => rfl
          | cons c s =>
            cases hs
            rfl
      rw [queryParam, if_pos hs, hcut, lookupPair_nil hn]
    · obtain ⟨pair, r, rfl, hpair, hr⟩ : ∃ pair r, s = pair ++ r ∧ (∀ c ∈ pair, c ≠ ch '&' ∧ c ≠ ch '#') ∧
          ∀ c, r.head? = some c → c = ch '&' ∨ c = ch '#' := by
        refine ⟨s.takeWhile fun c => c != ch '&' && c != ch '#', s.dropWhile fun c => c != ch '&' && c != ch '#',
          List.takeWhile_append_dropWhile.symm, ?_, ?_⟩
        · intro c hc
          simpa using List.mem_takeWhile_imp hc
        · intro c hc
          have := head_dropWhile _ s c hc
          grind
      have hfree : ch '&' ∉ pair := fun h => (hpair _ h).1 rfl
      rw [queryParam_pair hpair hr hs, List.takeWhile_append_of_pos fun c hc => by simpa using (hpair c hc).2]
      cases r with
      | nil =>
        rw [List.takeWhile_nil, List.append_nil, lookupPair_single hfree]
        have hend : queryParam name fuel [] = none := by cases fuel <;> simp [queryParam]
        simp only [List.head?_nil, reduceCtorEq, if_false, hend]
      | cons c r =>
        rcases hr c rfl with rfl | rfl
        · rw [List.head?_cons, if_pos rfl, List.tail_cons, List.takeWhile_cons_of_pos (by decide), lookupPair_cons hfree,
            ih (by simp at hfuel; omega)]
        · have hne : 0 < pair.length := by
            apply List.length_pos_of_ne_nil
            rintro rfl
            exact hs (.inr rfl)
          have hno : ¬(ch '#' :: r).head? = some (ch '&') := by rintro ⟨⟩
          rw [if_neg hno, List.takeWhile_cons_of_neg (by decide),
            List.append_nil, lookupPair_single hfree, ih (by simp at hfuel ⊢; omega), List.takeWhile_cons_of_neg (by decide),
            lookupPair_nil hn]

lemma reqQueryLoop_pair (hs : s ≠ []) (hpair : ch '&' ∉ pair) (hr : ∀ c, r.head? = some c → c = ch '&')
    (hsplit : s.dropWhile (· == ch '&') = pair ++ r) : reqQueryLoop name (fuel + 1) s =
      if pairKey pair = name then some (pair.dropWhile (· != ch '=')).tail else reqQueryLoop name fuel r := by
  have hstop : ∀ c, r.head? = some c → (c != ch '&' && c != ch '=') = false := by
    intro c hc
    rw [hr c hc]
    rfl
  have hstop' : ∀ c, r.head? = some c → (c != ch '&') = false := by
    intro c hc
    rw [hr c hc]
    rfl
  have hsame : ∀ c ∈ pair, (c != ch '&' && c != ch '=') = (c != ch '=') := by
    intro c hc
    have hne : c ≠ ch '&' := fun h => hpair (h ▸ hc)
    simp only [bne_iff_ne.mpr hne, Bool.true_and]
  have hkey : (pair ++ r).takeWhile (fun c => c != ch '&' && c != ch '=') = pairKey pair :=
    (takeWhile_stop hstop).trans (takeWhile_same hsame)
  have hrest : (pair ++ r).dropWhile (fun c => c != ch '&' && c != ch '=') = pair.dropWhile (· != ch '=') ++ r := by
    rw [dropWhile_stop hstop, dropWhile_same hsame]
  rw [reqQueryLoop, if_neg hs]
  simp only [hsplit, hkey, hrest]
  cases hd : pair.dropWhile (· != ch '=') with
  | nil =>
    have hne : ¬r.head? = some (ch '=') := fun h => by cases hr _ h
    rw [List.nil_append, if_neg hne, List.tail_nil]
  | cons c v =>
    have hc : c = ch '=' := by simpa using head_dropWhile (· != ch '=') pair c (by rw [hd]; rfl)
    have hv : ∀ d ∈ v, (d != ch '&') = true := by
      intro d hd'
      have hmem : d ∈ pair := (List.dropWhile_suffix _).subset (hd ▸ List.mem_cons_of_mem c hd')
      exact bne_iff_ne.mpr fun h => hpair (h ▸ hmem)
    subst hc
    rw [List.cons_append, List.head?_cons, if_pos rfl, List.tail_cons, takeWhile_stop hstop',
      List.takeWhile_eq_self_iff.mpr hv, dropWhile_stop hstop', List.dropWhile_eq_nil_iff.mpr hv, List.nil_append,
      List.tail_cons]

lemma reqQueryLoop_eq (hn : name ≠ []) (hfuel : s.length < fuel) : reqQueryLoop name fuel s = lookupPair name s := by
  induction fuel generalizing s with
  | zero => omega
  | succ fuel ih =>
    by_cases hs : s = []
    · rw [reqQueryLoop, if_pos hs, hs, lookupPair_nil hn]
    · obtain ⟨pair, r, hsplit, hpair, hr⟩ : ∃ pair r, s.dropWhile (· == ch '&') = pair ++ r ∧ ch '&' ∉ pair ∧
          ∀ c, r.head? = some c → c = ch '&' := by
        refine ⟨(s.dropWhile (· == ch '&')).takeWhile (· != ch '&'), (s.dropWhile (· == ch '&')).dropWhile (· != ch '&'),
          List.takeWhile_append_dropWhile.symm, ?_, ?_⟩
        · intro h
          simpa using List.mem_takeWhile_imp h
        · intro c hc
          simpa using head_dropWhile _ _ c hc
      have hlen : pair.length + r.length ≤ s.length := by
        rw [← List.length_append, ← hsplit]
        exact (List.dropWhile_suffix _).length_le
      rw [reqQueryLoop_pair hs hpair hr hsplit, ← lookupPair_skips hn, hsplit]
      cases r with
      | nil =>
        have hend : reqQueryLoop name fuel [] = none := by cases fuel <;> simp [reqQueryLoop]
        rw [List.append_nil, lookupPair_single hpair, hend]
      | cons c r =>
        rw [hr c rfl] at hsplit ⊢
        have hshort : (ch '&' :: r).length < fuel := by
          -- The text left starts with a separator, so something was read in front of it.
          have hne : 0 < pair.length := by
            apply List.length_pos_of_ne_nil
            rintro rfl
            have := head_dropWhile (· == ch '&') s (ch '&') (by rw [hsplit]; rfl)
            simp at this
          rw [List.length_cons] at hlen ⊢
          omega
        rw [lookupPair_cons hpair, ih hshort, lookupPair_skip hn]

end query

/-! ## The head -/

section head

variable {fs : List RawField} {name target : Str} {m : HttpMethod} {v : HttpVersion} {q : KeyInput}

lemma method_word (m : HttpMethod) : ∃ w, m.bytes = w ++ [ch ' '] ∧ ∀ c ∈ w, endsWord c = false := by
  refine ⟨m.bytes.dropLast, ?_, ?_⟩
  · cases m <;> rfl
  · have hword : (m.bytes.dropLast.all fun c => !endsWord c) = true := by cases m <;> rfl
    intro c hc
    simpa using List.all_eq_true.mp hword c hc

lemma word_not_mem_cr {w : Str} (h : ∀ c ∈ w, endsWord c = false) : ch '\r' ∉ w := by
  intro hmem
  cases h _ hmem

lemma version_line (v : HttpVersion) : ∃ w, v.bytes = w ++ [ch '\r', ch '\n'] ∧ ch '\r' ∉ w := by
  refine ⟨v.bytes.take 8, ?_⟩
  cases v <;> decide

lemma uri_word {c} (h : tableAt kUriTable c = true) : endsWord c = false := by
  by_contra hend
  simp only [endsWord, Bool.not_eq_false, Bool.or_eq_true, beq_iff_eq] at hend
  rcases hend with (rfl | rfl) | rfl <;> revert h <;> decide

lemma requestTarget_head (hg : RequestGrammar q.head m target v fs) : requestTarget q = some target := by
  obtain ⟨w, hw, hword⟩ := method_word m
  have hhead : q.head = w ++ ch ' ' :: (target ++ ch ' ' :: (v.bytes ++ fs.flatMap RawField.bytes ++ [ch '\r', ch '\n'])) := by
    rw [hg.bytes, headBytes, hw]
    simp
  have hspace : ∀ r : Str, ∀ c, (ch ' ' :: r).head? = some c → (!endsWord c) = false := by
    rintro r c ⟨⟩
    rfl
  have htarget : ∀ c ∈ target, (!endsWord c) = true := fun c hc => by simp [uri_word (hg.target_uri c hc)]
  rw [requestTarget, hhead, dropWhile_stop (hspace _), List.dropWhile_eq_nil_iff.mpr fun c hc => by simp [hword c hc]]
  simp only [List.nil_append, List.head?_cons, if_true, List.tail_cons, takeWhile_stop (hspace _),
    List.takeWhile_eq_self_iff.mpr htarget, List.drop_left]

lemma cutLine_line {w r : Str} (hw : ch '\r' ∉ w) : cutLine (w ++ ch '\r' :: ch '\n' :: r) = (w, r) := by
  induction w with
  | nil => rw [List.nil_append, cutLine, if_pos ⟨rfl, rfl⟩]
  | cons c w ih =>
    have hc : c ≠ ch '\r' := fun h => hw (h ▸ List.mem_cons_self)
    have ih := ih fun h => hw (List.mem_cons_of_mem _ h)
    cases w with
    | nil =>
      rw [List.nil_append] at ih
      rw [List.cons_append, List.nil_append, cutLine, if_neg (by simp [hc]), ih]
    | cons d w =>
      rw [List.cons_append] at ih
      rw [List.cons_append, List.cons_append, cutLine, if_neg (by simp [hc]), ih]

lemma afterLine_eq (s : Str) : afterLine s = (cutLine s).2 := by
  fun_induction afterLine s <;> grind [cutLine]

lemma afterLine_line {w r : Str} (hw : ch '\r' ∉ w) : afterLine (w ++ ch '\r' :: ch '\n' :: r) = r := by
  rw [afterLine_eq, cutLine_line hw]

lemma token_byte {c} (h : tableAt kTokenTable c = true) : (c != ch ':' && c != ch '\r') = true := by
  rw [Bool.and_eq_true, bne_iff_ne, bne_iff_ne]
  constructor <;> rintro rfl <;> revert h <;> decide

lemma raw_not_mem_cr {f : RawField} (h : ∀ b ∈ f.raw, tableAt kHeaderValueTable b = true) : ch '\r' ∉ f.raw := by
  intro hmem
  have := h _ hmem
  revert this
  decide

lemma fieldLines_eq {fuel} (hfuel : fs.length < fuel) (hne : ∀ f ∈ fs, f.name ≠ [])
    (htoken : ∀ f ∈ fs, ∀ b ∈ f.name, tableAt kTokenTable b = true)
    (hraw : ∀ f ∈ fs, ∀ b ∈ f.raw, tableAt kHeaderValueTable b = true) :
    fieldLines fuel (fs.flatMap RawField.bytes ++ [ch '\r', ch '\n']) = fs.map fun f => (f.name, f.raw) := by
  induction fs generalizing fuel with
  | nil =>
    obtain _ | fuel := fuel
    · cases hfuel
    · rw [fieldLines, if_pos (by decide)]
      rfl
  | cons f fs ih =>
    obtain _ | fuel := fuel
    · cases hfuel
    · have htail := ih (by simpa using hfuel) (fun g hg => hne g (List.mem_cons_of_mem _ hg))
        (fun g hg => htoken g (List.mem_cons_of_mem _ hg)) fun g hg => hraw g (List.mem_cons_of_mem _ hg)
      have hname : ∀ b ∈ f.name, (b != ch ':' && b != ch '\r') = true :=
        fun b hb => token_byte (htoken f List.mem_cons_self b hb)
      have hline : ch '\r' ∉ ch ':' :: f.raw := by
        rw [List.mem_cons, not_or]
        exact ⟨by decide, raw_not_mem_cr (hraw f List.mem_cons_self)⟩
      have hs : (f :: fs).flatMap RawField.bytes ++ [ch '\r', ch '\n'] =
          f.name ++ ((ch ':' :: f.raw) ++ ch '\r' :: ch '\n' :: (fs.flatMap RawField.bytes ++ [ch '\r', ch '\n'])) := by
        simp [RawField.bytes]
      rw [hs]
      generalize fs.flatMap RawField.bytes ++ [ch '\r', ch '\n'] = rest at htail
      have hstop : ∀ c, ((ch ':' :: f.raw) ++ ch '\r' :: ch '\n' :: rest).head? = some c →
          (c != ch ':' && c != ch '\r') = false := by
        rintro c ⟨⟩
        rfl
      have hbegin : ¬(f.name ++ ((ch ':' :: f.raw) ++ ch '\r' :: ch '\n' :: rest) = [] ∨
          (lit ['\r','\n']).isPrefixOf (f.name ++ ((ch ':' :: f.raw) ++ ch '\r' :: ch '\n' :: rest))) := by
        obtain ⟨b, w, hw⟩ := List.exists_cons_of_ne_nil (hne f List.mem_cons_self)
        have hb := hname b (hw ▸ List.mem_cons_self)
        rw [Bool.and_eq_true, bne_iff_ne, bne_iff_ne] at hb
        rw [hw]
        simp [lit, List.isPrefixOf, Ne.symm hb.2]
      rw [fieldLines, if_neg hbegin]
      simp only [takeWhile_stop hstop, List.takeWhile_eq_self_iff.mpr hname, List.drop_left, cutLine_line hline]
      rw [List.cons_append, List.head?_cons, if_pos rfl, htail]
      rfl

lemma fields_eq (hg : RequestGrammar q.head m target v fs) : q.fields = fs.map fun f => (f.name, f.raw) := by
  obtain ⟨w, hw, hword⟩ := method_word m
  obtain ⟨w', hw', hcr'⟩ := version_line v
  have hhead : q.head = (w ++ ch ' ' :: (target ++ ch ' ' :: w')) ++
      ch '\r' :: ch '\n' :: (fs.flatMap RawField.bytes ++ [ch '\r', ch '\n']) := by
    rw [hg.bytes, headBytes, hw, hw']
    simp
  have hline : ch '\r' ∉ w ++ ch ' ' :: (target ++ ch ' ' :: w') := by
    have hcr := word_not_mem_cr hword
    have htarget := word_not_mem_cr fun c hc => uri_word (hg.target_uri c hc)
    simp [hcr, hcr', htarget]
  have hlen : ∀ fs : List RawField, fs.length ≤ (fs.flatMap RawField.bytes).length := by
    intro fs
    induction fs with
    | nil => exact le_rfl
    | cons f fs ih =>
      simp only [List.flatMap_cons, List.length_append, List.length_cons, RawField.bytes]
      omega
  rw [KeyInput.fields, hhead, afterLine_line hline]
  apply fieldLines_eq _ hg.name_ne hg.name_token hg.raw_value
  have := hlen fs
  simp only [List.length_append, List.length_cons]
  omega

lemma values_eq (hg : RequestGrammar q.head m target v fs) (name : Str) :
    q.values name = ((fs.map RawField.header).filter fun h => ciEq h.name name).map Header.value := by
  rw [KeyInput.values, fields_eq hg, List.filter_map, List.filter_map, List.map_map, List.map_map]
  rfl

end head

/-! ## Agreement -/

/-- The value of the first field of a name, but none of a second `Authorization`. -/
def firstValue (hs : List Header) (name : Str) : Option Str :=
  if ciEq name authorizationName ∧ 1 < (hs.filter fun h => ciEq h.name name).length then none
  else (hs.find? fun h => ciEq h.name name).map Header.value

section agreement

variable {name target : Str} {hs : List Header}

lemma lookupReqHeaderLoop_some (v : Str) :
    lookupReqHeaderLoop name true (some v) hs = if hs.filter (fun h => ciEq h.name name) = [] then some v else none := by
  induction hs with
  | nil => rfl
  | cons h hs ih =>
    rw [lookupReqHeaderLoop, ih]
    cases hname : ciEq h.name name <;> simp [hname]

lemma lookupReqHeaderLoop_eq (name : Str) (hs : List Header) :
    lookupReqHeaderLoop name (ciEq name authorizationName) none hs = firstValue hs name := by
  induction hs with
  | nil => simp [lookupReqHeaderLoop, firstValue]
  | cons h hs ih =>
    rw [lookupReqHeaderLoop]
    cases hname : ciEq h.name name with
    | false => simpa [firstValue, hname] using ih
    | true =>
      cases hauth : ciEq name authorizationName with
      | false => simp [firstValue, hname, hauth]
      | true =>
        rw [if_pos rfl, Option.isSome_none, if_neg Bool.false_ne_true, if_neg (by simp), lookupReqHeaderLoop_some]
        simp only [firstValue, hauth, List.filter_cons, hname, if_true, List.length_cons, List.find?_cons]
        cases hs.filter fun h => ciEq h.name name <;> simp

lemma headerValue_eq {q} (hv : q.values name = (hs.filter fun h => ciEq h.name name).map Header.value) :
    headerValue q name = firstValue hs name := by
  rw [headerValue, firstValue, hv, ← List.head?_filter]
  generalize hs.filter (fun h => ciEq h.name name) = found
  cases ciEq name authorizationName with
  | false => simp
  | true =>
    rcases found with _ | ⟨h, _ | ⟨g, found⟩⟩ <;> simp

lemma cookiePair_eq (name : Str) (fuel : Nat) (s : Str) : cookiePair name fuel s = reqCookieLoop name fuel s := by
  induction fuel generalizing s with
  | zero => rfl
  | succ fuel ih =>
    simp only [cookiePair, reqCookieLoop, drop_takeWhile, ih, ne_eq, ite_not]

/-- The scanner finds the parameters behind the first `?`. -/
lemma queryValue_eq (hn : name ≠ []) {q} (ht : requestTarget q = some target) :
    queryValue q name = (if ch '?' ∈ target then lookupPair name (queryText target) else none) := by
  rw [queryValue, if_neg hn, ht]
  simp only [Option.bind_some]
  by_cases hmark : ch '?' ∈ target
  · have hne : target.dropWhile (· != ch '?') ≠ [] := by
      rw [ne_eq, List.dropWhile_eq_nil_iff]
      intro h
      simpa using h _ hmark
    have hlen : (target.dropWhile (· != ch '?')).tail.length < (target.dropWhile (· != ch '?')).length + 1 := by
      rw [List.length_tail]
      omega
    rw [if_neg hne, if_pos hmark, queryParam_eq hn hlen]
    rfl
  · have hnil : target.dropWhile (· != ch '?') = [] := by
      rw [List.dropWhile_eq_nil_iff]
      intro c hc
      exact bne_iff_ne.mpr fun h => hmark (h ▸ hc)
    rw [if_pos hnil, if_neg hmark]

/-- The helper finds the same parameters, but none behind a `#`. -/
lemma reqQuery_eq {buf req} (hn : name ≠ []) (hp : parseCached buf = some req) : reqQuery buf name =
      if ch '?' ∈ req.path ∧ ch '#' ∉ req.path.takeWhile (· != ch '?') then lookupPair name (queryText req.path) else none := by
  rw [reqQuery, if_neg hn, hp]
  simp only [Option.bind_some]
  have hsplit := List.takeWhile_append_dropWhile (p := (· != ch '?')) (l := req.path)
  have hhead := head_dropWhile (· != ch '?') req.path
  have hfront : ∀ c ∈ req.path.takeWhile (· != ch '?'), c ≠ ch '?' := fun c hc => by
    simpa using List.mem_takeWhile_imp hc
  have hmark : ch '?' ∈ req.path ↔ req.path.dropWhile (· != ch '?') ≠ [] := by
    simp
  simp only [hmark, queryText]
  generalize req.path.takeWhile (· != ch '?') = w at hsplit hfront ⊢
  generalize req.path.dropWhile (· != ch '?') = s at hsplit hhead ⊢
  have hstop : ∀ c, s.head? = some c → (c != ch '?' && c != ch '#') = false := by
    intro c hc
    have := hhead c hc
    rw [bne_eq_false_iff_eq.mp this]
    rfl
  rw [← hsplit, dropWhile_stop hstop]
  by_cases hhash : ch '#' ∈ w
  · -- The helper stops at the `#`.
    have hne : w.dropWhile (fun c => c != ch '?' && c != ch '#') ≠ [] := by
      rw [ne_eq, List.dropWhile_eq_nil_iff]
      intro h
      cases h _ hhash
    obtain ⟨c, t, hct⟩ := List.exists_cons_of_ne_nil hne
    have hmem : c ∈ w := (List.dropWhile_suffix _).subset (hct ▸ List.mem_cons_self)
    rw [hct, List.cons_append, List.head?_cons, if_neg (by simpa using hfront c hmem), if_neg (by simp [hhash])]
  · have hall : ∀ c ∈ w, (c != ch '?' && c != ch '#') = true := by
      intro c hc
      have h₁ := hfront c hc
      have h₂ : c ≠ ch '#' := fun h => hhash (h ▸ hc)
      simp only [bne_iff_ne.mpr h₁, bne_iff_ne.mpr h₂, Bool.and_true]
    rw [List.dropWhile_eq_nil_iff.mpr hall, List.nil_append]
    cases s with
    | nil => simp
    | cons c s =>
      have hc : c = ch '?' := by simpa using hhead c rfl
      rw [hc, List.head?_cons, if_pos rfl, if_pos ⟨by simp, hhash⟩, List.tail_cons]
      exact reqQueryLoop_eq hn (Nat.lt_succ_self _)

end agreement

def signedRequest : Str :=
  lit ['G','E','T',' ','/','a','?','k','=','v',' ','H','T','T','P','/','1','.','1','\r','\n',
    'C','o','o','k','i','e',':',' ','k','=','w','\r','\n','\r','\n']

def signedTarget : Str := lit ['/','a','?','k','=','v']

def signedParsed : ParsedRequest :=
  { ParsedRequest.start .get (.ofPath signedTarget 2) .http11 with
    headers := [⟨cookieName, lit ['k','=','w'], lit [' ','k','=','w']⟩], transferEncoding := .none }

lemma signedRequest_parse : parse signedRequest = .complete signedParsed 36 := by decide +kernel

/-- A target whose `?` stands behind a `#`. -/
def fragmentRequest : Str :=
  lit ['G','E','T',' ','/','a','#','b','?','k','=','v',' ','H','T','T','P','/','1','.','1','\r','\n',
    '\r','\n']

end Rut.RateLimit
