import Rut.Auth.Jwt

/-!
# The claims of a token

Port of `src/runtime/jwt_claims.cc`, for the checks of the standard claims and of the scope.
-/

namespace Rut.Auth

open Json

/-- `member`: the node of a member of the root. -/
def member (d : Document) (name : Str) : Option Nat := (d.findMember name d.count (d.nodes 0).child).join

def stringMatches (d : Document) (node : Option Nat) (expected : Str) : Bool := node.bind d.content == some expected

def date (d : Document) (node : Option Nat) : Option Int :=
  match node with
  | none => none
  | some node => if (d.nodes node).kind ≠ .number then none else integer (d.raw node)

def isScopeTokenByte (c : UInt8) : Bool := c == 0x21 || (c ≥ 0x23 && c ≤ 0x5b) || (c ≥ 0x5d && c ≤ 0x7e)

/-- The loop of `scope_list_matches` over the bytes behind the token read so far. -/
def scopeLoop (required : Str) : Str → Bool → Str → Option Bool
  | token, found, [] => if token = [] then none else some (found || token == required)
  | token, found, c :: s =>
    if c = ch ' ' then if token = [] then none else scopeLoop required [] (found || token == required) s
    else if !isScopeTokenByte c then none
    else scopeLoop required (token ++ [c]) found s

/-- `scope_list_matches`: whether the token was found, if the list is well formed. -/
def scopeListMatches (scopes required : Str) : Option Bool :=
  if scopes.length = 0 ∨ scopes.length > kMaxBytes then none else scopeLoop required [] false scopes

def audienceLoop (d : Document) (audience : Str) : Nat → Option Nat → Bool → Option Bool
  | _, none, found => some found
  | 0, some _, _ => none
  | turns + 1, some node, found =>
    match d.content node with
    | none => none
    | some value =>
      if value = [] then none else audienceLoop d audience turns (d.nodes node).next (found || value == audience)

def audienceMatches (d : Document) (audience : Str) : Bool :=
  match member d (lit ['a','u','d']) with
  | none => false
  | some node =>
    match (d.nodes node).kind with
    | .string => stringMatches d (some node) audience
    | .array => (audienceLoop d audience d.count (d.nodes node).child false).getD false
    | _ => false

def jwtClaimsValid (d : Document) (claims issuer audience : Str) (unixSeconds : Int) : Bool :=
  if issuer.length = 0 ∨ audience.length = 0 ∨ unixSeconds ≤ 0 then false
  else
    let (d, ok) := d.parse claims
    if !ok || (d.nodes 0).kind ≠ .object then false
    else
      match (member d (lit ['s','u','b'])).bind d.content with
      | none => false
      | some subject =>
        if subject.length = 0 then false
        else if !stringMatches d (member d (lit ['i','s','s'])) issuer then false
        else if !audienceMatches d audience then false
        else
          match date d (member d (lit ['e','x','p'])) with
          | none => false
          | some expires =>
            if expires ≤ unixSeconds then false
            else if (member d (lit ['n','b','f'])).isSome &&
                !((date d (member d (lit ['n','b','f']))).any fun notBefore => notBefore ≤ unixSeconds) then false
            else
              (member d (lit ['i','a','t'])).isNone ||
                (date d (member d (lit ['i','a','t']))).any fun issuedAt => issuedAt ≤ unixSeconds

def jwtScopeTokenValid (token : Str) : Bool :=
  token.length ≠ 0 && token.length ≤ kMaxBytes && token.all isScopeTokenByte

def jwtScopeListValid (scopes : Str) : Bool := (scopeListMatches scopes []).isSome

def jwtHasScope (d : Document) (claims required : Str) : Bool :=
  if !jwtScopeTokenValid required then false
  else
    let (d, ok) := d.parse claims
    if !ok || (d.nodes 0).kind ≠ .object then false
    else
      match (member d (lit ['s','c','o','p','e'])).bind d.content with
      | none => false
      | some decoded => if decoded.length = 0 then false else (scopeListMatches decoded required).getD false

/-! ## Members of a parsed object -/

lemma findMember_lookup {d : Document} {f base turns head} (hd : d.Sane)
    (h : d.Stand true f base head) (hturns : f.length ≤ turns) (name : Str) :
    match (members f).lookup name with
    | none => d.findMember name turns head = some none
    | some shape => ∃ k mark, d.findMember name turns head = some (some k) ∧ d.Shows k mark shape ∧ k < d.count := by
  induction f generalizing base head turns with
  | nil =>
    cases h.holds
    cases turns <;> rfl
  | cons n mark shape children next _ ihn =>
    obtain ⟨m, rfl, hkey⟩ := h.keyName hd
    have hroom := h.room
    obtain ⟨rfl, -, -, hshows, -⟩ := h.holds
    simp only [Option.toList_some, List.length_singleton, Forest.size] at hkey hroom hshows ⊢
    cases turns with
    | zero => cases hturns
    | succ turns =>
      have hnext := ihn h.tail (by simpa [Forest.length] using hturns)
      rw [Document.findMember, hkey, members]
      simp only [Option.map_some, Option.toList_some, List.cons_append, List.nil_append, List.lookup_cons]
      rcases Decidable.em (m.2 = name) with rfl | hne
      · simp only [BEq.rfl, if_true]
        exact ⟨base + 1, mark, rfl, hshows, by omega⟩
      · have hname : (name == m.2) = false := by simpa using fun h => hne h.symm
        simp only [hname, if_neg hne]
        exact hnext

lemma member_lookup {d : Document} {s f} (hobject : ObjectText s f) (name : Str) :
    match (members f).lookup name with
    | none => member (d.parse s).1 name = none
    | some shape => ∃ k mark, member (d.parse s).1 name = some k ∧ (d.parse s).1.Shows k mark shape ∧
        k < (d.parse s).1.count := by
  obtain ⟨hsane, hstand, hturns, -⟩ := hobject.parsed (d := d)
  have hfind := findMember_lookup hsane hstand hturns name
  rw [member]
  cases hlookup : (members f).lookup name with
  | none =>
    rw [hlookup] at hfind
    rw [hfind]
    rfl
  | some shape =>
    rw [hlookup] at hfind
    obtain ⟨k, mark', hk, hshows, hlt⟩ := hfind
    exact ⟨k, mark', by rw [hk]; rfl, hshows, hlt⟩

lemma member_string {d : Document} {s name value f} (hobject : ObjectText s f)
    (h : (members f).lookup name = some (.string value)) :
    ∃ k, member (d.parse s).1 name = some k ∧ ((d.parse s).1.nodes k).kind = .string ∧
      (d.parse s).1.content k = some value := by
  have hlookup := member_lookup (d := d) hobject name
  rw [h] at hlookup
  obtain ⟨k, mark, hk, hshows, hlt⟩ := hlookup
  obtain ⟨mark', htree, hlimits⟩ := hobject
  have hparse := (d.parse_iff s).2 ⟨_, htree, hlimits⟩
  obtain ⟨-, hsane, -⟩ := Document.parse_represents hparse htree
  exact ⟨k, hk, hshows.kind, hshows.content hsane hlt⟩

lemma date_member {d : Document} {s name lexeme f} (hobject : ObjectText s f)
    (h : (members f).lookup name = some (.number lexeme)) :
    ∃ k, member (d.parse s).1 name = some k ∧ date (d.parse s).1 (some k) = integer lexeme := by
  have hlookup := member_lookup (d := d) hobject name
  rw [h] at hlookup
  obtain ⟨k, mark, hk, hshows, -⟩ := hlookup
  refine ⟨k, hk, ?_⟩
  have htext := hshows.text (by simp) (by simp)
  have hraw : (d.parse s).1.raw k = Document.slice (d.parse s).1.source mark := by
    rw [Document.raw, Document.slice, hshows.start, hshows.stop]
  rw [date, if_neg (by rw [hshows.kind]; simp [Shape.kind]), hraw]
  generalize Document.slice (d.parse s).1.source mark = t at htext
  cases htext with
  | number _ => rfl

/-! ## Scopes -/

def scopeTokens (scopes : Str) : List Str := scopes.splitOn (ch ' ')

def scopeTokensFrom : Str → Str → List Str
  | token, [] => [token]
  | token, c :: s => if c = ch ' ' then token :: scopeTokensFrom [] s else scopeTokensFrom (token ++ [c]) s

lemma scopeTokens_eq (scopes : Str) : scopeTokens scopes = scopeTokensFrom [] scopes := by
  have hgo : ∀ (s acc : Str), List.splitOnPPrepend (· == ch ' ') s acc = scopeTokensFrom acc.reverse s := by
    intro s
    induction s with
    | nil =>
      intro acc
      rfl
    | cons c s ih =>
      intro acc
      rw [List.splitOnPPrepend, scopeTokensFrom, ih, ih, List.reverse_cons]
      rcases Decidable.em (c = ch ' ') with h | h <;> simp [h]
  exact hgo scopes []

def isScopeToken (token : Str) : Bool := token != [] && token.all isScopeTokenByte

lemma scopeTokensFrom_bad {c token s} (hc : c ∈ token) (hbad : isScopeTokenByte c = false) :
    (scopeTokensFrom token s).all isScopeToken = false := by
  have htoken : isScopeToken token = false := by
    have hall : token.all isScopeTokenByte = false := List.all_eq_false.2 ⟨c, hc, by simp [hbad]⟩
    rw [isScopeToken, hall, Bool.and_false]
  induction s generalizing token with
  | nil => rw [scopeTokensFrom, List.all_cons, htoken, Bool.false_and]
  | cons d s ih =>
    rw [scopeTokensFrom]
    split_ifs
    · rw [List.all_cons, htoken, Bool.false_and]
    · have hmem : c ∈ token ++ [d] := List.mem_append_left _ hc
      apply ih hmem
      have hall : (token ++ [d]).all isScopeTokenByte = false := List.all_eq_false.2 ⟨c, hmem, by simp [hbad]⟩
      rw [isScopeToken, hall, Bool.and_false]

lemma scopeLoop_eq {required token s found} (htoken : token.all isScopeTokenByte = true) :
    scopeLoop required token found s =
      if (scopeTokensFrom token s).all isScopeToken then some (found || (scopeTokensFrom token s).contains required)
      else none := by
  have hempty : isScopeToken [] = false := rfl
  induction s generalizing token found with
  | nil =>
    rw [scopeLoop, scopeTokensFrom]
    rcases Decidable.em (token = []) with h | h
    · rw [if_pos h, h, List.all_cons, hempty, Bool.false_and, if_neg Bool.false_ne_true]
    · have hok : isScopeToken token = true := by simp [isScopeToken, h, htoken]
      rw [if_neg h, List.all_cons, hok, List.all_nil, Bool.and_true, if_pos rfl, List.contains_cons, List.contains_nil,
        Bool.or_false, BEq.comm]
  | cons c s ih =>
    rw [scopeLoop, scopeTokensFrom]
    rcases Decidable.em (c = ch ' ') with hc | hc
    · rw [if_pos hc, if_pos hc]
      rcases Decidable.em (token = []) with h | h
      · rw [if_pos h, h, List.all_cons, hempty, Bool.false_and, if_neg Bool.false_ne_true]
      · have hok : isScopeToken token = true := by simp [isScopeToken, h, htoken]
        rw [if_neg h, ih rfl, List.all_cons, hok, Bool.true_and, List.contains_cons, Bool.or_assoc, BEq.comm]
    · rw [if_neg hc, if_neg hc]
      rcases Bool.eq_false_or_eq_true (isScopeTokenByte c) with hgood | hbad
      · have hall : (token ++ [c]).all isScopeTokenByte = true := by simp [htoken, hgood]
        simp only [hgood, Bool.not_true, Bool.false_eq_true, if_false]
        exact ih hall
      · have hmem : c ∈ token ++ [c] := by simp
        rw [scopeTokensFrom_bad hmem hbad]
        simp [hbad]

/-- `scope_list_matches` accepts lists of tokens within the bound. -/
lemma scopeListMatches_eq (scopes required : Str) : scopeListMatches scopes required =
      if scopes.length ≤ kMaxBytes ∧ (scopeTokens scopes).all isScopeToken then some ((scopeTokens scopes).contains required)
      else none := by
  rw [scopeListMatches, scopeLoop_eq rfl, ← scopeTokens_eq]
  rcases Decidable.em (scopes = []) with rfl | hne
  · rfl
  · have hlen : scopes.length ≠ 0 := fun h => hne (List.length_eq_zero_iff.1 h)
    rcases Nat.lt_or_ge kMaxBytes scopes.length with hlong | hfits
    · rw [if_pos (.inr hlong), if_neg fun h => by omega]
    · rw [if_neg (by omega)]
      simp [hfits]

lemma jwtScopeListValid_iff {scopes} :
    jwtScopeListValid scopes = true ↔ scopes.length ≤ kMaxBytes ∧ (scopeTokens scopes).all isScopeToken = true := by
  rw [jwtScopeListValid, scopeListMatches_eq]
  split_ifs with h
  · exact iff_of_true rfl h
  · exact iff_of_false (by simp) h

lemma scopeTokensFrom_length {token s t} (h : t ∈ scopeTokensFrom token s) : t.length ≤ token.length + s.length := by
  induction s generalizing token with
  | nil =>
    rw [scopeTokensFrom, List.mem_singleton] at h
    subst h
    exact Nat.le_add_right _ _
  | cons d s ih =>
    rw [scopeTokensFrom] at h
    split_ifs at h
    · rcases List.mem_cons.1 h with rfl | h
      · exact Nat.le_add_right _ _
      · have := ih h
        rw [List.length_nil] at this
        rw [List.length_cons]
        omega
    · have := ih h
      rw [List.length_append, List.length_singleton] at this
      rw [List.length_cons]
      omega

lemma scope_bytes (token : Str) {s} (h : (scopeTokensFrom token s).all isScopeToken = true) :
    ∀ c ∈ s, c = ch ' ' ∨ isScopeTokenByte c = true := by
  induction s generalizing token with
  | nil => simp
  | cons d s ih =>
    intro c hc
    rw [scopeTokensFrom] at h
    rcases Decidable.em (d = ch ' ') with hd | hd
    · rw [if_pos hd, List.all_cons, Bool.and_eq_true] at h
      rcases List.mem_cons.1 hc with rfl | hc
      · exact .inl hd
      · exact ih _ h.2 c hc
    · rw [if_neg hd] at h
      rcases List.mem_cons.1 hc with rfl | hc
      · right
        by_contra hbad
        rw [Bool.not_eq_true] at hbad
        rw [scopeTokensFrom_bad (by simp : c ∈ token ++ [c]) hbad] at h
        cases h
      · exact ih _ h c hc

end Rut.Auth
