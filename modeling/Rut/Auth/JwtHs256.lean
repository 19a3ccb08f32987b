import Rut.Auth.JwtClaims
import Rut.Http.Grammar

/-!
# Issuing tokens

Port of `src/runtime/jwt_hs256.cc`, without the checks that its buffers do not overlap, and what the verification makes
of the tokens it issues.
-/

set_option linter.all false
namespace Rut.Auth

open Lib Json
open Http (decimalValue)

def kMaxJwtHs256PayloadBytes : Nat := 8192

def kMaxJwtHs256TokenBytes : Nat := 11004

def kMaxJwtHs256KeyBytes : Nat := 4096

/-- The loop of `valid_claim_string`. Each turn shortens the input, so that its length bounds the turns. -/
def claimLoop : Nat → Str → Bool
  | _, [] => true
  | 0, _ => false
  | turns + 1, s =>
    match scalar s with
    | none => false
    | some (cp, rest) => if cp ≤ 0x1f ∨ cp = 0x7f then false else claimLoop turns rest

def validClaimString (value : Str) : Bool := value.length ≠ 0 && value.length ≤ kMaxBytes && claimLoop value.length value

/-- The digits `append_positive_integer` puts. -/
def decimalText (n : Nat) : Str := (Nat.digits 10 n).reverse.map fun d => UInt8.ofNat ((ch '0').toNat + d)

def appendPositiveInteger (w : Writer) (value : Int) : Option Writer :=
  if value ≤ 0 then none else (w.puts (decimalText value.toNat)).done

def urlChar (c : UInt8) : UInt8 := if c = ch '+' then ch '-' else if c = ch '/' then ch '_' else c

def base64urlEncode (input : Str) (capacity : Nat) : Option Str :=
  (base64EncodeV1 input capacity).map fun encoded => (encoded.map urlChar).rdropWhile (· == ch '=')

structure Issue where
  key : Str
  subject : Str
  issuer : Str
  audience : Str
  tokenId : Option Str
  scope : Option Str
  unixSeconds : Int
  ttlSeconds : Int
deriving DecidableEq

def optionalClaim (name : Str) (value : Option Str) (w : Writer) : Option Writer :=
  match value with
  | none => some w
  | some value => quote value (w.text name)

def subPrefix : Str := lit ['\x7b','"','s','u','b','"',':']
def issPrefix : Str := lit [',','"','i','s','s','"',':']
def audPrefix : Str := lit [',','"','a','u','d','"',':']
def jtiPrefix : Str := lit [',','"','j','t','i','"',':']
def scopePrefix : Str := lit [',','"','s','c','o','p','e','"',':']
def iatPrefix : Str := lit [',','"','i','a','t','"',':']
def expPrefix : Str := lit [',','"','e','x','p','"',':']

def kHeader : Str :=
  lit ['e','y','J','h','b','G','c','i','O','i','J','I','U','z','I','1','N','i','I','s','I','n','R',
    '5','c','C','I','6','I','k','p','X','V','C','J','9']

namespace Issue

def checked (i : Issue) : Bool :=
  !(i.key.length < 32) && !(i.key.length > kMaxJwtHs256KeyBytes) && validClaimString i.subject &&
    validClaimString i.issuer && validClaimString i.audience && i.tokenId.all validClaimString &&
    i.scope.all jwtScopeListValid && !(i.unixSeconds ≤ 0) && !(i.ttlSeconds ≤ 0) && !(i.ttlSeconds > 86400) &&
    !(i.unixSeconds > 0x7fffffffffffffff - i.ttlSeconds)

def claims (i : Issue) : Option Writer :=
  (quote i.subject ((Writer.fresh kMaxJwtHs256PayloadBytes).text subPrefix)).bind fun w =>
  (quote i.issuer (w.text issPrefix)).bind fun w =>
  (quote i.audience (w.text audPrefix)).bind fun w =>
  (optionalClaim jtiPrefix i.tokenId w).bind fun w =>
  (optionalClaim scopePrefix i.scope w).bind fun w =>
  (appendPositiveInteger (w.text iatPrefix) i.unixSeconds).bind fun w =>
  (appendPositiveInteger (w.text expPrefix) (i.unixSeconds + i.ttlSeconds)).bind fun w => (w.put (ch '\x7d')).done

/-- `issue`, with a buffer of `capacity` bytes. -/
def issue (crypto : Crypto) (i : Issue) (capacity : Nat) : Option Str :=
  if !i.checked then none
  else
    match i.claims with
    | none => none
    | some claims =>
      if claims.out.length = 0 then none
      else
      match base64urlEncode claims.out ((kMaxJwtHs256PayloadBytes + 2) / 3 * 4 + 1) with
      | none => none
      | some encodedPayload =>
        if capacity = 0 then none
        else if kHeader.length + 1 + encodedPayload.length + 1 + 43 > min capacity kMaxJwtHs256TokenBytes then none
        else
          match crypto.digestPartsV1 .sha256 [kHeader, lit ['.'], encodedPayload] (some i.key) 32 with
          | none => none
          | some mac =>
            if mac.length ≠ 32 then none
            else
              match base64urlEncode mac 45 with
              | none => none
              | some encodedMac =>
                if encodedMac.length ≠ 43 then none
                else some (kHeader ++ lit ['.'] ++ encodedPayload ++ lit ['.'] ++ encodedMac)

end Issue

def jwtHs256Issue (crypto : Crypto) (key subject issuer audience : Str) (unixSeconds ttlSeconds : Int) (capacity : Nat) :
    Option Str :=
  Issue.issue crypto ⟨key, subject, issuer, audience, none, none, unixSeconds, ttlSeconds⟩ capacity

def jwtHs256IssueWithId (crypto : Crypto) (key subject issuer audience tokenId : Str) (unixSeconds ttlSeconds : Int)
    (capacity : Nat) : Option Str :=
  Issue.issue crypto ⟨key, subject, issuer, audience, some tokenId, none, unixSeconds, ttlSeconds⟩ capacity

def jwtHs256IssueWithIdAndScope (crypto : Crypto) (key subject issuer audience tokenId scope : Str)
    (unixSeconds ttlSeconds : Int) (capacity : Nat) : Option Str :=
  Issue.issue crypto ⟨key, subject, issuer, audience, some tokenId, some scope, unixSeconds, ttlSeconds⟩ capacity

/-! ## Encodings -/

lemma urlChar_char : ∀ d < 64, urlChar (base64.char d) = base64url.char d ∧ base64url.char d ≠ ch '=' := by decide +kernel

lemma base64urlEncode_of_some {input output capacity} (h : base64urlEncode input capacity = some output) :
    output = base64url.encode input := by
  obtain ⟨encoded, hencoded, rfl⟩ := Option.map_eq_some_iff.1 h
  obtain rfl := base64EncodeV1_of_some hencoded
  have hdigits := base64Digits_lt input
  have hmap : (base64.encode input).map urlChar = base64url.encode input := by
    rw [Alphabet.encode, Alphabet.encode, List.map_map]
    exact List.map_congr_left fun d hd => (urlChar_char d (hdigits d hd)).1
  have hpad : ∀ k, (List.replicate k (61 : UInt8)).map urlChar = List.replicate k (ch '=') := by
    intro k
    rw [List.map_replicate]
    rfl
  rw [Alphabet.padded, List.map_append, hmap, Alphabet.padding, hpad]
  generalize (3 - input.length % 3) % 3 = k
  -- no digit is the character of the padding
  have hlast : (base64url.encode input).rdropWhile (· == ch '=') = base64url.encode input := by
    apply List.rdropWhile_eq_self_iff.2
    intro hne
    have hmem := List.getLast_mem hne
    generalize (base64url.encode input).getLast hne = c at hmem
    obtain ⟨d, hd, rfl⟩ := List.mem_map.1 hmem
    simpa using (urlChar_char d (hdigits d hd)).2
  induction k with
  | zero => rw [List.replicate_zero, List.append_nil, hlast]
  | succ k ih =>
    rw [List.replicate_succ', ← List.append_assoc, List.rdropWhile_concat]
    simpa using ih

/-! ## Numbers -/

lemma decimalValue_cons (acc : Nat) (c : UInt8) (s : Str) :
    decimalValue acc (c :: s) = decimalValue (10 * acc + (c.toNat - (ch '0').toNat)) s := by
  conv_lhs => unfold decimalValue

lemma isDigit_byte {d} (h : d < 10) : Json.isDigit (UInt8.ofNat ((ch '0').toNat + d)) = true := by
  interval_cases d <;> decide

lemma decimalValue_decimalText (n : Nat) : decimalValue 0 (decimalText n) = n := by
  rw [decimalText, List.map_reverse, Http.decimalValue_digits fun d hd => Nat.digits_lt_base (by omega) hd,
    Nat.ofDigits_digits]

lemma decimalText_digits (n : Nat) : ∀ c ∈ decimalText n, Json.isDigit c = true := by
  intro c hc
  obtain ⟨d, hd, rfl⟩ := List.mem_map.1 hc
  exact isDigit_byte (Nat.digits_lt_base (by omega) (List.mem_reverse.1 hd))

lemma decimalText_number {n} (h : 0 < n) : NumberText (decimalText n) := by
  refine ⟨[], decimalText n, [], [], by simp, .inl rfl, .inr ?_, .inl rfl, .inl rfl⟩
  have hne : Nat.digits 10 n ≠ [] := Nat.digits_ne_nil_iff_ne_zero.2 (by omega)
  have hlast := Nat.getLast_digit_ne_zero 10 (m := n) (by omega)
  have hlt := Nat.digits_lt_base (b := 10) (by omega) (List.getLast_mem hne)
  have hsplit : decimalText n = UInt8.ofNat ((ch '0').toNat + (Nat.digits 10 n).getLast hne) ::
      ((Nat.digits 10 n).dropLast.reverse.map fun d => UInt8.ofNat ((ch '0').toNat + d)) := by
    rw [decimalText]
    conv_lhs => rw [← List.dropLast_append_getLast hne]
    rw [List.reverse_append, List.map_append]
    rfl
  have hfirst : ∀ d < 10, d ≠ 0 → ch '1' ≤ UInt8.ofNat ((ch '0').toNat + d) ∧ UInt8.ofNat ((ch '0').toNat + d) ≤ ch '9' := by
    decide
  refine ⟨_, _, hsplit, (hfirst _ hlt hlast).1, (hfirst _ hlt hlast).2, ?_⟩
  intro c hc
  apply decimalText_digits n
  rw [hsplit]
  exact List.mem_cons_of_mem _ hc

lemma integerLoop_eq {limit n s} (hs : ∀ c ∈ s, Json.isDigit c = true) (h : decimalValue n s ≤ limit) :
    integerLoop limit n s = some (decimalValue n s) := by
  induction s generalizing n with
  | nil => rfl
  | cons c s ih =>
    have hdigit := hs c List.mem_cons_self
    rw [Json.isDigit, Bool.and_eq_true, decide_eq_true_eq, decide_eq_true_eq] at hdigit
    have hge := Http.decimalValue_ge s (10 * n + (c.toNat - (ch '0').toNat))
    rw [decimalValue_cons] at h ⊢
    rw [integerLoop, if_neg, if_neg (by omega), Nat.mul_comm n 10]
    · exact ih (fun x hx => hs x (List.mem_cons_of_mem _ hx)) h
    · rw [not_or, UInt8.not_lt, UInt8.not_lt]
      exact hdigit

lemma integer_decimalText {n} (hpos : 0 < n) (hle : n ≤ 2 ^ 63 - 1) : integer (decimalText n) = some (n : Int) := by
  have hdigits := decimalText_digits n
  have hvalue := decimalValue_decimalText n
  have hne : decimalText n ≠ [] := by
    intro h
    rw [h] at hvalue
    change 0 = n at hvalue
    omega
  have hloop := @integerLoop_eq (2 ^ 63 - 1) 0 _ hdigits (by rw [hvalue]; exact hle)
  rw [hvalue] at hloop
  have hminus : take (ch '-') (decimalText n) = none := by
    cases htake : take (ch '-') (decimalText n) with
    | none => rfl
    | some rest =>
      have hmem : ch '-' ∈ decimalText n := by
        rw [take_eq_some.1 htake]
        exact List.mem_cons_self
      have hbad : Json.isDigit (ch '-') = false := by decide
      rw [hdigits _ hmem] at hbad
      cases hbad
  rw [integer, hminus]
  rw [if_neg hne, hloop]
  rfl

/-! ## The payload -/

def objectOf : List (Str × Shape) → Forest (Option Str)
  | [] => .nil
  | (name, shape) :: ms => .cons (some (none, name)) none shape .nil (objectOf ms)

def Writable : Shape → Prop
  | .number lexeme => NumberText lexeme
  | .string content => WellFormed content
  | .array | .object => False
  | _ => True

section object
variable {ms : List (Str × Shape)}

lemma members_objectOf (ms : List (Str × Shape)) : members (objectOf ms) = ms := by
  induction ms with
  | nil => rfl
  | cons m ms ih =>
    rw [objectOf, members, ih]
    rfl

lemma objectOf_printable (h : ∀ m ∈ ms, WellFormed m.1 ∧ Writable m.2) : (objectOf ms).Printable true := by
  induction ms with
  | nil => trivial
  | cons m ms ih =>
    obtain ⟨name, shape⟩ := m
    obtain ⟨hname, hshape⟩ := h _ List.mem_cons_self
    refine ⟨⟨rfl, ?_⟩, ?_, ih fun m hm => h m (List.mem_cons_of_mem _ hm)⟩
    · rintro n ⟨⟩
      exact hname
    · cases shape with
      | number lexeme => exact ⟨hshape, rfl⟩
      | string content => exact ⟨hshape, rfl⟩
      | array => cases hshape
      | object => cases hshape
      | null => rfl
      | boolean b => rfl

lemma objectOf_texts (ms : List (Str × Shape)) :
    (objectOf ms).texts = ms.map fun m => stringText m.1 ++ ch ':' :: m.2.text [] := by
  induction ms with
  | nil => rfl
  | cons m ms ih =>
    rw [objectOf, Forest.texts, ih, List.map_cons]
    simp [memberText, Forest.texts]

variable {ρ σ : Type}

lemma members_map (g : ρ → σ) (f : Forest ρ) : members (f.map g) = members f := by
  induction f with
  | nil => rfl
  | cons name mark shape children next _ ihn =>
    rw [Forest.map, members, members, ihn]
    cases name <;> rfl

lemma names_map (g : ρ → σ) (f : Forest ρ) : (f.map g).names = f.names := by
  rw [← members_names, ← members_names, members_map]

lemma height_map (g : ρ → σ) (f : Forest ρ) : (f.map g).height = f.height := by
  induction f with
  | nil => rfl
  | cons name mark shape children next ihc ihn => rw [Forest.map, Forest.height, Forest.height, ihc, ihn]

lemma distinct_map (g : ρ → σ) (f : Forest ρ) : (f.map g).Distinct ↔ f.Distinct := by
  induction f with
  | nil => rfl
  | cons name mark shape children next ihc ihn =>
    rw [Forest.map, Forest.Distinct, Forest.Distinct, ihc, ihn, names_map]
    cases name <;> rfl

lemma objectOf_limits (hnodup : (ms.map Prod.fst).Nodup) :
    (objectOf ms).size = 2 * ms.length ∧ (objectOf ms).height ≤ 1 ∧ (objectOf ms).Distinct := by
  induction ms with
  | nil => exact ⟨rfl, Nat.zero_le _, trivial⟩
  | cons m ms ih =>
    rw [List.map_cons, List.nodup_cons] at hnodup
    obtain ⟨hsize, hheight, hdistinct⟩ := ih hnodup.2
    refine ⟨?_, ?_, ?_, trivial, hdistinct⟩
    · rw [objectOf, Forest.size, hsize, List.length_cons, Forest.size]
      simp only [Option.toList_some, List.length_singleton]
      omega
    · rw [objectOf, Forest.height, Forest.height]
      omega
    · rintro n ⟨⟩
      rw [← members_names, members_objectOf]
      exact hnodup.1

lemma objectText_objectOf (h : ∀ m ∈ ms, WellFormed m.1 ∧ Writable m.2) (hnodup : (ms.map Prod.fst).Nodup)
    (hcount : ms.length ≤ 1000) {text} (htext : text = Value.text ⟨none, .object, objectOf ms⟩)
    (hbytes : text.length ≤ kMaxBytes) : ∃ f, ObjectText text f ∧ members f = ms := by
  have hprintable : (⟨none, .object, objectOf ms⟩ : Value (Option Str)).Printable := objectOf_printable h
  obtain ⟨tree, htree, hmap⟩ := hprintable.denotes.parseTree
  rw [← htext] at htree
  obtain ⟨mark, shape, f⟩ := tree
  simp only [Value.map, Value.mk.injEq, true_and] at hmap
  obtain ⟨rfl, hmap⟩ := hmap
  obtain ⟨hsize, hheight, hdistinct⟩ := objectOf_limits hnodup
  have hsize' := congrArg Forest.size hmap
  rw [Forest.size_map, Forest.size_map] at hsize'
  have hheight' := congrArg Forest.height hmap
  rw [height_map, height_map] at hheight'
  refine ⟨f, ⟨mark, htree, ?_⟩, ?_⟩
  · refine ⟨hbytes, ?_, ?_, ?_⟩
    · rw [hheight']
      exact hheight.trans (by decide)
    · rw [Value.size, kMaxNodes]
      simp only [hsize', hsize]
      omega
    · have hdistinct' := congrArg Forest.Distinct hmap
      rw [eq_iff_iff, distinct_map, distinct_map] at hdistinct'
      exact hdistinct'.2 hdistinct
  · have hmembers := congrArg members hmap
    rwa [members_map, members_map, members_objectOf] at hmembers

end object

lemma claimLoop_wellFormed {turns s} (h : claimLoop turns s = true) : WellFormed s := by
  induction turns generalizing s with
  | zero =>
    cases s with
    | nil => exact ⟨[], .nil⟩
    | cons => cases h
  | succ turns ih =>
    cases s with
    | nil => exact ⟨[], .nil⟩
    | cons c s =>
      rw [claimLoop] at h
      · cases hscalar : scalar (c :: s) with
        | none =>
          rw [hscalar] at h
          cases h
        | some r =>
          obtain ⟨cp, rest⟩ := r
          rw [hscalar] at h
          dsimp only at h
          split_ifs at h
          obtain ⟨hcp, hs⟩ := scalar_iff.1 hscalar
          obtain ⟨cps, hcps⟩ := ih h
          rw [hs]
          exact ⟨cp :: cps, .cons hcp hcps⟩
      · simp

lemma validClaimString_spec {value} (h : validClaimString value = true) : value ≠ [] ∧ WellFormed value := by
  simp only [validClaimString, Bool.and_eq_true, decide_eq_true_eq] at h
  exact ⟨fun hnil => h.1.1 (by rw [hnil]; rfl), claimLoop_wellFormed h.2⟩

lemma scope_wellFormed {scope} (h : jwtScopeListValid scope = true) : WellFormed scope := by
  have hbytes := scope_bytes [] (by
    rw [← scopeTokens_eq]
    exact (jwtScopeListValid_iff.1 h).2)
  apply ascii_of (p := fun c => c == ch ' ' || isScopeTokenByte c) (by decide +kernel)
  intro c hc
  simpa using hbytes c hc

lemma tokenBytes_wellFormed {s : Str} (h : s.all isScopeTokenByte = true) : WellFormed s :=
  ascii_of (by decide +kernel) (List.all_eq_true.1 h)

lemma quote_wellFormed {s} (h : WellFormed s) (w : Writer) : quote s w = w.emit (stringText s) := by
  obtain ⟨cps, hcps⟩ := h
  rw [quote_utf8 hcps, stringText_utf8 hcps]

namespace Issue

variable {i : Issue} {crypto : Crypto}

structure Checked (i : Issue) : Prop where
  key : 32 ≤ i.key.length ∧ i.key.length ≤ 4096
  subject : i.subject ≠ [] ∧ WellFormed i.subject
  issuer : i.issuer ≠ [] ∧ WellFormed i.issuer
  audience : i.audience ≠ [] ∧ WellFormed i.audience
  tokenId : ∀ t ∈ i.tokenId, WellFormed t
  scope : ∀ s ∈ i.scope, jwtScopeListValid s = true
  issued : 0 < i.unixSeconds
  ttl : 0 < i.ttlSeconds
  expires : i.unixSeconds + i.ttlSeconds ≤ 0x7fffffffffffffff

lemma checked_spec (h : i.checked = true) : i.Checked := by
  simp only [checked, Bool.and_eq_true, Bool.not_eq_true', decide_eq_false_iff_not, not_lt, not_le,
    gt_iff_lt, kMaxJwtHs256KeyBytes] at h
  obtain ⟨⟨⟨⟨⟨⟨⟨⟨⟨⟨hmin, hmax⟩, hsubject⟩, hissuer⟩, haudience⟩, hid⟩, hscope⟩, hissued⟩, httl⟩, -⟩, hexpires⟩ := h
  refine ⟨⟨hmin, hmax⟩, validClaimString_spec hsubject, validClaimString_spec hissuer, validClaimString_spec haudience,
    ?_, ?_, hissued, httl, by omega⟩
  · rintro t ht
    rw [ht] at hid
    exact (validClaimString_spec hid).2
  · rintro s hs
    rw [hs] at hscope
    exact hscope

def members (i : Issue) : List (Str × Shape) :=
  [(lit ['s','u','b'], Shape.string i.subject), (lit ['i','s','s'], Shape.string i.issuer),
    (lit ['a','u','d'], Shape.string i.audience)] ++
    (i.tokenId.map fun t => (lit ['j','t','i'], Shape.string t)).toList ++
    (i.scope.map fun s => (lit ['s','c','o','p','e'], Shape.string s)).toList ++
    [(lit ['i','a','t'], Shape.number (decimalText i.unixSeconds.toNat)),
      (lit ['e','x','p'], Shape.number (decimalText (i.unixSeconds + i.ttlSeconds).toNat))]

def claimNames : List (List Char) :=
  [['s','u','b'], ['i','s','s'], ['a','u','d'], ['j','t','i'], ['s','c','o','p','e'], ['i','a','t'],
    ['e','x','p']]

lemma prefixes : subPrefix = opening true :: (stringText (lit ['s','u','b']) ++ [ch ':']) ∧
    issPrefix = ch ',' :: (stringText (lit ['i','s','s']) ++ [ch ':']) ∧
    audPrefix = ch ',' :: (stringText (lit ['a','u','d']) ++ [ch ':']) ∧
    jtiPrefix = ch ',' :: (stringText (lit ['j','t','i']) ++ [ch ':']) ∧
    scopePrefix = ch ',' :: (stringText (lit ['s','c','o','p','e']) ++ [ch ':']) ∧
    iatPrefix = ch ',' :: (stringText (lit ['i','a','t']) ++ [ch ':']) ∧
    expPrefix = ch ',' :: (stringText (lit ['e','x','p']) ++ [ch ':']) := by decide

lemma claims_text (h : i.Checked) {w} (hw : i.claims = some w) :
    w.out = Value.text ⟨none, .object, objectOf i.members⟩ ∧ w.out.length ≤ kMaxBytes := by
  have hissued := h.issued
  have hexpires : ¬ i.unixSeconds + i.ttlSeconds ≤ 0 := by
    have := h.ttl
    omega
  have hid := h.tokenId
  have hscope : ∀ s ∈ i.scope, WellFormed s := fun s hs => scope_wellFormed (h.scope s hs)
  have htext : (Writer.fresh kMaxJwtHs256PayloadBytes).emit (Value.text ⟨none, .object, objectOf i.members⟩) = some w := by
    rw [← hw, claims]
    obtain ⟨hsub, hiss, haud, hjti, hsco, hiat, hexp⟩ := prefixes
    simp only [quote_wellFormed h.subject.2, quote_wellFormed h.issuer.2, quote_wellFormed h.audience.2, Writer.emit_text,
      appendPositiveInteger, if_neg hexpires, if_neg (not_le.2 hissued), Writer.done_eq, Writer.emit_puts, Writer.emit_put]
    -- the two optional members are there or not
    cases htoken : i.tokenId <;> cases hscopes : i.scope <;>
      simp [optionalClaim, Value.text, Shape.text, objectOf_texts, members, htoken, hscopes, commas, hsub, hiss, haud, hjti,
        hsco, hiat, hexp, closing, ch, quote_wellFormed, hid, hscope, -Char.reduceToNat]
  obtain ⟨hfits, hout, -⟩ := Writer.emit_eq_some htext
  simp only [Writer.fresh_out, List.nil_append, List.length_nil, Nat.zero_add, Writer.fresh_cap] at hfits hout
  refine ⟨hout, ?_⟩
  rw [hout]
  exact hfits.trans (by decide)

lemma members_lookup (i : Issue) : i.members.lookup (lit ['s','u','b']) = some (.string i.subject) ∧
    i.members.lookup (lit ['i','s','s']) = some (.string i.issuer) ∧
    i.members.lookup (lit ['a','u','d']) = some (.string i.audience) ∧
    i.members.lookup (lit ['j','t','i']) = i.tokenId.map .string ∧
    i.members.lookup (lit ['s','c','o','p','e']) = i.scope.map .string ∧
    i.members.lookup (lit ['i','a','t']) = some (.number (decimalText i.unixSeconds.toNat)) ∧
    i.members.lookup (lit ['e','x','p']) = some (.number (decimalText (i.unixSeconds + i.ttlSeconds).toNat)) ∧
    i.members.lookup (lit ['n','b','f']) = none := by
  rw [members]
  cases i.tokenId <;> cases i.scope <;> exact ⟨rfl, rfl, rfl, rfl, rfl, rfl, rfl, rfl⟩

lemma members_names (i : Issue) : (i.members.map Prod.fst).Nodup := by
  have hall : (claimNames.map lit).Nodup := by decide
  refine hall.sublist ?_
  rw [members]
  cases i.tokenId <;> cases i.scope <;> simp [claimNames]

lemma members_writable (h : i.Checked) : ∀ m ∈ i.members, WellFormed m.1 ∧ Writable m.2 := by
  have hall : ∀ name ∈ claimNames.map lit, name.all isScopeTokenByte = true := by decide
  have hascii : ∀ name ∈ claimNames.map lit, WellFormed name := fun name hname => tokenBytes_wellFormed (hall name hname)
  have hissued := h.issued
  have httl := h.ttl
  simp only [claimNames, List.map_cons, List.map_nil, List.mem_cons, List.not_mem_nil, or_false, forall_eq_or_imp,
    forall_eq] at hascii
  obtain ⟨hsub, hiss, haud, hjti, hscope, hiat, hexp⟩ := hascii
  intro m hm
  simp only [members, List.mem_append, List.mem_cons, List.not_mem_nil, or_false, Option.mem_toList,
    Option.map_eq_some_iff] at hm
  rcases hm with (((rfl | rfl | rfl) | ⟨t, ht, rfl⟩) | ⟨s, hs, rfl⟩) | rfl | rfl
  · exact ⟨hsub, h.subject.2⟩
  · exact ⟨hiss, h.issuer.2⟩
  · exact ⟨haud, h.audience.2⟩
  · exact ⟨hjti, h.tokenId t ht⟩
  · exact ⟨hscope, scope_wellFormed (h.scope s hs)⟩
  · exact ⟨hiat, decimalText_number (by omega)⟩
  · exact ⟨hexp, decimalText_number (by omega)⟩

lemma claims_object (h : i.Checked) {w} (hw : i.claims = some w) :
    ∃ f, ObjectText w.out f ∧ Auth.members f = i.members := by
  obtain ⟨htext, hbytes⟩ := claims_text h hw
  have hcount : i.members.length ≤ 1000 := by
    rw [members]
    cases i.tokenId <;> cases i.scope <;> simp
  exact objectText_objectOf (members_writable h) (members_names i) hcount htext hbytes

lemma claims_valid (h : i.Checked) {payload f} (hobject : ObjectText payload f)
    (hmembers : Auth.members f = i.members) (d : Document) (issuer audience : Str) (t : Int) :
    jwtClaimsValid d payload issuer audience t = true ↔
      issuer = i.issuer ∧ audience = i.audience ∧ i.unixSeconds ≤ t ∧ t < i.unixSeconds + i.ttlSeconds := by
  obtain ⟨hsub, hiss, haud, -, -, hiat, hexp, hnbf⟩ := members_lookup i
  rw [← hmembers] at hsub hiss haud hiat hexp hnbf
  obtain ⟨sub, hsub, -, hsubject⟩ := member_string (d := d) hobject hsub
  obtain ⟨iss, hiss, -, hissuer⟩ := member_string (d := d) hobject hiss
  obtain ⟨aud, haud, hkind, haudience⟩ := member_string (d := d) hobject haud
  obtain ⟨iat, hiat, hissued⟩ := date_member (d := d) hobject hiat
  obtain ⟨exp, hexp, hexpires⟩ := date_member (d := d) hobject hexp
  have hnone := member_lookup (d := d) hobject (lit ['n','b','f'])
  rw [hnbf] at hnone
  obtain ⟨hok, hroot⟩ := (parse_object (d := d)).2 ⟨f, hobject⟩
  have hpos := h.issued
  have httl := h.ttl
  have hbound := h.expires
  rw [integer_decimalText (by omega) (by omega), Int.toNat_of_nonneg (by omega)] at hissued hexpires
  have hchecks : jwtClaimsValid d payload issuer audience t = true ↔
      (issuer ≠ [] ∧ audience ≠ [] ∧ 0 < t) ∧
        i.issuer = issuer ∧ i.audience = audience ∧ t < i.unixSeconds + i.ttlSeconds ∧ i.unixSeconds ≤ t := by
    rw [jwtClaimsValid]
    simp [hok, hroot, hsub, hsubject, hiss, hissuer, haud, haudience, hkind, hiat, hissued, hexp, hexpires, hnone,
      audienceMatches, stringMatches, h.subject.1]
  rw [hchecks]
  constructor
  · rintro ⟨-, rfl, rfl, hbefore, hafter⟩
    exact ⟨rfl, rfl, hafter, hbefore⟩
  · rintro ⟨rfl, rfl, hafter, hbefore⟩
    exact ⟨⟨h.issuer.1, h.audience.1, by omega⟩, rfl, rfl, hbefore, hafter⟩

lemma has_scope (h : i.Checked) {payload f} (hobject : ObjectText payload f)
    (hmembers : Auth.members f = i.members) (d : Document) (required : Str) :
    jwtHasScope d payload required = true ↔ ∃ scope ∈ i.scope, required ∈ scopeTokens scope := by
  obtain ⟨-, -, -, -, hlookup, -⟩ := members_lookup i
  rw [← hmembers] at hlookup
  obtain ⟨hok, hroot⟩ := (parse_object (d := d)).2 ⟨f, hobject⟩
  have hscope := h.scope
  cases hs : i.scope with
  | none =>
    rw [hs, Option.map_none] at hlookup
    have hnone := member_lookup (d := d) hobject (lit ['s','c','o','p','e'])
    rw [hlookup] at hnone
    simp [jwtHasScope, hok, hroot, hnone]
  | some scope =>
    rw [hs, Option.map_some] at hlookup
    obtain ⟨k, hk, -, hcontent⟩ := member_string (d := d) hobject hlookup
    obtain ⟨hlength, htokens⟩ := jwtScopeListValid_iff.1 (hscope scope hs)
    -- a token of the list is short and made of the bytes of tokens
    have htoken : required ∈ scopeTokens scope → jwtScopeTokenValid required = true := by
      intro hmem
      have hbytes := List.all_eq_true.1 htokens required hmem
      rw [scopeTokens_eq] at hmem
      have hshort := scopeTokensFrom_length hmem
      rw [List.length_nil, Nat.zero_add] at hshort
      rw [isScopeToken, Bool.and_eq_true, bne_iff_ne] at hbytes
      simp only [jwtScopeTokenValid, Bool.and_eq_true, decide_eq_true_eq]
      exact ⟨⟨fun hlen => hbytes.1 (List.length_eq_zero_iff.1 hlen), hshort.trans hlength⟩, hbytes.2⟩
    have hne : scope ≠ [] := by
      rintro rfl
      cases htokens
    have hchecks : jwtHasScope d payload required = true ↔
        jwtScopeTokenValid required = true ∧ required ∈ scopeTokens scope := by
      rw [jwtHasScope]
      simp [hok, hroot, hk, hcontent, hne, scopeListMatches_eq, hlength, htokens]
    rw [hchecks]
    simpa using htoken

structure Verifies (crypto : Crypto) (i : Issue) (token payload : Str) (f : Forest Span) : Prop where
  decoded : ∀ pin, pin = none ∨ pin = some (lit ['H','S','2','5','6']) → ∀ d : Document,
    ∃ d', jwtDecodeClaims crypto token i.key pin d = some (d', payload)
  object : ObjectText payload f
  subject : (Auth.members f).lookup (lit ['s','u','b']) = some (.string i.subject)
  issuer : (Auth.members f).lookup (lit ['i','s','s']) = some (.string i.issuer)
  audience : (Auth.members f).lookup (lit ['a','u','d']) = some (.string i.audience)
  tokenId : (Auth.members f).lookup (lit ['j','t','i']) = i.tokenId.map .string
  scope : (Auth.members f).lookup (lit ['s','c','o','p','e']) = i.scope.map .string
  valid : ∀ (d : Document) (issuer audience : Str) (t : Int), jwtClaimsValid d payload issuer audience t = true ↔
    issuer = i.issuer ∧ audience = i.audience ∧ i.unixSeconds ≤ t ∧ t < i.unixSeconds + i.ttlSeconds
  scopes : ∀ (d : Document) (required : Str),
    jwtHasScope d payload required = true ↔ ∃ scope ∈ i.scope, required ∈ scopeTokens scope

def header : List (Str × Shape) :=
  [(algName, .string (lit ['H','S','2','5','6'])), (lit ['t','y','p'], .string (lit ['J','W','T']))]

lemma header_encoded : base64url.encode (Value.text ⟨none, .object, objectOf header⟩) = kHeader := by decide

lemma issue_of_some {capacity token} (h : i.issue crypto capacity = some token) :
    i.checked = true ∧ token.length ≤ kMaxJwtHs256TokenBytes ∧ ∃ w, i.claims = some w ∧
      token = kHeader ++ ch '.' :: base64url.encode w.out ++
        ch '.' :: base64url.encode (crypto.hmac .sha256 i.key (kHeader ++ ch '.' :: base64url.encode w.out)) := by
  obtain ⟨hchecked, h⟩ := Option.ite_none_left_eq_some.1 h
  cases hclaims : i.claims with
  | none =>
    rw [hclaims] at h
    cases h
  | some w =>
    rw [hclaims] at h
    obtain ⟨-, h⟩ := Option.ite_none_left_eq_some.1 h
    cases hpayload : base64urlEncode w.out ((kMaxJwtHs256PayloadBytes + 2) / 3 * 4 + 1) with
    | none =>
      rw [hpayload] at h
      cases h
    | some encodedPayload =>
      rw [hpayload] at h
      obtain ⟨-, h⟩ := Option.ite_none_left_eq_some.1 h
      obtain ⟨hroom, h⟩ := Option.ite_none_left_eq_some.1 h
      cases hmac : crypto.digestPartsV1 .sha256 [kHeader, lit ['.'], encodedPayload] (some i.key) 32 with
      | none =>
        rw [hmac] at h
        cases h
      | some mac =>
        rw [hmac] at h
        obtain ⟨-, h⟩ := Option.ite_none_left_eq_some.1 h
        cases hencoded : base64urlEncode mac 45 with
        | none =>
          rw [hencoded] at h
          cases h
        | some encodedMac =>
          rw [hencoded] at h
          obtain ⟨hlength, h⟩ := Option.ite_none_left_eq_some.1 h
          obtain rfl := base64urlEncode_of_some hpayload
          obtain rfl := base64urlEncode_of_some hencoded
          have hdigest := Crypto.digestPartsV1_of_some hmac
          obtain rfl := Option.some.inj h
          refine ⟨by simpa using hchecked, ?_, w, rfl, ?_⟩
          · simp only [List.length_append, lit, List.length_map, List.length_cons, List.length_nil] at hlength ⊢
            omega
          · rw [hdigest]
            simp [lit]

lemma issue_verifies {capacity token} (h : i.issue crypto capacity = some token) :
    ∃ payload f, i.Verifies crypto token payload f := by
  obtain ⟨hchecked, hlength, w, hw, htoken⟩ := issue_of_some h
  have hspec := checked_spec hchecked
  obtain ⟨f, hobject, hmembers⟩ := claims_object hspec hw
  obtain ⟨hsub, hiss, haud, hjti, hscope, -⟩ := members_lookup i
  rw [← hmembers] at hsub hiss haud hjti hscope
  refine ⟨w.out, f, ?_, hobject, hsub, hiss, haud, hjti, hscope, claims_valid hspec hobject hmembers,
    has_scope hspec hobject hmembers⟩
  intro pin hpin d
  have hwritable : ∀ m ∈ header, WellFormed m.1 ∧ Writable m.2 := by
    simp only [header, List.mem_cons, List.not_mem_nil, or_false, forall_eq_or_imp, forall_eq, Writable]
    exact ⟨⟨tokenBytes_wellFormed (by decide), tokenBytes_wellFormed (by decide)⟩,
      tokenBytes_wellFormed (by decide), tokenBytes_wellFormed (by decide)⟩
  obtain ⟨g, hheader, hheaderMembers⟩ := objectText_objectOf hwritable (by decide) (by decide) rfl (by decide)
  have hsigned : SignedToken crypto token i.key pin (Value.text ⟨none, .object, objectOf header⟩) w.out .sha256 := by
    refine ⟨?_, ⟨by decide, g, hheader, ?_⟩, hspec.key.1, f, hobject⟩
    · rw [signingInput, header_encoded]
      exact htoken
    · rw [hheaderMembers]
      refine ⟨?_, ?_, lit ['H','S','2','5','6'], List.mem_cons_self, rfl, ?_⟩
      · intro shape hmem
        have hno : critName ∉ header.map Prod.fst := by decide
        exact hno (List.mem_map_of_mem hmem)
      · intro shape hmem
        have hno : b64Name ∉ header.map Prod.fst := by decide
        exact absurd (List.mem_map_of_mem hmem) hno
      · rcases hpin with rfl | rfl
        · simp
        · simp
  refine ⟨_, hsigned.accepted ?_ ?_ d⟩
  · exact hlength.trans (by decide)
  · exact hspec.key.2.trans_lt (by decide)

end Issue

/-- **Issued tokens verify and mean what was issued.** -/
theorem issued_tokens_verify (crypto : Crypto) (key subject issuer audience tokenId scope : Str)
    (unixSeconds ttlSeconds : Int) (capacity : Nat) (token : Str) :
    (jwtHs256Issue crypto key subject issuer audience unixSeconds ttlSeconds capacity = some token →
      ∃ payload f, Issue.Verifies crypto ⟨key, subject, issuer, audience, none, none, unixSeconds, ttlSeconds⟩
        token payload f) ∧
    (jwtHs256IssueWithId crypto key subject issuer audience tokenId unixSeconds ttlSeconds capacity = some token →
      ∃ payload f, Issue.Verifies crypto ⟨key, subject, issuer, audience, some tokenId, none, unixSeconds, ttlSeconds⟩
        token payload f) ∧
    (jwtHs256IssueWithIdAndScope crypto key subject issuer audience tokenId scope unixSeconds ttlSeconds capacity =
        some token →
      ∃ payload f, Issue.Verifies crypto
        ⟨key, subject, issuer, audience, some tokenId, some scope, unixSeconds, ttlSeconds⟩ token payload f) :=
  ⟨Issue.issue_verifies, Issue.issue_verifies, Issue.issue_verifies⟩

example : (jwtHs256IssueWithIdAndScope zeroCrypto (List.replicate 32 0) (lit ['s']) (lit ['i']) (lit ['a']) (lit ['t'])
    (lit ['r',' ','w']) 10 20 4096).isSome = true := by decide

end Rut.Auth
