import Rut.Lib.Tagged
import Rut.RateLimit.Identity

/-!
# Keys do not alias

The octets that a metering key is hashed from show the values that they were made of. Each value stands behind the octet
of its kind, which is not an octet of a value of a head that the parser takes; only an address may hold it, and an address
has four octets.
-/

namespace Rut.RateLimit

open Http

/-- The octets that `rate_limit_key` feeds to `mix`. -/
def mixed (rateLimitId : Nat) (comps : List KeyComponent) (q : KeyInput) : Str :=
  littleEndian 8 rateLimitId ++
    if comps = [] then littleEndian 4 q.peerAddr else comps.flatMap fun k => k.octets q

/-- The value that a component takes out of a request. The address is none. -/
def KeyComponent.value (k : KeyComponent) (q : KeyInput) : Option Str :=
  match k.kind with
  | .ip => none
  | .header => headerValue q k.name
  | .query => queryValue q k.name
  | .cookie => cookieValue q k.name
  | .param => paramValue q k.name

/-- A request whose head the parser takes, with parameters out of its target. -/
structure MeteredInput (q : KeyInput) : Prop where
  peer : q.peerAddr < 2 ^ 32
  head : ∃ buf req h, parse buf = .complete req h ∧ q.head = buf.take h ∧ ∀ p ∈ q.params, p.value <:+: req.path

/-! ## Octets of values -/

def Plain (s : Str) : Prop := ∀ c ∈ s, ¬ c.toNat ≤ 4

section octets

variable {s v name : Str} {fuel : Nat}

lemma Plain.sublist (h : Plain s) (hv : v.Sublist s) : Plain v := fun c hc => h c (hv.subset hc)

lemma value_plain {c} (h : tableAt kHeaderValueTable c = true) : ¬ c.toNat ≤ 4 := by
  intro hle
  unfold tableAt at h
  interval_cases c.toNat <;> cases h

lemma uri_plain {c} (h : tableAt kUriTable c = true) : ¬ c.toNat ≤ 4 := by
  intro hle
  unfold tableAt at h
  interval_cases c.toNat <;> cases h

lemma cookiePair_sublist (h : cookiePair name fuel s = some v) : v.Sublist s := by
  induction fuel generalizing s with
  | zero => cases h
  | succ fuel ih =>
    simp only [cookiePair, drop_takeWhile] at h
    split at h
    · cases h
    · have hskip := List.dropWhile_sublist (l := s) fun c => isBlank c || c == ch ';'
      generalize s.dropWhile (fun c => isBlank c || c == ch ';') = s₁ at h hskip
      have hkey := (List.dropWhile_sublist (l := s₁) fun c => c != ch '=' && c != ch ';').trans hskip
      generalize s₁.dropWhile (fun c => c != ch '=' && c != ch ';') = s₂ at h hkey
      have htail := (List.tail_sublist s₂).trans hkey
      split at h
      · split at h
        · cases h
          exact (List.rdropWhile_prefix _ _).sublist.trans ((List.takeWhile_sublist _).trans htail)
        · exact (ih h).trans ((List.dropWhile_sublist _).trans htail)
      · exact (ih h).trans ((List.dropWhile_sublist _).trans hkey)

lemma queryParam_sublist (h : queryParam name fuel s = some v) : v.Sublist s := by
  induction fuel generalizing s with
  | zero => cases h
  | succ fuel ih =>
    simp only [queryParam, drop_takeWhile] at h
    split at h
    · cases h
    · have hkey := List.dropWhile_sublist (l := s) fun c => c != ch '=' && c != ch '&' && c != ch '#'
      generalize s.dropWhile (fun c => c != ch '=' && c != ch '&' && c != ch '#') = s₁ at h hkey
      have htail := (List.tail_sublist s₁).trans hkey
      cases hvalue : s₁.head? == some (ch '=') with
      | false =>
        simp only [hvalue, Bool.false_eq_true, if_false] at h
        split at h
        · cases h
          exact List.nil_sublist _
        · split at h
          · exact (ih h).trans htail
          · exact (ih h).trans hkey
      | true =>
        simp only [hvalue, if_true, drop_takeWhile] at h
        have hrest := (List.dropWhile_sublist (l := s₁.tail) fun c => c != ch '&' && c != ch '#').trans htail
        split at h
        · cases h
          exact (List.takeWhile_sublist _).trans htail
        · split at h
          · exact (ih h).trans ((List.tail_sublist _).trans hrest)
          · exact (ih h).trans hrest

end octets

section values

variable {q : KeyInput} {m : HttpMethod} {target name v : Str} {version : HttpVersion} {fs : List RawField}

lemma values_plain (hg : RequestGrammar q.head m target version fs) (hv : v ∈ q.values name) : Plain v := by
  rw [KeyInput.values, fields_eq hg] at hv
  obtain ⟨f, hf, rfl⟩ := List.mem_map.mp hv
  obtain ⟨raw, hraw, rfl⟩ := List.mem_map.mp (List.mem_of_mem_filter hf)
  have hplain : Plain raw.raw := fun c hc => value_plain (hg.raw_value raw hraw c hc)
  exact hplain.sublist ((List.rdropWhile_prefix _ _).sublist.trans (List.dropWhile_sublist _))

lemma headerValue_mem (h : headerValue q name = some v) : v ∈ q.values name := by
  unfold headerValue at h
  split at h
  · split at h
    next w hw =>
      cases h
      rw [hw]
      exact List.mem_singleton_self _
    next => cases h
  · exact List.mem_of_mem_head? h

lemma cookieValue_plain (hg : RequestGrammar q.head m target version fs) (h : cookieValue q name = some v) :
    Plain v := by
  unfold cookieValue at h
  split at h
  · cases h
  · obtain ⟨w, hw, hpair⟩ := List.exists_of_findSome?_eq_some h
    exact (values_plain hg hw).sublist (cookiePair_sublist hpair)

lemma queryValue_plain (hg : RequestGrammar q.head m target version fs) (h : queryValue q name = some v) : Plain v := by
  unfold queryValue at h
  split at h
  · cases h
  · rw [requestTarget_head hg, Option.bind_some] at h
    simp only at h
    split at h
    · cases h
    · have hplain : Plain target := fun c hc => uri_plain (hg.target_uri c hc)
      exact hplain.sublist ((queryParam_sublist h).trans ((List.tail_sublist _).trans (List.dropWhile_sublist _)))

lemma MeteredInput.value_plain (hq : MeteredInput q) (k : KeyComponent) : Plain ((k.value q).getD []) := by
  obtain ⟨buf, req, h, hparse, hhead, hparams⟩ := hq.head
  obtain ⟨fs, hg, -⟩ := grammar_of_parse hparse
  rw [← hhead] at hg
  cases hv : k.value q with
  | none => exact fun c hc => absurd hc List.not_mem_nil
  | some v =>
    unfold KeyComponent.value at hv
    split at hv
    next => cases hv
    next => exact values_plain hg (headerValue_mem hv)
    next => exact queryValue_plain hg hv
    next => exact cookieValue_plain hg hv
    next =>
      obtain ⟨p, hp, rfl⟩ := Option.map_eq_some_iff.mp hv
      have hplain : Plain req.path := fun c hc => uri_plain (hg.target_uri c hc)
      exact hplain.sublist (hparams p (List.mem_of_find?_eq_some hp)).sublist

end values

/-! ## Fields -/

section fields

variable {comps : List KeyComponent} {q q' : KeyInput}

def KeyComponent.field (k : KeyComponent) (q : KeyInput) : Str :=
  if k.kind = .ip then littleEndian 4 q.peerAddr else (k.value q).getD []

lemma octets_eq (k : KeyComponent) (q : KeyInput) : k.octets q = k.kind.code :: k.field q := by
  unfold KeyComponent.octets KeyComponent.field KeyComponent.value
  cases k.kind <;> rfl

lemma littleEndian_length (size n : Nat) : (littleEndian size n).length = size := by
  rw [littleEndian, List.length_map, List.length_range]

lemma littleEndian_inj {a b} (ha : a < 2 ^ 32) (hb : b < 2 ^ 32) (h : littleEndian 4 a = littleEndian 4 b) : a = b := by
  have hdigit : ∀ i < 4, a / 256 ^ i % 256 = b / 256 ^ i % 256 := by
    intro i hi
    have hbyte := List.map_inj_left.mp h i (List.mem_range.mpr hi)
    exact congrArg UInt8.toNat hbyte
  have h0 := hdigit 0 (by decide)
  have h1 := hdigit 1 (by decide)
  have h2 := hdigit 2 (by decide)
  have h3 := hdigit 3 (by decide)
  omega

lemma fields_of_mixed (hq : MeteredInput q) (hq' : MeteredInput q')
    (h : comps.flatMap (fun k => k.octets q) = comps.flatMap fun k => k.octets q') :
    ∀ k ∈ comps, k.field q = k.field q' := by
  apply Rut.Lib.tagged_inj (fun k => k.kind.code) fun c => c.toNat ≤ 4
  · intro k _
    cases k.kind <;> decide
  · intro k _
    by_cases hip : k.kind = .ip
    · left
      rw [KeyComponent.field, KeyComponent.field, if_pos hip, if_pos hip, littleEndian_length, littleEndian_length]
    · right
      rw [KeyComponent.field, KeyComponent.field, if_neg hip, if_neg hip]
      exact ⟨hq.value_plain k, hq'.value_plain k⟩
  · simp only [octets_eq] at h
    exact h

end fields

/-- Requests whose octets are equal have equal values, and equal addresses if the address is a part of the key. -/
theorem keys_apart {rateLimitId : Nat} {comps : List KeyComponent} {q q' : KeyInput} (hq : MeteredInput q) (hq' : MeteredInput q')
    (h : mixed rateLimitId comps q = mixed rateLimitId comps q') :
    (∀ k ∈ comps, (k.value q).getD [] = (k.value q').getD []) ∧
    ((comps = [] ∨ ∃ k ∈ comps, k.kind = .ip) → q.peerAddr = q'.peerAddr) := by
  have hrest := List.append_cancel_left h
  by_cases hnil : comps = []
  · subst hnil
    exact ⟨fun k hk => absurd hk List.not_mem_nil, fun _ => littleEndian_inj hq.peer hq'.peer hrest⟩
  · rw [if_neg hnil, if_neg hnil] at hrest
    have hfields := fields_of_mixed hq hq' hrest
    constructor
    · intro k hk
      have hfield := hfields k hk
      by_cases hip : k.kind = .ip
      · rw [KeyComponent.value, KeyComponent.value, hip]
      · rwa [KeyComponent.field, KeyComponent.field, if_neg hip, if_neg hip] at hfield
    · intro hor
      obtain ⟨k, hk, hip⟩ := hor.resolve_left hnil
      have hfield := hfields k hk
      rw [KeyComponent.field, KeyComponent.field, if_pos hip, if_pos hip] at hfield
      exact littleEndian_inj hq.peer hq'.peer hfield

def signedKey : List KeyComponent := [⟨.ip, []⟩, ⟨.query, lit ['k']⟩, ⟨.cookie, lit ['k']⟩]

def signedInput : KeyInput := { peerAddr := 7, head := signedRequest }
def routedInput : KeyInput := { signedInput with params := [⟨lit ['p'], lit ['a']⟩] }

theorem signedKey_apart : mixed 1 signedKey signedInput = mixed 1 signedKey routedInput ∧
    ∀ k ∈ signedKey, (k.value signedInput).getD [] = (k.value routedInput).getD [] := by
  have hmixed : mixed 1 signedKey signedInput = mixed 1 signedKey routedInput := rfl
  have hinput : MeteredInput signedInput :=
    ⟨by decide, signedRequest, signedParsed, 36, signedRequest_parse, rfl, fun p hp => absurd hp List.not_mem_nil⟩
  have hrouted : MeteredInput routedInput := by
    refine ⟨by decide, signedRequest, signedParsed, 36, signedRequest_parse, rfl, ?_⟩
    intro p hp
    rw [List.mem_singleton.mp hp]
    exact ⟨lit ['/'], lit ['?','k','=','v'], rfl⟩
  exact ⟨hmixed, (keys_apart hinput hrouted hmixed).1⟩

end Rut.RateLimit
