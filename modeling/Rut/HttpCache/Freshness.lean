import Rut.HttpCache.Policy

/-!
# What is stored and how long it is served

The directives of a response are read off its Cache-Control fields by splitting them at the commas outside of quoted
strings; its lifetime and age follow from its fields. `prepare_record` collects the same values in one pass (`Scanned`).
A record is served only while the response is younger than its lifetime, the bound of its fill and what the request asks
for.
-/

set_option linter.all false
namespace Rut.HttpCache

open Http

/-! ## Values that occur once -/

section once

variable {α : Type*} {xs : List α} {a : α} {P : α → Prop} {val : α → Nat → Prop} {x : Option Nat} {n : Nat}

/-- `x` is the value of the elements with a property, and absent if there is none. -/
structure Once (xs : List α) (P : α → Prop) (val : α → Nat → Prop) (x : Option Nat) : Prop where
  absent : x = none → ∀ a ∈ xs, ¬ P a
  present : ∀ n, x = some n → (∃ a ∈ xs, P a) ∧ ∀ a ∈ xs, P a → val a n

lemma once_nil : Once [] P val none := ⟨by simp, by simp⟩

lemma Once.other (h : Once xs P val x) (ha : ¬ P a) : Once (xs ++ [a]) P val x := by
  refine ⟨fun hx b hb => ?_, fun n hx => ?_⟩
  · rcases List.mem_append.mp hb with hb | hb
    · exact h.absent hx b hb
    · rw [List.mem_singleton.mp hb]
      exact ha
  · obtain ⟨⟨b, hb, hp⟩, hall⟩ := h.present n hx
    refine ⟨⟨b, List.mem_append_left _ hb, hp⟩, fun c hc hpc => ?_⟩
    rcases List.mem_append.mp hc with hc | hc
    · exact hall c hc hpc
    · rw [List.mem_singleton.mp hc] at hpc
      exact absurd hpc ha

lemma Once.first (h : Once xs P val none) (ha : P a) (hv : val a n) : Once (xs ++ [a]) P val (some n) := by
  refine ⟨(by simp), fun m hm => ?_⟩
  cases hm
  refine ⟨⟨a, by simp, ha⟩, fun b hb hp => ?_⟩
  rcases List.mem_append.mp hb with hb | hb
  · exact absurd hp (h.absent rfl b hb)
  · rw [List.mem_singleton.mp hb]
    exact hv

end once

/-! ## Numbers of seconds -/

structure Denotes (text : Str) (n : Nat) : Prop where
  ne : unquote (trimOws text) ≠ []
  digits : ∀ c ∈ unquote (trimOws text), ch '0' ≤ c ∧ c ≤ ch '9'
  value : decimalValue 0 (unquote (trimOws text)) = n

lemma decimalLoop_spec {s acc m} (h : decimalLoop s (min acc kMaxU32) = some m) :
    (∀ c ∈ s, ch '0' ≤ c ∧ c ≤ ch '9') ∧ m = min (decimalValue acc s) kMaxU32 := by
  induction s generalizing acc with
  | nil =>
    cases h
    exact ⟨by simp, rfl⟩
  | cons c s ih =>
    rcases ite_eq_iff.mp h with ⟨-, h⟩ | ⟨hd, h⟩
    · cases h
    rw [not_or, UInt8.not_lt, UInt8.not_lt] at hd
    -- a saturated prefix stays saturated, whatever digits follow
    have hsat : min (min acc kMaxU32 * 10 + (c.toNat - (ch '0').toNat)) kMaxU32 =
        min (10 * acc + (c.toNat - (ch '0').toNat)) kMaxU32 := by
      generalize c.toNat - (ch '0').toNat = d
      omega
    rw [hsat] at h
    obtain ⟨hall, hm⟩ := ih h
    exact ⟨by simpa using ⟨hd, hall⟩, hm⟩

/-- `decimal` reads numbers up to saturation. -/
lemma decimal_spec {text m} (h : decimal text = some m) : ∃ n, Denotes text n ∧ m = min n kMaxU32 := by
  unfold decimal at h
  dsimp only at h
  split_ifs at h with hne
  have hstart : decimalLoop (unquote (trimOws text)) (min 0 kMaxU32) = some m := h
  obtain ⟨hall, hm⟩ := decimalLoop_spec hstart
  exact ⟨_, ⟨hne, hall, rfl⟩, hm⟩

/-! ## Directives -/

def splitUnquoted : Bool → Str → List Str
  | _, [] => [[]]
  | quoted, c :: s =>
    let quoted := if c = ch '"' then !quoted else quoted
    if !quoted ∧ c = ch ',' then [] :: splitUnquoted false s
    else
      match splitUnquoted quoted s with
      | [] => [[c]]
      | item :: items => (c :: item) :: items

/-- Lower-case name and value of the directives of a Cache-Control field. -/
def directives (value : Str) : List (Str × Option Str) :=
  (splitUnquoted false value).map fun item => (lower (directiveOf item).1, (directiveOf item).2)

def cacheDirectives (F : List Field) : List (Str × Option Str) :=
  (F.filter (Field.Named cacheControlName ·)).flatMap fun f => directives f.value

lemma controlItems_ok {s item q} (h : (controlItems s item q).2 = true) :
    ∃ x xs, splitUnquoted q s = x :: xs ∧ (controlItems s item q).1 = (item ++ x) :: xs := by
  induction s generalizing item q with
  | nil =>
    unfold controlItems at h ⊢
    split_ifs at h ⊢
    exact ⟨[], [], rfl, by simp⟩
  | cons c s ih =>
    unfold controlItems at h ⊢
    unfold splitUnquoted
    dsimp only at h ⊢
    generalize (if c = ch '"' then !q else q) = q' at h ⊢
    split_ifs at h ⊢ with hcomma hend hback
    · obtain ⟨x, xs, hsplit, hitems⟩ := ih h
      exact ⟨[], _, rfl, by rw [hitems, hsplit]; simp⟩
    · obtain ⟨x, xs, hsplit, hitems⟩ := ih h
      exact ⟨c :: x, xs, by rw [hsplit], by rw [hitems]; simp⟩

lemma eq_iff {name w} (hw : lower w = w) : eq name w = true ↔ lower name = w := by
  rw [eq, httpHeaderNameEqCi_iff, hw]

structure PolicyOf (D : List (Str × Option Str)) (out : Controls) : Prop where
  blocked : out.blocked = true ↔ ∃ d ∈ D, d.1 = noStoreName ∨ d.1 = noCacheName ∨ d.1 = privateName
  maxAge : Once D (fun d => d.1 = maxAgeName) (fun d m => ∃ v n, d.2 = some v ∧ Denotes v n ∧ m = min n kMaxU32)
    out.maxAge
  sharedAge : Once D (fun d => d.1 = sMaxageName) (fun d m => ∃ v n, d.2 = some v ∧ Denotes v n ∧ m = min n kMaxU32)
    out.sharedAge

section policy

variable {D : List (Str × Option Str)} {out out' : Controls}

lemma setOnce_some {seen value m} (h : setOnce seen value = some m) :
    seen = none ∧ ∃ v n, value = some v ∧ Denotes v n ∧ m = min n kMaxU32 := by
  unfold setOnce at h
  split at h
  · obtain ⟨n, hn, hm⟩ := decimal_spec h
    exact ⟨rfl, _, n, rfl, hn, hm⟩
  · cases h

lemma blocked_snoc {d : Str × Option Str} {b b'} (h : b = true ↔ ∃ d ∈ D, d.1 = noStoreName ∨ d.1 = noCacheName ∨ d.1 = privateName)
    (hb' : b' = true ↔ b = true ∨ d.1 = noStoreName ∨ d.1 = noCacheName ∨ d.1 = privateName) :
    b' = true ↔ ∃ d' ∈ D ++ [d], d'.1 = noStoreName ∨ d'.1 = noCacheName ∨ d'.1 = privateName := by
  rw [hb', h]
  simp only [List.mem_append, List.mem_singleton, or_and_right, exists_or, exists_eq_left]

lemma PolicyOf.item (h : PolicyOf D out) {item} (ha : applyControl true item out = (true, out')) :
    PolicyOf (D ++ [(lower (directiveOf item).1, (directiveOf item).2)]) out' := by
  unfold applyControl at ha
  generalize directiveOf item = d at ha ⊢
  obtain ⟨name, value⟩ := d
  rcases ite_eq_iff.mp ha with ⟨-, ha⟩ | ⟨-, ha⟩
  · cases ha
  rcases ite_eq_iff.mp ha with ⟨-, ha⟩ | ⟨-, ha⟩
  · cases ha
  simp only [Bool.not_true, Bool.false_and, Bool.true_and, Bool.false_eq_true, if_false] at ha
  -- the blocking names only raise the flag
  have hblocked : ∃ b, (if eq name noStoreName || eq name noCacheName || eq name privateName then
      { out with blocked := true } else out) = { out with blocked := b } ∧
      (b = true ↔ out.blocked = true ∨ lower name = noStoreName ∨ lower name = noCacheName ∨ lower name = privateName) := by
    rw [← eq_iff (show lower noStoreName = noStoreName by decide),
      ← eq_iff (show lower noCacheName = noCacheName by decide), ← eq_iff (show lower privateName = privateName by decide),
      ← Bool.or_eq_true, ← Bool.or_eq_true, ← Bool.or_assoc]
    cases eq name noStoreName || eq name noCacheName || eq name privateName with
    | true => exact ⟨true, rfl, by simp⟩
    | false => exact ⟨out.blocked, rfl, by simp⟩
  obtain ⟨b, hout, hb⟩ := hblocked
  rw [hout] at ha
  have hmax : eq name maxAgeName = true ↔ lower name = maxAgeName := eq_iff (by decide)
  have hshared : eq name sMaxageName = true ↔ lower name = sMaxageName := eq_iff (by decide)
  have hne : maxAgeName ≠ sMaxageName := by decide
  by_cases hm : lower name = maxAgeName
  · rw [if_pos (hmax.mpr hm)] at ha
    have hs : lower name ≠ sMaxageName := by rw [hm]; exact hne
    cases hset : setOnce out.maxAge value with
    | none => simp only [hset] at ha; cases ha
    | some m =>
      simp only [hset] at ha
      cases ha
      obtain ⟨hnone, hval⟩ := setOnce_some hset
      have hold := h.maxAge
      rw [hnone] at hold
      exact ⟨blocked_snoc h.blocked hb, hold.first hm hval, h.sharedAge.other hs⟩
  · rw [if_neg (hmax.not.mpr hm)] at ha
    by_cases hs : lower name = sMaxageName
    · rw [if_pos (hshared.mpr hs)] at ha
      cases hset : setOnce out.sharedAge value with
      | none => simp only [hset] at ha; cases ha
      | some m =>
        simp only [hset] at ha
        cases ha
        obtain ⟨hnone, hval⟩ := setOnce_some hset
        have hold := h.sharedAge
        rw [hnone] at hold
        exact ⟨blocked_snoc h.blocked hb, h.maxAge.other hm, hold.first hs hval⟩
    · rw [if_neg (hshared.not.mpr hs)] at ha
      cases ha
      exact ⟨blocked_snoc h.blocked hb, h.maxAge.other hm, h.sharedAge.other hs⟩

lemma PolicyOf.items (h : PolicyOf D out) {items} (ha : applyControls true items out = (true, out')) :
    PolicyOf (D ++ items.map fun item => (lower (directiveOf item).1, (directiveOf item).2)) out' := by
  induction items generalizing D out with
  | nil =>
    cases ha
    simpa using h
  | cons item items ih =>
    rw [applyControls] at ha
    rcases hc : applyControl true item out with ⟨ok, out₁⟩
    rw [hc] at ha
    cases ok with
    | false => cases ha
    | true => simpa using ih (h.item hc) ha

lemma PolicyOf.field (h : PolicyOf D out) {text} (hc : controls text out true = (true, out')) :
    PolicyOf (D ++ directives text) out' := by
  unfold controls at hc
  by_cases hempty : text = []
  · subst hempty
    cases hc
    -- an empty field has one directive without a name
    refine ⟨blocked_snoc h.blocked ?_, h.maxAge.other (by decide), h.sharedAge.other (by decide)⟩
    have hnone : ¬ (([] : Str) = noStoreName ∨ ([] : Str) = noCacheName ∨ ([] : Str) = privateName) := by decide
    exact ⟨.inl, fun hor => hor.resolve_right hnone⟩
  · rw [if_neg hempty] at hc
    rcases ha : applyControls true (controlItems text [] false).1 out with ⟨ok, out₁⟩
    rw [ha] at hc
    cases ok with
    | false => cases hc
    | true =>
      obtain ⟨hok, rfl⟩ := Prod.ext_iff.mp hc
      obtain ⟨x, xs, hsplit, hitems⟩ := controlItems_ok hok
      have := h.items ha
      rw [hitems, List.nil_append, ← hsplit] at this
      exact this

end policy

/-! ## The header loop -/

structure Scanned (F : List Field) (st : HeaderScan) : Prop where
  policy : PolicyOf (cacheDirectives F) st.policy
  age : Once F (Field.Named ageName) (fun f m => ∃ n, Denotes f.value n ∧ m = min n kMaxU32) st.age
  date : Once F (Field.Named dateName) (fun f n => httpDate f.value = some n) st.date
  expires : Once F (Field.Named expiresName) (fun f n => httpDate f.value = some n) st.expires
  noCookie : ∀ f ∈ F, ¬ f.Named setCookieName

section scan

variable {F : List Field} {st st' : HeaderScan}

lemma scanned_nil : Scanned [] {} where
  policy := ⟨by simp [cacheDirectives], once_nil, once_nil⟩
  age := once_nil
  date := once_nil
  expires := once_nil
  noCookie := by simp

lemma fieldOnce_some {seen value n} (h : fieldOnce seen value = some n) : seen = none ∧ value = some n := by
  cases seen with
  | none => exact ⟨rfl, h⟩
  | some m => cases h

lemma cacheDirectives_other {f : Field} (hf : ¬ f.Named cacheControlName) : cacheDirectives (F ++ [f]) = cacheDirectives F := by
  simp [cacheDirectives, hf]

lemma cacheDirectives_field {f : Field} (hf : f.Named cacheControlName) :
    cacheDirectives (F ++ [f]) = cacheDirectives F ++ directives f.value := by
  simp [cacheDirectives, hf]

lemma Scanned.step (h : Scanned F st) {hd} (hs : scanHeader hd st = some st') :
    Scanned (F ++ [⟨hd.name, hd.value⟩]) st' := by
  rcases ite_eq_iff.mp hs with ⟨-, hs⟩ | ⟨-, hs⟩
  · cases hs
  rcases ite_eq_iff.mp hs with ⟨-, hs⟩ | ⟨-, hs⟩
  · cases hs
  have hnamed : ∀ {w : Str}, lower w = w → (eq hd.name w = true ↔ (⟨hd.name, hd.value⟩ : Field).Named w) :=
    fun hw => eq_iff hw
  generalize hf : (⟨hd.name, hd.value⟩ : Field) = f at hnamed ⊢
  have hval : f.value = hd.value := by rw [← hf]
  have hcookie : ∀ {g : Field}, ¬ g.Named setCookieName → ∀ f' ∈ F ++ [g], ¬ f'.Named setCookieName := by
    intro g hg f' hf'
    rcases List.mem_append.mp hf' with hf' | hf'
    · exact h.noCookie f' hf'
    · rw [List.mem_singleton.mp hf']
      exact hg
  -- a field has one name, so that it is none of the others
  have hother : ∀ {w w' : Str}, f.Named w → w ≠ w' → ¬ f.Named w' := fun hw hne hw' => hne (hw.symm.trans hw')
  by_cases hcc : f.Named cacheControlName
  · rw [if_pos ((hnamed (by decide)).mpr hcc)] at hs
    rcases hc : controls hd.value st.policy true with ⟨ok, policy⟩
    rw [hc] at hs
    cases ok with
    | false => cases hs
    | true =>
      cases hs
      refine ⟨?_, h.age.other (hother hcc (by decide)), h.date.other (hother hcc (by decide)),
        h.expires.other (hother hcc (by decide)), hcookie (hother hcc (by decide))⟩
      rw [cacheDirectives_field hcc, hval]
      exact h.policy.field hc
  rw [if_neg ((hnamed (by decide)).not.mpr hcc)] at hs
  have hpolicy : PolicyOf (cacheDirectives (F ++ [f])) st.policy := by
    rw [cacheDirectives_other hcc]
    exact h.policy
  by_cases hvary : f.Named varyName
  · rw [if_pos ((hnamed (by decide)).mpr hvary)] at hs
    rcases ite_eq_iff.mp hs with ⟨-, hs⟩ | ⟨-, hs⟩
    · cases hs
      exact ⟨hpolicy, h.age.other (hother hvary (by decide)), h.date.other (hother hvary (by decide)),
        h.expires.other (hother hvary (by decide)), hcookie (hother hvary (by decide))⟩
    · cases hs
  rw [if_neg ((hnamed (by decide)).not.mpr hvary)] at hs
  by_cases hconn : f.Named connectionName
  · rw [if_pos ((hnamed (by decide)).mpr hconn)] at hs
    rcases ite_eq_iff.mp hs with ⟨-, hs⟩ | ⟨-, hs⟩
    · cases hs
      exact ⟨hpolicy, h.age.other (hother hconn (by decide)), h.date.other (hother hconn (by decide)),
        h.expires.other (hother hconn (by decide)), hcookie (hother hconn (by decide))⟩
    · cases hs
  rw [if_neg ((hnamed (by decide)).not.mpr hconn)] at hs
  by_cases hage : f.Named ageName
  · rw [if_pos ((hnamed (by decide)).mpr hage)] at hs
    obtain ⟨age, hset, rfl⟩ := Option.map_eq_some_iff.mp hs
    obtain ⟨hnone, hdec⟩ := fieldOnce_some hset
    have hold := h.age
    rw [hnone] at hold
    rw [← hval] at hdec
    exact ⟨hpolicy, hold.first hage (decimal_spec hdec), h.date.other (hother hage (by decide)),
      h.expires.other (hother hage (by decide)), hcookie (hother hage (by decide))⟩
  rw [if_neg ((hnamed (by decide)).not.mpr hage)] at hs
  by_cases hdate : f.Named dateName
  · rw [if_pos ((hnamed (by decide)).mpr hdate)] at hs
    obtain ⟨date, hset, rfl⟩ := Option.map_eq_some_iff.mp hs
    obtain ⟨hnone, hdec⟩ := fieldOnce_some hset
    have hold := h.date
    rw [hnone] at hold
    rw [← hval] at hdec
    exact ⟨hpolicy, h.age.other hage, hold.first hdate hdec, h.expires.other (hother hdate (by decide)),
      hcookie (hother hdate (by decide))⟩
  rw [if_neg ((hnamed (by decide)).not.mpr hdate)] at hs
  by_cases hexp : f.Named expiresName
  · rw [if_pos ((hnamed (by decide)).mpr hexp)] at hs
    obtain ⟨expires, hset, rfl⟩ := Option.map_eq_some_iff.mp hs
    obtain ⟨hnone, hdec⟩ := fieldOnce_some hset
    have hold := h.expires
    rw [hnone] at hold
    rw [← hval] at hdec
    exact ⟨hpolicy, h.age.other hage, h.date.other hdate, hold.first hexp hdec, hcookie (hother hexp (by decide))⟩
  rw [if_neg ((hnamed (by decide)).not.mpr hexp)] at hs
  rcases ite_eq_iff.mp hs with ⟨-, hs⟩ | ⟨hforbidden, hs⟩
  · cases hs
  cases hs
  refine ⟨hpolicy, h.age.other hage, h.date.other hdate, h.expires.other hexp, hcookie fun hsc => hforbidden ?_⟩
  simp [forbiddenHeader, (hnamed (show lower setCookieName = setCookieName by decide)).mpr hsc]

lemma Scanned.headers (h : Scanned F st) {hs} (ha : scanHeaders hs st = some st') :
    Scanned (F ++ hs.map fun hd => ⟨hd.name, hd.value⟩) st' := by
  induction hs generalizing F st with
  | nil =>
    cases ha
    simpa using h
  | cons hd hs ih =>
    rw [scanHeaders] at ha
    cases hsc : scanHeader hd st with
    | none => rw [hsc] at ha; cases ha
    | some st₁ =>
      rw [hsc] at ha
      simpa using ih (h.step hsc) ha

end scan

/-! ## Lifetime and age -/

/-- The freshness lifetime of a response with the given fields, in seconds: s-maxage, else max-age, else Expires minus
Date, else the bound of the fill. -/
inductive FreshnessLifetime (F : List Field) (cap : Nat) : Nat → Prop where
  | shared {v : Str} {n : Nat} (h : (sMaxageName, some v) ∈ cacheDirectives F) (hn : Denotes v n) :
    FreshnessLifetime F cap n
  | maxAge {v : Str} {n : Nat} (hs : ∀ d ∈ cacheDirectives F, d.1 ≠ sMaxageName)
    (h : (maxAgeName, some v) ∈ cacheDirectives F) (hn : Denotes v n) : FreshnessLifetime F cap n
  | expires {f g : Field} {e d : Nat} (hs : ∀ d ∈ cacheDirectives F, d.1 ≠ sMaxageName)
    (hm : ∀ d ∈ cacheDirectives F, d.1 ≠ maxAgeName) (hf : f ∈ F) (hfn : f.Named expiresName)
    (he : httpDate f.value = some e) (hg : g ∈ F) (hgn : g.Named dateName) (hd : httpDate g.value = some d) :
    FreshnessLifetime F cap (e - d)
  | cap (hs : ∀ d ∈ cacheDirectives F, d.1 ≠ sMaxageName) (hm : ∀ d ∈ cacheDirectives F, d.1 ≠ maxAgeName)
    (he : ∀ f ∈ F, ¬ f.Named expiresName) : FreshnessLifetime F cap cap

def DateField (F : List Field) (date : Nat) : Prop := ∃ f ∈ F, f.Named dateName ∧ httpDate f.value = some date

def AgeField (F : List Field) (age : Nat) : Prop :=
  (∃ f ∈ F, f.Named ageName ∧ Denotes f.value age) ∨ (∀ f ∈ F, ¬ f.Named ageName) ∧ age = 0

section values

variable {F : List Field} {st : HeaderScan} {cap date L age : Nat}

lemma Once.exists_some {α} {xs : List α} {P val x}
    (h : Once xs P val x) {a} (ha : a ∈ xs) (hp : P a) : ∃ n, x = some n ∧ val a n := by
  cases x with
  | none => exact absurd hp (h.absent rfl a ha)
  | some n => exact ⟨n, rfl, (h.present n rfl).2 a ha hp⟩

lemma Once.eq_none {α} {xs : List α} {P val x} (h : Once xs P val x) (hno : ∀ a ∈ xs, ¬ P a) : x = none := by
  cases x with
  | none => rfl
  | some n =>
    obtain ⟨a, ha, hp⟩ := (h.present n rfl).1
    exact absurd hp (hno a ha)

lemma min_cap {cap n} (hcap : cap ≤ kMaxTtl) : min cap (min n kMaxU32) = min cap n := by
  simp only [kMaxTtl, kMaxU32] at *
  omega

lemma Scanned.lifetime_eq (h : Scanned F st) (hdate : st.date = some date) (hcap : cap ≤ kMaxTtl)
    (hL : FreshnessLifetime F cap L) : lifetime st date cap = min cap L := by
  cases hL with
  | shared hmem hn =>
    obtain ⟨m, hm, v, n, hv, hden, rfl⟩ := h.policy.sharedAge.exists_some hmem rfl
    cases hv
    have hsame : n = L := hden.value.symm.trans hn.value
    simp only [lifetime, hm, min_cap hcap, hsame]
  | maxAge hs hmem hn =>
    obtain ⟨m, hm, v, n, hv, hden, rfl⟩ := h.policy.maxAge.exists_some hmem rfl
    cases hv
    have hsame : n = L := hden.value.symm.trans hn.value
    simp only [lifetime, h.policy.sharedAge.eq_none hs, hm, min_cap hcap, hsame]
  | @expires f g e d hs hm hf hfn he hg hgn hd =>
    obtain ⟨e', he', hval⟩ := h.expires.exists_some hf hfn
    obtain ⟨d', hd', hval'⟩ := h.date.exists_some hg hgn
    cases hval.symm.trans he
    cases hval'.symm.trans hd
    cases hd'.symm.trans hdate
    simp only [lifetime, h.policy.sharedAge.eq_none hs, h.policy.maxAge.eq_none hm, he']
    split_ifs <;> omega
  | cap hs hm he =>
    simp only [lifetime, h.policy.sharedAge.eq_none hs, h.policy.maxAge.eq_none hm, h.expires.eq_none he]

lemma Scanned.exists_lifetime (h : Scanned F st) (hdate : st.date = some date) (cap : Nat) :
    ∃ L, FreshnessLifetime F cap L := by
  cases hs : st.policy.sharedAge with
  | some m =>
    obtain ⟨⟨d, hd, hname⟩, hall⟩ := h.policy.sharedAge.present m hs
    obtain ⟨v, n, hv, hden, -⟩ := hall d hd hname
    exact ⟨n, .shared (v := v) (by rw [← hname, ← hv]; exact hd) hden⟩
  | none =>
    have hs := h.policy.sharedAge.absent hs
    cases hm : st.policy.maxAge with
    | some m =>
      obtain ⟨⟨d, hd, hname⟩, hall⟩ := h.policy.maxAge.present m hm
      obtain ⟨v, n, hv, hden, -⟩ := hall d hd hname
      exact ⟨n, .maxAge (v := v) hs (by rw [← hname, ← hv]; exact hd) hden⟩
    | none =>
      have hm := h.policy.maxAge.absent hm
      cases he : st.expires with
      | some e =>
        obtain ⟨⟨f, hf, hfn⟩, hall⟩ := h.expires.present e he
        obtain ⟨⟨g, hg, hgn⟩, hall'⟩ := h.date.present date hdate
        exact ⟨_, .expires hs hm hf hfn (hall f hf hfn) hg hgn (hall' g hg hgn)⟩
      | none => exact ⟨cap, .cap hs hm (h.expires.absent he)⟩

lemma Scanned.dateField (h : Scanned F st) (hdate : st.date = some date) : DateField F date := by
  obtain ⟨⟨f, hf, hfn⟩, hall⟩ := h.date.present date hdate
  exact ⟨f, hf, hfn, hall f hf hfn⟩

lemma Scanned.date_eq (h : Scanned F st) (hdate : st.date = some date) {d} (hd : DateField F d) : d = date := by
  obtain ⟨f, hf, hfn, hval⟩ := hd
  obtain ⟨d', hd', hval'⟩ := h.date.exists_some hf hfn
  cases hd'.symm.trans hdate
  cases hval.symm.trans hval'
  rfl

lemma Scanned.exists_age (h : Scanned F st) : ∃ age, AgeField F age := by
  cases ha : st.age with
  | some m =>
    obtain ⟨⟨f, hf, hfn⟩, hall⟩ := h.age.present m ha
    obtain ⟨n, hden, -⟩ := hall f hf hfn
    exact ⟨n, .inl ⟨f, hf, hfn, hden⟩⟩
  | none => exact ⟨0, .inr ⟨h.age.absent ha, rfl⟩⟩

lemma Scanned.age_eq (h : Scanned F st) (hage : AgeField F age) : st.age.getD 0 = min age kMaxU32 := by
  rcases hage with ⟨f, hf, hfn, hden⟩ | ⟨hno, rfl⟩
  · obtain ⟨m, hm, n, hden', rfl⟩ := h.age.exists_some hf hfn
    have hsame : n = age := hden'.value.symm.trans hden.value
    rw [hm, hsame]
    rfl
  · rw [h.age.eq_none hno]
    simp

end values

/-! ## Records that are served -/

lemma readResponse_some {key r nowUs keepAlive capacity out}
    (h : readResponse key r nowUs keepAlive capacity = some out) :
    r.storedUs ≤ nowUs ∧ nowUs < r.expiresUs ∧ key.minFresh * 1000000 < r.expiresUs - nowUs ∧
      (nowUs - r.storedUs + r.initialAgeUs ≤ kMaxU64 → nowUs - r.storedUs + r.initialAgeUs ≤ key.maxAge * 1000000) := by
  rcases ite_eq_iff.mp h with ⟨⟨hexp, hstored, hage, -, hfresh⟩, -⟩ | ⟨-, h⟩
  · refine ⟨hstored, hexp, hfresh, fun hle => ?_⟩
    rw [if_pos hstored, if_pos (by omega)] at hage
    exact hage
  · cases h

/-- The cache serves nothing stale or forbidden. A response that is stored has none of the directives no-store,
no-cache and private and no Set-Cookie field. Whenever its record is served, the clock has not gone back, and the age
of the response is below its freshness lifetime and the bound of its fill; it is at most the max-age of the request,
and its min-fresh is left. -/
theorem stored_response_fresh {fill : Fill} {response : Str} {storedUs wallUs : Nat} {r : Record}
    (h : prepareRecord fill response storedUs wallUs = some r) :
    ∃ resp headerEnd, parseResponse response = .complete resp headerEnd ∧
      let F := headFields (response.take headerEnd)
      (∀ d ∈ cacheDirectives F, d.1 ≠ noStoreName ∧ d.1 ≠ noCacheName ∧ d.1 ≠ privateName) ∧
      (∀ f ∈ F, ¬ f.Named setCookieName) ∧
      (∃ L date age, FreshnessLifetime F fill.ttl L ∧ DateField F date ∧ AgeField F age) ∧
      ∀ L date age, FreshnessLifetime F fill.ttl L → DateField F date → AgeField F age →
        ∀ key nowUs keepAlive capacity out, readResponse key r nowUs keepAlive capacity = some out →
          let ageUs := max (wallUs - date * 1000000) (age * 1000000 + (storedUs - fill.startedUs)) + (nowUs - storedUs)
          storedUs ≤ nowUs ∧ ageUs < min fill.ttl L * 1000000 ∧ ageUs ≤ key.maxAge * 1000000 ∧
            ageUs + key.minFresh * 1000000 < min fill.ttl L * 1000000 := by
  obtain ⟨parsed, headerEnd, st, date, hp⟩ := prepareRecord_some h
  obtain ⟨hparse, htr⟩ := responseHead_some hp.head
  have hscan : Scanned (headFields (response.take headerEnd)) st := by
    rw [parseResponse_fields hparse htr]
    simpa using scanned_nil.headers hp.scan
  refine ⟨parsed, headerEnd, hparse, ?_, hscan.noCookie, ?_, ?_⟩
  · intro d hd
    have hnot := hscan.policy.blocked.not.mp (by rw [hp.allowed]; exact Bool.false_ne_true)
    simpa [not_or] using fun hblocked => hnot ⟨d, hd, hblocked⟩
  · obtain ⟨L, hL⟩ := hscan.exists_lifetime hp.dated fill.ttl
    obtain ⟨age, hage⟩ := hscan.exists_age
    exact ⟨L, date, age, hL, hscan.dateField hp.dated, hage⟩
  · intro L d age hL hd hage key nowUs keepAlive capacity out hread
    obtain rfl := hscan.date_eq hp.dated hd
    have hlife := hscan.lifetime_eq hp.dated hp.capped.2 hL
    have hsat := hscan.age_eq hage
    have hfresh := hp.fresh
    have hcap := hp.capped.2
    obtain ⟨hstored, hexp, hmin, hmax⟩ := readResponse_some hread
    rw [hp.record] at hstored hexp hmin hmax
    simp only [initialAgeUs, hlife, hsat] at hfresh hexp hmin hmax
    simp only at hstored
    -- an age that is below the lifetime is not saturated
    have hage : min age kMaxU32 = age := by
      simp only [kMaxU32, kMaxTtl] at *
      omega
    rw [hage] at hfresh hexp hmin hmax
    simp only [kMaxTtl] at hcap
    refine ⟨hstored, by omega, ?_, by omega⟩
    have hbound := hmax (by simp only [kMaxU64]; omega)
    omega

def freshResponse : Str :=
  word ['H','T','T','P','/','1','.','1',' ','2','0','0',' ','O','K','\r','\n'] ++
  word ['D','a','t','e',':',' ','T','h','u',',',' ','0','1',' ','J','a','n',' ','1','9','7','0',' ',
    '0','0',':','0','0',':','1','0',' ','G','M','T','\r','\n'] ++
  cacheControlName ++ word [':',' ','m','a','x','-','a','g','e','=','3','0','\r','\n'] ++
  contentLengthName ++ word [':',' ','2','\r','\n','\r','\n','h','i']

theorem freshResponse_stored :
    ∃ r resp headerEnd, prepareRecord ⟨0, 60⟩ freshResponse 1000 10000000 = some r ∧
      parseResponse freshResponse = .complete resp headerEnd ∧
      ∀ f ∈ headFields (freshResponse.take headerEnd), ¬ f.Named setCookieName := by
  have hsome : (prepareRecord ⟨0, 60⟩ freshResponse 1000 10000000).isSome = true := by decide +kernel
  obtain ⟨r, hr⟩ := Option.isSome_iff_exists.mp hsome
  obtain ⟨resp, headerEnd, hparse, -, hcookie, -⟩ := stored_response_fresh hr
  exact ⟨r, resp, headerEnd, hr, hparse, hcookie⟩

end Rut.HttpCache
