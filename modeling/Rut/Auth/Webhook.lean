import Rut.Auth.SignedRequest

/-!
# Signed webhooks

Port of `src/runtime/webhook.cc`, and what the signatures of requests and webhooks bind.
-/

namespace Rut.Auth

open Http (decimalValue)

structure Webhook where
  id : Str
  timestamp : Str
  signature : Str
  body : Str
  rawKey : Str
  unixSeconds : Int
  toleranceSeconds : Nat
deriving DecidableEq

def kMaxTime : Nat := 9223372036854775807

def isVisible (c : UInt8) : Bool := !(c < 0x21 || c > 0x7e)

def isDigit (c : UInt8) : Bool := ch '0' ≤ c && c ≤ ch '9'

/-- The digits of the timestamp, read after the value `seconds`. -/
def timestampLoop : Nat → Str → Option Nat
  | seconds, [] => some seconds
  | seconds, c :: s =>
    if !isDigit c then none
    else
      let digit := c.toNat - (ch '0').toNat
      if seconds > (kMaxTime - digit) / 10 then none else timestampLoop (seconds * 10 + digit) s

def v1Version : Str := lit ['v','1']

def isVersionByte (c : UInt8) : Bool := isLetter c || isDigit c

def isMacText (value : Str) : Bool :=
  value.length == 44 && value.getD 43 0 == ch '=' && (value.take 43).all (fun c => (base64Value c).isSome) &&
    (base64Value (value.getD 42 0)).any fun d => d % 4 == 0

/-- One entry of the list: whether it is well formed, and whether it matches. -/
def checkEntry (encoded entry : Str) : Bool × Bool :=
  let version := entry.takeWhile (· != ch ',')
  match entry.dropWhile (· != ch ',') with
  | [] => (false, false)
  | _ :: value =>
    if version = [] ∨ value = [] then (false, false)
    else
      let shape := version.all isVersionByte && value.all fun c => isVisible c && c != ch ','
      if version = v1Version then (shape && isMacText value, value == encoded) else (shape, false)

/-- The loop over the entries. Each turn shortens the input, so that its length bounds the turns. -/
def entriesLoop (encoded : Str) : Nat → Nat → Bool → Str → Bool
  | _, _, found, [] => found
  | 0, _, _, _ => false
  | turns + 1, count, found, s =>
    if count + 1 > 16 then false
    else
      let (good, hit) := checkEntry encoded (s.takeWhile (· != ch ' '))
      if !good then false
      else
        match s.dropWhile (· != ch ' ') with
        | [] => found || hit
        | _ :: rest => if rest = [] then false else entriesLoop encoded turns (count + 1) (found || hit) rest

namespace Webhook

variable (crypto : Crypto)

def shape (w : Webhook) : Option Nat :=
  if w.id.length = 0 || w.id.length > 256 || w.timestamp.length = 0 || w.timestamp.length > 19 ||
      w.signature.length = 0 || w.signature.length > 4096 || w.body.length > kMaxHashInputBytes ||
      w.rawKey.length = 0 || w.rawKey.length > kMaxHashKeyBytes || w.unixSeconds ≤ 0 || w.toleranceSeconds > 300 then none
  else if !w.id.all fun c => isVisible c && c != ch '.' then none
  else if w.timestamp.head?.any fun c => c < ch '1' || c > ch '9' then none
  else timestampLoop 0 w.timestamp

def parts (w : Webhook) : List Str := [w.id, lit ['.'], w.timestamp, lit ['.'], w.body]

/-- `standard_webhook_valid`. -/
def valid (w : Webhook) : Bool :=
  match w.shape with
  | none => false
  | some seconds =>
    let now := w.unixSeconds.toNat
    if (if seconds > now then seconds - now else now - seconds) > w.toleranceSeconds then false
    else
      match crypto.digestPartsV1 .sha256 w.parts (some w.rawKey) 32 with
      | none => false
      | some digest =>
        match base64EncodeV1 digest 45 with
        | none => false
        | some encoded =>
          digest.length == 32 && encoded.length == 44 && entriesLoop encoded w.signature.length 0 false w.signature

end Webhook

/-! ## The list of signatures -/

structure WellFormedEntry (entry : Str × Str) : Prop where
  version : entry.1 ≠ [] ∧ ∀ c ∈ entry.1, isVersionByte c = true
  value : entry.2 ≠ [] ∧ ∀ c ∈ entry.2, isVisible c = true ∧ c ≠ ch ','
  mac : entry.1 = v1Version → isMacText entry.2 = true

def entriesText (entries : List (Str × Str)) : Str :=
  List.intercalate [ch ' '] (entries.map fun e => e.1 ++ ch ',' :: e.2)

lemma checkEntry_spec {encoded entry hit} (h : checkEntry encoded entry = (true, hit)) :
    ∃ version value, entry = version ++ ch ',' :: value ∧ WellFormedEntry (version, value) ∧
      (hit = true → version = v1Version ∧ value = encoded) := by
  rw [checkEntry] at h
  have hcut := List.takeWhile_append_dropWhile (p := (· != ch ',')) (l := entry)
  have hcomma := List.head?_dropWhile_not (· != ch ',') entry
  rcases hdrop : entry.dropWhile (· != ch ',') with - | ⟨c, value⟩
  · rw [hdrop] at h
    cases h
  · rw [hdrop] at h hcut hcomma
    have hc : c = ch ',' := by simpa using hcomma
    subst hc
    dsimp only at h
    generalize entry.takeWhile (· != ch ',') = version at h hcut
    split_ifs at h with hempty hversion
    · simp only [Prod.mk.injEq] at h
      exact absurd h.1 Bool.false_ne_true
    · simp only [not_or] at hempty
      simp only [Prod.mk.injEq, Bool.and_eq_true, List.all_eq_true, bne_iff_ne] at h
      obtain ⟨⟨⟨hbytes, hvalue⟩, hmac⟩, rfl⟩ := h
      exact ⟨version, value, hcut.symm, ⟨⟨hempty.1, hbytes⟩, ⟨hempty.2, hvalue⟩, fun _ => hmac⟩,
        fun hhit => ⟨hversion, beq_iff_eq.1 hhit⟩⟩
    · simp only [not_or] at hempty
      simp only [Prod.mk.injEq, Bool.and_eq_true, List.all_eq_true, bne_iff_ne] at h
      obtain ⟨⟨hbytes, hvalue⟩, rfl⟩ := h
      exact ⟨version, value, hcut.symm, ⟨⟨hempty.1, hbytes⟩, ⟨hempty.2, hvalue⟩, fun h => absurd h hversion⟩,
        fun hhit => absurd hhit Bool.false_ne_true⟩

lemma entriesLoop_spec {encoded s : Str} {turns count found} (hs : s ≠ [])
    (h : entriesLoop encoded turns count found s = true) :
    ∃ entries, s = entriesText entries ∧ count + entries.length ≤ 16 ∧ (∀ e ∈ entries, WellFormedEntry e) ∧
      (found = true ∨ (v1Version, encoded) ∈ entries) := by
  induction turns generalizing count found s with
  | zero =>
    cases s with
    | nil => exact absurd rfl hs
    | cons c s => cases h
  | succ turns ih =>
    cases s with
    | nil => exact absurd rfl hs
    | cons c s =>
      rw [entriesLoop] at h
      · generalize c :: s = s at hs h
        have hcut := List.takeWhile_append_dropWhile (p := (· != ch ' ')) (l := s)
        have hspace := List.head?_dropWhile_not (· != ch ' ') s
        generalize s.takeWhile (· != ch ' ') = entry at h hcut
        split_ifs at h with hcount
        rcases hcheck : checkEntry encoded entry with ⟨good, hit⟩
        rw [hcheck] at h
        cases good with
        | false => simp at h
        | true =>
          obtain ⟨version, value, rfl, hentry, hhit⟩ := checkEntry_spec hcheck
          have hfound : ∀ {entries}, (found || hit) = true ∨ (v1Version, encoded) ∈ entries →
              found = true ∨ (v1Version, encoded) ∈ (version, value) :: entries := by
            rintro entries (h | h)
            · rcases Bool.or_eq_true_iff.1 h with h | h
              · exact .inl h
              · obtain ⟨rfl, rfl⟩ := hhit h
                exact .inr List.mem_cons_self
            · exact .inr (List.mem_cons_of_mem _ h)
          rcases hdrop : s.dropWhile (· != ch ' ') with - | ⟨c, rest⟩
          · rw [hdrop] at h hcut
            refine ⟨[(version, value)], ?_, by simp; omega, ?_, hfound (.inl h)⟩
            · rw [← hcut, List.append_nil]
              simp [entriesText]
            · intro e he
              rwa [List.mem_singleton.1 he]
          · rw [hdrop] at h hcut hspace
            have hc : c = ch ' ' := by simpa using hspace
            subst hc
            simp only [Bool.not_true, Bool.false_eq_true, if_false] at h
            rcases Decidable.em (rest = []) with hrest | hrest
            · rw [if_pos hrest] at h
              cases h
            · rw [if_neg hrest] at h
              obtain ⟨entries, htext, hlen, hall, hmem⟩ := ih hrest h
              refine ⟨(version, value) :: entries, ?_, by rw [List.length_cons]; omega, ?_, hfound hmem⟩
              · rw [← hcut, htext]
                cases entries with
                | nil => exact absurd htext hrest
                | cons e entries => simp [entriesText, List.intercalate]
              · intro e he
                rcases List.mem_cons.1 he with rfl | he
                · exact hentry
                · exact hall e he
      · simp

/-! ## The signed time -/

lemma timestampLoop_spec {s seconds t} (h : timestampLoop seconds s = some t) :
    (∀ c ∈ s, isDigit c = true) ∧ decimalValue seconds s = t := by
  induction s generalizing seconds with
  | nil =>
    cases h
    exact ⟨by simp, rfl⟩
  | cons c s ih =>
    obtain ⟨hdigit, h⟩ := Option.ite_none_left_eq_some.1 h
    obtain ⟨-, h⟩ := Option.ite_none_left_eq_some.1 h
    obtain ⟨hall, hvalue⟩ := ih h
    refine ⟨?_, ?_⟩
    · intro d hd
      rcases List.mem_cons.1 hd with rfl | hd
      · simpa using hdigit
      · exact hall d hd
    · rw [Nat.mul_comm seconds 10] at hvalue
      exact hvalue

namespace Webhook

variable {crypto : Crypto} {w w' : Webhook}

structure Shaped (w : Webhook) (seconds : Nat) : Prop where
  id : ∀ c ∈ w.id, isVisible c = true ∧ c ≠ ch '.'
  timestamp : w.timestamp ≠ [] ∧ ∀ c ∈ w.timestamp, isDigit c = true
  seconds : decimalValue 0 w.timestamp = seconds
  signature : w.signature ≠ []
  now : 0 < w.unixSeconds

lemma shape_spec {seconds} (h : w.shape = some seconds) : w.Shaped seconds := by
  obtain ⟨hlengths, h⟩ := Option.ite_none_left_eq_some.1 h
  obtain ⟨hid, h⟩ := Option.ite_none_left_eq_some.1 h
  obtain ⟨-, h⟩ := Option.ite_none_left_eq_some.1 h
  simp only [Bool.or_eq_true, decide_eq_true_eq, not_or, List.length_eq_zero_iff, not_le] at hlengths
  obtain ⟨⟨⟨⟨⟨⟨⟨⟨⟨⟨-, -⟩, htimestamp⟩, -⟩, hsignature⟩, -⟩, -⟩, -⟩, -⟩, hnow⟩, -⟩ := hlengths
  obtain ⟨hdigits, hvalue⟩ := timestampLoop_spec h
  have hbytes : w.id.all (fun c => isVisible c && c != ch '.') = true := by simpa using hid
  exact
    { id := fun c hc => by simpa using List.all_eq_true.1 hbytes c hc
      timestamp := ⟨htimestamp, hdigits⟩
      seconds := hvalue
      signature := hsignature
      now := hnow }

lemma parts_inj {t t'} (h : w.Shaped t) (h' : w'.Shaped t') (heq : w.parts.flatten = w'.parts.flatten) :
    w.id = w'.id ∧ w.timestamp = w'.timestamp ∧ w.body = w'.body := by
  have hid : ∀ {w : Webhook} {t : Nat}, w.Shaped t → ch '.' ∉ w.id := fun h hmem => (h.id _ hmem).2 rfl
  have htimestamp : ∀ {w : Webhook} {t : Nat}, w.Shaped t → ch '.' ∉ w.timestamp := by
    intro w t h hmem
    have hdigit := h.timestamp.2 _ hmem
    revert hdigit
    decide
  simp only [parts, List.flatten_cons, List.flatten_nil, List.append_nil] at heq
  obtain ⟨hids, heq⟩ := cut_unique (hid h) (hid h') heq
  obtain ⟨htimes, hbodies⟩ := cut_unique (htimestamp h) (htimestamp h') heq
  exact ⟨hids, htimes, hbodies⟩

lemma valid_spec (h : w.valid crypto = true) :
    (∃ seconds, w.shape = some seconds ∧ |(seconds : Int) - w.unixSeconds| ≤ w.toleranceSeconds) ∧
      ∃ entries, w.signature = entriesText entries ∧ entries.length ≤ 16 ∧ (∀ e ∈ entries, WellFormedEntry e) ∧
        (v1Version, base64.padded (crypto.hmac .sha256 w.rawKey w.parts.flatten)) ∈ entries := by
  unfold valid at h
  cases hshape : w.shape with
  | none => simp [hshape] at h
  | some seconds =>
    have hshaped := shape_spec hshape
    rw [hshape] at h
    dsimp only at h
    rcases Decidable.em ((if seconds > w.unixSeconds.toNat then seconds - w.unixSeconds.toNat
        else w.unixSeconds.toNat - seconds) > w.toleranceSeconds) with hfar | hnear
    · simp only [if_pos hfar] at h
      cases h
    · simp only [if_neg hnear] at h
      have htime : |(seconds : Int) - w.unixSeconds| ≤ w.toleranceSeconds := by
        have hnow := hshaped.now
        obtain ⟨n, hn⟩ := Int.eq_ofNat_of_zero_le hnow.le
        rw [hn, abs_le]
        split_ifs at hnear <;> omega
      refine ⟨⟨seconds, rfl, htime⟩, ?_⟩
      cases hmac : crypto.digestPartsV1 .sha256 w.parts (some w.rawKey) 32 with
      | none => simp [hmac] at h
      | some digest =>
        have hdigest : digest = crypto.hmac .sha256 w.rawKey w.parts.flatten := Crypto.digestPartsV1_of_some hmac
        rw [hmac] at h
        cases hencode : base64EncodeV1 digest 45 with
        | none => simp [hencode] at h
        | some encoded =>
          simp only [hencode, Bool.and_eq_true] at h
          obtain ⟨entries, htext, hlen, hall, hmem⟩ := entriesLoop_spec hshaped.signature h.2
          refine ⟨entries, htext, by omega, hall, ?_⟩
          rw [← hdigest, ← base64EncodeV1_of_some hencode]
          exact hmem.resolve_left Bool.false_ne_true

end Webhook

/-- Signatures bind what they sign: equal inputs of the keyed digest come from equal requests or webhooks, and only the
canonical base 64 of the keyed digest is accepted, within the tolerance of the clock. -/
theorem signatures_bind (crypto : Crypto) :
    (∀ (r r' : SignedRequest) (signature signature' : Str),
      r.checks crypto = some signature → r'.checks crypto = some signature' →
      r.trustedKeyId = r'.trustedKeyId → r.trustedSecret = r'.trustedSecret → r.parts.flatten = r'.parts.flatten →
      r.method = r'.method ∧ r.requestTarget = r'.requestTarget ∧ r.date = r'.date ∧ r.digest = r'.digest ∧
        crypto.hash .sha256 r.rawBody = crypto.hash .sha256 r'.rawBody) ∧
    (∀ (w w' : Webhook) (t t' : Nat),
      w.shape = some t → w'.shape = some t' → w.rawKey = w'.rawKey → w.parts.flatten = w'.parts.flatten →
      w.id = w'.id ∧ w.timestamp = w'.timestamp ∧ w.body = w'.body) ∧
    (∀ r : SignedRequest, r.valid crypto = true →
      (∃ parameters, AuthorizationText r.authorization parameters ∧
        (AuthField.signature.name, base64.padded (crypto.hmac .sha256 r.trustedSecret r.parts.flatten)) ∈ parameters) ∧
      ∃ m : Moment, m.Valid ∧ m.Shown r.date ∧ |(m.seconds : Int) - r.unixSeconds| ≤ 300) ∧
    (∀ w : Webhook, w.valid crypto = true →
      (∃ entries, w.signature = entriesText entries ∧ entries.length ≤ 16 ∧ (∀ e ∈ entries, WellFormedEntry e) ∧
        (v1Version, base64.padded (crypto.hmac .sha256 w.rawKey w.parts.flatten)) ∈ entries) ∧
      (∀ c ∈ w.timestamp, isDigit c = true) ∧
      |(decimalValue 0 w.timestamp : Int) - w.unixSeconds| ≤ w.toleranceSeconds) := by
  refine ⟨?_, ?_, ?_, ?_⟩
  · intro r r' signature signature' h h' hid _ heq
    exact SignedRequest.parts_inj (SignedRequest.checks_spec h) (SignedRequest.checks_spec h') hid heq
  · intro w w' t t' h h' _ heq
    exact Webhook.parts_inj (Webhook.shape_spec h) (Webhook.shape_spec h') heq
  · intro r h
    have hchecked := SignedRequest.valid_spec h
    obtain ⟨parameters, htext, hsignature, -⟩ := hchecked.authorization
    exact ⟨⟨parameters, htext, hsignature⟩, hchecked.date⟩
  · intro w h
    obtain ⟨⟨seconds, hshape, htime⟩, hentries⟩ := Webhook.valid_spec h
    have hshaped := Webhook.shape_spec hshape
    refine ⟨hentries, hshaped.timestamp.2, ?_⟩
    rwa [hshaped.seconds]

end Rut.Auth
