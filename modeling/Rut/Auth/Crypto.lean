import Rut.Common.Types
import Rut.Lib.Base64

/-!
# Digests and base 64

Port of the parts of `src/runtime/crypto_hash.c` and `src/runtime/crypto_util.c` that the token and signature checks
call. The hash functions and the keyed digest over them are parameters; `EVP_EncodeBlock` is base 64 with padding.
-/

namespace Rut.Auth

open Lib

/-- The digests (`HashAlgorithm`). -/
inductive HashAlgorithm where
  | md5
  | sha1
  | sha224
  | sha256
  | sha384
  | sha512
deriving DecidableEq

/-- Bytes of a digest (`digest_size`). -/
def digestSize : HashAlgorithm → Nat
  | .md5 => 16
  | .sha1 => 20
  | .sha224 => 28
  | .sha256 => 32
  | .sha384 => 48
  | .sha512 => 64

structure Crypto where
  hash : HashAlgorithm → Str → Str
  hmac : HashAlgorithm → Str → Str → Str
  hash_length : ∀ algorithm data, (hash algorithm data).length = digestSize algorithm
  hmac_length : ∀ algorithm key data, (hmac algorithm key data).length = digestSize algorithm

def kMaxHashInputBytes : Nat := 1024 * 1024

def kMaxHashKeyBytes : Nat := 4096

def kMaxHashDigestBytes : Nat := 64

namespace Crypto

variable (crypto : Crypto)

/-- The digest with or without a key, in a buffer of `capacity` bytes (`rut_crypto_digest_unbounded_internal`). -/
def digestUnbounded (algorithm : HashAlgorithm) (data : Str) (key : Option Str) (capacity : Nat) : Option Str :=
  if capacity < digestSize algorithm then none
  else
    match key with
    | none => some (crypto.hash algorithm data)
    | some key => some (crypto.hmac algorithm key data)

/-- `rut_crypto_digest_v1`. -/
def digestV1 (algorithm : HashAlgorithm) (data : Str) (key : Option Str) (capacity : Nat) : Option Str :=
  if data.length > 1024 * 1024 ∨ (key.getD []).length > 4096 then none
  else crypto.digestUnbounded algorithm data key capacity

def partsFit : List Str → Nat → Bool
  | [], _ => true
  | part :: parts, total => part.length ≤ 1024 * 1024 + 4096 - total && partsFit parts (total + part.length)

/-- `rut_crypto_digest_parts_v1`. -/
def digestPartsV1 (algorithm : HashAlgorithm) (parts : List Str) (key : Option Str) (capacity : Nat) : Option Str :=
  if parts.length > 16 ∨ (key.getD []).length > 4096 then none
  else if !partsFit parts 0 then none
  else crypto.digestUnbounded algorithm parts.flatten key capacity

/-- `rut_crypto_hmac_long_key_v1`. -/
def hmacLongKeyV1 (algorithm : HashAlgorithm) (data key : Str) (capacity : Nat) : Option Str :=
  if data.length > 1024 * 1024 ∨ key.length > 0x7fffffff then none
  else crypto.digestUnbounded algorithm data (some key) capacity

variable {crypto} {algorithm : HashAlgorithm}

lemma digestUnbounded_of_some {data digest key capacity}
    (h : crypto.digestUnbounded algorithm data key capacity = some digest) :
    digest = key.elim (crypto.hash algorithm data) fun key => crypto.hmac algorithm key data := by
  cases key with
  | none =>
    rw [digestUnbounded] at h
    split_ifs at h
    exact (Option.some.inj h).symm
  | some key =>
    rw [digestUnbounded] at h
    split_ifs at h
    exact (Option.some.inj h).symm

lemma digestPartsV1_of_some {parts digest key capacity}
    (h : crypto.digestPartsV1 algorithm parts key capacity = some digest) :
    digest = key.elim (crypto.hash algorithm parts.flatten) fun key => crypto.hmac algorithm key parts.flatten := by
  rw [digestPartsV1] at h
  split_ifs at h
  exact digestUnbounded_of_some h

lemma digestV1_of_some {data digest key capacity} (h : crypto.digestV1 algorithm data key capacity = some digest) :
    digest = key.elim (crypto.hash algorithm data) fun key => crypto.hmac algorithm key data := by
  rw [digestV1] at h
  split_ifs at h
  exact digestUnbounded_of_some h

end Crypto

def alphabetChars (plus slash : Char) : Str :=
  lit ['A','B','C','D','E','F','G','H','I','J','K','L','M','N','O','P','Q','R','S','T','U','V','W',
    'X','Y','Z','a','b','c','d','e','f','g','h','i','j','k','l','m','n','o','p','q','r','s','t',
    'u','v','w','x','y','z','0','1','2','3','4','5','6','7','8','9', plus, slash]

def digitValue (plus slash : Char) (c : UInt8) : Option Nat :=
  if ch 'A' ≤ c ∧ c ≤ ch 'Z' then some (c.toNat - (ch 'A').toNat)
  else if ch 'a' ≤ c ∧ c ≤ ch 'z' then some (c.toNat - (ch 'a').toNat + 26)
  else if ch '0' ≤ c ∧ c ≤ ch '9' then some (c.toNat - (ch '0').toNat + 52)
  else if c = ch plus then some 62
  else if c = ch slash then some 63
  else none

def base64Value (c : UInt8) : Option Nat := digitValue '+' '/' c

/-- The digits `b64url_decode` reads. -/
def base64urlValue (c : UInt8) : Option Nat := digitValue '-' '_' c

def base64 : Alphabet where
  char d := (alphabetChars '+' '/').getD d 0
  value := base64Value
  value_char := by decide
  char_value := fun c =>
    forall_uint8 (P := fun c => ∀ d, base64Value c = some d → d < 64 ∧ (alphabetChars '+' '/').getD d 0 = c)
      (fun n hn d hd => by
        have hcheck : ∀ n < 256, ∀ d ∈ base64Value (UInt8.ofNat n),
            d < 64 ∧ (alphabetChars '+' '/').getD d 0 = UInt8.ofNat n := by decide +kernel
        exact hcheck n hn d hd) c

def base64url : Alphabet where
  char d := (alphabetChars '-' '_').getD d 0
  value := base64urlValue
  value_char := by decide
  char_value := fun c =>
    forall_uint8 (P := fun c => ∀ d, base64urlValue c = some d → d < 64 ∧ (alphabetChars '-' '_').getD d 0 = c)
      (fun n hn d hd => by
        have hcheck : ∀ n < 256, ∀ d ∈ base64urlValue (UInt8.ofNat n),
            d < 64 ∧ (alphabetChars '-' '_').getD d 0 = UInt8.ofNat n := by decide +kernel
        exact hcheck n hn d hd) c

/-- `rut_crypto_base64_encode_v1`. -/
def base64EncodeV1 (input : Str) (capacity : Nat) : Option Str :=
  if input.length > 1024 * 1024 then none
  else if capacity ≤ (input.length + 2) / 3 * 4 then none
  else some (base64.padded input)

lemma base64EncodeV1_of_some {input output capacity} (h : base64EncodeV1 input capacity = some output) :
    output = base64.padded input := by
  rw [base64EncodeV1] at h
  split_ifs at h
  exact (Option.some.inj h).symm

end Rut.Auth
