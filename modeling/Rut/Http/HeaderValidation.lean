import Rut.Http.Fields

/-!
# Header validation

Port of `include/rut/common/http_header_validation.h`.
-/

namespace Rut.Http

/-- The words of the bit set of token bytes (`kTokenBits`). -/
def kTokenBits : List Nat := [0x03ff6cfa00000000, 0x57ffffffc7fffffe, 0x0000000000000000, 0x0000000000000000]

/-- Token characters (`is_http_tchar`). -/
def isHttpTchar (c : UInt8) : Bool := (kTokenBits.getD (c.toNat / 64) 0).testBit (c.toNat % 64)

/-- Comparison without case (`http_header_name_eq_ci`). -/
def httpHeaderNameEqCi (a b : Str) : Bool := lower a == lower b

/-- Verdicts on a header (`HttpHeaderValidation`). -/
inductive HttpHeaderValidation where
  | ok
  | emptyKey
  | invalidKeyChar
  | invalidValueChar
  | reservedKey
deriving DecidableEq

/-- Names the runtime manages itself (`is_reserved_response_header_name`). -/
def isReservedResponseHeaderName (name : Str) : Bool :=
  httpHeaderNameEqCi name (lit ['C','o','n','t','e','n','t','-','L','e','n','g','t','h']) ||
  httpHeaderNameEqCi name
    (lit ['T','r','a','n','s','f','e','r','-','E','n','c','o','d','i','n','g']) ||
  httpHeaderNameEqCi name (lit ['C','o','n','n','e','c','t','i','o','n'])

def isValueByte (c : UInt8) : Bool := c == ch '\t' || !(c < 0x20 || c == 0x7f)

/-- Check a header to be written (`validate_response_header`). -/
def validateResponseHeader (key value : Str) : HttpHeaderValidation :=
  if key = [] then .emptyKey
  else if !key.all isHttpTchar then .invalidKeyChar
  else if isReservedResponseHeaderName key then .reservedKey
  else if !value.all isValueByte then .invalidValueChar
  else .ok

lemma isHttpTchar_eq (c : UInt8) : isHttpTchar c = tableAt kTokenTable c := by
  rw [tableAt_token]
  revert c
  exact forall_uint8 (by decide +kernel)

lemma isValueByte_eq (c : UInt8) : isValueByte c = tableAt kHeaderValueTable c := by
  rw [tableAt_value]
  revert c
  exact forall_uint8 (by decide +kernel)

lemma httpHeaderNameEqCi_iff {a b : Str} : httpHeaderNameEqCi a b = true ↔ lower a = lower b := beq_iff_eq

end Rut.Http
