import Rut.Common.Types

/-!
# Decimal numbers

The decimal text of a `u32`, as `u32_to_dec` of `src/runtime/http2_conn.cc` and `h2_inject_content_length` of
`include/rut/runtime/callbacks_h2.h` render it: the digits `v % 10` are collected from the low end and reversed.
-/

namespace Rut

def u32ToDec (v : Nat) : Str :=
  if v = 0 then [ch '0'] else ((Nat.digits 10 v).map fun d => UInt8.ofNat ((ch '0').toNat + d)).reverse

lemma length_u32ToDec {v} (hv : v < 2 ^ 32) : 1 ≤ (u32ToDec v).length ∧ (u32ToDec v).length ≤ 10 := by
  rw [u32ToDec]
  by_cases h : v = 0
  · rw [if_pos h, List.length_singleton]
    decide
  · rw [if_neg h, List.length_reverse, List.length_map]
    have hlen : (Nat.digits 10 v).length ≤ 10 := (Nat.digits_length_le_iff (by decide) v).mpr (by omega)
    exact ⟨List.length_pos_of_ne_nil (Nat.digits_ne_nil_iff_ne_zero.mpr h), hlen⟩

end Rut
