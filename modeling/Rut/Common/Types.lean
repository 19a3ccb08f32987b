import Mathlib

/-!
# Byte strings

Port of the part of `include/rut/common/types.h` the models share. A `Str` of the source is a
non-owning view `{ptr, len}`; every modelled function only reads the bytes the view shows, so a
view is the list of these bytes and `Str::eq` is equality of lists. Character constants are written
as the source writes them and coerced by `ch`.
-/

namespace Rut

/-- A byte view (`Str`). -/
abbrev Str := List UInt8

def ch (c : Char) : UInt8 := c.toUInt8

@[simp] lemma ch_toNat (c : Char) : (ch c).toNat = c.toNat % 256 := rfl

@[simp] lemma ch_inj (a b : Char) : ch a = ch b ↔ a.toNat % 256 = b.toNat % 256 := by
  rw [← UInt8.toNat_inj, ch_toNat, ch_toNat]

/-- The bytes of a string constant of the source, given by its characters. -/
def lit (cs : List Char) : Str := cs.map ch

lemma forall_uint8 {P : UInt8 → Prop} (h : ∀ n < 256, P (UInt8.ofNat n)) (a : UInt8) : P a := by
  have := h a.toNat a.toNat_lt
  rwa [UInt8.ofNat_toNat] at this

end Rut
