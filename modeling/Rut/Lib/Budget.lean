import Mathlib

/-!
# Budgets

Operations that allocate from bounded pools and fail when a pool is exhausted. `used s k` counts what the
state `s` has taken from the pool `k`. The cost of an operation says when it succeeds and what it has
taken then; costs of operations in sequence add up.
-/

namespace Rut.Lib

section budget

variable {σ κ β γ : Type*} (used : σ → κ → Nat) (cap : κ → Nat)

/-- The pools have `need` left. -/
def Fits (s : σ) (need : κ → Nat) : Prop := ∀ k, used s k + need k ≤ cap k

/-- The operation succeeds exactly if the pools have `need` left, and takes it then. -/
def Costs (s : σ) (need : κ → Nat) : Option (σ × β) → Prop
  | none => ¬ Fits used cap s need
  | some (s', _) => Fits used cap s need ∧ ∀ k, used s' k = used s k + need k

variable {used cap} {s s₀ : σ} {need need' : κ → Nat} {r : Option (σ × β)}

lemma Fits.mono (h : Fits used cap s need') (hle : ∀ k, need k ≤ need' k) : Fits used cap s need :=
  fun k => Nat.le_trans (Nat.add_le_add_left (hle k) _) (h k)

lemma Costs.isSome_iff (h : Costs used cap s need r) : r.isSome = true ↔ Fits used cap s need := by
  cases r with
  | none => exact ⟨fun h => (nomatch h), fun hfits => absurd hfits h⟩
  | some p => exact ⟨fun _ => h.1, fun _ => rfl⟩

lemma Costs.fits_after {s'} {b : β} (h : Costs used cap s need (some (s', b))) : Fits used cap s' 0 := by
  intro k
  have := h.1 k
  have := h.2 k
  simp only [Pi.zero_apply]
  omega

lemma costs_zero (hfits : Fits used cap s 0) {s' : σ} {b : β} (h : ∀ k, used s' k = used s k) :
    Costs used cap s 0 (some (s', b)) :=
  ⟨hfits, by simpa using h⟩

lemma Costs.congr (h : Costs used cap s need r) (hs : ∀ k, used s₀ k = used s k)
    (hneed : ∀ k, need' k = need k) : Costs used cap s₀ need' r := by
  cases r with
  | none => simpa [Costs, Fits, hs, hneed] using h
  | some p => simpa [Costs, Fits, hs, hneed] using h

/-- The costs of two operations in sequence add up. -/
theorem Costs.bind {f : σ × β → Option (σ × γ)} (need' : κ → Nat) (h : Costs used cap s need r)
    (hf : ∀ s' b, r = some (s', b) → Costs used cap s' need' (f (s', b))) :
    Costs used cap s (need + need') (r.bind f) := by
  cases r with
  | none => exact fun hfits => h (hfits.mono fun k => Nat.le_add_right ..)
  | some p =>
    obtain ⟨s', b⟩ := p
    obtain ⟨hfits, hused⟩ := h
    have hf := hf s' b rfl
    have hiff : Fits used cap s' need' ↔ Fits used cap s (need + need') := by
      simp only [Fits, hused, Pi.add_apply, Nat.add_assoc]
    rw [Option.bind_some]
    cases hr : f (s', b) with
    | none =>
      rw [hr] at hf
      exact fun hall => hf (hiff.mpr hall)
    | some p =>
      rw [hr] at hf
      refine ⟨hiff.mp hf.1, fun k => ?_⟩
      rw [hf.2, hused, Pi.add_apply, Nat.add_assoc]

end budget

end Rut.Lib
