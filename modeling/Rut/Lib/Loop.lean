import Mathlib

/-!
# Bounded loops

A loop whose body either continues with a new state or leaves with a result. The body runs at most
`fuel` times; the rule below shows from an invariant and a measure that it leaves in time.
-/

namespace Rut.Lib

variable {σ ρ : Type*}

/-- Run `step` until it leaves, at most `fuel` times. -/
def loop (step : σ → σ ⊕ ρ) : Nat → σ → Option ρ
  | 0, _ => none
  | fuel + 1, s =>
    match step s with
    | .inl s' => loop step fuel s'
    | .inr r => some r

lemma loop_succ (step : σ → σ ⊕ ρ) (fuel : Nat) (s : σ) : loop step (fuel + 1) s =
    match step s with
    | .inl s' => loop step fuel s'
    | .inr r => some r := rfl

/-- Total correctness: the body keeps the invariant, decreases the measure and leaves with the
postcondition. -/
theorem loop_total {step : σ → σ ⊕ ρ} (inv : σ → Prop) (post : ρ → Prop) (measure : σ → Nat)
    (hstep : ∀ {s s'}, inv s → step s = .inl s' → inv s' ∧ measure s' < measure s)
    (hleave : ∀ {s r}, inv s → step s = .inr r → post r) {s fuel} (hs : inv s)
    (hfuel : measure s < fuel) : ∃ r, loop step fuel s = some r ∧ post r := by
  induction fuel generalizing s with
  | zero => omega
  | succ fuel ih =>
    rw [loop_succ]
    cases hr : step s with
    | inl s' =>
      obtain ⟨hs', hlt⟩ := hstep hs hr
      exact ih hs' (by omega)
    | inr r => exact ⟨r, rfl, hleave hs hr⟩

/-- Two loops in lockstep return the same result. -/
theorem loop_congr {τ : Type*} {step : σ → σ ⊕ ρ} {step' : τ → τ ⊕ ρ} (R : σ → τ → Prop)
    (hstep : ∀ {s s'}, R s s' → Sum.LiftRel R Eq (step s) (step' s')) {s s' fuel} (hs : R s s') :
    loop step fuel s = loop step' fuel s' := by
  induction fuel generalizing s s' with
  | zero => rfl
  | succ fuel ih =>
    rw [loop_succ, loop_succ]
    have h := hstep hs
    generalize step s = a at h
    generalize step' s' = b at h
    cases h with
    | inl h => exact ih h
    | inr h => rw [h]

/-- The loop leaves with `r` after enough turns. -/
def LoopsTo (step : σ → σ ⊕ ρ) (s : σ) (r : ρ) : Prop := ∃ fuel, loop step fuel s = some r

lemma loopsTo_step {step : σ → σ ⊕ ρ} {s s' r} (h : step s = .inl s') : LoopsTo step s r ↔ LoopsTo step s' r := by
  constructor
  · rintro ⟨fuel, hf⟩
    cases fuel with
    | zero => cases hf
    | succ fuel =>
      rw [loop_succ, h] at hf
      exact ⟨fuel, hf⟩
  · rintro ⟨fuel, hf⟩
    exact ⟨fuel + 1, by rw [loop_succ, h]; exact hf⟩

lemma loopsTo_leave {step : σ → σ ⊕ ρ} {s r r'} (h : step s = .inr r') : LoopsTo step s r ↔ r = r' := by
  constructor
  · rintro ⟨fuel, hf⟩
    cases fuel with
    | zero => cases hf
    | succ fuel =>
      rw [loop_succ, h] at hf
      exact (Option.some.inj hf).symm
  · rintro rfl
    exact ⟨1, by rw [loop_succ, h]⟩

lemma loopsTo_congr {step : σ → σ ⊕ ρ} {s s'} (h : step s = step s') (r : ρ) :
    LoopsTo step s r ↔ LoopsTo step s' r := by
  cases hs : step s with
  | inl t => exact (loopsTo_step hs).trans (loopsTo_step (h.symm.trans hs)).symm
  | inr t => exact (loopsTo_leave hs).trans (loopsTo_leave (h.symm.trans hs)).symm

lemma loop_add {step : σ → σ ⊕ ρ} {fuel s r} (h : loop step fuel s = some r) (k : Nat) :
    loop step (fuel + k) s = some r := by
  induction fuel generalizing s with
  | zero => cases h
  | succ fuel ih =>
    rw [Nat.succ_add, loop_succ]
    rw [loop_succ] at h
    cases hs : step s with
    | inl s' =>
      rw [hs] at h
      exact ih h
    | inr r' =>
      rw [hs] at h
      exact h

lemma LoopsTo.unique {step : σ → σ ⊕ ρ} {s r r'} (h : LoopsTo step s r) (h' : LoopsTo step s r') : r = r' := by
  obtain ⟨fuel, hf⟩ := h
  obtain ⟨fuel', hf'⟩ := h'
  have h₁ := loop_add hf fuel'
  have h₂ := loop_add hf' fuel
  rw [Nat.add_comm, h₁] at h₂
  exact Option.some.inj h₂

/-- Induction over the turns of a loop that ends. -/
theorem LoopsTo.induct {step : σ → σ ⊕ ρ} {r : ρ} {P : σ → Prop} (hleave : ∀ s, step s = .inr r → P s)
    (hstep : ∀ s s', step s = .inl s' → LoopsTo step s' r → P s' → P s) {s : σ} (h : LoopsTo step s r) : P s := by
  obtain ⟨fuel, hf⟩ := h
  induction fuel generalizing s with
  | zero => cases hf
  | succ fuel ih =>
    rw [loop_succ] at hf
    cases hs : step s with
    | inl s' =>
      rw [hs] at hf
      exact hstep s s' hs ⟨fuel, hf⟩ (ih hf)
    | inr r' =>
      rw [hs] at hf
      cases hf
      exact hleave s hs

/-- A fold that may fail keeps an invariant over the part of the list it has read. -/
theorem foldlM_inv {α : Type*} {step : σ → α → Option σ} (inv : List α → σ → Prop)
    (hstep : ∀ {done s a s'}, inv done s → step s a = some s' → inv (done ++ [a]) s') (done : List α) {l s s'}
    (hs : inv done s) (h : l.foldlM step s = some s') : inv (done ++ l) s' := by
  induction l generalizing done s with
  | nil =>
    cases h
    rwa [List.append_nil]
  | cons a l ih =>
    obtain ⟨s₁, h₁, h⟩ := Option.bind_eq_some_iff.mp h
    rw [List.append_cons]
    exact ih _ (hstep hs h₁) h

end Rut.Lib
