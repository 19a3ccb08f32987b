import Mathlib.Algebra.BigOperators.Group.List.Basic
import Mathlib.Data.List.Induction

/-!
# Traces of a labelled transition system

A trace lists the steps of a run, each with the state it is taken in, so that what a run has done so far can be
computed from its trace. The rules are those for invariants, and for quantities that a ledger of the trace accounts
for.
-/

namespace Rut.Lib

variable {S A : Type*} {step : S → A → S → Prop} {s₀ s s' : S} {t t' : List (S × A)}

/-- The runs from `s₀`, with the steps they are made of. -/
inductive Trace (step : S → A → S → Prop) (s₀ : S) : List (S × A) → S → Prop where
  | nil : Trace step s₀ [] s₀
  | snoc {t : List (S × A)} {s s' : S} {a : A} (ht : Trace step s₀ t s) (hs : step s a s') :
      Trace step s₀ (t ++ [(s, a)]) s'

namespace Trace

lemma single {a : A} (h : step s a s') : Trace step s [(s, a)] s' := snoc (t := []) nil h

lemma trans (h : Trace step s₀ t s) (h' : Trace step s t' s') : Trace step s₀ (t ++ t') s' := by
  induction h' with
  | nil => rwa [List.append_nil]
  | snoc _ hs ih =>
    rw [← List.append_assoc]
    exact ih.snoc hs

lemma of_foldlM {f : S → A → Option S} {l} (h : l.foldlM f s = some s') :
    ∃ t, Trace (fun s a s' => f s a = some s') s t s' ∧ t.map Prod.snd = l := by
  induction l generalizing s with
  | nil =>
    cases h
    exact ⟨[], nil, rfl⟩
  | cons a l ih =>
    obtain ⟨s₁, h₁, h⟩ := Option.bind_eq_some_iff.mp h
    obtain ⟨t, ht, hl⟩ := ih h
    exact ⟨[(s, a)] ++ t, (single h₁).trans ht, by rw [List.map_append, hl]; rfl⟩

lemma split (h : Trace step s₀ (t ++ t') s') : ∃ s, Trace step s₀ t s ∧ Trace step s t' s' := by
  induction t' using List.reverseRecOn generalizing s' with
  | nil =>
    rw [List.append_nil] at h
    exact ⟨s', h, nil⟩
  | append_singleton t' e ih =>
    rw [← List.append_assoc] at h
    generalize ht : t ++ t' ++ [e] = u at h
    cases h with
    | nil => exact absurd ht (List.append_ne_nil_of_right_ne_nil _ (List.cons_ne_nil _ _))
    | snoc hbefore hs =>
      obtain ⟨rfl, he⟩ := List.append_inj' ht rfl
      cases List.singleton_inj.mp he
      obtain ⟨m, h₁, h₂⟩ := ih hbefore
      exact ⟨m, h₁, h₂.snoc hs⟩

lemma of_nil (h : Trace step s₀ [] s) : s₀ = s := by
  generalize ht : [] = u at h
  cases h with
  | nil => rfl
  | snoc => exact absurd ht.symm (List.append_ne_nil_of_right_ne_nil _ (List.cons_ne_nil _ _))

lemma uncons {e} (h : Trace step s₀ (e :: t) s') : s₀ = e.1 ∧ ∃ s, step e.1 e.2 s ∧ Trace step s t s' := by
  have hcons : Trace step s₀ ([e] ++ t) s' := h
  obtain ⟨s, h₁, h₂⟩ := hcons.split
  generalize ht : [e] = u at h₁
  cases h₁ with
  | nil => cases ht
  | @snoc u v _ a hbefore hs =>
    have hnil : [] ++ [e] = u ++ [(v, a)] := ht
    obtain ⟨hu, he⟩ := List.append_inj' hnil rfl
    subst hu
    cases List.singleton_inj.mp he
    exact ⟨hbefore.of_nil, s, hs, h₂⟩

lemma inv {ok : S × A → Prop} {I : S → Prop} (h : Trace step s₀ t s) (hok : ∀ e ∈ t, ok e) (h₀ : I s₀)
    (hstep : ∀ s a s', ok (s, a) → I s → step s a s' → I s') : I s := by
  induction h with
  | nil => exact h₀
  | snoc _ hs ih =>
    have hbefore := ih fun e he => hok e (List.mem_append_left _ he)
    exact hstep _ _ _ (hok _ (List.mem_append_right _ (List.mem_singleton_self _))) hbefore hs

lemma mem {e} (h : Trace step s₀ t s) (he : e ∈ t) : ∃ t₁ t₂, t = t₁ ++ t₂ ∧ Trace step s₀ t₁ e.1 := by
  induction h with
  | nil => exact absurd he (List.not_mem_nil)
  | @snoc t s s' a ht _ ih =>
    rcases List.mem_append.mp he with he | he
    · obtain ⟨t₁, t₂, rfl, h₁⟩ := ih he
      exact ⟨t₁, t₂ ++ [(s, a)], (List.append_assoc ..), h₁⟩
    · cases List.mem_singleton.mp he
      exact ⟨t, _, rfl, ht⟩

end Trace

end Rut.Lib
