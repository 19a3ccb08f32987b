import Rut.Lib.Incremental

/-!
# Machines on streams

A machine reads items from a stream with a reader that may depend on its state, and acts on each of them, until it ends,
fails or needs more of the stream. What it answers is determined by the stream. A run that has read a part of the stream
resumes the machine: whatever it answers from there on is what the machine answers on the whole stream.
-/

namespace Rut.Lib

open Incremental

/-- A machine with states `σ` that reads items `α` from tokens `τ`, puts out events `ω` and ends with a verdict `ν`. -/
structure Machine (τ ε σ α ω ν : Type) where
  reader : σ → Reader τ ε α
  stable : ∀ s, Stable (reader s)
  act : σ → α → List ω × (σ ⊕ ν)
  failed : ν

namespace Machine

variable {τ ε σ α ω ν : Type} (M : Machine τ ε σ α ω ν)

/-- The items that a machine reads from a stream, the events and the verdict, if there is one. -/
inductive Answers : σ → List τ → List α → List ω → Option ν → Prop where
  | wait {s : σ} {l : List τ} {e : ε} (h : M.reader s l = .stall e) : Answers s l [] [] none
  | fail {s : σ} {l : List τ} (h : M.reader s l = .fail) : Answers s l [] [] (some M.failed)
  | last {s : σ} {l r : List τ} {a : α} {ws : List ω} {v : ν} (h : M.reader s l = .done a r)
      (ha : M.act s a = (ws, .inr v)) : Answers s l [a] ws (some v)
  | step {s s' : σ} {l r : List τ} {a : α} {as : List α} {ws ws' : List ω} {v : Option ν} (h : M.reader s l = .done a r)
      (ha : M.act s a = (ws, .inl s')) (hs : Answers s' r as ws' v) : Answers s l (a :: as) (ws ++ ws') v

variable {M}

namespace Answers

variable {s : σ} {l : List τ} {as as' : List α} {ws ws' : List ω} {v v' : Option ν}

/-- The stream determines the answer. -/
theorem unique (h : M.Answers s l as ws v) (h' : M.Answers s l as' ws' v') : as = as' ∧ ws = ws' ∧ v = v' := by
  induction h generalizing as' ws' v' with
  | wait h =>
    cases h' with
    | wait => exact ⟨rfl, rfl, rfl⟩
    | fail h₁ => rw [h] at h₁; cases h₁
    | last h₁ => rw [h] at h₁; cases h₁
    | step h₁ => rw [h] at h₁; cases h₁
  | fail h =>
    cases h' with
    | wait h₁ => rw [h] at h₁; cases h₁
    | fail => exact ⟨rfl, rfl, rfl⟩
    | last h₁ => rw [h] at h₁; cases h₁
    | step h₁ => rw [h] at h₁; cases h₁
  | last h ha =>
    cases h' with
    | wait h₁ => rw [h] at h₁; cases h₁
    | fail h₁ => rw [h] at h₁; cases h₁
    | last h₁ ha₁ =>
      rw [h] at h₁
      cases h₁
      rw [ha] at ha₁
      cases ha₁
      exact ⟨rfl, rfl, rfl⟩
    | step h₁ ha₁ =>
      rw [h] at h₁
      cases h₁
      rw [ha] at ha₁
      cases ha₁
  | step h ha _ ih =>
    cases h' with
    | wait h₁ => rw [h] at h₁; cases h₁
    | fail h₁ => rw [h] at h₁; cases h₁
    | last h₁ ha₁ =>
      rw [h] at h₁
      cases h₁
      rw [ha] at ha₁
      cases ha₁
    | step h₁ ha₁ hs₁ =>
      rw [h] at h₁
      cases h₁
      rw [ha] at ha₁
      cases ha₁
      obtain ⟨rfl, rfl, rfl⟩ := ih hs₁
      exact ⟨rfl, rfl, rfl⟩

end Answers

variable (M)

inductive Path (s₀ : σ) : List α → List ω → σ → Prop where
  | nil : Path s₀ [] [] s₀
  | snoc {s s' : σ} {l r : List τ} {a : α} {as : List α} {ws w : List ω} (h : Path s₀ as ws s)
      (hr : M.reader s l = .done a r) (ha : M.act s a = (w, .inl s')) : Path s₀ (as ++ [a]) (ws ++ w) s'

/-- A run has read items and put out events, and goes on from a state on what is left. -/
structure Resumes (s₀ : σ) (all : List τ) (s : σ) (rest : List τ) (as : List α) (ws : List ω) : Prop where
  path : M.Path s₀ as ws s
  answers : ∀ q as' ws' v, M.Answers s (rest ++ q) as' ws' v → M.Answers s₀ (all ++ q) (as ++ as') (ws ++ ws') v

/-- The machine has ended with its last item, or failed to read one, whatever follows on the stream. -/
structure Ended (s₀ : σ) (all : List τ) (as : List α) (ws : List ω) (v : ν) : Prop where
  path : ∃ s as₁ ws₁, M.Path s₀ as₁ ws₁ s ∧
    ((∃ a w l r, M.reader s l = .done a r ∧ M.act s a = (w, .inr v) ∧ as = as₁ ++ [a] ∧ ws = ws₁ ++ w) ∨
      (v = M.failed ∧ as = as₁ ∧ ws = ws₁))
  answers : ∀ q, M.Answers s₀ (all ++ q) as ws (some v)

variable {M}

lemma Ended.feed {s₀ all as ws v} (h : M.Ended s₀ all as ws v) (c : List τ) : M.Ended s₀ (all ++ c) as ws v where
  path := h.path
  answers := by
    intro q
    rw [List.append_assoc]
    exact h.answers (c ++ q)

namespace Resumes

variable {s₀ s s' : σ} {all rest r : List τ} {a : α} {as : List α} {ws w : List ω} {v : ν}

lemma refl (s : σ) (l : List τ) : M.Resumes s l s l [] [] := ⟨.nil, fun _ _ _ _ h => h⟩

lemma feed (h : M.Resumes s₀ all s rest as ws) (c : List τ) : M.Resumes s₀ (all ++ c) s (rest ++ c) as ws where
  path := h.path
  answers := by
    intro q as' ws' v ha
    rw [List.append_assoc] at ha ⊢
    exact h.answers (c ++ q) as' ws' v ha

lemma step (h : M.Resumes s₀ all s rest as ws) (hr : M.reader s rest = .done a r) (ha : M.act s a = (w, .inl s')) :
    M.Resumes s₀ all s' r (as ++ [a]) (ws ++ w) where
  path := h.path.snoc hr ha
  answers := by
    intro q as' ws' v hans
    have hstep := h.answers q (a :: as') (w ++ ws') v (.step ((M.stable s).done_append hr q) ha hans)
    rwa [List.append_assoc, List.append_assoc]

lemma last (h : M.Resumes s₀ all s rest as ws) (hr : M.reader s rest = .done a r) (ha : M.act s a = (w, .inr v)) :
    M.Ended s₀ all (as ++ [a]) (ws ++ w) v where
  path := ⟨s, as, ws, h.path, .inl ⟨a, w, rest, r, hr, ha, rfl, rfl⟩⟩
  answers := fun q => h.answers q [a] w (some v) (.last ((M.stable s).done_append hr q) ha)

lemma fail (h : M.Resumes s₀ all s rest as ws) (hr : M.reader s rest = .fail) : M.Ended s₀ all as ws M.failed where
  path := ⟨s, as, ws, h.path, .inr ⟨rfl, rfl, rfl⟩⟩
  answers := by
    intro q
    have hfail := h.answers q [] [] (some M.failed) (.fail ((M.stable s).fail q hr))
    rwa [List.append_nil, List.append_nil] at hfail

lemma wait {e} (h : M.Resumes s₀ all s rest as ws) (hr : M.reader s rest = .stall e) : M.Answers s₀ all as ws none := by
  have hwait := h.answers [] [] [] none (.wait (by rwa [List.append_nil]))
  rwa [List.append_nil, List.append_nil, List.append_nil] at hwait

end Resumes

end Machine

end Rut.Lib
