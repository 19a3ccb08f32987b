import Mathlib

/-!
# Incremental readers

A reader looks at the tokens received so far and either produces a value and the unread tokens, fails for good, or
stalls (with a reason of type `ε`) until more tokens have arrived. It is stable when a value only depends on the tokens
it has read, and a failure is final. Stable readers are closed under sequencing.
-/

namespace Rut.Incremental

inductive Read (τ ε α : Type) where
  | done (value : α) (rest : List τ)
  | fail
  | stall (reason : ε)
deriving DecidableEq

def Reader (τ ε α : Type) := List τ → Read τ ε α

variable {τ ε α β : Type}

namespace Reader

/-- Run `p`, then `f` on its value and the unread tokens. -/
def bind (p : Reader τ ε α) (f : α → Reader τ ε β) : Reader τ ε β := fun s =>
  match p s with
  | .done a rest => f a rest
  | .fail => .fail
  | .stall e => .stall e

def pure (a : α) : Reader τ ε α := fun s => .done a s

def failure : Reader τ ε α := fun _ => .fail

def token (e : ε) : Reader τ ε τ := fun
  | [] => .stall e
  | t :: rest => .done t rest

/-- Read `n` tokens. -/
def take (n : Nat) (e : ε) : Reader τ ε (List τ) := fun s =>
  if n ≤ s.length then .done (s.take n) (s.drop n) else .stall e

instance : Monad (Reader τ ε) where
  pure := Reader.pure
  bind := Reader.bind

end Reader

lemma Reader.bind_eq_done {p} {f : α → Reader τ ε β} {s r b} :
    (p >>= f) s = .done b r ↔ ∃ a r', p s = .done a r' ∧ f a r' = .done b r := by
  constructor
  · intro h
    simp only [Bind.bind, Reader.bind] at h
    cases hp : p s with
    | done a r' =>
      rw [hp] at h
      exact ⟨a, r', rfl, h⟩
    | fail => rw [hp] at h; cases h
    | stall e => rw [hp] at h; cases h
  · rintro ⟨a, r', hp, hf⟩
    simp only [Bind.bind, Reader.bind, hp, hf]

lemma Reader.pure_eq_done {s r : List τ} {a b : α} : (Pure.pure a : Reader τ ε α) s = .done b r ↔ a = b ∧ s = r :=
  ⟨fun h => by cases h; exact ⟨rfl, rfl⟩, fun ⟨ha, hs⟩ => by rw [ha, hs]; rfl⟩

lemma Reader.token_eq_done {s r : List τ} {e : ε} {t} : Reader.token e s = .done t r ↔ s = t :: r := by
  constructor
  · intro h
    cases s with
    | nil => cases h
    | cons x rest =>
      cases h
      rfl
  · rintro rfl
    rfl

lemma Reader.take_eq_done {n} {s r l : List τ} {e : ε} : Reader.take n e s = .done l r ↔ s = l ++ r ∧ l.length = n := by
  unfold Reader.take
  constructor
  · intro h
    split at h
    · rename_i hn
      cases h
      exact ⟨(List.take_append_drop n s).symm, List.length_take_of_le hn⟩
    · cases h
  · rintro ⟨rfl, rfl⟩
    rw [if_pos (by rw [List.length_append]; exact Nat.le_add_right _ _), List.take_left, List.drop_left]

structure Stable (p : Reader τ ε α) : Prop where
  done : ∀ {s a r}, p s = .done a r → ∃ u, s = u ++ r ∧ ∀ t, p (u ++ t) = .done a t
  fail : ∀ {s} t, p s = .fail → p (s ++ t) = .fail

namespace Stable

lemma pure (a : α) : Stable (Pure.pure a : Reader τ ε α) where
  done := by
    rintro s b r h
    cases h
    exact ⟨[], rfl, fun t => rfl⟩
  fail := by
    intro s t h
    cases h

lemma failure : Stable (Reader.failure : Reader τ ε α) where
  done := by
    intro s a r h
    cases h
  fail := fun _ _ => rfl

lemma token (e : ε) : Stable (Reader.token e : Reader τ ε τ) where
  done := by
    intro s a r h
    cases s with
    | nil => cases h
    | cons t rest =>
      cases h
      exact ⟨[a], rfl, fun _ => rfl⟩
  fail := by
    intro s t h
    cases s <;> cases h

lemma take (n : Nat) (e : ε) : Stable (Reader.take n e : Reader τ ε (List τ)) where
  done := by
    intro s a r h
    unfold Reader.take at h ⊢
    split at h
    · rename_i hn
      cases h
      have hlen : (s.take n).length = n := List.length_take_of_le hn
      refine ⟨s.take n, (List.take_append_drop n s).symm, fun t => ?_⟩
      rw [if_pos (by rw [List.length_append, hlen]; exact Nat.le_add_right n t.length), List.take_left' hlen,
        List.drop_left' hlen]
    · cases h
  fail := by
    intro s t h
    unfold Reader.take at h
    split at h <;> cases h

lemma ite {c} [Decidable c] {p q : Reader τ ε α} (hp : Stable p) (hq : Stable q) : Stable (if c then p else q) := by
  split
  · exact hp
  · exact hq

lemma bind {p} {f : α → Reader τ ε β} (hp : Stable p) (hf : ∀ a, Stable (f a)) : Stable (p >>= f) where
  done := by
    intro s b r h
    simp only [Bind.bind, Reader.bind] at h ⊢
    cases hps : p s with
    | done a rest =>
      rw [hps] at h
      obtain ⟨u, rfl, hu⟩ := hp.done hps
      obtain ⟨v, rfl, hv⟩ := (hf a).done h
      exact ⟨u ++ v, by simp, fun t => by simp [hu, hv]⟩
    | fail => rw [hps] at h; cases h
    | stall e => rw [hps] at h; cases h
  fail := by
    intro s t h
    simp only [Bind.bind, Reader.bind] at h ⊢
    cases hps : p s with
    | done a rest =>
      rw [hps] at h
      obtain ⟨u, rfl, hu⟩ := hp.done hps
      rw [List.append_assoc, hu]
      exact (hf a).fail t h
    | fail => rw [hp.fail t hps]
    | stall e => rw [hps] at h; cases h

lemma done_append {p : Reader τ ε α} (hp : Stable p) {s a r} (h : p s = .done a r) (t : List τ) :
    p (s ++ t) = .done a (r ++ t) := by
  obtain ⟨u, rfl, hu⟩ := hp.done h
  rw [List.append_assoc, hu]

lemma done_take {p : Reader τ ε α} (hp : Stable p) {s a r} (h : p s = .done a r) :
    p (s.take (s.length - r.length)) = .done a [] := by
  obtain ⟨u, rfl, hu⟩ := hp.done h
  simpa using hu []

lemma stall_of_lt {p : Reader τ ε α} (hp : Stable p) {s a r q} (h : p s = .done a r)
    (hq : q <+: s) (hlt : q.length < s.length - r.length) : ∃ e, p q = .stall e := by
  obtain ⟨t, rfl⟩ := hq
  cases hpq : p q with
  | stall e => exact ⟨e, rfl⟩
  | fail =>
    rw [hp.fail t hpq] at h
    cases h
  | done b r' =>
    rw [hp.done_append hpq] at h
    cases h
    simp only [List.length_append] at hlt
    omega

lemma done_of_le {p : Reader τ ε α} (hp : Stable p) {s a r q} (h : p s = .done a r)
    (hq : q <+: s) (hle : s.length - r.length ≤ q.length) : ∃ r', p q = .done a r' := by
  obtain ⟨u, rfl, hu⟩ := hp.done h
  have hle : u.length ≤ q.length := by simpa using hle
  obtain ⟨v, rfl⟩ := List.prefix_of_prefix_length_le (List.prefix_append u r) hq hle
  exact ⟨v, hu v⟩

end Stable

end Rut.Incremental
