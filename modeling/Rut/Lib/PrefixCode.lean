import Mathlib

/-!
# Prefix codes

A code gives a word to each symbol so that no word is a prefix of another. What a decoder has read at any
time is a sequence of words and a proper prefix of the next one, and it is so in one way only. In a complete
code the decoder never gets stuck: each letter ends the current word or extends it.
-/

namespace Rut.Lib

structure PrefixCode (σ β : Type*) where
  word : σ → List β
  word_ne_nil : ∀ s, word s ≠ []
  word_inj_of_le : ∀ {s s'}, word s <+: word s' → s = s'

namespace PrefixCode

variable {σ β : Type*} (C : PrefixCode σ β)

def encode (ss : List σ) : List β := ss.flatMap C.word

def Pending (p : List β) : Prop := ∃ s, p <+: C.word s ∧ p ≠ C.word s

def Complete : Prop := ∀ {p}, C.Pending p → ∀ b, (∃ s, p ++ [b] = C.word s) ∨ C.Pending (p ++ [b])

/-- After the letters `bits` the decoder has read the symbols `ss` and `p` of the next word. -/
structure Parsed (bits : List β) (ss : List σ) (p : List β) : Prop where
  eq : bits = C.encode ss ++ p
  pending : C.Pending p

variable {C} {bits p p' : List β} {ss ss' : List σ} {s : σ} {b : β}

@[simp] lemma encode_nil : C.encode [] = [] := rfl

@[simp] lemma encode_cons : C.encode (s :: ss) = C.word s ++ C.encode ss := rfl

@[simp] lemma encode_append : C.encode (ss ++ ss') = C.encode ss ++ C.encode ss' := List.flatMap_append

lemma pending_nil (C : PrefixCode σ β) (s : σ) : C.Pending [] := ⟨s, List.nil_prefix, (C.word_ne_nil s).symm⟩

lemma Pending.not_word_le (h : C.Pending p) (s : σ) : ¬ C.word s <+: p := by
  obtain ⟨t, hpre, hne⟩ := h
  intro hs
  obtain rfl := C.word_inj_of_le (hs.trans hpre)
  exact hne (hpre.eq_of_length_le hs.length_le)

lemma Pending.length_lt (h : C.Pending p) {rest} (hw : C.word s <+: p ++ rest) : p.length < (C.word s).length := by
  by_contra hlen
  refine h.not_word_le s ?_
  exact List.prefix_of_prefix_length_le hw (List.prefix_append ..) (Nat.not_lt.mp hlen)

lemma word_inj_of_append {u v} (h : C.word s ++ u = C.word s' ++ v) : s = s' := by
  have hs : C.word s <+: C.word s' ++ v := ⟨u, h⟩
  rcases List.prefix_or_prefix_of_prefix hs (List.prefix_append ..) with hle | hle
  · exact C.word_inj_of_le hle
  · exact (C.word_inj_of_le hle).symm

/-- Letters are read in one way only. -/
theorem Parsed.unique (P : C.Parsed bits ss p) (P' : C.Parsed bits ss' p') : ss = ss' ∧ p = p' := by
  induction ss generalizing ss' bits with
  | nil =>
    have heq := P.eq.symm.trans P'.eq
    cases ss' with
    | nil => exact ⟨rfl, heq⟩
    | cons s' ss' =>
      have hpre : C.word s' <+: p := ⟨C.encode ss' ++ p', by rw [← List.append_assoc]; exact heq.symm⟩
      exact absurd hpre (P.pending.not_word_le s')
  | cons s ss ih =>
    have heq := P.eq.symm.trans P'.eq
    cases ss' with
    | nil =>
      have hpre : C.word s <+: p' := ⟨C.encode ss ++ p, by rw [← List.append_assoc]; exact heq⟩
      exact absurd hpre (P'.pending.not_word_le s)
    | cons s' ss' =>
      rw [encode_cons, encode_cons, List.append_assoc, List.append_assoc] at heq
      obtain rfl := word_inj_of_append heq
      rw [List.append_cancel_left_eq] at heq
      obtain ⟨rfl, rfl⟩ := ih ⟨rfl, P.pending⟩ ⟨heq, P'.pending⟩
      exact ⟨rfl, rfl⟩

lemma parsed_nil (h : C.Pending p) : C.Parsed p [] p := ⟨rfl, h⟩

lemma Parsed.ended (P : C.Parsed bits ss p) (h : p ++ [b] = C.word s) : C.Parsed (bits ++ [b]) (ss ++ [s]) [] := by
  refine ⟨?_, pending_nil C s⟩
  rw [P.eq, List.append_assoc, h, encode_append]
  simp

lemma Parsed.append {l new} (P : C.Parsed bits ss p) (P' : C.Parsed (p ++ l) new p') :
    C.Parsed (bits ++ l) (ss ++ new) p' := by
  refine ⟨?_, P'.pending⟩
  rw [P.eq, List.append_assoc, P'.eq, encode_append, List.append_assoc]

lemma Complete.parse (hC : C.Complete) (hp : C.Pending p) (l : List β) : ∃ new p', C.Parsed (p ++ l) new p' := by
  induction l generalizing p with
  | nil => exact ⟨[], p, by simpa using parsed_nil hp⟩
  | cons b l ih =>
    have hsplit : p ++ b :: l = (p ++ [b]) ++ l := by simp
    rw [hsplit]
    rcases hC hp b with ⟨s, hs⟩ | hpend
    · obtain ⟨new, p', P⟩ := ih (pending_nil C s)
      exact ⟨[s] ++ new, p', ((parsed_nil hp).ended hs).append P⟩
    · exact ih hpend

lemma Parsed.ended_le_one {l n} (P : C.Parsed (p ++ l) ss p') (hp : C.Pending p)
    (hmin : ∀ s, n < (C.word s).length) (hl : l.length ≤ n) : ss.length ≤ 1 := by
  match ss, P with
  | [], _ => exact Nat.zero_le _
  | [_], _ => exact Nat.le_refl _
  | s :: s' :: ss, P =>
    have heq := P.eq
    simp only [encode_cons, List.append_assoc] at heq
    have hlt := hp.length_lt (s := s) ⟨_, heq.symm⟩
    have hlen := congrArg List.length heq
    simp only [List.length_append] at hlen
    have hlong := hmin s'
    omega

end PrefixCode

end Rut.Lib
