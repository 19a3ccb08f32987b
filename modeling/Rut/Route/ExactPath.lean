import Rut.Common.Types
import Rut.Lib.Collapse
import Rut.Lib.Memory

/-!
# Exact paths

Port of `normalize_exact_path_slashes` of `include/rut/common/exact_path_view.h`. A first pass over the path counts the
bytes of its key, a second one writes them. The addresses are kept for the checks that the ranges do not overlap.
-/

namespace Rut.Route

open Lib

def kMaxExactPathViewLen : Nat := 62

def uintptrMax : Nat := 2 ^ 64 - 1

inductive ExactPathNormalizationResult where
  | success
  | invalidInput
  | outputOverflow
deriving DecidableEq

structure Pointers where
  raw : Nat
  output : Nat
  output_len : Nat
deriving DecidableEq

structure KeyStorage where
  output : Nat → UInt8
  output_len : Nat

/-- The loop that looks for the end of the path, absent if it meets a byte that is refused. -/
def pathEnd : Str → Nat → Option Nat
  | [], path_end => some path_end
  | c :: s, path_end =>
    if c = ch '?' then some path_end
    else if c = ch '#' ∨ c < 0x20 ∨ c = 0x7f then none
    else pathEnd s (path_end + 1)

def countLoop : Str → Bool → Nat → Nat
  | [], _, normalized_len => normalized_len
  | c :: s, previous_slash, normalized_len =>
    let slash := c == ch '/'
    countLoop s slash (if !slash || !previous_slash then normalized_len + 1 else normalized_len)

def writeLoop : Str → Bool → Nat → (Nat → UInt8) → Nat × (Nat → UInt8)
  | [], _, written, output => (written, output)
  | c :: s, previous_slash, written, output =>
    let slash := c == ch '/'
    if !slash || !previous_slash then writeLoop s slash (written + 1) (Memory.write output written [c])
    else writeLoop s slash written output

/-- `ranges_overlap`. -/
def ranges_overlap (first_begin first_end second_begin second_end : Nat) : Bool :=
  decide (first_begin < second_end) && decide (second_begin < first_end)

/-- `normalize_exact_path_slashes`: the result and what then stands at the output and its length. -/
def normalize_exact_path_slashes (ptrs : Pointers) (raw : Str) (output_capacity : Nat) (st : KeyStorage) :
    ExactPathNormalizationResult × KeyStorage :=
  if ptrs.raw = 0 ∨ raw.length = 0 ∨ ptrs.output = 0 ∨ ptrs.output_len = 0 then (.invalidInput, st)
  else if raw.length > uintptrMax - ptrs.raw then (.invalidInput, st)
  else if raw.head? ≠ some (ch '/') then (.invalidInput, st)
  else
    match pathEnd raw 0 with
    | none => (.invalidInput, st)
    | some path_end =>
      if path_end > 1 ∧ raw[1]? = some (ch '/') then (.invalidInput, st)
      else
        let normalized_len := countLoop (raw.take path_end) false 0
        if normalized_len > kMaxExactPathViewLen ∨ normalized_len > output_capacity then (.outputOverflow, st)
        else if normalized_len > uintptrMax - ptrs.output ∨ 4 > uintptrMax - ptrs.output_len then (.invalidInput, st)
        else if ranges_overlap ptrs.raw (ptrs.raw + raw.length) ptrs.output (ptrs.output + normalized_len) ||
            ranges_overlap ptrs.raw (ptrs.raw + raw.length) ptrs.output_len (ptrs.output_len + 4) ||
            ranges_overlap ptrs.output (ptrs.output + normalized_len) ptrs.output_len (ptrs.output_len + 4) then
          (.invalidInput, st)
        else
          let (written, output) := writeLoop (raw.take path_end) false 0 st.output
          (.success, ⟨output, written⟩)

/-! ## The passes -/

def pathPart (raw : Str) : Str := raw.takeWhile (· != ch '?')

def pathByte (c : UInt8) : Prop := c ≠ ch '#' ∧ 0x20 ≤ c ∧ c ≠ 0x7f

def exactKey (raw : Str) : Str := collapse (ch '/') (pathPart raw)

section passes

variable {raw s : Str} {c : UInt8} {prev : Bool} {n : Nat} {output : Nat → UInt8}

lemma pathEnd_eq (raw : Str) (i : Nat) :
    (pathEnd raw i = some (i + (pathPart raw).length) ∧ ∀ c ∈ pathPart raw, pathByte c) ∨
      (pathEnd raw i = none ∧ ¬∀ c ∈ pathPart raw, pathByte c) := by
  induction raw generalizing i with
  | nil => exact .inl ⟨rfl, by simp [pathPart]⟩
  | cons c s ih =>
    by_cases hq : c = ch '?'
    · have hpath : pathPart (c :: s) = [] := List.takeWhile_cons_of_neg (by simp [hq])
      rw [pathEnd, if_pos hq, hpath]
      exact .inl ⟨rfl, by simp⟩
    · have hpath : pathPart (c :: s) = c :: pathPart s := List.takeWhile_cons_of_pos (by simpa using hq)
      rw [pathEnd, if_neg hq, hpath]
      by_cases hbad : c = ch '#' ∨ c < 0x20 ∨ c = 0x7f
      · rw [if_pos hbad]
        refine .inr ⟨rfl, fun hall => ?_⟩
        obtain ⟨h₁, h₂, h₃⟩ := hall c List.mem_cons_self
        rcases hbad with hbad | hbad | hbad
        · exact h₁ hbad
        · exact absurd hbad (by simpa using h₂)
        · exact h₃ hbad
      · rw [if_neg hbad]
        simp only [not_or] at hbad
        have hc : pathByte c := ⟨hbad.1, by simpa using hbad.2.1, hbad.2.2⟩
        rcases ih (i + 1) with ⟨heq, hall⟩ | ⟨heq, hsome⟩
        · refine .inl ⟨?_, List.forall_mem_cons.mpr ⟨hc, hall⟩⟩
          rw [heq, List.length_cons]
          exact congrArg some (by omega)
        · exact .inr ⟨heq, fun hall => hsome (List.forall_mem_cons.mp hall).2⟩

def pending (previous_slash : Bool) (s : Str) : Str :=
  if previous_slash then (collapse (ch '/') (ch '/' :: s)).tail else collapse (ch '/') s

lemma pending_cons (c : UInt8) (s : Str) (prev : Bool) :
    pending prev (c :: s) = if !(c == ch '/') || !prev then c :: pending (c == ch '/') s else pending (c == ch '/') s := by
  by_cases hc : c = ch '/'
  · subst hc
    obtain ⟨t, ht⟩ := collapse_head (ch '/') s
    cases prev with
    | false => simp [pending, ht]
    | true => simp [pending, collapse_repeat]
  · have hne : (c == ch '/') = false := beq_eq_false_iff_ne.mpr hc
    have hlast : collapse (ch '/') (ch '/' :: c :: s) = ch '/' :: collapse (ch '/') (c :: s) :=
      collapse_last (by simpa using hc)
    cases prev with
    | false => simp [pending, hne, collapse_other hc]
    | true => simp [pending, hne, hlast, collapse_other hc]

lemma countLoop_eq (s : Str) (prev : Bool) (n : Nat) : countLoop s prev n = n + (pending prev s).length := by
  induction s generalizing prev n with
  | nil => cases prev <;> rfl
  | cons c s ih =>
    rw [countLoop, pending_cons, ih]
    split_ifs
    · rw [List.length_cons]
      omega
    · rfl

lemma writeLoop_eq (s : Str) (prev : Bool) (n : Nat) (output : Nat → UInt8) :
    writeLoop s prev n output = (n + (pending prev s).length, Memory.write output n (pending prev s)) := by
  induction s generalizing prev n output with
  | nil =>
    have hnil : pending prev [] = [] := by cases prev <;> rfl
    rw [writeLoop, hnil, Memory.write_nil]
    rfl
  | cons c s ih =>
    rw [writeLoop, pending_cons]
    split_ifs
    · rw [ih, Memory.write_cons, List.length_cons]
      exact congrArg (·, _) (by omega)
    · exact ih _ _ _

end passes

/-! ## The normal form -/

/-- Storage that can be read and written, the three ranges apart from each other. -/
structure Separate (ptrs : Pointers) (raw_len output_capacity : Nat) : Prop where
  some_raw : ptrs.raw ≠ 0
  some_output : ptrs.output ≠ 0
  some_len : ptrs.output_len ≠ 0
  raw_end : ptrs.raw + raw_len ≤ uintptrMax
  output_end : ptrs.output + output_capacity ≤ uintptrMax
  len_end : ptrs.output_len + 4 ≤ uintptrMax
  raw_output : ptrs.raw + raw_len ≤ ptrs.output ∨ ptrs.output + output_capacity ≤ ptrs.raw
  raw_outputLen : ptrs.raw + raw_len ≤ ptrs.output_len ∨ ptrs.output_len + 4 ≤ ptrs.raw
  output_outputLen : ptrs.output + output_capacity ≤ ptrs.output_len ∨ ptrs.output_len + 4 ≤ ptrs.output

/-- A target that has a key: it begins with a single slash, and its path has no fragment and no control byte. -/
structure OriginPath (raw : Str) : Prop where
  begins : raw.head? = some (ch '/')
  single : (pathPart raw)[1]? ≠ some (ch '/')
  bytes : ∀ c ∈ pathPart raw, pathByte c

def KeyStorage.text (st : KeyStorage) : Str := Memory.read st.output 0 st.output_len

section normalize

variable {ptrs : Pointers} {raw : Str} {cap : Nat} {st : KeyStorage}

lemma pathPart_eq_take (raw : Str) : raw.take (pathPart raw).length = pathPart raw := by
  have hcut : raw = pathPart raw ++ raw.dropWhile (· != ch '?') := List.takeWhile_append_dropWhile.symm
  nth_rewrite 2 [hcut]
  exact List.take_left

lemma second_slash (raw : Str) :
    ((pathPart raw).length > 1 ∧ raw[1]? = some (ch '/')) ↔ (pathPart raw)[1]? = some (ch '/') := by
  rw [← pathPart_eq_take raw, List.length_take, List.getElem?_take]
  constructor
  · rintro ⟨hlen, hslash⟩
    rw [if_pos (by omega)]
    exact hslash
  · intro h
    split_ifs at h with hlen
    refine ⟨?_, h⟩
    have hraw : (pathPart raw).length ≤ raw.length := (List.takeWhile_prefix _).length_le
    omega

lemma normalize_eq (hsep : Separate ptrs raw.length cap) (st : KeyStorage) :
    (normalize_exact_path_slashes ptrs raw cap st = (.success, ⟨Memory.write st.output 0 (exactKey raw), (exactKey raw).length⟩) ∧
      OriginPath raw ∧ (exactKey raw).length ≤ min kMaxExactPathViewLen cap) ∨
    ∃ r, normalize_exact_path_slashes ptrs raw cap st = (r, st) ∧ r ≠ .success ∧
      ¬(OriginPath raw ∧ (exactKey raw).length ≤ min kMaxExactPathViewLen cap) := by
  unfold normalize_exact_path_slashes
  by_cases hraw : raw.head? = some (ch '/')
  swap
  · refine .inr ⟨.invalidInput, ?_, by simp, fun h => hraw h.1.begins⟩
    split_ifs <;> rfl
  have hne : raw.length ≠ 0 := by
    intro h
    rw [List.length_eq_zero_iff.mp h] at hraw
    cases hraw
  have hnull : ¬(ptrs.raw = 0 ∨ raw.length = 0 ∨ ptrs.output = 0 ∨ ptrs.output_len = 0) := by
    simp only [not_or]
    exact ⟨hsep.some_raw, hne, hsep.some_output, hsep.some_len⟩
  have hend : ¬raw.length > uintptrMax - ptrs.raw := by
    have := hsep.raw_end
    omega
  rw [if_neg hnull, if_neg hend, if_neg (not_not.mpr hraw)]
  rcases pathEnd_eq raw 0 with ⟨heq, hall⟩ | ⟨heq, hsome⟩
  swap
  · rw [heq]
    exact .inr ⟨.invalidInput, rfl, by simp, fun h => hsome h.1.bytes⟩
  rw [Nat.zero_add] at heq
  rw [heq]
  dsimp only
  by_cases hslash : (pathPart raw).length > 1 ∧ raw[1]? = some (ch '/')
  · rw [if_pos hslash]
    exact .inr ⟨.invalidInput, rfl, by simp, fun h => h.1.single ((second_slash raw).mp hslash)⟩
  have horigin : OriginPath raw := ⟨hraw, fun h => hslash ((second_slash raw).mpr h), hall⟩
  have hcount : countLoop (raw.take (pathPart raw).length) false 0 = (exactKey raw).length := by
    rw [countLoop_eq, Nat.zero_add, pathPart_eq_take]
    rfl
  rw [if_neg hslash, hcount]
  by_cases hfits : (exactKey raw).length > kMaxExactPathViewLen ∨ (exactKey raw).length > cap
  · rw [if_pos hfits]
    exact .inr ⟨.outputOverflow, rfl, by simp, fun h => by omega⟩
  rw [if_neg hfits, if_neg, if_neg, writeLoop_eq, pathPart_eq_take, Nat.zero_add]
  · exact .inl ⟨rfl, horigin, by omega⟩
  · have h₁ := hsep.raw_output
    have h₂ := hsep.raw_outputLen
    have h₃ := hsep.output_outputLen
    simp only [ranges_overlap, Bool.or_eq_true, Bool.and_eq_true, decide_eq_true_eq]
    omega
  · have h₁ := hsep.output_end
    have h₂ := hsep.len_end
    omega

lemma normalize_success (hsep : Separate ptrs raw.length cap)
    (h : (normalize_exact_path_slashes ptrs raw cap st).1 = .success) :
    normalize_exact_path_slashes ptrs raw cap st = (.success, ⟨Memory.write st.output 0 (exactKey raw), (exactKey raw).length⟩) ∧
      OriginPath raw ∧ (exactKey raw).length ≤ min kMaxExactPathViewLen cap := by
  rcases normalize_eq hsep st with hok | ⟨r, hno, hr, -⟩
  · exact hok
  · rw [hno] at h
    exact absurd h hr

lemma normalize_of_fits (hsep : Separate ptrs raw.length cap) (horigin : OriginPath raw)
    (hfits : (exactKey raw).length ≤ min kMaxExactPathViewLen cap) (st : KeyStorage) :
    normalize_exact_path_slashes ptrs raw cap st =
      (.success, ⟨Memory.write st.output 0 (exactKey raw), (exactKey raw).length⟩) := by
  rcases normalize_eq hsep st with hok | ⟨r, -, -, hno⟩
  · exact hok.1
  · exact absurd ⟨horigin, hfits⟩ hno

lemma text_success (h : normalize_exact_path_slashes ptrs raw cap st =
    (.success, ⟨Memory.write st.output 0 (exactKey raw), (exactKey raw).length⟩)) :
    (normalize_exact_path_slashes ptrs raw cap st).2.text = exactKey raw := by
  rw [h]
  exact Memory.read_write st.output 0 (exactKey raw)

lemma pathPart_exactKey (raw : Str) : pathPart (exactKey raw) = exactKey raw := by
  refine List.takeWhile_eq_self_iff.mpr fun c hc => ?_
  have hmem : c ∈ pathPart raw := mem_of_mem_collapse hc
  exact List.mem_takeWhile_imp (p := fun c => c != ch '?') hmem

lemma exactKey_exactKey (raw : Str) : exactKey (exactKey raw) = exactKey raw := by
  rw [exactKey, pathPart_exactKey]
  exact collapse_idem _

lemma exactKey_begins (h : OriginPath raw) :
    ∃ s, (pathPart raw = ch '/' :: s ∧ s.head? ≠ some (ch '/')) ∧ exactKey raw = ch '/' :: collapse (ch '/') s := by
  cases raw with
  | nil => cases h.begins
  | cons c t =>
    obtain rfl : c = ch '/' := Option.some.inj h.begins
    have hpath : pathPart (ch '/' :: t) = ch '/' :: pathPart t := List.takeWhile_cons_of_pos (by decide)
    have hsingle := h.single
    have hhead : (pathPart t).head? ≠ some (ch '/') := by
      rw [List.head?_eq_getElem?]
      exact hsingle
    refine ⟨pathPart t, ⟨hpath, hhead⟩, ?_⟩
    rw [exactKey, hpath, collapse_last hhead]

lemma exactKey_origin (h : OriginPath raw) : OriginPath (exactKey raw) := by
  obtain ⟨s, ⟨-, hhead⟩, hkey⟩ := exactKey_begins h
  refine ⟨by rw [hkey]; rfl, ?_, ?_⟩
  · rw [pathPart_exactKey]
    intro hslash
    have hchain := collapse_unrepeated (a := ch '/') (pathPart raw)
    rw [show collapse (ch '/') (pathPart raw) = ch '/' :: collapse (ch '/') s from hkey] at hchain
    rw [hkey] at hslash
    cases hrest : collapse (ch '/') s with
    | nil =>
      rw [hrest] at hslash
      cases hslash
    | cons d t =>
      rw [hrest] at hslash hchain
      obtain rfl : d = ch '/' := Option.some.inj hslash
      exact (List.isChain_cons_cons.mp hchain).1 ⟨rfl, rfl⟩
  · rw [pathPart_exactKey]
    exact fun c hc => h.bytes c (mem_of_mem_collapse hc)

/-- Exact paths have a normal form: a target is accepted if its path is a path of origin form and its key fits; the
output is the key, which has no two adjacent slashes and is its own key. Two targets have the same key if their paths
differ only in the lengths of the slash runs. A target that is refused leaves the output as it was. -/
theorem exact_path_canonical (hsep : Separate ptrs raw.length cap) :
    ((normalize_exact_path_slashes ptrs raw cap st).1 = .success ↔
      OriginPath raw ∧ (collapse (ch '/') (pathPart raw)).length ≤ min 62 cap) ∧
    ((normalize_exact_path_slashes ptrs raw cap st).1 ≠ .success →
      (normalize_exact_path_slashes ptrs raw cap st).2 = st) ∧
    ((normalize_exact_path_slashes ptrs raw cap st).1 = .success →
      (normalize_exact_path_slashes ptrs raw cap st).2.text = collapse (ch '/') (pathPart raw) ∧
      (collapse (ch '/') (pathPart raw)).IsChain (fun x y => ¬(x = ch '/' ∧ y = ch '/')) ∧
      (∀ ptrs' cap' st', Separate ptrs' (collapse (ch '/') (pathPart raw)).length cap' →
        (collapse (ch '/') (pathPart raw)).length ≤ cap' →
        (normalize_exact_path_slashes ptrs' (collapse (ch '/') (pathPart raw)) cap' st').1 = .success ∧
        (normalize_exact_path_slashes ptrs' (collapse (ch '/') (pathPart raw)) cap' st').2.text =
          collapse (ch '/') (pathPart raw)) ∧
      ∀ ptrs' raw' cap' st', Separate ptrs' raw'.length cap' →
        (normalize_exact_path_slashes ptrs' raw' cap' st').1 = .success →
        ((normalize_exact_path_slashes ptrs raw cap st).2.text = (normalize_exact_path_slashes ptrs' raw' cap' st').2.text ↔
          SameRuns (ch '/') (pathPart raw) (pathPart raw'))) := by
  refine ⟨⟨fun h => (normalize_success hsep h).2, fun h => by rw [normalize_of_fits hsep h.1 h.2 st]⟩, ?_, ?_⟩
  · intro hfail
    rcases normalize_eq hsep st with ⟨hok, -⟩ | ⟨r, hno, -⟩
    · rw [hok] at hfail
      exact absurd rfl hfail
    · rw [hno]
  · intro h
    obtain ⟨hok, horigin, hfits⟩ := normalize_success hsep h
    refine ⟨text_success hok, collapse_unrepeated _, ?_, ?_⟩
    · intro ptrs' cap' st' hsep' hcap
      have hself : exactKey (collapse (ch '/') (pathPart raw)) = collapse (ch '/') (pathPart raw) := exactKey_exactKey raw
      have hagain := normalize_of_fits hsep' (exactKey_origin horigin) (by
        rw [hself]
        exact Nat.le_min.mpr ⟨hfits.trans (Nat.min_le_left _ _), hcap⟩) st'
      refine ⟨by rw [hagain], ?_⟩
      rw [text_success hagain, hself]
    · intro ptrs' raw' cap' st' hsep' h'
      rw [text_success hok, text_success (normalize_success hsep' h').1]
      exact collapse_eq_iff

end normalize

def apartPointers : Pointers := ⟨4096, 8192, 16384⟩

def doubledTarget : Str := lit ['/','a','/','/','b','/','?','q']

theorem doubledTarget_normalized :
    Separate apartPointers doubledTarget.length 62 ∧
      (normalize_exact_path_slashes apartPointers doubledTarget 62 ⟨fun _ => 0, 0⟩).2.text = lit ['/','a','/','b','/'] := by
  have hsep : Separate apartPointers doubledTarget.length 62 :=
    ⟨by decide, by decide, by decide, by decide, by decide, by decide, by decide, by decide, by decide⟩
  exact ⟨hsep, ((exact_path_canonical hsep).2.2 (by decide)).1⟩

end Rut.Route
