import Rut.Route.TrieInv

/-!
# Candidates for a request

Which registered routes match a request and how they are ranked: deeper patterns first, then patterns
with more literal segments, then patterns whose literals come earlier, then routes for the method over
routes for any method. The rank is compared with the counters and the bit mask that the search of
`match_key` keeps per frame.
-/

namespace Rut.Route

def segmentsMatch : List Str → List Str → Bool
  | [], _ => true
  | _ :: _, [] => false
  | p :: ps, r :: rs => (isParamSegment p || p == r) && segmentsMatch ps rs

structure RouteCandidate where
  pattern : List Str
  slot : Slot
  routeIdx : RouteIdx
deriving DecidableEq

def literalMask (pattern : List Str) : List Bool := pattern.map fun seg => !isParamSegment seg

/-- The rank of a candidate: number of segments, number of literal segments, literal mask from left to
right, and whether it is specific to the method, compared lexicographically. -/
def RouteCandidate.rank (c : RouteCandidate) : Nat ×ₗ Nat ×ₗ List Bool ×ₗ Bool :=
  toLex (c.pattern.length, toLex ((literalMask c.pattern).count true,
    toLex (literalMask c.pattern, decide (c.slot ≠ anySlot))))

/-- The candidate was registered first for its pattern and slot, its pattern matches, and its slot is
the requested one or any. -/
structure Eligible (es : List Insertion) (rs : List Str) (want : Slot) (c : RouteCandidate) : Prop where
  registered : firstRoute segments es c.pattern c.slot = some c.routeIdx
  isMatch : segmentsMatch c.pattern rs = true
  slot : c.slot = want ∨ c.slot = anySlot

/-- The route is that of a maximal eligible candidate, `kInvalidRoute` if there is none. -/
def Decides (es : List Insertion) (rs : List Str) (want : Slot) (r : RouteIdx) : Prop :=
  (r = kInvalidRoute ∧ ∀ c, ¬ Eligible es rs want c) ∨
  ∃ c, Eligible es rs want c ∧ (∀ c', Eligible es rs want c' → c'.rank ≤ c.rank) ∧ r = c.routeIdx

/-! ## Matching -/

@[simp] lemma segmentsMatch_nil (rs : List Str) : segmentsMatch [] rs = true := rfl

@[simp] lemma segmentsMatch_cons_nil (p : Str) (ps : List Str) : segmentsMatch (p :: ps) [] = false := rfl

lemma segmentsMatch_cons_cons (p r : Str) (ps rs : List Str) :
    segmentsMatch (p :: ps) (r :: rs) = ((isParamSegment p || p == r) && segmentsMatch ps rs) := rfl

lemma segmentsMatch_length {ps rs} (h : segmentsMatch ps rs = true) : ps.length ≤ rs.length := by
  induction ps generalizing rs with
  | nil => simp
  | cons p ps ih =>
    cases rs with
    | nil => cases h
    | cons r rs =>
      simp only [segmentsMatch_cons_cons, Bool.and_eq_true] at h
      simpa using ih h.2

lemma segmentsMatch_append {ps qs rs} : segmentsMatch (ps ++ qs) rs = true ↔
      segmentsMatch ps rs = true ∧ segmentsMatch qs (rs.drop ps.length) = true := by
  induction ps generalizing rs with
  | nil => simp
  | cons p ps ih =>
    cases rs with
    | nil => simp
    | cons r rs => simp [segmentsMatch_cons_cons, ih, and_assoc]

lemma segmentsMatch_take {ps rs n} (hn : ps.length ≤ n) : segmentsMatch ps (rs.take n) = segmentsMatch ps rs := by
  induction ps generalizing rs n with
  | nil => simp
  | cons p ps ih =>
    cases rs with
    | nil => simp
    | cons r rs =>
      obtain ⟨n, rfl⟩ : ∃ m, n = m + 1 := ⟨n - 1, by simp at hn; omega⟩
      simp only [List.take_succ_cons, segmentsMatch_cons_cons]
      rw [ih (by simpa using hn)]

lemma segmentsMatch_concat {ps seg rs r} (h : segmentsMatch ps rs = true) (hr : rs[ps.length]? = some r)
    (hseg : isParamSegment seg = true ∨ seg = r) : segmentsMatch (ps ++ [seg]) rs = true := by
  rw [segmentsMatch_append]
  refine ⟨h, ?_⟩
  obtain ⟨hlt, hget⟩ := List.getElem?_eq_some_iff.mp hr
  rw [List.drop_eq_getElem_cons hlt, hget]
  rcases hseg with hseg | rfl <;> simp [segmentsMatch_cons_cons, *]

lemma segmentsMatch_next {ps seg rest rs} (h : segmentsMatch (ps ++ seg :: rest) rs = true) :
    ∃ r, rs[ps.length]? = some r ∧ (isParamSegment seg = true ∨ seg = r) := by
  have h := (segmentsMatch_append.mp h).2
  cases hd : rs.drop ps.length with
  | nil => simp [hd] at h
  | cons r rs' =>
    have hget : rs[ps.length]? = some r := by
      rw [← List.head?_drop, hd]
      rfl
    rw [hd] at h
    simp only [segmentsMatch_cons_cons, Bool.and_eq_true, Bool.or_eq_true, beq_iff_eq] at h
    exact ⟨r, hget, h.1⟩

lemma segmentsMatch_literals {ps rs} (h : segmentsMatch ps rs = true) (hlen : ps.length = rs.length)
    (hlit : ∀ seg ∈ ps, isParamSegment seg = false) : ps = rs := by
  induction ps generalizing rs with
  | nil => exact (List.length_eq_zero_iff.mp hlen.symm).symm
  | cons p ps ih =>
    cases rs with
    | nil => simp at hlen
    | cons r rs =>
      simp only [segmentsMatch_cons_cons, hlit p (by simp), Bool.false_or, Bool.and_eq_true, beq_iff_eq] at h
      rw [h.1, ih h.2 (by simpa using hlen) fun s hs => hlit s (by simp [hs])]

/-! ## The literal mask -/

lemma literalMask_concat (ps : List Str) (seg : Str) :
    literalMask (ps ++ [seg]) = literalMask ps ++ [!isParamSegment seg] := by
  simp [literalMask]

@[simp] lemma length_literalMask (ps : List Str) : (literalMask ps).length = ps.length := by
  simp [literalMask]

def binary : List Bool → Nat
  | [] => 0
  | b :: bs => b.toNat * 2 ^ bs.length + binary bs

lemma binary_lt (bs : List Bool) : binary bs < 2 ^ bs.length := by
  induction bs with
  | nil => simp [binary]
  | cons b bs ih =>
    have : b.toNat ≤ 1 := Bool.toNat_le b
    have := Nat.mul_le_mul_right (2 ^ bs.length) this
    simp only [binary, List.length_cons, Nat.pow_succ]
    omega

lemma binary_concat (bs : List Bool) (b : Bool) : binary (bs ++ [b]) = 2 * binary bs + b.toNat := by
  induction bs with
  | nil => simp [binary]
  | cons c bs ih =>
    simp only [List.cons_append, binary, ih, List.length_append, List.length_singleton, Nat.pow_succ]
    ring

lemma binary_lt_iff {bs cs} (h : bs.length = cs.length) : binary bs < binary cs ↔ bs < cs := by
  induction bs generalizing cs with
  | nil =>
    obtain rfl := List.length_eq_zero_iff.mp h.symm
    simp
  | cons b bs ih =>
    cases cs with
    | nil => simp at h
    | cons c cs =>
      simp only [List.length_cons, Nat.add_right_cancel_iff] at h
      have hb := binary_lt bs
      have hc := binary_lt cs
      rw [h] at hb
      rw [List.cons_lt_cons_iff, ← ih h]
      rcases b with - | - <;> rcases c with - | -
      · simp [binary]
      · simp [binary]
        omega
      · have htf : ¬ (true < false) := by decide
        simp [binary, h, htf]
        omega
      · simp [binary, h]

/-- The mask the search keeps for a pattern: the first 63 digits, left-aligned in 63 bits. -/
def staticMaskOf (bs : List Bool) : Nat := binary (bs.take 63) * 2 ^ (63 - bs.length)

lemma staticMaskOf_concat_false (bs : List Bool) : staticMaskOf (bs ++ [false]) = staticMaskOf bs := by
  by_cases h : bs.length < 63
  · obtain ⟨k, hk⟩ : ∃ k, 63 - bs.length = k + 1 := ⟨62 - bs.length, by omega⟩
    have hk' : 63 - (bs ++ [false]).length = k := by simp; omega
    rw [staticMaskOf, staticMaskOf, List.take_of_length_le (by simp; omega),
      List.take_of_length_le (by omega), binary_concat, hk, hk', Nat.pow_succ]
    simp
    ring
  · rw [staticMaskOf, staticMaskOf, List.take_append_of_le_length (by omega)]
    congr 2
    simp
    omega

lemma staticMaskOf_concat_true (bs : List Bool) :
    staticMaskOf (bs ++ [true]) = staticMaskOf bs ||| staticBit (bs.length + 1) := by
  by_cases h : bs.length < 63
  · obtain ⟨k, hk⟩ : ∃ k, 63 - bs.length = k + 1 := ⟨62 - bs.length, by omega⟩
    have hk' : 63 - (bs ++ [true]).length = k := by simp; omega
    have hbit : staticBit (bs.length + 1) = 2 ^ k := by
      rw [staticBit, if_pos (by omega), Nat.one_shiftLeft]
      congr 1
      omega
    rw [staticMaskOf, staticMaskOf, List.take_of_length_le (by simp; omega),
      List.take_of_length_le (by omega), binary_concat, hk, hk', hbit, Nat.mul_comm (binary bs),
      ← Nat.two_pow_add_eq_or_of_lt (Nat.pow_lt_pow_right (by omega) (by omega)), Nat.pow_succ]
    simp
    ring
  · have hbit : staticBit (bs.length + 1) = 0 := by rw [staticBit, if_neg (by omega)]
    rw [staticMaskOf, staticMaskOf, List.take_append_of_le_length (by omega), hbit, Nat.or_zero]
    congr 2
    simp
    omega

lemma binary_inj {bs cs} (hlen : bs.length = cs.length) (h : binary bs = binary cs) : bs = cs := by
  refine le_antisymm (not_lt.mp fun hlt => ?_) (not_lt.mp fun hlt => ?_)
  · rw [← binary_lt_iff hlen.symm] at hlt
    omega
  · rw [← binary_lt_iff hlen] at hlt
    omega

lemma concat_lt_concat_iff {bs cs b c} (hlen : bs.length = cs.length)
    (hcount : (bs ++ [b]).count true = (cs ++ [c]).count true) : bs ++ [b] < cs ++ [c] ↔ bs < cs := by
  rw [← binary_lt_iff hlen, ← binary_lt_iff (by simp [hlen]), binary_concat, binary_concat]
  have hb := Bool.toNat_le b
  have hc := Bool.toNat_le c
  rcases Nat.lt_trichotomy (binary bs) (binary cs) with h | h | h
  · omega
  · obtain rfl := binary_inj hlen h
    have : b = c := by cases b <;> cases c <;> simp_all
    subst this
    omega
  · omega

lemma staticMaskOf_lt_iff {bs cs} (hlen : bs.length = cs.length) (h64 : bs.length ≤ 64)
    (hcount : bs.count true = cs.count true) : staticMaskOf bs < staticMaskOf cs ↔ bs < cs := by
  have htake : (bs.take 63).length = (cs.take 63).length := by simp [hlen]
  rw [staticMaskOf, staticMaskOf, hlen, Nat.mul_lt_mul_right (Nat.two_pow_pos _), binary_lt_iff htake]
  by_cases h : bs.length ≤ 63
  · rw [List.take_of_length_le h, List.take_of_length_le (by omega)]
  · obtain ⟨b, hb⟩ : ∃ b, bs = bs.take 63 ++ [b] := by
      obtain ⟨b, hb⟩ := List.length_eq_one_iff.mp (show (bs.drop 63).length = 1 by simp; omega)
      exact ⟨b, by rw [← hb, List.take_append_drop]⟩
    obtain ⟨c, hc⟩ : ∃ c, cs = cs.take 63 ++ [c] := by
      obtain ⟨c, hc⟩ := List.length_eq_one_iff.mp (show (cs.drop 63).length = 1 by simp; omega)
      exact ⟨c, by rw [← hc, List.take_append_drop]⟩
    rw [hb, hc] at hcount
    conv_rhs => rw [hb, hc]
    exact (concat_lt_concat_iff htake hcount).symm

lemma staticMaskOf_eq_iff {bs cs} (hlen : bs.length = cs.length) (h64 : bs.length ≤ 64)
    (hcount : bs.count true = cs.count true) : staticMaskOf bs = staticMaskOf cs ↔ bs = cs := by
  have h1 := staticMaskOf_lt_iff hlen h64 hcount
  have h2 := staticMaskOf_lt_iff hlen.symm (hlen ▸ h64) hcount.symm
  constructor
  · intro h
    refine le_antisymm (not_lt.mp fun hlt => ?_) (not_lt.mp fun hlt => ?_)
    · have := h2.mpr hlt
      omega
    · have := h1.mpr hlt
      omega
  · rintro rfl
    rfl

end Rut.Route
