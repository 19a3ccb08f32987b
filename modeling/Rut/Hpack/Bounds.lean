import Rut.Hpack.Block
import Rut.Hpack.HuffmanExact

/-!
# Bounds of the decoders

`decode_integer` stays within its input. `decode_string` adds the length it has decoded to the length of the header in
32 bits: where the sum wraps around, the check for a truncated string passes and the decoder reads on behind its input.
What it reports as consumed, and the position of `decode_header_block`, never pass the end of the input.
-/

namespace Rut.Hpack

open Lib

/-! ## Integers -/

lemma integerLoop_bounds {src acc shift i v n} (h : integerLoop src acc shift i = some (v, n)) :
    i < n ∧ n ≤ i + src.length ∧ v < 2 ^ 32 := by
  induction src generalizing acc shift i with
  | nil => cases h
  | cons b src ih =>
    simp only [integerLoop] at h
    split_ifs at h with hbig hlast hshift
    · cases h
      refine ⟨Nat.lt_succ_self i, ?_, by omega⟩
      rw [List.length_cons]
      omega
    · obtain ⟨hlt, hle, hv⟩ := ih h
      rw [List.length_cons]
      exact ⟨by omega, by omega, hv⟩

lemma decodeInteger_bounds {bits v n src} (hbits : bits ≤ 8) (h : decodeInteger bits src = some (v, n)) :
    0 < n ∧ n ≤ src.length ∧ v < 2 ^ 32 := by
  cases src with
  | nil => cases h
  | cons b src =>
    simp only [decodeInteger] at h
    split_ifs at h with hsmall
    · cases h
      have hpow : 2 ^ bits ≤ 2 ^ 8 := Nat.pow_le_pow_right (by decide) hbits
      exact ⟨Nat.one_pos, by simp, by omega⟩
    · obtain ⟨hlt, hle, hv⟩ := integerLoop_bounds h
      rw [List.length_cons]
      exact ⟨by omega, by omega, hv⟩

/-! ## Strings -/

section strings

variable {t : HuffTrie} {path : Nat → List Bool} {node cap len : Nat} {src out : Str}

lemma huffmanLoop_take (t : HuffTrie) (cap len : Nat) (src : Str) (node : Nat) (out : Str) (h : len ≤ src.length) :
    huffmanLoop t cap len src node out = huffmanLoop t cap len (src.take len) node out := by
  induction len generalizing src node out with
  | zero => rw [huffmanLoop, huffmanLoop]
  | succ len ih =>
    cases src with
    | nil => simp at h
    | cons b src =>
      rw [List.length_cons] at h
      rw [List.take_succ_cons, huffmanLoop, huffmanLoop]
      congr 1
      funext r₁
      dsimp only
      congr 1
      funext r₂
      exact ih src r₂.1 r₂.2 (by omega)

lemma huffmanLoop_short (h : src.length < len) :
    huffmanLoop t cap len src node out = (huffmanLoop t cap src.length src node out).bind fun _ => .fault := by
  induction src generalizing len node out with
  | nil =>
    obtain ⟨len, rfl⟩ := Nat.exists_eq_succ_of_ne_zero (Nat.ne_of_gt h)
    rfl
  | cons b src ih =>
    obtain ⟨len, rfl⟩ := Nat.exists_eq_succ_of_ne_zero (Nat.ne_of_gt (Nat.lt_of_le_of_lt (Nat.zero_le _) h))
    rw [List.length_cons] at h ⊢
    rw [huffmanLoop, huffmanLoop]
    cases nibbleStep t cap node out (b.toNat / 16) with
    | ok r =>
      obtain ⟨n₁, out₁⟩ := r
      simp only [Outcome.bind]
      cases nibbleStep t cap n₁ out₁ (b.toNat % 16) with
      | ok r =>
        exact ih (by omega)
      | error => rfl
      | fault => rfl
    | error => rfl
    | fault => rfl

lemma huffmanLoop_error_iff (T : TrieOf t path (List.finRange kSymCount)) (cap : Nat) (src : Str) :
    (huffmanLoop t cap src.length src 0 [] = .error ↔ Rejects cap (bitsOf src)) ∧
    huffmanLoop t cap src.length src 0 [] ≠ .fault := by
  rcases huffmanLoop_spec T src (reading_start T) (Nat.zero_le cap) with ⟨n', s, h, R, hs⟩ | ⟨h, hbad⟩
  · rw [h]
    refine ⟨⟨fun h => absurd h (by simp), ?_⟩, by simp⟩
    rintro ⟨ss, p, P, hbad⟩
    obtain ⟨rfl, -⟩ := P.unique R.2
    rcases hbad with hmem | hlen
    · obtain ⟨x, -, hx⟩ := List.mem_map.mp hmem
      exact absurd hx (octetSym_ne_eos x)
    · rw [List.length_map] at hlen
      omega
  · rw [h]
    exact ⟨⟨fun _ => hbad, fun _ => rfl⟩, by simp⟩

end strings

/-- The length of a string literal wraps around the range of `u32`, and nothing else stops the decoder within
its input: a raw string fits the output, the words of a Huffman string do and EOS is none of them. -/
def LengthWraps (src : Str) (cap : Nat) : Prop :=
  ∃ b slen hdr, src.head? = some b ∧ decodeInteger 7 src = some (slen, hdr) ∧ 2 ^ 32 ≤ hdr + slen ∧
    if b.toNat &&& 0x80 ≠ 0 then ¬ Rejects cap (bitsOf (src.drop hdr)) else slen ≤ cap

section decodeString

variable {src s : Str} {cap n : Nat}

lemma huffmanDecode_fault_iff (cap : Nat) (src : Str) (len : Nat) :
    huffmanDecode cap src len = .fault ↔ src.length < len ∧ ¬ Rejects cap (bitsOf src) := by
  obtain ⟨path, T⟩ := kTrie_spec
  rw [huffmanDecode]
  generalize kTrie = t at T
  have hend : ∀ {x : Outcome (Nat × Str)} {f : Nat × Str → Outcome Str}, (∀ r, f r ≠ .fault) →
      (x.bind f = .fault ↔ x = .fault) := by
    intro x f hf
    cases x with
    | ok r => simp [Outcome.bind, hf]
    | error => simp [Outcome.bind]
    | fault => simp [Outcome.bind]
  rw [huffmanDecodeWith, hend (by intro r; dsimp only; split_ifs <;> simp)]
  by_cases hlen : src.length < len
  · obtain ⟨herr, hnf⟩ := huffmanLoop_error_iff T cap src
    rw [huffmanLoop_short hlen, ← herr]
    cases hl : huffmanLoop t cap src.length src 0 [] with
    | ok r => simp [Outcome.bind, hlen]
    | error => simp [Outcome.bind]
    | fault => exact absurd hl hnf
  · have hle := Nat.not_lt.mp hlen
    have htake : (src.take len).length = len := by simp [hle]
    have hnf := (huffmanLoop_error_iff T cap (src.take len)).2
    rw [htake] at hnf
    rw [huffmanLoop_take t cap len src 0 [] hle]
    simp [hnf, hlen]

lemma bind_ok_fault_iff {α β} {x : Outcome α} {f : α → β} : (x.bind fun a => .ok (f a)) = .fault ↔ x = .fault := by
  cases x <;> simp [Outcome.bind]

lemma readOctets_fault_iff {len} : readOctets src len = .fault ↔ src.length < len := by
  unfold readOctets
  split_ifs with h
  · simp [h]
  · simp [Nat.not_le.mp h]

/-- `decode_string` leaves its input exactly where the length wraps around. -/
lemma decodeString_fault_iff (hlen : src.length < 2 ^ 32) : decodeString src cap = .fault ↔ LengthWraps src cap := by
  rw [decodeString, LengthWraps]
  cases hhead : src.head? with
  | none => simp
  | some b =>
    cases hint : decodeInteger 7 src with
    | none => simp
    | some r =>
      obtain ⟨slen, hdr⟩ := r
      obtain ⟨hpos, hle, hslen⟩ := decodeInteger_bounds (by decide) hint
      have hdata : (src.drop hdr).length = src.length - hdr := List.length_drop
      have hrhs : (∃ b' slen' hdr', some b = some b' ∧ some (slen, hdr) = some (slen', hdr') ∧
          2 ^ 32 ≤ hdr' + slen' ∧
          if b'.toNat &&& 0x80 ≠ 0 then ¬ Rejects cap (bitsOf (src.drop hdr')) else slen' ≤ cap) ↔
          2 ^ 32 ≤ hdr + slen ∧ if b.toNat &&& 0x80 ≠ 0 then ¬ Rejects cap (bitsOf (src.drop hdr)) else slen ≤ cap := by
        constructor
        · rintro ⟨b', slen', hdr', hb, hr, h⟩
          cases hb
          cases hr
          exact h
        · exact fun h => ⟨b, slen, hdr, rfl, rfl, h⟩
      rw [hrhs]
      dsimp only
      by_cases hwrap : 2 ^ 32 ≤ hdr + slen
      · have hstop : (hdr + slen) % 2 ^ 32 = hdr + slen - 2 ^ 32 := by omega
        have hshort : (src.drop hdr).length < slen := by omega
        rw [hstop, if_neg (by omega)]
        by_cases hhuff : b.toNat &&& 0x80 ≠ 0
        · rw [if_pos hhuff, bind_ok_fault_iff, huffmanDecode_fault_iff]
          rw [if_pos hhuff]
          exact ⟨fun h => ⟨hwrap, h.2⟩, fun h => ⟨hshort, h.2⟩⟩
        · rw [if_neg hhuff]
          by_cases hcap : cap < slen
          · rw [if_pos hcap, if_neg hhuff]
            exact ⟨fun h => (nomatch h), fun h => absurd h.2 (Nat.not_le.mpr hcap)⟩
          · rw [if_neg hcap, bind_ok_fault_iff, readOctets_fault_iff, if_neg hhuff]
            exact ⟨fun _ => ⟨hwrap, Nat.not_lt.mp hcap⟩, fun _ => hshort⟩
      · have hstop : (hdr + slen) % 2 ^ 32 = hdr + slen := Nat.mod_eq_of_lt (Nat.not_le.mp hwrap)
        refine iff_of_false ?_ fun h => hwrap h.1
        split_ifs with htrunc hhuff hcap
        · simp
        · rw [bind_ok_fault_iff, huffmanDecode_fault_iff]
          omega
        · simp
        · rw [bind_ok_fault_iff, readOctets_fault_iff]
          omega

lemma bind_eq_ok {α β} {x : Outcome α} {f : α → Outcome β} {b} (h : x.bind f = .ok b) :
    ∃ a, x = .ok a ∧ f a = .ok b := by
  cases x with
  | ok a => exact ⟨a, rfl, h⟩
  | error => cases h
  | fault => cases h

lemma bind_ok_eq_ok {α β} {x : Outcome α} {f : α → β} {b}
    (h : (x.bind fun a => .ok (f a)) = .ok b) : ∃ a, x = .ok a ∧ f a = b := by
  cases x with
  | ok a => exact ⟨a, rfl, Outcome.ok.inj h⟩
  | error => cases h
  | fault => cases h

/-- What `decode_string` reports as consumed is within its input. -/
lemma decodeString_consumed (h : decodeString src cap = .ok (s, n)) : n ≤ src.length := by
  rw [decodeString] at h
  split at h
  · dsimp only at h
    split_ifs at h with htrunc hhuff hcap
    · obtain ⟨a, -, ha⟩ := bind_ok_eq_ok h
      cases ha
      exact Nat.not_lt.mp htrunc
    · obtain ⟨a, -, ha⟩ := bind_ok_eq_ok h
      cases ha
      exact Nat.not_lt.mp htrunc
  · cases h

end decodeString

/-! ## Blocks -/

section block

variable {c : BlockCaps} {src : Str} {st st' : BlockState} {name value : View} {nidx : Nat} {b : UInt8}

lemma push_pos (h : st.push c name value = .ok st') : st'.pos = st.pos := by
  unfold BlockState.push at h
  split_ifs at h
  cases h
  rfl

lemma indexedField_pos (h : indexedField c (src.drop st.pos) st = .ok st') :
    st.pos < st'.pos ∧ st'.pos ≤ st.pos + (src.drop st.pos).length := by
  unfold indexedField at h
  split at h
  · cases h
  · next idx n hint =>
    obtain ⟨hpos, hle, -⟩ := decodeInteger_bounds (by decide) hint
    split at h
    · cases h
    · rw [push_pos h]
      exact ⟨by simp only; omega, by simp only; omega⟩

lemma sizeUpdate_pos (h : sizeUpdate (src.drop st.pos) st = .ok st') :
    st.pos < st'.pos ∧ st'.pos ≤ st.pos + (src.drop st.pos).length := by
  unfold sizeUpdate at h
  split at h
  · cases h
  · next sz n hint =>
    obtain ⟨hpos, hle, -⟩ := decodeInteger_bounds (by decide) hint
    split_ifs at h
    cases h
    exact ⟨by simp only; omega, by simp only; omega⟩

lemma literalString_pos (h : literalString c src st = .ok (value, st')) :
    st.pos ≤ st'.pos ∧ st'.pos ≤ st.pos + (src.drop st.pos).length := by
  obtain ⟨⟨s, n⟩, hs, heq⟩ := bind_eq_ok h
  cases heq
  exact ⟨Nat.le_add_right _ _, Nat.add_le_add_left (decodeString_consumed hs) _⟩

lemma literalName_pos (h : literalName c src st nidx = .ok (name, st')) :
    st.pos ≤ st'.pos ∧ st'.pos ≤ st.pos + (src.drop st.pos).length := by
  unfold literalName at h
  split_ifs at h with hn
  · exact literalString_pos h
  · split at h
    · cases h
    · cases h
      exact ⟨le_rfl, Nat.le_add_right _ _⟩

lemma copyName_pos (h : copyName c st nidx name = .ok (value, st')) : st'.pos = st.pos := by
  unfold copyName at h
  dsimp only at h
  split_ifs at h
  · cases h
    rfl
  · cases h
    rfl

lemma addField_pos (h : addField st name value = .ok st') : st'.pos = st.pos := by
  obtain ⟨d, -, rfl⟩ := bind_ok_eq_ok h
  rfl

lemma literalField_pos {incremental} (hpos : st.pos ≤ src.length)
    (h : literalField c src st incremental = .ok st') : st.pos < st'.pos ∧ st'.pos ≤ src.length := by
  unfold literalField at h
  split at h
  · cases h
  · next nidx n hint =>
    obtain ⟨hn, hle, -⟩ := decodeInteger_bounds (by split_ifs <;> decide) hint
    obtain ⟨⟨name, st₁⟩, hname, h⟩ := bind_eq_ok h
    obtain ⟨⟨value, st₂⟩, hvalue, h⟩ := bind_eq_ok h
    have hpos₁ := literalName_pos hname
    have hpos₂ := literalString_pos hvalue
    have hend : st'.pos = st₂.pos := by
      split_ifs at h
      · obtain ⟨⟨name', st₃⟩, hcopy, h⟩ := bind_eq_ok h
        obtain ⟨st₄, hadd, h⟩ := bind_eq_ok h
        rw [push_pos h, addField_pos hadd, copyName_pos hcopy]
      · exact push_pos h
    simp only [List.length_drop] at hle hpos₁ hpos₂
    omega

lemma blockField_pos (hpos : st.pos ≤ src.length) (h : blockField c src st b = .ok st') :
    st.pos < st'.pos ∧ st'.pos ≤ src.length := by
  unfold blockField at h
  split_ifs at h
  · have hstep := indexedField_pos h
    rw [List.length_drop] at hstep
    omega
  · have hstep := sizeUpdate_pos h
    rw [List.length_drop] at hstep
    omega
  · exact literalField_pos hpos h

lemma blockStep_pos (hpos : st.pos ≤ src.length) (h : blockStep c src st = .inl st') :
    st.pos < st'.pos ∧ st'.pos ≤ src.length := by
  unfold blockStep at h
  split at h
  · cases h
  · split at h
    · next hfield =>
      cases h
      exact blockField_pos hpos hfield
    · cases h
    · cases h

/-- A state of `decode_header_block` on a block. -/
def BlockState.Reached (c : BlockCaps) (dyn : DynamicTable) (src : Str) : BlockState → Prop :=
  Relation.ReflTransGen (fun st st' => blockStep c src st = .inl st') { dyn, pos := 0, out := [], headers := [] }

/-- The cursor of `decode_header_block` never passes the end of the block. -/
lemma BlockState.Reached.pos_le {dyn} (h : st.Reached c dyn src) : st.pos ≤ src.length := by
  induction h with
  | refl => exact Nat.zero_le _
  | tail _ hstep ih => exact (blockStep_pos ih hstep).2

end block

/-- `decode_string` reads inside its input and reports at most its length exactly if the length it decodes does
not wrap around; the cursor of `decode_header_block` stays inside the block in every case. -/
theorem decodeString_inside_iff (src : Str) (cap : Nat) (hlen : src.length < 2 ^ 32) :
    ((decodeString src cap ≠ .fault ∧ ∀ s n, decodeString src cap = .ok (s, n) → n ≤ src.length) ∧
      ∀ c dyn st, BlockState.Reached c dyn src st → st.pos ≤ src.length) ↔ ¬ LengthWraps src cap := by
  constructor
  · intro h hwraps
    exact h.1.1 ((decodeString_fault_iff hlen).mpr hwraps)
  · intro hwraps
    refine ⟨⟨?_, fun s n h => decodeString_consumed h⟩, fun c dyn st h => h.pos_le⟩
    intro hfault
    exact hwraps ((decodeString_fault_iff hlen).mp hfault)

/-- The string `a` in three octets of capacity. -/
theorem decodeString_inside_one :
    decodeString [0x01, 0x61] 3 ≠ .fault ∧ ∀ s n, decodeString [0x01, 0x61] 3 = .ok (s, n) → n ≤ 2 := by
  refine ((decodeString_inside_iff [0x01, 0x61] 3 (by decide)).mpr ?_).1
  rintro ⟨b, slen, hdr, -, hint, hwrap, -⟩
  cases hint
  exact absurd hwrap (by decide)

/-- A length of 2^32 - 1 behind six octets: their sum is 5, and the decoder reads behind the input. -/
theorem decodeString_outside :
    ¬ (decodeString [0xff, 0x80, 0xff, 0xff, 0xff, 0x0f] 100 ≠ .fault ∧
      ∀ s n, decodeString [0xff, 0x80, 0xff, 0xff, 0xff, 0x0f] 100 = .ok (s, n) → n ≤ 6) := by
  intro h
  exact h.1 (by decide)

end Rut.Hpack
