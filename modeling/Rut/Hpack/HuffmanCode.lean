import Rut.Hpack.Huffman
import Rut.Lib.PrefixCode

/-!
# The Huffman code as a prefix code

In the order of their words, the rows of the code table tile the numbers of 30 bits: each row stands for
those whose high bits are its word. So no word is a prefix of another, and every bit string of 30 bits
starts with a word. The nodes of the trie are the prefixes of the words.
-/

namespace Rut.Hpack

open Lib

/-! ## The table -/

def HuffCode.lo (c : HuffCode) : Nat := c.code * 2 ^ (30 - c.bits)

/-- The rows cover the numbers from `a` to `b` one after the other. -/
def tiled : Nat → Nat → List HuffCode → Bool
  | a, b, [] => a == b
  | a, b, c :: cs => c.lo == a && tiled (a + 2 ^ (30 - c.bits)) b cs

def sortedCodes : List HuffCode := kHuff.insertionSort fun c d => c.lo ≤ d.lo

lemma kHuff_table : kHuff.length = kSymCount ∧ (∀ c ∈ kHuff, 4 < c.bits ∧ c.bits ≤ 30 ∧ c.code < 2 ^ c.bits) ∧
    tiled 0 (2 ^ 30) sortedCodes = true :=
  ⟨by decide +kernel, List.all_iff_forall_prop.mp (by decide +kernel), by decide +kernel⟩

lemma kHuff_length : kHuff.length = kSymCount := kHuff_table.1

lemma kHuff_bits : ∀ c ∈ kHuff, 4 < c.bits ∧ c.bits ≤ 30 ∧ c.code < 2 ^ c.bits := kHuff_table.2.1

lemma sortedCodes_tiled : tiled 0 (2 ^ 30) sortedCodes = true := kHuff_table.2.2

section tiles

variable {a b v : Nat} {c d : HuffCode} {cs : List HuffCode}

def HuffCode.Covers (c : HuffCode) (v : Nat) : Prop := c.lo ≤ v ∧ v < c.lo + 2 ^ (30 - c.bits)

lemma exists_covers (h : tiled a b cs = true) (ha : a ≤ v) (hb : v < b) : ∃ c ∈ cs, c.Covers v := by
  induction cs generalizing a with
  | nil =>
    rw [tiled, beq_iff_eq] at h
    omega
  | cons c cs ih =>
    rw [tiled, Bool.and_eq_true, beq_iff_eq] at h
    by_cases hv : v < a + 2 ^ (30 - c.bits)
    · exact ⟨c, List.mem_cons_self, by rw [h.1]; exact ha, by rw [h.1]; exact hv⟩
    · obtain ⟨d, hd, hcov⟩ := ih h.2 (Nat.not_lt.mp hv)
      exact ⟨d, List.mem_cons_of_mem _ hd, hcov⟩

lemma lo_le_of_tiled (h : tiled a b cs = true) (hc : c ∈ cs) : a ≤ c.lo := by
  induction cs generalizing a with
  | nil => cases hc
  | cons d cs ih =>
    rw [tiled, Bool.and_eq_true, beq_iff_eq] at h
    rcases List.mem_cons.mp hc with rfl | hc
    · exact Nat.le_of_eq h.1.symm
    · exact (Nat.le_add_right a _).trans (ih h.2 hc)

lemma tiled_pairwise (h : tiled a b cs = true) : cs.Pairwise fun c d => c.lo + 2 ^ (30 - c.bits) ≤ d.lo := by
  induction cs generalizing a with
  | nil => exact List.Pairwise.nil
  | cons c cs ih =>
    rw [tiled, Bool.and_eq_true, beq_iff_eq] at h
    refine List.pairwise_cons.mpr ⟨fun d hd => ?_, ih h.2⟩
    rw [h.1]
    exact lo_le_of_tiled h.2 hd

end tiles

lemma mem_sortedCodes {c : HuffCode} : c ∈ sortedCodes ↔ c ∈ kHuff := List.mem_insertionSort _

lemma covers_unique {c d v} (hc : c ∈ kHuff) (hd : d ∈ kHuff) (hcv : c.Covers v) (hdv : d.Covers v) : c = d := by
  by_contra hne
  have hpair := tiled_pairwise sortedCodes_tiled
  have hsym : sortedCodes.Pairwise fun c d => ¬ (c.Covers v ∧ d.Covers v) := by
    refine hpair.imp fun h => ?_
    rintro ⟨⟨-, hlt⟩, ⟨hle, -⟩⟩
    omega
  have : Std.Symm fun c d : HuffCode => ¬ (c.Covers v ∧ d.Covers v) := ⟨fun x y h hxy => h hxy.symm⟩
  exact hsym.forall (mem_sortedCodes.mpr hc) (mem_sortedCodes.mpr hd) hne ⟨hcv, hdv⟩

lemma kHuff_nodup : kHuff.Nodup := by
  have hperm : sortedCodes.Perm kHuff := List.perm_insertionSort _ _
  rw [← hperm.nodup_iff]
  refine (tiled_pairwise sortedCodes_tiled).imp fun {c d} h => ?_
  rintro rfl
  have := Nat.two_pow_pos (30 - c.bits)
  omega

lemma HuffCode.Covers.word {c : HuffCode} {v} (h : c.Covers v) (hbits : c.bits ≤ 30) : c.word <+: natBits 30 v := by
  have hpow := Nat.two_pow_pos (30 - c.bits)
  have hdiv : v / 2 ^ (30 - c.bits) = c.code := by
    rw [Nat.div_eq_iff (by omega)]
    have := h.1
    have := h.2
    simp only [HuffCode.lo] at *
    omega
  have hsplit := natBits_add c.bits (30 - c.bits) v
  rw [Nat.add_sub_cancel' hbits, hdiv] at hsplit
  exact ⟨_, hsplit.symm⟩

lemma covers_of_word {c : HuffCode} {v} (hbits : c.bits ≤ 30) (hcode : c.code < 2 ^ c.bits) (hv : v < 2 ^ 30)
    (h : c.word <+: natBits 30 v) : c.Covers v := by
  have hsplit := natBits_add c.bits (30 - c.bits) v
  rw [Nat.add_sub_cancel' hbits] at hsplit
  rw [hsplit] at h
  have heq : c.word = natBits c.bits (v / 2 ^ (30 - c.bits)) := by
    refine List.IsPrefix.eq_of_length (List.prefix_of_prefix_length_le h (List.prefix_append ..) ?_) ?_ <;>
      simp [HuffCode.word]
  have hlt : v / 2 ^ (30 - c.bits) < 2 ^ c.bits := by
    rw [Nat.div_lt_iff_lt_mul (Nat.two_pow_pos _), ← Nat.pow_add, Nat.add_sub_cancel' hbits]
    exact hv
  have hdiv := natBits_inj hcode hlt heq
  rw [HuffCode.Covers, HuffCode.lo, hdiv]
  refine ⟨Nat.div_mul_le_self _ _, ?_⟩
  have := Nat.lt_div_mul_add (Nat.two_pow_pos (30 - c.bits)) (a := v)
  omega

lemma sym_lt (s : Sym) : s.val < kHuff.length := by
  rw [kHuff_length]
  exact s.isLt

lemma huffCode_mem (s : Sym) : huffCode s ∈ kHuff := by
  have hlt := sym_lt s
  rw [huffCode, List.getD_eq_getElem _ _ hlt]
  exact List.getElem_mem hlt

lemma huffCode_inj {s s'} (h : huffCode s = huffCode s') : s = s' := by
  rw [huffCode, huffCode, List.getD_eq_getElem _ _ (sym_lt s), List.getD_eq_getElem _ _ (sym_lt s')] at h
  exact Fin.ext ((kHuff_nodup.getElem_inj_iff).mp h)

lemma exists_sym {c} (h : c ∈ kHuff) : ∃ s : Sym, huffCode s = c := by
  obtain ⟨i, hi, rfl⟩ := List.getElem_of_mem h
  have hlt : i < kSymCount := by rwa [kHuff_length] at hi
  exact ⟨⟨i, hlt⟩, List.getD_eq_getElem _ _ hi⟩

lemma exists_number {p} (h : p.length ≤ 30) : ∃ v < 2 ^ 30, p <+: natBits 30 v := by
  obtain ⟨v, hv, heq⟩ := exists_natBits (p ++ List.replicate (30 - p.length) false)
  have hlen : (p ++ List.replicate (30 - p.length) false).length = 30 := by
    rw [List.length_append, List.length_replicate]
    omega
  rw [hlen] at hv heq
  exact ⟨v, hv, heq ▸ List.prefix_append ..⟩

def huffman : PrefixCode Sym Bool where
  word s := (huffCode s).word
  word_ne_nil s := by
    have hbits := (kHuff_bits _ (huffCode_mem s)).1
    refine List.ne_nil_of_length_pos ?_
    rw [HuffCode.word, natBits_length]
    omega
  word_inj_of_le := by
    intro s s' h
    obtain ⟨-, hbits, hcode⟩ := kHuff_bits _ (huffCode_mem s)
    obtain ⟨-, hbits', hcode'⟩ := kHuff_bits _ (huffCode_mem s')
    obtain ⟨v, hv, hpre⟩ := exists_number (p := (huffCode s').word) (by simpa [HuffCode.word] using hbits')
    exact huffCode_inj (covers_unique (huffCode_mem s) (huffCode_mem s')
      (covers_of_word hbits hcode hv (h.trans hpre)) (covers_of_word hbits' hcode' hv hpre))

lemma huffman_word_length (s : Sym) : 4 < (huffman.word s).length ∧ (huffman.word s).length ≤ 30 := by
  have hbits := kHuff_bits _ (huffCode_mem s)
  simp only [huffman, HuffCode.word, natBits_length]
  exact ⟨hbits.1, hbits.2.1⟩

theorem huffman_complete : huffman.Complete := by
  intro p hp b
  obtain ⟨s, hs, hne⟩ := hp
  have hlt : p.length < (huffman.word s).length :=
    Nat.lt_of_le_of_ne hs.length_le fun h => hne (hs.eq_of_length h)
  have hlen : (p ++ [b]).length ≤ 30 := by
    have := (huffman_word_length s).2
    rw [List.length_append, List.length_singleton]
    omega
  obtain ⟨v, hv, hpre⟩ := exists_number hlen
  obtain ⟨c, hc, hcov⟩ := exists_covers sortedCodes_tiled (Nat.zero_le v) hv
  obtain ⟨t, rfl⟩ := exists_sym (mem_sortedCodes.mp hc)
  have hword : huffman.word t <+: natBits 30 v := hcov.word (kHuff_bits _ (huffCode_mem t)).2.1
  rcases List.prefix_or_prefix_of_prefix hword hpre with h | h
  · -- the word is not longer than the bits read, but no prefix of those before
    rcases List.prefix_concat_iff.mp h with heq | hle
    · exact .inl ⟨t, heq.symm⟩
    · exact absurd hle (PrefixCode.Pending.not_word_le ⟨s, hs, hne⟩ t)
  · by_cases heq : p ++ [b] = huffman.word t
    · exact .inl ⟨t, heq⟩
    · exact .inr ⟨t, h, heq⟩

lemma huffman_eos : huffman.word kEosSym = List.replicate 30 true := by decide

lemma pending_ones {k} (hk : k < 30) : huffman.Pending (List.replicate k true) := by
  refine ⟨kEosSym, ?_, ?_⟩
  · rw [huffman_eos, ← Nat.add_sub_cancel' (Nat.le_of_lt hk), List.replicate_add]
    exact List.prefix_append ..
  · rw [huffman_eos]
    intro h
    have := congrArg List.length h
    simp only [List.length_replicate] at this
    omega

end Rut.Hpack
