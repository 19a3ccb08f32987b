import Rut.Hpack.HuffmanTrie

/-!
# Huffman coding is exact

`huffman_decode` accepts the bit strings that are words of octets followed by at most seven ones, and then
returns these octets; `huffman_encode` writes the words and fills the last octet with ones. A state of the
automaton is the part of the next word that has been read; a nibble ends one word at most, as words have at
least five bits.
-/

namespace Rut.Hpack

open Lib

/-! ## The automaton -/

/-- The symbol that the loop of `build_fsm` keeps. -/
def keepSym (emitted : Option Sym) (s : Sym) : Option Sym := if s = kEosSym then emitted else some s

section automaton

variable {t : HuffTrie} {path : Nat → List Bool} {l : List Bool} {cur : Nat} {bit : Bool}

lemma exists_child (T : TrieOf t path (List.finRange kSymCount)) (hcur : cur < t.nodes.length)
    (hp : huffman.Pending (path cur)) (bit : Bool) :
    ∃ c, (t.node cur).child bit = some c ∧ c < t.nodes.length ∧ path c = path cur ++ [bit] := by
  have hpre : ∃ s, path cur ++ [bit] <+: huffman.word s := by
    rcases huffman_complete hp bit with ⟨s, h⟩ | ⟨s, h, -⟩
    · exact ⟨s, h ▸ List.prefix_refl _⟩
    · exact ⟨s, h⟩
  obtain ⟨s, hs⟩ := hpre
  obtain ⟨c, hc, hpc⟩ := T.complete (List.mem_finRange s) hs
  exact ⟨c, (T.rep.child hcur bit c).mpr ⟨hc, hpc⟩, hc, hpc⟩

lemma fsmLoop_spec (T : TrieOf t path (List.finRange kSymCount)) (hcur : cur < t.nodes.length)
    (hp : huffman.Pending (path cur)) (l : List Bool) (emitted : Option Sym) (failed : Bool) :
    ∃ n' new, n' < t.nodes.length ∧ huffman.Parsed (path cur ++ l) new (path n') ∧ fsmLoop t l cur emitted failed =
        ⟨some n', new.foldl keepSym emitted, failed || new.contains kEosSym⟩ := by
  induction l generalizing cur emitted failed with
  | nil => exact ⟨cur, [], hcur, by simpa using PrefixCode.parsed_nil hp, by simp [fsmLoop]⟩
  | cons bit l ih =>
    obtain ⟨c, hchild, hc, hpc⟩ := exists_child T hcur hp bit
    simp only [fsmLoop, hchild]
    have hsplit : path cur ++ bit :: l = (path cur ++ [bit]) ++ l := by simp
    rcases huffman_complete hp bit with ⟨s, hs⟩ | hpend
    · have hsym : (t.node c).sym = some s := (T.sym hc s).mpr ⟨List.mem_finRange s, hpc.trans hs⟩
      simp only [hsym]
      have hroot := T.rep.root
      have hended := (PrefixCode.parsed_nil hp).ended hs
      split_ifs with heos
      · obtain ⟨n', new, hn', P, heq⟩ := ih T.rep.root_lt (hroot ▸ PrefixCode.pending_nil huffman s) emitted true
        rw [hroot] at P
        refine ⟨n', s :: new, hn', hsplit ▸ hended.append P, ?_⟩
        rw [heq]
        simp [keepSym, heos]
      · obtain ⟨n', new, hn', P, heq⟩ := ih T.rep.root_lt (hroot ▸ PrefixCode.pending_nil huffman s) (some s) failed
        rw [hroot] at P
        refine ⟨n', s :: new, hn', hsplit ▸ hended.append P, ?_⟩
        rw [heq]
        simp [keepSym, heos, Ne.symm heos]
    · have hsym : (t.node c).sym = none := by
        by_contra hsome
        obtain ⟨s, hs⟩ := Option.ne_none_iff_exists'.mp hsome
        have hw := ((T.sym hc s).mp hs).2
        exact hpend.not_word_le s (by rw [← hpc, hw])
      simp only [hsym]
      obtain ⟨n', new, hn', P, heq⟩ := ih hc (hpc ▸ hpend) emitted failed
      rw [hpc] at P
      exact ⟨n', new, hn', hsplit ▸ P, heq⟩

lemma fsmEntry_spec (T : TrieOf t path (List.finRange kSymCount)) (hcur : cur < t.nodes.length)
    (hp : huffman.Pending (path cur)) (v : Nat) :
    ∃ n' new, n' < t.nodes.length ∧ huffman.Parsed (path cur ++ natBits 4 v) new (path n') ∧
      new.length ≤ 1 ∧ fsmEntry t cur v = ⟨some n', new.foldl keepSym none, new.contains kEosSym⟩ := by
  obtain ⟨n', new, hn', P, heq⟩ := fsmLoop_spec T hcur hp (natBits 4 v) none false
  refine ⟨n', new, hn', P, ?_, ?_⟩
  · exact P.ended_le_one hp (fun s => (huffman_word_length s).1) (Nat.le_of_eq natBits_length)
  · rw [fsmEntry, if_pos hcur, heq, Bool.false_or]

end automaton

/-! ## The decoder -/

def bitsOf (b : Str) : List Bool := b.flatMap fun x => natBits 8 x.toNat

/-- After the bits, the decoder has written the octets and is at a node. -/
def Reading (t : HuffTrie) (path : Nat → List Bool) (bits : List Bool) (node : Nat) (out : Str) : Prop :=
  node < t.nodes.length ∧ huffman.Parsed bits (out.map octetSym) (path node)

def Rejects (cap : Nat) (bits : List Bool) : Prop :=
  ∃ ss p, huffman.Parsed bits ss p ∧ (kEosSym ∈ ss ∨ cap < ss.length)

lemma octetSym_ne_eos (b : UInt8) : octetSym b ≠ kEosSym := by
  intro h
  have hval : b.toNat = 256 := congrArg Fin.val h
  have := b.toNat_lt
  omega

lemma octetSym_ofNat {s} (h : s ≠ kEosSym) : octetSym (UInt8.ofNat s.val) = s := by
  have hlt : s.val < 256 := by
    have hne : s.val ≠ 256 := fun hval => h (Fin.ext hval)
    have hlt : s.val < 257 := s.isLt
    omega
  exact Fin.ext (by simp [octetSym, UInt8.toNat_ofNat', Nat.mod_eq_of_lt hlt])

lemma map_octetSym_inj {s s' : Str} (h : s.map octetSym = s'.map octetSym) : s = s' := by
  refine List.map_injective_iff.mpr (fun a b hab => ?_) h
  have hval : (octetSym a).val = (octetSym b).val := by rw [hab]
  exact UInt8.toNat_inj.mp hval

section decoder

variable {t : HuffTrie} {path : Nat → List Bool} {bits : List Bool} {node cap : Nat} {out : Str}

lemma Rejects.append (h : Rejects cap bits) (l : List Bool) : Rejects cap (bits ++ l) := by
  obtain ⟨ss, p, P, hbad⟩ := h
  obtain ⟨new, p', P'⟩ := huffman_complete.parse P.pending l
  refine ⟨ss ++ new, p', P.append P', hbad.imp (List.mem_append_left _) fun hlen => ?_⟩
  rw [List.length_append]
  omega

lemma nibbleStep_spec (T : TrieOf t path (List.finRange kSymCount)) (R : Reading t path bits node out)
    (hout : out.length ≤ cap) (v : Nat) :
    (∃ n' out', nibbleStep t cap node out v = .ok (n', out') ∧ Reading t path (bits ++ natBits 4 v) n' out' ∧
      out'.length ≤ cap) ∨ (nibbleStep t cap node out v = .error ∧ Rejects cap (bits ++ natBits 4 v)) := by
  obtain ⟨hnode, P⟩ := R
  obtain ⟨n', new, hn', P', hone, heq⟩ := fsmEntry_spec T hnode P.pending v
  have hcases : new = [] ∨ ∃ s, new = [s] := by
    cases new with
    | nil => exact .inl rfl
    | cons s new => exact .inr ⟨s, by simpa using hone⟩
  rcases hcases with rfl | ⟨s, rfl⟩
  · refine .inl ⟨n', out, by simp [nibbleStep, heq, gotoState], ⟨hn', ?_⟩, hout⟩
    simpa using P.append P'
  · by_cases heos : s = kEosSym
    · refine .inr ⟨by simp [nibbleStep, heq, heos], _, _, P.append P', .inl ?_⟩
      simp [heos]
    · by_cases hcap : cap ≤ out.length
      · refine .inr ⟨by simp [nibbleStep, heq, Ne.symm heos, keepSym, heos, hcap], _, _, P.append P', .inr ?_⟩
        simp only [List.length_append, List.length_map, List.length_singleton]
        omega
      · refine .inl ⟨n', out ++ [UInt8.ofNat s.val], ?_, ⟨hn', ?_⟩, ?_⟩
        · simp [nibbleStep, heq, Ne.symm heos, keepSym, heos, hcap, gotoState]
        · have hmap : (out ++ [UInt8.ofNat s.val]).map octetSym = out.map octetSym ++ [s] := by
            rw [List.map_append, List.map_singleton, octetSym_ofNat heos]
          rw [hmap]
          exact P.append P'
        · rw [List.length_append, List.length_singleton]
          omega

lemma reading_start (T : TrieOf t path (List.finRange kSymCount)) : Reading t path [] 0 [] :=
  ⟨T.rep.root_lt, by simpa [T.rep.root] using PrefixCode.parsed_nil (PrefixCode.pending_nil huffman 0)⟩

lemma huffmanLoop_spec (T : TrieOf t path (List.finRange kSymCount)) (src : Str)
    (R : Reading t path bits node out) (hout : out.length ≤ cap) :
    (∃ n' out', huffmanLoop t cap src.length src node out = .ok (n', out') ∧
      Reading t path (bits ++ bitsOf src) n' out' ∧ out'.length ≤ cap) ∨
    (huffmanLoop t cap src.length src node out = .error ∧ Rejects cap (bits ++ bitsOf src)) := by
  induction src generalizing bits node out with
  | nil => exact .inl ⟨node, out, rfl, by simpa [bitsOf] using R, hout⟩
  | cons b src ih =>
    have hbits : natBits 8 b.toNat = natBits 4 (b.toNat / 16) ++ natBits 4 (b.toNat % 16) := by
      have hlow : natBits 4 (b.toNat % 16) = natBits 4 b.toNat := natBits_mod 4 b.toNat
      rw [hlow]
      exact natBits_add 4 4 b.toNat
    have hsplit : bits ++ bitsOf (b :: src) =
        ((bits ++ natBits 4 (b.toNat / 16)) ++ natBits 4 (b.toNat % 16)) ++ bitsOf src := by
      simp only [bitsOf, List.flatMap_cons, hbits, List.append_assoc]
    rw [hsplit, List.length_cons, huffmanLoop]
    rcases nibbleStep_spec T R hout (b.toNat / 16) with ⟨n₁, out₁, h₁, R₁, hout₁⟩ | ⟨h₁, hbad⟩
    · rw [h₁]
      rcases nibbleStep_spec T R₁ hout₁ (b.toNat % 16) with ⟨n₂, out₂, h₂, R₂, hout₂⟩ | ⟨h₂, hbad⟩
      · simp only [Outcome.bind, h₂]
        exact ih R₂ hout₂
      · simp only [Outcome.bind, h₂]
        exact .inr ⟨trivial, hbad.append _⟩
    · rw [h₁]
      exact .inr ⟨rfl, (hbad.append _).append _⟩

lemma mem_onesBelow (T : TrieOf t path (List.finRange kSymCount)) {depth k} (hnode : node < t.nodes.length)
    (hpath : path node = List.replicate k true) (hk : k + depth < 30) (n : Nat) : n ∈ onesBelow t depth node ↔
      n < t.nodes.length ∧ ∃ j, 0 < j ∧ j ≤ depth ∧ path n = List.replicate (k + j) true := by
  induction depth generalizing node k with
  | zero =>
    simp only [onesBelow, List.not_mem_nil, false_iff]
    rintro ⟨-, j, hpos, hle, -⟩
    omega
  | succ depth ih =>
    obtain ⟨c, hchild, hc, hpc⟩ := exists_child T hnode (hpath ▸ pending_ones (by omega)) true
    have hones : path c = List.replicate (k + 1) true := by rw [hpc, hpath, ← List.replicate_succ']
    simp only [onesBelow, hchild, List.mem_cons]
    rw [ih hc hones (by omega)]
    constructor
    · rintro (rfl | ⟨hn, j, hpos, hle, hp⟩)
      · exact ⟨hc, 1, Nat.one_pos, by omega, hones⟩
      · exact ⟨hn, j + 1, by omega, by omega, by rw [hp]; congr 1; omega⟩
    · rintro ⟨hn, j, hpos, hle, hp⟩
      by_cases hj : j = 1
      · subst hj
        exact .inl (T.rep.inj hn hc (hp.trans hones.symm))
      · exact .inr ⟨hn, j - 1, by omega, by omega, by rw [hp]; congr 1; omega⟩

lemma padOk_iff (T : TrieOf t path (List.finRange kSymCount)) (hnode : node < t.nodes.length) :
    padOk t node = true ↔ ∃ pad ≤ 7, path node = List.replicate pad true := by
  rw [padOk, Bool.or_eq_true, beq_iff_eq, List.contains_iff_mem,
    mem_onesBelow T T.rep.root_lt (k := 0) T.rep.root (by decide)]
  constructor
  · rintro (rfl | ⟨-, j, -, hle, hp⟩)
    · exact ⟨0, Nat.zero_le _, T.rep.root⟩
    · exact ⟨j, hle, by rw [hp, Nat.zero_add]⟩
  · rintro ⟨pad, hle, hp⟩
    rcases Nat.eq_zero_or_pos pad with rfl | hpos
    · exact .inl (T.rep.inj hnode T.rep.root_lt (hp.trans T.rep.root.symm))
    · exact .inr ⟨hnode, pad, hpos, hle, by rw [hp, Nat.zero_add]⟩

lemma huffmanDecodeWith_iff (T : TrieOf t path (List.finRange kSymCount)) (cap : Nat) (b s : Str) :
    huffmanDecodeWith t cap b b.length = .ok s ↔
      (∃ pad ≤ 7, bitsOf b = huffman.encode (s.map octetSym) ++ List.replicate pad true) ∧
      s.length ≤ cap ∧ s.length < 2 ^ 31 := by
  have R := reading_start T
  have hunique : ∀ {ss p pad}, pad ≤ 7 → huffman.Parsed (bitsOf b) ss p →
      bitsOf b = huffman.encode (s.map octetSym) ++ List.replicate pad true →
      ss = s.map octetSym ∧ p = List.replicate pad true := by
    intro ss p pad hpad P heq
    exact P.unique ⟨heq, pending_ones (by omega)⟩
  rcases huffmanLoop_spec T b R (Nat.zero_le cap) with ⟨n', out, hloop, ⟨hn', P⟩, hout⟩ | ⟨hloop, ss, p, P, hbad⟩
  · rw [List.nil_append] at P
    simp only [huffmanDecodeWith, hloop, Outcome.bind]
    constructor
    · intro h
      split_ifs at h with hpad hlen
      cases h
      rw [Bool.not_eq_true, Bool.not_eq_false', padOk_iff T hn'] at hpad
      obtain ⟨pad, hle, hp⟩ := hpad
      exact ⟨⟨pad, hle, hp ▸ P.eq⟩, hout, hlen⟩
    · rintro ⟨⟨pad, hle, heq⟩, -, hlen⟩
      obtain ⟨hs, hp⟩ := hunique hle P heq
      obtain rfl := map_octetSym_inj hs
      have hpad := (padOk_iff T hn').mpr ⟨pad, hle, hp⟩
      rw [hpad, if_neg (by simp), if_pos hlen]
  · rw [List.nil_append] at P
    simp only [huffmanDecodeWith, hloop, Outcome.bind]
    refine ⟨fun h => absurd h (by simp), ?_⟩
    rintro ⟨⟨pad, hle, heq⟩, hcap, -⟩
    obtain ⟨rfl, -⟩ := hunique hle P heq
    rcases hbad with hmem | hlen
    · obtain ⟨x, -, hx⟩ := List.mem_map.mp hmem
      exact absurd hx (octetSym_ne_eos x)
    · rw [List.length_map] at hlen
      omega

end decoder

/-! ## The encoder -/

section encoder

@[simp] lemma bitsOf_append (a b : Str) : bitsOf (a ++ b) = bitsOf a ++ bitsOf b := List.flatMap_append

lemma bitsOf_octet (v : Nat) : bitsOf [UInt8.ofNat v] = natBits 8 v := by
  exact natBits_mod 8 v

lemma flushBits_spec (acc nbits : Nat) (out : Str) : (flushBits acc nbits out).1 < 8 ∧
    bitsOf (flushBits acc nbits out).2 ++ natBits (flushBits acc nbits out).1 acc =
      bitsOf out ++ natBits nbits acc := by
  induction nbits using Nat.strongRecOn generalizing out with
  | _ nbits ih =>
    rw [flushBits]
    split_ifs with h
    · obtain ⟨hlt, heq⟩ := ih (nbits - 8) (by omega) (out ++ [UInt8.ofNat (acc >>> (nbits - 8))])
      refine ⟨hlt, heq.trans ?_⟩
      have hsplit := natBits_add 8 (nbits - 8) acc
      rw [Nat.add_sub_cancel' h] at hsplit
      rw [bitsOf_append, bitsOf_octet, hsplit, List.append_assoc, Nat.shiftRight_eq_div_pow]
    · exact ⟨Nat.not_le.mp h, rfl⟩

lemma encodeLoop_spec (src : Str) (acc : Nat) {nbits} (out : Str) (hn : nbits < 8) :
    (encodeLoop src acc nbits out).2.1 < 8 ∧ bitsOf (encodeLoop src acc nbits out).2.2 ++
        natBits (encodeLoop src acc nbits out).2.1 (encodeLoop src acc nbits out).1 =
      bitsOf out ++ natBits nbits acc ++ huffman.encode (src.map octetSym) := by
  induction src generalizing acc nbits out with
  | nil => exact ⟨hn, by simp [encodeLoop]⟩
  | cons b src ih =>
    obtain ⟨-, hbits, hcode⟩ := kHuff_bits _ (huffCode_mem (octetSym b))
    set c := huffCode (octetSym b) with hc
    set acc' := (acc <<< c.bits ||| c.code) % 2 ^ 64 with hacc
    obtain ⟨hlt, heq⟩ := flushBits_spec acc' (nbits + c.bits) out
    have hword : natBits (nbits + c.bits) acc' = natBits nbits acc ++ huffman.word (octetSym b) := by
      rw [← natBits_mod, hacc, Nat.mod_mod_of_dvd _ (pow_dvd_pow 2 (by omega)), natBits_mod]
      exact natBits_shift_or nbits hcode
    obtain ⟨hlt', heq'⟩ := ih acc' (flushBits acc' (nbits + c.bits) out).2 hlt
    refine ⟨hlt', heq'.trans ?_⟩
    rw [heq, hword, List.map_cons, PrefixCode.encode_cons]
    simp only [List.append_assoc]

/-- `huffman_encode` writes the words and at most seven ones. -/
lemma huffmanEncode_bits (s : Str) :
    ∃ pad ≤ 7, bitsOf (huffmanEncode s) = huffman.encode (s.map octetSym) ++ List.replicate pad true := by
  obtain ⟨hlt, heq⟩ := encodeLoop_spec s 0 [] (Nat.zero_lt_succ 7)
  rw [huffmanEncode]
  generalize encodeLoop s 0 0 [] = r at hlt heq
  obtain ⟨acc, nbits, out⟩ := r
  have hwords : bitsOf out ++ natBits nbits acc = huffman.encode (s.map octetSym) := heq
  have hnbits : nbits < 8 := hlt
  rw [← hwords]
  simp only
  split_ifs with hpos
  · refine ⟨8 - nbits, by omega, ?_⟩
    have hpow : 2 ^ (8 - nbits) - 1 < 2 ^ (8 - nbits) := Nat.sub_lt (Nat.two_pow_pos _) Nat.one_pos
    have hbits := natBits_shift_or nbits (v := acc) hpow
    rw [Nat.add_sub_cancel' (Nat.le_of_lt hnbits), natBits_ones] at hbits
    rw [bitsOf_append, bitsOf_octet, ← natBits_mod, Nat.mod_mod_of_dvd _ (pow_dvd_pow 2 (by decide)), natBits_mod,
      hbits, List.append_assoc]
  · obtain rfl : nbits = 0 := by omega
    exact ⟨0, Nat.zero_le _, by simp [natBits]⟩

lemma bitsOf_length (b : Str) : (bitsOf b).length = 8 * b.length := by
  induction b with
  | nil => rfl
  | cons x b ih =>
    rw [bitsOf, List.flatMap_cons, List.length_append, natBits_length, List.length_cons]
    rw [bitsOf] at ih
    omega

lemma bitsOf_inj {a b} (h : bitsOf a = bitsOf b) : a = b := by
  induction a generalizing b with
  | nil =>
    have hlen := congrArg List.length h
    rw [bitsOf_length, bitsOf_length] at hlen
    exact (List.eq_nil_of_length_eq_zero (by simpa using hlen.symm)).symm
  | cons x a ih =>
    cases b with
    | nil =>
      have hlen := congrArg List.length h
      rw [bitsOf_length, bitsOf_length] at hlen
      simp at hlen
    | cons y b =>
      obtain ⟨hx, hrest⟩ := List.append_inj h (by simp)
      have hval := natBits_inj x.toNat_lt y.toNat_lt hx
      rw [UInt8.toNat_inj.mp hval, ih hrest]

end encoder

def codeWords (s : Str) : List Bool := s.flatMap fun x => (huffCode (octetSym x)).word

lemma codeWords_eq (s : Str) : codeWords s = huffman.encode (s.map octetSym) := by
  rw [codeWords, PrefixCode.encode, List.flatMap_map]
  rfl

/-- `huffman_decode` accepts exactly the bit strings that are words of octets and at most seven ones, and
returns these octets. -/
lemma huffmanDecode_iff (cap : Nat) (b s : Str) : huffmanDecode cap b b.length = .ok s ↔
      (∃ pad ≤ 7, bitsOf b = codeWords s ++ List.replicate pad true) ∧ s.length ≤ cap ∧ s.length < 2 ^ 31 := by
  obtain ⟨path, T⟩ := kTrie_spec
  rw [huffmanDecode, codeWords_eq]
  generalize kTrie = t at T
  exact huffmanDecodeWith_iff T cap b s

lemma huffmanEncode_of_bits {b s pad} (hpad : pad ≤ 7)
    (h : bitsOf b = codeWords s ++ List.replicate pad true) : huffmanEncode s = b := by
  obtain ⟨pad', hpad', h'⟩ := huffmanEncode_bits s
  rw [← codeWords_eq] at h'
  have hlen := congrArg List.length h
  have hlen' := congrArg List.length h'
  rw [bitsOf_length, List.length_append, List.length_replicate] at hlen hlen'
  obtain rfl : pad' = pad := by omega
  exact bitsOf_inj (h'.trans h.symm)

/-- Huffman coding is exact: decoding inverts encoding, encoding inverts decoding, and the inputs accepted
are the words of octets followed by at most seven ones. The decoder writes at most `cap` octets and
reports their number as an `i32`. -/
theorem huffman_exact :
    (∀ s cap, s.length ≤ cap → s.length < 2 ^ 31 →
      huffmanDecode cap (huffmanEncode s) (huffmanEncode s).length = .ok s) ∧
    (∀ b cap s, huffmanDecode cap b b.length = .ok s → huffmanEncode s = b) ∧
    (∀ b cap, (∃ s, huffmanDecode cap b b.length = .ok s) ↔
      ∃ s pad, bitsOf b = codeWords s ++ List.replicate pad true ∧ pad ≤ 7 ∧ s.length ≤ cap ∧
        s.length < 2 ^ 31) := by
  refine ⟨fun s cap hcap hlen => ?_, fun b cap s h => ?_, fun b cap => ?_⟩
  · obtain ⟨pad, hpad, hbits⟩ := huffmanEncode_bits s
    rw [← codeWords_eq] at hbits
    exact (huffmanDecode_iff cap _ s).mpr ⟨⟨pad, hpad, hbits⟩, hcap, hlen⟩
  · obtain ⟨⟨pad, hpad, hbits⟩, -, -⟩ := (huffmanDecode_iff cap b s).mp h
    exact huffmanEncode_of_bits hpad hbits
  · constructor
    · rintro ⟨s, h⟩
      obtain ⟨⟨pad, hpad, hbits⟩, hcap, hlen⟩ := (huffmanDecode_iff cap b s).mp h
      exact ⟨s, pad, hbits, hpad, hcap, hlen⟩
    · rintro ⟨s, pad, hbits, hpad, hcap, hlen⟩
      exact ⟨s, (huffmanDecode_iff cap b s).mpr ⟨⟨pad, hpad, hbits⟩, hcap, hlen⟩⟩

theorem huffman_exact_www :
    huffmanDecode 8 (huffmanEncode (lit ['w','w','w','.','r','u','t']))
      (huffmanEncode (lit ['w','w','w','.','r','u','t'])).length =
      .ok (lit ['w','w','w','.','r','u','t']) :=
  huffman_exact.1 _ _ (by decide) (by decide)

end Rut.Hpack
