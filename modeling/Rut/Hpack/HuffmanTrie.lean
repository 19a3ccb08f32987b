import Rut.Hpack.HuffmanCode

/-!
# The decode trie

The nodes of the trie that `build_trie` builds are the prefixes of the words of the code, each once, and the
node of a word has its symbol.
-/

namespace Rut.Hpack

open Lib

/-- The nodes of the trie are bit strings, each once; children extend them by a bit. -/
structure Represents (t : HuffTrie) (path : Nat → List Bool) : Prop where
  root_lt : 0 < t.nodes.length
  root : path 0 = []
  inj : ∀ {i j}, i < t.nodes.length → j < t.nodes.length → path i = path j → i = j
  child : ∀ {i}, i < t.nodes.length → ∀ b j,
    (t.node i).child b = some j ↔ j < t.nodes.length ∧ path j = path i ++ [b]
  parent : ∀ {j p b}, j < t.nodes.length → path j = p ++ [b] → ∃ i < t.nodes.length, path i = p

/-- The trie `t'` has the nodes of `t` and those on the way from a node along some bits. -/
structure Grown (t : HuffTrie) (path : Nat → List Bool) (from_ : List Bool) (bits : List Bool) (t' : HuffTrie)
    (path' : Nat → List Bool) (last : Nat) : Prop where
  rep : Represents t' path'
  le : t.nodes.length ≤ t'.nodes.length
  old : ∀ {i}, i < t.nodes.length → path' i = path i ∧ (t'.node i).sym = (t.node i).sym
  new : ∀ {i}, t.nodes.length ≤ i → i < t'.nodes.length →
    (t'.node i).sym = none ∧ path' i <+: from_ ++ bits
  last_lt : last < t'.nodes.length
  last_path : path' last = from_ ++ bits
  way : ∀ {q}, from_ <+: q → q <+: from_ ++ bits → ∃ i < t'.nodes.length, path' i = q

section grow

variable {t : HuffTrie} {path : Nat → List Bool} {node : Nat} {bit : Bool} {bits : List Bool}

lemma addChild_length : (t.addChild node bit).nodes.length = t.nodes.length + 1 := by
  simp [HuffTrie.addChild]

lemma addChild_node {i} (hi : i < t.nodes.length) : (t.addChild node bit).node i = if i = node then
        { t.node i with child := Function.update (t.node i).child bit (some t.nodes.length) }
      else t.node i := by
  simp only [HuffTrie.addChild, HuffTrie.node, List.getD_eq_getElem?_getD]
  rw [List.getElem?_append_left (by simpa using hi), List.getElem?_modify, List.getElem?_eq_getElem hi]
  by_cases h : i = node
  · simp [h]
  · simp [h, Ne.symm h]

lemma addChild_new : (t.addChild node bit).node t.nodes.length = {} := by
  simp [HuffTrie.addChild, HuffTrie.node]

lemma Represents.addChild (R : Represents t path) (hnode : node < t.nodes.length)
    (hnone : (t.node node).child bit = none) :
    Represents (t.addChild node bit) (Function.update path t.nodes.length (path node ++ [bit])) := by
  set n := t.nodes.length with hn
  have hold : ∀ {i}, i < n → Function.update path n (path node ++ [bit]) i = path i :=
    fun hi => Function.update_of_ne (Nat.ne_of_lt hi) ..
  have hfresh : ∀ {i}, i < n → path i ≠ path node ++ [bit] := by
    intro i hi hp
    have := (R.child hnode bit i).mpr ⟨hi, hp⟩
    rw [hnone] at this
    cases this
  have hcase : ∀ {i}, i < (t.addChild node bit).nodes.length → i < n ∨ i = n := by
    intro i hi
    rw [addChild_length] at hi
    exact Nat.lt_succ_iff_lt_or_eq.mp hi
  have hself := Function.update_self n (path node ++ [bit]) path
  refine ⟨by rw [addChild_length]; omega, by rw [hold R.root_lt, R.root], ?_, ?_, ?_⟩
  · intro i j hi hj h
    rcases hcase hi with hi | rfl <;> rcases hcase hj with hj | rfl
    · rw [hold hi, hold hj] at h
      exact R.inj hi hj h
    · rw [hold hi, hself] at h
      exact absurd h (hfresh hi)
    · rw [hold hj, hself] at h
      exact absurd h.symm (hfresh hj)
    · rfl
  · intro i hi b j
    have hnew : (j < (t.addChild node bit).nodes.length ∧
        Function.update path n (path node ++ [bit]) j = path i ++ [b]) ↔
        (j < n ∧ path j = path i ++ [b]) ∨ (j = n ∧ path node ++ [bit] = path i ++ [b]) := by
      constructor
      · rintro ⟨hj, hp⟩
        rcases hcase hj with hj | rfl
        · exact .inl ⟨hj, hold hj ▸ hp⟩
        · exact .inr ⟨rfl, hself ▸ hp⟩
      · rintro (⟨hj, hp⟩ | ⟨rfl, hp⟩)
        · exact ⟨by rw [addChild_length]; omega, (hold hj).trans hp⟩
        · exact ⟨by rw [addChild_length]; omega, hself.trans hp⟩
    rcases hcase hi with hi | rfl
    · rw [addChild_node hi, hold hi, hnew, ← R.child hi b j]
      by_cases hin : i = node
      · subst hin
        by_cases hb : b = bit
        · subst hb
          simp [hnone, eq_comm, hn]
        · have hne : path i ++ [bit] ≠ path i ++ [b] := by simpa using Ne.symm hb
          simp [hb, hne]
      · have hne : path node ++ [bit] ≠ path i ++ [b] := by
          intro heq
          exact hin (R.inj hi hnode (List.append_inj' heq rfl).1.symm)
        simp [hin, hne]
    · rw [addChild_new, hself]
      refine ⟨fun h => absurd h (by simp), ?_⟩
      rintro ⟨hj, hp⟩
      rcases hcase hj with hj | rfl
      · rw [hold hj] at hp
        obtain ⟨k, hk, hpk⟩ := R.parent hj hp
        exact absurd hpk (hfresh hk)
      · rw [hself] at hp
        simp at hp
  · intro j p b hj hp
    rcases hcase hj with hj | rfl
    · rw [hold hj] at hp
      obtain ⟨i, hi, hpi⟩ := R.parent hj hp
      exact ⟨i, by rw [addChild_length]; omega, (hold hi).trans hpi⟩
    · rw [hself] at hp
      exact ⟨node, by rw [addChild_length]; omega, (hold hnode).trans (List.append_inj' hp rfl).1⟩

lemma Grown.refl (R : Represents t path) (hnode : node < t.nodes.length) : Grown t path (path node) [] t path node where
  rep := R
  le := Nat.le_refl _
  old _ := ⟨rfl, rfl⟩
  new hle hlt := absurd hlt (Nat.not_lt.mpr hle)
  last_lt := hnode
  last_path := (List.append_nil _).symm
  way hq hq' := by
    rw [List.append_nil] at hq'
    exact ⟨node, hnode, hq.eq_of_length_le hq'.length_le⟩

lemma eq_or_concat_le {p q} (hq : p <+: q) (hq' : q <+: p ++ bit :: bits) : q = p ∨ p ++ [bit] <+: q := by
  obtain ⟨r, rfl⟩ := hq
  rw [List.prefix_append_right_inj, List.prefix_cons_iff] at hq'
  rcases hq' with rfl | ⟨r', rfl, -⟩
  · exact .inl (List.append_nil p)
  · exact .inr (by simp)

lemma Grown.cons {t₁ t' path₁ path' last c} (hnode : node < t.nodes.length)
    (hpc : path₁ c = path node ++ [bit]) (hle : t.nodes.length ≤ t₁.nodes.length)
    (hold : ∀ {i}, i < t.nodes.length → path₁ i = path i ∧ (t₁.node i).sym = (t.node i).sym)
    (hnew : ∀ {i}, t.nodes.length ≤ i → i < t₁.nodes.length → (t₁.node i).sym = none ∧ path₁ i = path₁ c)
    (G : Grown t₁ path₁ (path₁ c) bits t' path' last) : Grown t path (path node) (bit :: bits) t' path' last := by
  have hsplit : path₁ c ++ bits = path node ++ bit :: bits := by rw [hpc, List.append_assoc]; rfl
  refine ⟨G.rep, hle.trans G.le, ?_, ?_, G.last_lt, G.last_path.trans hsplit, ?_⟩
  · intro i hi
    have h := G.old (Nat.lt_of_lt_of_le hi hle)
    exact ⟨h.1.trans (hold hi).1, h.2.trans (hold hi).2⟩
  · intro i hi hi'
    rw [← hsplit]
    by_cases hlt : i < t₁.nodes.length
    · obtain ⟨hp, hs⟩ := G.old hlt
      obtain ⟨hs', hp'⟩ := hnew hi hlt
      exact ⟨hs.trans hs', hp.trans hp' ▸ List.prefix_append ..⟩
    · exact G.new (Nat.not_lt.mp hlt) hi'
  · intro q hq hq'
    rcases eq_or_concat_le hq hq' with rfl | hq
    · refine ⟨node, Nat.lt_of_lt_of_le hnode (hle.trans G.le), ?_⟩
      exact (G.old (Nat.lt_of_lt_of_le hnode hle)).1.trans (hold hnode).1
    · exact G.way (hpc ▸ hq) (hsplit ▸ hq')

lemma grow_spec (bits : List Bool) (R : Represents t path) (hnode : node < t.nodes.length) :
    ∃ path', Grown t path (path node) bits (t.grow node bits).1 path' (t.grow node bits).2 := by
  induction bits generalizing t path node with
  | nil => exact ⟨path, Grown.refl R hnode⟩
  | cons bit bits ih =>
    rw [HuffTrie.grow]
    cases hchild : (t.node node).child bit with
    | some c =>
      obtain ⟨hc, hpc⟩ := (R.child hnode bit c).mp hchild
      obtain ⟨path', G⟩ := ih R hc
      exact ⟨path', G.cons hnode hpc (Nat.le_refl _) (fun _ => ⟨rfl, rfl⟩)
        fun hle hlt => absurd hlt (Nat.not_lt.mpr hle)⟩
    | none =>
      have R' := R.addChild hnode hchild
      have hlen : (t.addChild node bit).nodes.length = t.nodes.length + 1 := addChild_length
      obtain ⟨path', G⟩ := ih R' (by rw [hlen]; exact Nat.lt_succ_self _)
      refine ⟨path', G.cons hnode (Function.update_self ..) (by omega) ?_ ?_⟩
      · intro i hi
        refine ⟨Function.update_of_ne (Nat.ne_of_lt hi) .., ?_⟩
        rw [addChild_node hi]
        split_ifs <;> rfl
      · intro i hi hi'
        obtain rfl : i = t.nodes.length := by omega
        exact ⟨by rw [addChild_new], rfl⟩

end grow

/-! ## The whole trie -/

structure TrieOf (t : HuffTrie) (path : Nat → List Bool) (ss : List Sym) : Prop where
  rep : Represents t path
  sym : ∀ {i}, i < t.nodes.length → ∀ s, (t.node i).sym = some s ↔ s ∈ ss ∧ path i = huffman.word s
  closed : ∀ {i}, i < t.nodes.length → path i = [] ∨ ∃ s ∈ ss, path i <+: huffman.word s
  complete : ∀ {s}, s ∈ ss → ∀ {q}, q <+: huffman.word s → ∃ i < t.nodes.length, path i = q

lemma setSym_node {t : HuffTrie} {node i s} (hi : i < t.nodes.length) :
    HuffTrie.node ⟨t.nodes.modify node fun n => { n with sym := some s }⟩ i =
      if i = node then { t.node i with sym := some s } else t.node i := by
  simp only [HuffTrie.node, List.getD_eq_getElem?_getD, List.getElem?_modify, List.getElem?_eq_getElem hi]
  by_cases h : i = node
  · simp [h]
  · simp [h, Ne.symm h]

lemma word_inj {s s' : Sym} (h : huffman.word s = huffman.word s') : s = s' :=
  huffman.word_inj_of_le (h ▸ List.prefix_refl _)

lemma Represents.setSym {t path} (R : Represents t path) (node : Nat) (s : Sym) :
    Represents ⟨t.nodes.modify node fun n => { n with sym := some s }⟩ path := by
  have hlen : (t.nodes.modify node fun n => { n with sym := some s }).length = t.nodes.length := List.length_modify ..
  refine ⟨hlen ▸ R.root_lt, R.root, ?_, ?_, ?_⟩
  · intro i j hi hj
    rw [hlen] at hi hj
    exact R.inj hi hj
  · intro i hi b j
    rw [hlen] at hi ⊢
    rw [setSym_node hi, ← R.child hi b j]
    split_ifs <;> rfl
  · intro j p b hj hp
    rw [hlen] at hj ⊢
    exact R.parent hj hp

section insert

variable {t : HuffTrie} {path : Nat → List Bool} {ss : List Sym}

lemma TrieOf.sym_grown {t' path' last i s} (T : TrieOf t path ss)
    (G : Grown t path [] (huffman.word s) t' path' last) (hi : i < t'.nodes.length) (hne : i ≠ last) (s' : Sym) :
    (t'.node i).sym = some s' ↔ s' ∈ ss ++ [s] ∧ path' i = huffman.word s' := by
  have hlast : path' i ≠ huffman.word s := by
    intro h
    exact hne (G.rep.inj hi G.last_lt (h.trans G.last_path.symm))
  have hmem : (s' ∈ ss ++ [s] ∧ path' i = huffman.word s') ↔ s' ∈ ss ∧ path' i = huffman.word s' := by
    rw [List.mem_append, List.mem_singleton, or_and_right]
    refine or_iff_left ?_
    rintro ⟨rfl, h⟩
    exact hlast h
  rw [hmem]
  by_cases hold : i < t.nodes.length
  · rw [(G.old hold).1, (G.old hold).2, T.sym hold]
  · rw [(G.new (Nat.not_lt.mp hold) hi).1]
    refine ⟨fun h => absurd h (by simp), ?_⟩
    rintro ⟨hs', hp⟩
    obtain ⟨j, hj, hpj⟩ := T.complete hs' (List.prefix_refl _)
    have hj' := Nat.lt_of_lt_of_le hj G.le
    have heq := G.rep.inj hi hj' (hp.trans (hpj.symm.trans (G.old hj).1.symm))
    exact absurd (heq ▸ hj) hold

lemma TrieOf.insert (T : TrieOf t path ss) (s : Sym) : ∃ path', TrieOf (t.insert s) path' (ss ++ [s]) := by
  obtain ⟨path', G⟩ := grow_spec (huffman.word s) T.rep T.rep.root_lt
  rw [T.rep.root] at G
  have hlen : (t.insert s).nodes.length = (t.grow 0 (huffman.word s)).1.nodes.length := List.length_modify ..
  refine ⟨path', G.rep.setSym _ s, ?_, ?_, ?_⟩
  · intro i hi s'
    rw [hlen] at hi
    have hnode : (t.insert s).node i = _ := setSym_node hi
    rw [hnode]
    split_ifs with hlast
    · have hpath : path' i = huffman.word s := by
        rw [hlast]
        exact G.last_path
      rw [hpath]
      constructor
      · rintro h
        cases h
        exact ⟨by simp, rfl⟩
      · rintro ⟨-, h⟩
        rw [word_inj h]
    · exact T.sym_grown G hi hlast s'
  · intro i hi
    rw [hlen] at hi
    by_cases hold : i < t.nodes.length
    · rw [(G.old hold).1]
      rcases T.closed hold with h | ⟨s', hs', h⟩
      · exact .inl h
      · exact .inr ⟨s', List.mem_append_left _ hs', h⟩
    · exact .inr ⟨s, by simp, (G.new (Nat.not_lt.mp hold) hi).2⟩
  · intro s' hs' q hq
    rw [hlen]
    rcases List.mem_append.mp hs' with hs' | hs'
    · obtain ⟨i, hi, hp⟩ := T.complete hs' hq
      exact ⟨i, Nat.lt_of_lt_of_le hi G.le, (G.old hi).1.trans hp⟩
    · obtain rfl := List.mem_singleton.mp hs'
      exact G.way List.nil_prefix hq

lemma TrieOf.insertAll (T : TrieOf t path ss) (new : List Sym) :
    ∃ path', TrieOf (new.foldl HuffTrie.insert t) path' (ss ++ new) := by
  induction new generalizing t path ss with
  | nil => exact ⟨path, by simpa using T⟩
  | cons s new ih =>
    obtain ⟨path', T'⟩ := T.insert s
    obtain ⟨path'', T''⟩ := ih T'
    exact ⟨path'', by simpa using T''⟩

end insert

lemma trieOf_root : TrieOf ⟨[{}]⟩ (fun _ => []) [] := by
  have hzero : ∀ {i}, i < ([({} : HuffNode)]).length → i = 0 := by
    intro i hi
    simpa using hi
  refine ⟨⟨Nat.one_pos, rfl, ?_, ?_, ?_⟩, ?_, ?_, ?_⟩
  · intro i j hi hj _
    rw [hzero hi, hzero hj]
  · intro i hi b j
    simp [HuffTrie.node]
  · intro j p b _ hp
    simp at hp
  · intro i hi s
    simp [HuffTrie.node]
  · exact fun _ => .inl rfl
  · intro s hs
    cases hs

/-- The nodes of `kTrie` are the prefixes of the words. -/
theorem kTrie_spec : ∃ path, TrieOf kTrie path (List.finRange kSymCount) := by
  unfold kTrie buildTrie
  generalize List.finRange kSymCount = ss
  obtain ⟨path, T⟩ := trieOf_root.insertAll ss
  exact ⟨path, T⟩

end Rut.Hpack
