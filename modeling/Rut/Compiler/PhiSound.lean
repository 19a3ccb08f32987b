import Rut.Compiler.Phi

/-!
# Merges are sound

The search of `verify_phi_dominates` decides dominance in the graph of the blocks. A `Phi` that `verify_phi` accepts is
entered from one of the blocks that it lists, and behind a value for that block.
-/

namespace Rut.Compiler

open Relation
open Rut.Lib (IsPath Dominates Worklist)

/-! ## The graph of the blocks -/

/-- The terminator of `a` goes to `b`. -/
def Function.Edge (fn : Function) (a b : Nat) : Prop := ∃ term, fn.terminator a = some term ∧ b ∈ term.successors

/-- Blocks have terminators whose targets are blocks, and there are not too many. -/
structure Function.WellFormed (fn : Function) : Prop where
  count : fn.blocks.length ≤ kMaxBlocks
  terminated : ∀ a < fn.blocks.length, (fn.terminator a).isSome
  inRange : ∀ a b, fn.Edge a b → b < fn.blocks.length

def Function.Acyclic (fn : Function) : Prop := ∀ b, ¬ TransGen fn.Edge b b

def Function.Defines (fn : Function) (path : List Nat) (id : Nat) : Prop :=
  ∃ b ∈ path, ∃ block, fn.blocks[b]? = some block ∧ ∃ inst ∈ block.insts, inst.result = id

/-- What a `Phi` of the block `bi` relies on: the blocks that it lists are those before its own, and a path that enters
its block does so once, from one of them, behind the operand for it. -/
structure PhiSound (fn : Function) (bi : Nat) (inst : Instruction) : Prop where
  distinct : inst.blockTargets 0 ≠ inst.blockTargets 1
  predecessors : ∀ p, fn.Edge p bi ↔ p = inst.blockTargets 0 ∨ p = inst.blockTargets 1
  entered : ∀ path, IsPath fn.Edge 0 path → bi ∈ path.tail →
    ∃ i before after, path = before ++ inst.blockTargets i :: bi :: after ∧ bi ∉ before ++ [inst.blockTargets i] ∧
      bi ∉ after ∧ fn.Defines (before ++ [inst.blockTargets i]) (inst.operands i)

section dominance

variable {fn : Function} {d e : Nat}

lemma edge_iff {id term} (h : fn.terminator id = some term) (u : Nat) : fn.Edge id u ↔ u ∈ term.successors := by
  constructor
  · rintro ⟨term', hterm, hu⟩
    cases h.symm.trans hterm
    exact hu
  · intro hu
    exact ⟨term, h, hu⟩

lemma followTargets_eq {nexts} (h : ∀ u ∈ nexts, u < fn.blocks.length) (w : Worklist Nat) :
    followTargets fn d nexts w = some (nexts.foldl (Worklist.visit d) w) := by
  induction nexts generalizing w with
  | nil => rfl
  | cons next nexts ih =>
    have hnext := h next List.mem_cons_self
    rw [followTargets, if_neg (Nat.not_le.mpr hnext), ih fun u hu => h u (List.mem_cons_of_mem _ hu), List.foldl_cons]

structure SearchInv (fn : Function) (d e : Nat) (w : Worklist Nat) : Prop where
  inv : w.Inv fn.Edge 0 d e
  inRange : ∀ v ∈ w.visited, v < fn.blocks.length

lemma foldl_inRange {nexts : List Nat} {w} (hw : ∀ v ∈ w.visited, v < fn.blocks.length)
    (hnexts : ∀ u ∈ nexts, u < fn.blocks.length) :
    ∀ v ∈ (nexts.foldl (Worklist.visit d) w).visited, v < fn.blocks.length := by
  induction nexts generalizing w with
  | nil => exact hw
  | cons next nexts ih =>
    apply ih _ fun u hu => hnexts u (List.mem_cons_of_mem _ hu)
    intro v hv
    unfold Worklist.visit at hv
    split at hv
    · exact hw v hv
    · rcases Finset.mem_insert.mp hv with rfl | hv
      · exact hnexts v List.mem_cons_self
      · exact hw v hv

lemma dominatesStep_spec (hwf : fn.WellFormed) (hne : 0 ≠ d) {w} (h : SearchInv fn d e w) :
    (∀ w', dominatesStep fn d e w = .inl w' → SearchInv fn d e w' ∧
      w'.measure (Finset.range fn.blocks.length) < w.measure (Finset.range fn.blocks.length)) ∧
    ∀ r, dominatesStep fn d e w = .inr r → (r = true ↔ Dominates fn.Edge 0 d e) := by
  cases hpend : w.pending with
  | nil =>
    have hstep : dominatesStep fn d e w = .inr true := by
      simp only [dominatesStep, hpend]
    rw [hstep]
    constructor
    · intro w' hw'
      cases hw'
    · intro r hr
      cases hr
      exact iff_of_true rfl (h.inv.exhausted hne hpend)
  | cons id rest =>
    by_cases hedge : id = e
    · have hstep : dominatesStep fn d e w = .inr false := by
        simp only [dominatesStep, hpend, if_pos hedge]
      have hmem : e ∈ w.pending := by
        rw [hpend, hedge]
        exact List.mem_cons_self
      rw [hstep]
      constructor
      · intro w' hw'
        cases hw'
      · intro r hr
        cases hr
        exact iff_of_false Bool.false_ne_true (h.inv.found hne hmem)
    · have hid : id < fn.blocks.length := h.inRange id (h.inv.pending id (hpend ▸ List.mem_cons_self))
      obtain ⟨term, hterm⟩ := Option.isSome_iff_exists.mp (hwf.terminated id hid)
      have htargets : ∀ u ∈ term.successors, u < fn.blocks.length :=
        fun u hu => hwf.inRange id u ((edge_iff hterm u).mpr hu)
      have hstep : dominatesStep fn d e w = .inl (term.successors.foldl (Worklist.visit d) ⟨w.visited, rest⟩) := by
        simp only [dominatesStep, hpend, if_neg hedge, hterm, followTargets_eq htargets]
      rw [hstep]
      constructor
      · intro w' hw'
        cases hw'
        refine ⟨⟨h.inv.round hpend hedge (edge_iff hterm), foldl_inRange h.inRange htargets⟩, ?_⟩
        rw [Worklist.foldl_visit_measure fun u hu => Finset.mem_range.mpr (htargets u hu)]
        simp only [Worklist.measure, hpend, List.length_cons]
        omega
      · intro r hr
        cases hr

lemma verifyPhiDominates_iff (hwf : fn.WellFormed) (hd : d < fn.blocks.length) (he : e < fn.blocks.length) :
    verifyPhiDominates fn d e = true ↔ Dominates fn.Edge 0 d e := by
  rw [verifyPhiDominates, if_neg (by omega)]
  by_cases htrivial : d = e ∨ d = 0
  · rw [if_pos htrivial]
    refine iff_of_true rfl ?_
    rcases htrivial with rfl | rfl
    · exact Rut.Lib.dominates_self _ _ _
    · exact Rut.Lib.dominates_root _ _ _
  · obtain ⟨-, hzero⟩ := not_or.mp htrivial
    have hne : 0 ≠ d := Ne.symm hzero
    rw [if_neg htrivial, if_neg (Nat.not_lt.mpr hwf.count)]
    have hinitial : SearchInv fn d e ⟨{0}, [0]⟩ := by
      refine ⟨Worklist.inv_initial _ _ _ _, fun v hv => ?_⟩
      rw [Finset.mem_singleton.mp hv]
      omega
    have hmeasure : Worklist.measure (Finset.range fn.blocks.length) ⟨{0}, [0]⟩ < fn.blocks.length + 1 := by
      have hsub : ({0} : Finset Nat) ⊆ Finset.range fn.blocks.length := by
        rw [Finset.singleton_subset_iff, Finset.mem_range]
        omega
      rw [Worklist.measure, Finset.card_sdiff_of_subset hsub, Finset.card_range, Finset.card_singleton,
        List.length_singleton]
      omega
    obtain ⟨r, hloop, hr⟩ := Rut.Lib.loop_total (SearchInv fn d e) (fun r => r = true ↔ Dominates fn.Edge 0 d e)
      (Worklist.measure (Finset.range fn.blocks.length)) (fun h hstep => (dominatesStep_spec hwf hne h).1 _ hstep)
      (fun h hstep => (dominatesStep_spec hwf hne h).2 _ hstep) hinitial hmeasure
    rw [hloop]
    exact hr

end dominance

/-! ## The blocks before a merge -/

section predecessors

variable {fn : Function} {target first second : Nat}

lemma phiPredecessors_some {ids count n} (h : phiPredecessors fn target first second ids count = some n) :
    ∃ found : List Nat, found.Sublist ids ∧ count + found.length = n ∧ (∀ id ∈ found, fn.Edge id target) ∧
      ∀ id ∈ ids, fn.Edge id target → id ∈ found ∧ (id = first ∨ id = second) := by
  induction ids generalizing count with
  | nil =>
    cases h
    exact ⟨[], List.Sublist.refl _, rfl, fun id hid => absurd hid List.not_mem_nil,
      fun id hid => absurd hid List.not_mem_nil⟩
  | cons id ids ih =>
    rw [phiPredecessors] at h
    cases hterm : fn.terminator id with
    | none =>
      simp only [hterm] at h
      cases h
    | some term =>
      simp only [hterm] at h
      by_cases hreach : target ∈ term.successors
      · -- The block goes to the target: it is listed and counted.
        rw [if_neg (not_not.mpr hreach)] at h
        split at h
        · cases h
        next hlisted =>
          obtain ⟨found, hsub, hlen, hedges, hall⟩ := ih h
          refine ⟨id :: found, hsub.cons_cons id, by rw [List.length_cons]; omega, ?_, ?_⟩
          · intro a ha
            rcases List.mem_cons.mp ha with rfl | ha
            · exact ⟨term, hterm, hreach⟩
            · exact hedges a ha
          · intro a ha hedge
            rcases List.mem_cons.mp ha with rfl | ha
            · exact ⟨List.mem_cons_self, by omega⟩
            · exact ⟨List.mem_cons_of_mem _ (hall a ha hedge).1, (hall a ha hedge).2⟩
      · rw [if_pos hreach] at h
        obtain ⟨found, hsub, hlen, hedges, hall⟩ := ih h
        refine ⟨found, hsub.cons id, hlen, hedges, ?_⟩
        intro a ha hedge
        rcases List.mem_cons.mp ha with rfl | ha
        · exact absurd ((edge_iff hterm target).mp hedge) hreach
        · exact hall a ha hedge

lemma edge_iff_listed (h : phiPredecessors fn target first second (List.range fn.blocks.length) 0 = some 2) (p : Nat) :
    fn.Edge p target ↔ p = first ∨ p = second := by
  obtain ⟨found, hsub, hlen, hedges, hall⟩ := phiPredecessors_some h
  have hrange : ∀ a, fn.Edge a target → a ∈ List.range fn.blocks.length := by
    rintro a ⟨term, hterm, -⟩
    obtain ⟨block, hblock, -⟩ := Option.bind_eq_some_iff.mp hterm
    exact List.mem_range.mpr (List.getElem?_eq_some_iff.mp hblock).1
  have hlisted : ∀ a ∈ found, a = first ∨ a = second :=
    fun a ha => (hall a (hrange a (hedges a ha)) (hedges a ha)).2
  obtain ⟨a, b, rfl⟩ := List.length_eq_two.mp (by omega : found.length = 2)
  have hne : a ≠ b := (List.nodup_cons.mp (hsub.nodup List.nodup_range)).1 ∘ List.mem_singleton.mpr
  have ha := hlisted a List.mem_cons_self
  have hb := hlisted b (List.mem_cons_of_mem _ List.mem_cons_self)
  have hedgeA := hedges a List.mem_cons_self
  have hedgeB := hedges b (List.mem_cons_of_mem _ List.mem_cons_self)
  constructor
  · intro hedge
    exact (hall p (hrange p hedge) hedge).2
  · -- Both listed blocks are found, in one order or the other.
    rintro (rfl | rfl)
    · rcases ha with rfl | rfl
      · exact hedgeA
      · rcases hb with rfl | rfl
        · exact hedgeB
        · exact absurd rfl hne
    · rcases ha with rfl | rfl
      · rcases hb with rfl | rfl
        · exact absurd rfl hne
        · exact hedgeB
      · exact hedgeA

end predecessors

/-! ## What is accepted -/

section accepted

variable {fn : Function} {bi ii : Nat} {block : Block} {inst : Instruction}

lemma phiOperandOk_true {values result i} (h : phiOperandOk fn values inst result i = true) :
    ∃ b block', fn.blocks[b]? = some block' ∧ (∃ inst' ∈ block'.insts, inst'.result = inst.operands i) ∧
      verifyPhiDominates fn b (inst.blockTargets i) = true := by
  unfold phiOperandOk at h
  simp only at h
  split at h
  · cases h
  · split at h
    · cases h
    next value hvalue =>
      split at h
      · cases h
      · split at h
        · cases h
        next block' hblock =>
          split at h
          · cases h
          next inst' hinst =>
            obtain ⟨hresult, hdom⟩ := Bool.and_eq_true_iff.mp h
            exact ⟨value.defBlock, block', hblock, ⟨inst', List.mem_of_getElem? hinst, of_decide_eq_true hresult⟩, hdom⟩

/-- What `verify_phi` has looked at. -/
lemma verifyPhi_true (hblock : fn.blocks[bi]? = some block) (hinst : block.insts[ii]? = some inst)
    (h : verifyPhi fn bi ii = true) :
    inst.blockTargets 0 ≠ inst.blockTargets 1 ∧ (∀ i, inst.blockTargets i < fn.blocks.length) ∧
      phiPredecessors fn bi (inst.blockTargets 0) (inst.blockTargets 1) (List.range fn.blocks.length) 0 = some 2 ∧
      ∃ values result, ∀ i, phiOperandOk fn values inst result i = true := by
  unfold verifyPhi at h
  cases hvalues : fn.values with
  | none =>
    simp only [hblock, hvalues] at h
    cases h
  | some values =>
    simp only [hblock, hvalues, hinst] at h
    split at h
    · cases h
    · unfold verifyPhiAt at h
      simp only at h
      split at h
      · cases h
      · split at h
        · cases h
        next result _ =>
          split at h
          · cases h
          · split at h
            · cases h
            · split at h
              · cases h
              next htargets =>
                split at h
                · cases h
                next hpred =>
                  obtain ⟨hzero, hone⟩ := Bool.and_eq_true_iff.mp h
                  refine ⟨by omega, ?_, not_not.mp hpred, values, result, ?_⟩
                  · intro i
                    fin_cases i
                    · simp only [Fin.zero_eta]
                      omega
                    · simp only [Fin.mk_one]
                      omega
                  · intro i
                    fin_cases i
                    · exact hzero
                    · exact hone

lemma path_nodup (hacyclic : fn.Acyclic) {path : List Nat} (h : path.IsChain fn.Edge) : path.Nodup := by
  have hpair : path.Pairwise (TransGen fn.Edge) := (h.imp fun _ _ hedge => TransGen.single hedge).pairwise
  apply hpair.imp
  rintro a b htrans rfl
  exact hacyclic a htrans

lemma entered_from {path} (hpath : IsPath fn.Edge 0 path) (h : bi ∈ path.tail) :
    ∃ before a after, path = before ++ a :: bi :: after := by
  cases path with
  | nil => cases h
  | cons root tail =>
    obtain ⟨s, after, rfl⟩ := List.append_of_mem h
    obtain ⟨before, a, hbefore⟩ := (root :: s).eq_nil_or_concat.resolve_left (List.cons_ne_nil _ _)
    refine ⟨before, a, after, ?_⟩
    rw [← List.cons_append, hbefore, List.concat_eq_append, List.append_assoc, List.singleton_append]

lemma verifyPhi_sound (hwf : fn.WellFormed) (hacyclic : fn.Acyclic) (hblock : fn.blocks[bi]? = some block)
    (hinst : block.insts[ii]? = some inst) (h : verifyPhi fn bi ii = true) : PhiSound fn bi inst := by
  obtain ⟨hne, hrange, hpred, values, result, hoperands⟩ := verifyPhi_true hblock hinst h
  refine ⟨hne, edge_iff_listed hpred, ?_⟩
  intro path hpath henter
  obtain ⟨before, a, after, rfl⟩ := entered_from hpath henter
  have hedge : fn.Edge a bi := (List.isChain_append_cons_cons.mp hpath.chain).2.1
  obtain ⟨i, rfl⟩ : ∃ i, a = inst.blockTargets i := by
    rcases (edge_iff_listed hpred a).mp hedge with ha | ha
    · exact ⟨0, ha⟩
    · exact ⟨1, ha⟩
  have hsplit : before ++ inst.blockTargets i :: bi :: after = before ++ [inst.blockTargets i] ++ bi :: after := by
    rw [List.append_assoc, List.singleton_append]
  have hnodup := path_nodup hacyclic hpath.chain
  rw [hsplit, List.nodup_middle] at hnodup
  have hother := mt List.mem_append.mpr (List.nodup_cons.mp hnodup).1
  refine ⟨i, before, after, rfl, fun hmem => hother (.inl hmem), fun hmem => hother (.inr hmem), ?_⟩
  -- The blocks up to the edge are a path to the listed block, so the one with the operand is among them.
  obtain ⟨b, block', hb, hdef, hdom⟩ := phiOperandOk_true (hoperands i)
  have hlt : b < fn.blocks.length := (List.getElem?_eq_some_iff.mp hb).1
  have hupTo : IsPath fn.Edge 0 (before ++ [inst.blockTargets i]) := by
    constructor
    · rw [← hpath.head, hsplit, List.head?_append_of_ne_nil _ (List.concat_ne_nil _ _)]
    · rw [hsplit] at hpath
      exact hpath.chain.left_of_append
  have hmem := (verifyPhiDominates_iff hwf hlt (hrange i)).mp hdom _ hupTo List.getLast?_concat
  exact ⟨b, hmem, block', hb, hdef⟩

end accepted

/-- The search is exact, and what is accepted in a function without cycles is sound. -/
theorem phi_exact {fn : Function} (hwf : fn.WellFormed) :
    (∀ d < fn.blocks.length, ∀ e < fn.blocks.length,
      (verifyPhiDominates fn d e = true ↔ Dominates fn.Edge 0 d e)) ∧
    (fn.Acyclic → ∀ bi ii block inst, fn.blocks[bi]? = some block → block.insts[ii]? = some inst → inst.op = .phi →
      verifyPhi fn bi ii = true → PhiSound fn bi inst) := by
  constructor
  · intro d hd e he
    exact verifyPhiDominates_iff hwf hd he
  · intro hacyclic bi ii block inst hblock hinst _ h
    exact verifyPhi_sound hwf hacyclic hblock hinst h

def diamond : Function where
  blocks := [⟨[⟨.ordinary 0, 0, 0, ![kNoValue, kNoValue], ![0, 0]⟩, ⟨.br, kNoValue, 1, ![0, kNoValue], ![1, 2]⟩]⟩,
    ⟨[⟨.ordinary 0, 1, 0, ![kNoValue, kNoValue], ![0, 0]⟩, ⟨.jmp, kNoValue, 0, ![kNoValue, kNoValue], ![3, 0]⟩]⟩,
    ⟨[⟨.ordinary 0, 2, 0, ![kNoValue, kNoValue], ![0, 0]⟩, ⟨.jmp, kNoValue, 0, ![kNoValue, kNoValue], ![3, 0]⟩]⟩,
    ⟨[⟨.phi, 3, 2, ![1, 2], ![1, 2]⟩, ⟨.retStatus, kNoValue, 1, ![3, kNoValue], ![0, 0]⟩]⟩]
  values := some [⟨.mk .bool .null none, 0, 0⟩, ⟨.mk .i32 .null none, 1, 0⟩, ⟨.mk .i32 .null none, 2, 0⟩,
    ⟨.mk .i32 .null none, 3, 0⟩]
  yieldCount := 0

/-- The edges of `diamond` go up, to blocks. -/
lemma diamond_edge {a b} (h : diamond.Edge a b) : a < b ∧ b < 4 := by
  obtain ⟨term, hterm, hb⟩ := h
  obtain ⟨block, hblock, -⟩ := Option.bind_eq_some_iff.mp hterm
  have ha : a < 4 := (List.getElem?_eq_some_iff.mp hblock).1
  have hall : ∀ a < 4, (diamond.terminator a).all fun t => t.successors.all fun u => decide (a < u ∧ u < 4) := by decide
  have hterm' := hall a ha
  rw [hterm, Option.all_some, List.all_eq_true] at hterm'
  exact of_decide_eq_true (hterm' b hb)

theorem diamond_sound : verifyPhi diamond 3 0 = true ∧ PhiSound diamond 3 ⟨.phi, 3, 2, ![1, 2], ![1, 2]⟩ := by
  have haccept : verifyPhi diamond 3 0 = true := by decide
  have hwf : diamond.WellFormed := ⟨by decide, by decide, fun a b h => (diamond_edge h).2⟩
  have hacyclic : diamond.Acyclic := by
    intro b hcycle
    have hlt : ∀ c, TransGen diamond.Edge b c → b < c := by
      intro c hc
      induction hc with
      | single h => exact (diamond_edge h).1
      | tail _ h ih => exact ih.trans (diamond_edge h).1
    exact Nat.lt_irrefl b (hlt b hcycle)
  exact ⟨haccept, (phi_exact hwf).2 hacyclic 3 0 _ _ rfl rfl rfl haccept⟩

end Rut.Compiler
