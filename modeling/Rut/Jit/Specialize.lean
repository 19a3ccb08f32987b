import Rut.Jit.Pickup
import Rut.Route.ArtMatch

/-!
# Correctness of the specialised matcher

The function emitted for a trie returns what `match_canonical_key` returns for it. At each node the code
takes the turn of the loop of `match_canonical_key`: it leaves where the loop leaves, and else it is in the
block of the same child with the same best route. The emission itself ends, as the nodes on the way down
are distinct.
-/

set_option linter.all false
namespace Rut.Jit

open Lib Route

/-! ## Children -/

def childEntry (c : EmitCtx) (s : Builder) (hdr : ArtNodeHeader) (depth : Nat) : Builder :=
  let stop := Operand.const 32 (depth + hdr.edge.length)
  let s := emitCheckOrBreak c (s.build (.icmp .ule stop effLen)).1 (.reg s.nextReg)
  let s := emitEdgeChunks c hdr.edge.length s depth hdr.edge
  if c.trie.matchMode = .segmentPrefix ∧ hasTerminal hdr then emitSegmentPickup c s hdr stop
  else emitTerminalPickup c s hdr

def childBest (mode : ArtMatchMode) (hdr : ArtNodeHeader) (want : Slot) (rest : Str) (best : RouteIdx) :
    RouteIdx :=
  if artPickTerminal hdr want ≠ kInvalidRoute ∧ atBoundary mode rest then artPickTerminal hdr want else best

section child

variable {c : EmitCtx} {want : Slot} {best r : RouteIdx} {s : Builder} {F : List Block} {args : Args}
  {hdr : ArtNodeHeader} {depth : Nat}

lemma emitted_childEntry (c : EmitCtx) (hdr : ArtNodeHeader) (depth : Nat) (hopen : Open s) :
    Emitted s (childEntry c s hdr depth) ∧ Open (childEntry c s hdr depth) := by
  set stop := Operand.const 32 (depth + hdr.edge.length) with hstop
  have hopen₁ := hopen.build (.icmp .ule stop effLen)
  obtain ⟨h₂, hopen₂⟩ := emitted_check c (.reg s.nextReg) hopen₁
  obtain ⟨h₃, hopen₃⟩ := emitted_edgeChunks c hdr.edge.length depth hdr.edge hopen₂
  have h := ((emitted_build s (.icmp .ule stop effLen)).trans hopen h₂).trans hopen h₃
  unfold childEntry
  split_ifs
  · obtain ⟨h₄, hopen₄⟩ := emitted_segmentPickup c hdr stop hopen₃
    exact ⟨h.trans hopen h₄, hopen₄⟩
  · obtain ⟨h₄, hopen₄⟩ := emitted_pickup c hdr hopen₃
    exact ⟨h.trans hopen h₄, hopen₄⟩

lemma artPickTerminal_eq_invalid (h : ¬ hasTerminal hdr = true) : artPickTerminal hdr want = kInvalidRoute := by
  have hno : ∀ slot, hdr.routeIdxByMethod slot = kInvalidRoute := by
    simpa [hasTerminal] using h
  simp [artPickTerminal, hno]

lemma orBest_eq_childBest {rest} (h : ¬ (c.trie.matchMode = .segmentPrefix ∧ hasTerminal hdr)) :
    orBest (artPickTerminal hdr want) best = childBest c.trie.matchMode hdr want rest best := by
  by_cases hterm : hasTerminal hdr = true
  · have hmode : c.trie.matchMode = .bytePrefix := by
      cases hm : c.trie.matchMode with
      | bytePrefix => rfl
      | segmentPrefix => exact absurd ⟨hm, hterm⟩ h
    simp [orBest, childBest, hmode, atBoundary]
  · simp [orBest, childBest, artPickTerminal_eq_invalid hterm]

lemma cont_childEntry (K : CallOk F args c) (hopen : Open s)
    (hF : Contained (childEntry c s hdr depth).blocks F) (hdepth : depth + hdr.edge.length < 2 ^ 31)
    (hle : depth ≤ args.path.length) (hpass : hdr.edge <+: args.path.drop depth → Cont F args c want
        (childBest c.trie.matchMode hdr want (args.path.drop (depth + hdr.edge.length)) best)
        (childEntry c s hdr depth) r)
    (hbreak : ¬ hdr.edge <+: args.path.drop depth → r = best) : Cont F args c want best s r := by
  set stop := Operand.const 32 (depth + hdr.edge.length) with hstop
  have hopen₁ := hopen.build (.icmp .ule stop effLen)
  obtain ⟨h₂, hopen₂⟩ := emitted_check c (.reg s.nextReg) hopen₁
  obtain ⟨h₃, hopen₃⟩ := emitted_edgeChunks c hdr.edge.length depth hdr.edge hopen₂
  have hF₃ : Contained (emitEdgeChunks c hdr.edge.length (emitCheckOrBreak c
      (s.build (.icmp .ule stop effLen)).1 (.reg s.nextReg)) depth hdr.edge).blocks F := by
    unfold childEntry at hF
    split_ifs at hF
    · exact ((emitted_segmentPickup c hdr stop hopen₃).1.contained hopen₃).trans hF
    · exact ((emitted_pickup c hdr hopen₃).1.contained hopen₃).trans hF
  have hF₂ := (h₃.contained hopen₂).trans hF₃
  intro m R
  have hstop' : depth + hdr.edge.length < 2 ^ 32 := by omega
  obtain ⟨R₁, e₁⟩ := R.build ((h₂.contained hopen₁).trans hF₂) (exec_icmp (eval_const hstop') (K.effLen _))
  rw [e₁]
  refine R₁.check hopen₁ hF₂ K.ret (result_reg _ s.nextReg _ _) ?_ ?_
  · intro hfits
    have hin : depth + hdr.edge.length ≤ args.path.length := by simpa [IntPredicate.holds] using hfits
    refine cont_edgeChunks K hopen₂ hF₃ (Nat.le_refl _) (Nat.le_of_lt hdepth) hin (fun hpre => ?_) hbreak
    have hnext := hpass hpre
    unfold childEntry at hnext hF
    split_ifs at hnext hF with hmode
    · refine cont_segmentPickup K hopen₃ hF hdepth hin ?_
      rw [childBest, hmode.1] at hnext
      simpa only [orBest, ← ite_and, and_comm] using hnext
    · refine cont_pickup hopen₃ hF ?_
      rwa [orBest_eq_childBest hmode]
  · intro hno
    refine hbreak fun hpre => ?_
    have hlen := hpre.length_le
    rw [List.length_drop] at hlen
    have hout : args.path.length < depth + hdr.edge.length := by simpa [IntPredicate.holds] using hno
    omega

end child

/-! ## Cases and blocks of the children -/

section children

variable {s s' : Builder} {sw block : Nat} {entries : List (UInt8 × ArtChildRef)}
  {descend : Builder → ArtChildRef → Option Builder}

/-- The cases of the switch over the keys, their blocks from `block` on. -/
def childCases (block : Nat) (entries : List (UInt8 × ArtChildRef)) : List (Nat × Nat) :=
  (entries.zipIdx block).map fun p => (p.1.1.toNat, p.2)

lemma appendChildCases_spec (entries : List (UInt8 × ArtChildRef)) (hsw : sw < s.blocks.length) :
    CasesAdded sw s (entries.foldl (appendChildCases sw) s) (childCases s.blocks.length entries) ∧
    ∀ k, s.blocks.length ≤ k → k < s.blocks.length + entries.length →
      (entries.foldl (appendChildCases sw) s).blocks[k]? = some {} := by
  induction entries generalizing s with
  | nil => exact ⟨CasesAdded.refl sw s, fun k hk hk' => absurd hk' (by simpa using hk)⟩
  | cons e entries ih =>
    have hcase : CasesAdded sw s (appendChildCases sw s e) [(e.1.toNat, s.blocks.length)] :=
      casesAdded_addCase s hsw e.1.toNat
    have hlen : (appendChildCases sw s e).blocks.length = s.blocks.length + 1 := by
      simp [appendChildCases, Builder.addCase, Builder.appendBlock]
    obtain ⟨hcases, hnew⟩ := ih (s := appendChildCases sw s e) (by omega)
    rw [hlen] at hcases hnew
    refine ⟨hcase.trans hcases, fun k hk hk' => ?_⟩
    rw [List.length_cons] at hk'
    rcases Nat.eq_or_lt_of_le hk with rfl | hlt
    · rw [List.foldl_cons, hcases.other (by omega) (by omega)]
      simp [appendChildCases, Builder.addCase, Builder.appendBlock, Nat.ne_of_lt hsw]
    · exact hnew k hlt (by omega)

/-- What the emission of the children leaves: their blocks have grown one after the other. -/
structure ChildrenEmitted (descend : Builder → ArtChildRef → Option Builder) (s s' : Builder) (block : Nat)
    (entries : List (UInt8 × ArtChildRef)) : Prop where
  le : s.blocks.length ≤ s'.blocks.length
  regs : s.nextReg ≤ s'.nextReg
  other : ∀ {i}, i < block → s'.blocks[i]? = s.blocks[i]?
  place : entries ≠ [] → block ≤ s'.cur
  contained : Contained s.blocks s'.blocks
  child : ∀ e k, (e, k) ∈ entries.zipIdx block →
    ∃ a a' : Builder, a.blocks[k]? = some {} ∧ s.nextReg ≤ a.nextReg ∧ descend (a.positionAtEnd k) e.2 = some a' ∧
      Contained a'.blocks s'.blocks

lemma emitChildren_spec (hdesc : ∀ {a a' ref}, Open a → descend a ref = some a' → Emitted a a')
    (hnew : ∀ k, block ≤ k → k < block + entries.length → s.blocks[k]? = some {})
    (h : emitChildren descend s block entries = some s') : ChildrenEmitted descend s s' block entries := by
  induction entries generalizing s block with
  | nil =>
    cases h
    exact ⟨Nat.le_refl _, Nat.le_refl _, fun _ => rfl, fun hne => absurd rfl hne, Contained.refl _, by simp⟩
  | cons e entries ih =>
    obtain ⟨b, ref⟩ := e
    rw [emitChildren] at h
    cases hs₁ : descend (s.positionAtEnd block) ref with
    | none =>
      rw [hs₁] at h
      cases h
    | some s₁ =>
      rw [hs₁] at h
      have hblock := hnew block (Nat.le_refl _) (by simp)
      have hopen := open_position hblock
      have hemit := hdesc hopen hs₁
      have hlt : block < s.blocks.length := (List.getElem?_eq_some_iff.mp hblock).1
      have E : ChildrenEmitted descend s₁ s' (block + 1) entries := ih (fun k hk hk' => by
        refine hemit.empty_at (hnew k (by omega) ?_) (by omega)
        rw [List.length_cons]
        omega) h
      refine ⟨hemit.le.trans E.le, hemit.regs.trans E.regs, ?_, ?_, (hemit.contained hopen).trans E.contained, ?_⟩
      · intro i hi
        rw [E.other (by omega), hemit.other (Nat.lt_trans hi hlt) (Nat.ne_of_lt hi)]
        rfl
      · intro _
        cases entries with
        | nil =>
          cases h
          rcases hemit.place with hp | hp
          · exact Nat.le_of_eq hp.symm
          · exact (Nat.le_of_lt hlt).trans hp
        | cons e entries =>
          have hp := E.place (List.cons_ne_nil _ _)
          omega
      · intro e k hmem
        rw [List.zipIdx_cons, List.mem_cons] at hmem
        rcases hmem with heq | hmem
        · cases heq
          exact ⟨s, s₁, hblock, Nat.le_refl _, hs₁, E.contained⟩
        · obtain ⟨a, a', ha, hregs, hdesc', hF⟩ := E.child e k hmem
          exact ⟨a, a', ha, hemit.regs.trans hregs, hdesc', hF⟩

lemma emitChildren_some (h : ∀ e ∈ entries, ∀ a, ∃ a', descend a e.2 = some a') :
    ∃ s', emitChildren descend s block entries = some s' := by
  induction entries generalizing s block with
  | nil => exact ⟨s, rfl⟩
  | cons e entries ih =>
    obtain ⟨a', ha'⟩ := h e List.mem_cons_self (s.positionAtEnd block)
    rw [emitChildren, ha']
    exact ih fun d hd => h d (List.mem_cons_of_mem _ hd)

end children

/-! ## Dispatch -/

def nodeEntries (t : ArtTrie) (ref : ArtChildRef) : List (UInt8 × ArtChildRef) :=
  ((t.node ref).map ArtNode.entries).getD []

def dispatchHead (c : EmitCtx) (s : Builder) (depth : Nat) : Builder × Operand :=
  emitLoadByte (emitCheckOrBreak c (s.build (.icmp .ult (.const 32 depth) effLen)).1 (.reg s.nextReg))
    (.const 32 depth)

def dispatchSwitch (c : EmitCtx) (s : Builder) (depth : Nat) : Builder :=
  (dispatchHead c s depth).1.terminate (.switch (dispatchHead c s depth).2 c.returnBest [])

def dispatchChild (c : EmitCtx) (fuel depth : Nat) (s : Builder) (ref : ArtChildRef) : Option Builder :=
  emitNodeDispatch c fuel (childEntry c s (c.trie.header ref) depth) ref (depth + (c.trie.header ref).edge.length)

section dispatch

variable {c : EmitCtx} {want : Slot} {best r : RouteIdx} {s s' : Builder} {F : List Block} {args : Args}
  {ref : ArtChildRef} {depth fuel : Nat}

lemma emitNodeDispatch_leaf (h : nodeEntries c.trie ref = []) :
    emitNodeDispatch c (fuel + 1) s ref depth = some (s.terminate (.br c.returnBest)) := by
  rw [nodeEntries] at h
  simp only [emitNodeDispatch, h, if_true]

lemma emitted_dispatchHead (c : EmitCtx) (depth : Nat) (hopen : Open s) :
    Emitted s (dispatchHead c s depth).1 ∧ Open (dispatchHead c s depth).1 := by
  have hopen₁ := hopen.build (.icmp .ult (.const 32 depth) effLen)
  obtain ⟨h₂, hopen₂⟩ := emitted_check c (.reg s.nextReg) hopen₁
  obtain ⟨h₃, hopen₃⟩ := emitted_loadByte _ (.const 32 depth) hopen₂
  exact ⟨((emitted_build s _).trans hopen h₂).trans hopen h₃, hopen₃⟩

lemma dispatchHead_cur (c : EmitCtx) (s : Builder) (depth : Nat) :
    (dispatchHead c s depth).1.cur = s.blocks.length := by
  simp [dispatchHead, emitLoadByte, emitCheckOrBreak, Builder.appendBlock, Builder.build,
    Builder.terminate, Builder.positionAtEnd]

lemma dispatchSwitch_length (c : EmitCtx) (s : Builder) (depth : Nat) :
    (dispatchSwitch c s depth).blocks.length = s.blocks.length + 1 := by
  simp [dispatchSwitch, dispatchHead, emitLoadByte, emitCheckOrBreak, Builder.appendBlock, Builder.build,
    Builder.terminate, Builder.positionAtEnd]

lemma emitNodeDispatch_switch (h : nodeEntries c.trie ref ≠ []) : emitNodeDispatch c (fuel + 1) s ref depth =
      emitChildren (dispatchChild c fuel depth)
        ((nodeEntries c.trie ref).foldl (appendChildCases s.blocks.length) (dispatchSwitch c s depth))
        (s.blocks.length + 1) (nodeEntries c.trie ref) := by
  rw [← dispatchSwitch_length c s depth, ← dispatchHead_cur c s depth]
  unfold nodeEntries at h ⊢
  rw [emitNodeDispatch, if_neg h]
  rfl

lemma dispatch_stages (hdesc : ∀ {a a' ref}, Open a → dispatchChild c fuel depth a ref = some a' → Emitted a a')
    (hne : nodeEntries c.trie ref ≠ []) (h : emitNodeDispatch c (fuel + 1) s ref depth = some s') :
    ∃ a, CasesAdded s.blocks.length (dispatchSwitch c s depth) a
        (childCases (s.blocks.length + 1) (nodeEntries c.trie ref)) ∧
      ChildrenEmitted (dispatchChild c fuel depth) a s' (s.blocks.length + 1) (nodeEntries c.trie ref) := by
  rw [emitNodeDispatch_switch hne] at h
  have hlen := dispatchSwitch_length c s depth
  have hlt : s.blocks.length < (dispatchSwitch c s depth).blocks.length := by omega
  obtain ⟨hcases, hnew⟩ := appendChildCases_spec (nodeEntries c.trie ref) hlt
  rw [hlen] at hcases hnew
  exact ⟨_, hcases, emitChildren_spec hdesc hnew h⟩

lemma emitted_dispatchChild (ih : ∀ {s s' ref depth}, Open s → emitNodeDispatch c fuel s ref depth = some s' →
    Emitted s s') (hopen : Open s) (h : dispatchChild c fuel depth s ref = some s') : Emitted s s' := by
  obtain ⟨hentry, hopen'⟩ := emitted_childEntry c (c.trie.header ref) depth hopen
  exact hentry.trans hopen (ih hopen' h)

lemma emitted_dispatch (hopen : Open s) (h : emitNodeDispatch c fuel s ref depth = some s') : Emitted s s' := by
  induction fuel generalizing s s' ref depth with
  | zero => cases h
  | succ fuel ih =>
    by_cases hne : nodeEntries c.trie ref = []
    · rw [emitNodeDispatch_leaf hne] at h
      cases h
      exact emitted_terminate _ _
    obtain ⟨a, hcases, E⟩ := dispatch_stages (emitted_dispatchChild ih) hne h
    have hlen := dispatchSwitch_length c s depth
    have hlt := hopen.cur_lt
    have hle₁ := hcases.le
    have hle₂ := E.le
    have hsw : Emitted s (dispatchSwitch c s depth) :=
      (emitted_dispatchHead c depth hopen).1.trans hopen (emitted_terminate _ _)
    have hkept : ∀ {i}, i < s.blocks.length → s'.blocks[i]? = (dispatchSwitch c s depth).blocks[i]? := by
      intro i hi
      rw [E.other (by omega), hcases.other (by omega) (by omega)]
    refine ⟨by omega, ?_, ?_, ?_, (hsw.regs.trans hcases.regs).trans E.regs⟩
    · intro i hi hic
      rw [hkept hi, hsw.other hi hic]
    · intro blk hblk
      obtain ⟨blk', hblk', hpre⟩ := hsw.cur hblk
      exact ⟨blk', (hkept hlt).trans hblk', hpre⟩
    · have := E.place hne
      omega

/-! ## Termination of the emission -/

def allRefs (t : ArtTrie) : List ArtChildRef :=
  (List.range t.n4Pool.length).map (⟨.n4, ·⟩) ++ (List.range t.n16Pool.length).map (⟨.n16, ·⟩) ++
    (List.range t.n48Pool.length).map (⟨.n48, ·⟩) ++ (List.range t.n256Pool.length).map (⟨.n256, ·⟩)

lemma allRefs_length (t : ArtTrie) : (allRefs t).length = nodeCount t := by
  simp [allRefs, nodeCount, Nat.add_assoc]

lemma mem_allRefs {t n} (h : t.node ref = some n) : ref ∈ allRefs t := by
  obtain ⟨type, idx⟩ := ref
  cases type with
  | n4 =>
    obtain ⟨x, hx, -⟩ := Option.map_eq_some_iff.mp h
    simp [allRefs, (List.getElem?_eq_some_iff.mp hx).1]
  | n16 =>
    obtain ⟨x, hx, -⟩ := Option.map_eq_some_iff.mp h
    simp [allRefs, (List.getElem?_eq_some_iff.mp hx).1]
  | n48 =>
    obtain ⟨x, hx, -⟩ := Option.map_eq_some_iff.mp h
    simp [allRefs, (List.getElem?_eq_some_iff.mp hx).1]
  | n256 =>
    obtain ⟨x, hx, -⟩ := Option.map_eq_some_iff.mp h
    simp [allRefs, (List.getElem?_eq_some_iff.mp hx).1]

variable {live : ArtChildRef → Prop} {paths : ArtChildRef → Str}

lemma mem_nodeEntries (S : ArtShape c.trie live paths) (hlive : live ref) {b child} :
    (b, child) ∈ nodeEntries c.trie ref ↔ c.trie.findChild ref b = some child := by
  obtain ⟨n, hn, hok⟩ := S.node hlive
  rw [nodeEntries, findChild_of_node hn, hn]
  exact (ArtNode.entries_spec hok).2 b child

lemma length_le_nodeCount (S : ArtShape c.trie live paths) {refs : List ArtChildRef} (hnodup : refs.Nodup)
    (hlive : ∀ i ∈ refs, live i) : refs.length ≤ nodeCount c.trie := by
  have hsub : refs ⊆ allRefs c.trie := by
    intro i hi
    obtain ⟨n, hn, -⟩ := S.node (hlive i hi)
    exact mem_allRefs hn
  rw [← allRefs_length]
  exact (hnodup.subperm hsub).length_le

/-- The nodes of a way down to `ref`. -/
def WayDown (live : ArtChildRef → Prop) (paths : ArtChildRef → Str) (ref : ArtChildRef)
    (above : List ArtChildRef) : Prop :=
  (ref :: above).Nodup ∧ ∀ i ∈ ref :: above, live i ∧ (paths i).length ≤ (paths ref).length

lemma WayDown.child (S : ArtShape c.trie live paths) {above} (W : WayDown live paths ref above)
    {b child} (h : c.trie.findChild ref b = some child) : WayDown live paths child (ref :: above) := by
  obtain ⟨hnodup, hall⟩ := W
  have hlive := (hall ref List.mem_cons_self).1
  have hlt := S.tree.child_path_length hlive ⟨b, h⟩
  refine ⟨List.nodup_cons.mpr ⟨fun hmem => ?_, hnodup⟩, fun i hi => ?_⟩
  · exact absurd (hall child hmem).2 (Nat.not_le.mpr hlt)
  · rcases List.mem_cons.mp hi with rfl | hi
    · exact ⟨S.child_live hlive h, Nat.le_refl _⟩
    · exact ⟨(hall i hi).1, (hall i hi).2.trans (Nat.le_of_lt hlt)⟩

lemma dispatch_some (S : ArtShape c.trie live paths) {above}
    (W : WayDown live paths ref above) (hfuel : nodeCount c.trie ≤ fuel + above.length) :
    ∃ s', emitNodeDispatch c fuel s ref depth = some s' := by
  induction fuel generalizing s ref depth above with
  | zero =>
    have hcount := length_le_nodeCount S W.1 fun i hi => (W.2 i hi).1
    rw [List.length_cons] at hcount
    omega
  | succ fuel ih =>
    by_cases hne : nodeEntries c.trie ref = []
    · exact ⟨_, emitNodeDispatch_leaf hne⟩
    rw [emitNodeDispatch_switch hne]
    refine emitChildren_some fun e he a => ?_
    have hchild := (mem_nodeEntries S (W.2 ref List.mem_cons_self).1).mp he
    refine ih (W.child S hchild) ?_
    rw [List.length_cons]
    omega

/-! ## Simulation of the match -/

lemma childCases_target {block k entries b}
    (h : (b.toNat, k) ∈ childCases block entries) : ∃ child, ((b, child), k) ∈ entries.zipIdx block := by
  obtain ⟨⟨⟨b', child⟩, k'⟩, hmem, heq⟩ := List.mem_map.mp h
  simp only [Prod.mk.injEq] at heq
  obtain ⟨hb, rfl⟩ := heq
  exact ⟨child, UInt8.toNat_inj.mp hb ▸ hmem⟩

lemma childCases_keys (block : Nat) (entries : List (UInt8 × ArtChildRef)) (b : UInt8) :
    b.toNat ∈ (childCases block entries).map Prod.fst ↔ ∃ child, (b, child) ∈ entries := by
  have hkeys : (childCases block entries).map Prod.fst = entries.map fun e => e.1.toNat := by
    conv_rhs => rw [← List.zipIdx_map_fst block entries]
    simp only [childCases, List.map_map, Function.comp_def]
  rw [hkeys, List.mem_map]
  constructor
  · rintro ⟨⟨b', child⟩, hmem, hb⟩
    exact ⟨child, UInt8.toNat_inj.mp hb ▸ hmem⟩
  · rintro ⟨child, hmem⟩
    exact ⟨_, hmem, rfl⟩

/-- The loop of `match_canonical_key` leaves at a node without a child for the next byte. -/
lemma loopsTo_noChild {t} {rest : Str} (hno : ∀ b l, rest = b :: l → t.findChild ref b = none)
    (h : LoopsTo (artMatchStep t want) ⟨ref, best, rest⟩ r) : r = best := by
  refine (loopsTo_leave ?_).mp h
  rw [artMatchStep]
  cases rest with
  | nil => rfl
  | cons b l => simp only [hno b l rfl]

lemma cont_dispatchHead (K : CallOk F args c) (hopen : Open s)
    (hF : Contained (dispatchHead c s depth).1.blocks F) (hdepth : depth < 2 ^ 31)
    (hnext : ∀ b rest m, args.path.drop depth = b :: rest → Ready c want best (dispatchHead c s depth).1 m →
      (dispatchHead c s depth).2.eval args m.env = some (.int b.toNat) → LoopsTo (irStep F args) m (some r.toNat))
    (hend : args.path.drop depth = [] → r = best) : Cont F args c want best s r := by
  have hopen₁ := hopen.build (.icmp .ult (.const 32 depth) effLen)
  obtain ⟨h₂, hopen₂⟩ := emitted_check c (.reg s.nextReg) hopen₁
  obtain ⟨h₃, -⟩ := emitted_loadByte _ (.const 32 depth) hopen₂
  have hF₂ := (h₃.contained hopen₂).trans hF
  have hdepth' : depth < 2 ^ 32 := by omega
  intro m R
  obtain ⟨R₁, e₁⟩ := R.build ((h₂.contained hopen₁).trans hF₂) (exec_icmp (eval_const hdepth') (K.effLen _))
  rw [e₁]
  refine R₁.check hopen₁ hF₂ K.ret (result_reg _ s.nextReg _ _) ?_ ?_
  · intro hmore m₂ R₂
    obtain ⟨b, rest, hrest⟩ : ∃ b rest, args.path.drop depth = b :: rest := by
      refine List.exists_cons_of_ne_nil fun hnil => ?_
      rw [List.drop_eq_nil_iff] at hnil
      exact absurd (of_decide_eq_true hmore) (Nat.not_lt.mpr hnil)
    obtain ⟨m₃, R₃, hbyte, e₃⟩ := R₂.loadByte hopen₂ hF hdepth hrest
    rw [e₃]
    exact hnext b rest m₃ hrest R₃ hbyte
  · intro hless
    exact hend (List.drop_eq_nil_of_le (Nat.not_lt.mp (of_decide_eq_false hless)))

lemma cont_dispatchChild {child b} {rest : Str} (K : CallOk F args c)
    (S : ArtShape c.trie live paths) (hshort : Within (fun p => p.length < 2 ^ 31) live paths) (hopen : Open s)
    (hlive : live ref) (hchild : c.trie.findChild ref b = some child)
    (h : dispatchChild c fuel (paths ref).length s child = some s') (hF : Contained s'.blocks F)
    (hrest : args.path.drop (paths ref).length = b :: rest)
    (hmatch : LoopsTo (artMatchStep c.trie want) ⟨ref, best, b :: rest⟩ r)
    (ih : ∀ {best a}, Open a → emitNodeDispatch c fuel a child (paths child).length = some s' →
      LoopsTo (artMatchStep c.trie want) ⟨child, best, args.path.drop (paths child).length⟩ r →
      Cont F args c want best a r) : Cont F args c want best s r := by
  obtain ⟨l, hedge, hpath⟩ := S.label hlive hchild
  have hlen : (paths ref).length + (c.trie.header child).edge.length = (paths child).length := by
    rw [hedge, hpath, List.length_append]
  have hshort' : (paths child).length < 2 ^ 31 := hshort (S.child_live hlive hchild)
  have hin : (paths ref).length < args.path.length := by
    by_contra hout
    rw [List.drop_eq_nil_of_le (Nat.not_lt.mp hout)] at hrest
    cases hrest
  obtain ⟨-, hopen'⟩ := emitted_childEntry c (c.trie.header child) (paths ref).length hopen
  have hF' := ((emitted_dispatch hopen' h).contained hopen').trans hF
  have hturn : artMatchStep c.trie want ⟨ref, best, b :: rest⟩ = _ := artMatchStep_child rfl hchild
  refine cont_childEntry K hopen hF' (by omega) (Nat.le_of_lt hin) ?_ ?_
  · intro hpre
    rw [hrest] at hpre
    rw [if_pos hpre] at hturn
    rw [loopsTo_step hturn, ← hrest, List.drop_drop, hlen] at hmatch
    rw [dispatchChild, hlen] at h
    rw [hlen]
    exact ih hopen' h hmatch
  · intro hno
    rw [hrest] at hno
    rw [if_neg hno] at hturn
    exact (loopsTo_leave hturn).mp hmatch

/-- The code of a node takes the turns of the loop of `match_canonical_key`. -/
lemma cont_dispatch (K : CallOk F args c) (S : ArtShape c.trie live paths)
    (hshort : Within (fun p => p.length < 2 ^ 31) live paths) (hopen : Open s) (hlive : live ref)
    (h : emitNodeDispatch c fuel s ref (paths ref).length = some s') (hF : Contained s'.blocks F)
    (hmatch : LoopsTo (artMatchStep c.trie want) ⟨ref, best, args.path.drop (paths ref).length⟩ r) :
    Cont F args c want best s r := by
  induction fuel generalizing s s' ref best with
  | zero => cases h
  | succ fuel ih =>
    by_cases hne : nodeEntries c.trie ref = []
    · rw [emitNodeDispatch_leaf hne] at h
      cases h
      have hno : ∀ b, c.trie.findChild ref b = none := by
        intro b
        by_contra hsome
        obtain ⟨child, hchild⟩ := Option.ne_none_iff_exists'.mp hsome
        rw [← mem_nodeEntries S hlive, hne] at hchild
        cases hchild
      intro m R
      rw [loopsTo_step (irStep_terminate hF R.here), loopsTo_noChild (fun b _ _ => hno b) hmatch]
      exact R.returnBest K.ret
    obtain ⟨a, hcases, E⟩ := dispatch_stages (emitted_dispatchChild emitted_dispatch) hne h
    have hcases' : CasesAdded (dispatchHead c s (paths ref).length).1.cur (dispatchSwitch c s (paths ref).length) a
        (childCases (s.blocks.length + 1) (nodeEntries c.trie ref)) := by
      rw [dispatchHead_cur]
      exact hcases
    obtain ⟨hhead, hopen₂⟩ := emitted_dispatchHead c (paths ref).length hopen
    have hFa := E.contained.trans hF
    refine cont_dispatchHead K hopen ((hcases'.contained hopen₂).trans hFa) (hshort hlive) ?_ ?_
    · intro b rest m hrest R hbyte
      rw [loopsTo_switch hcases' hFa R.here hbyte]
      rw [hrest] at hmatch
      by_cases hkey : b.toNat ∈ (childCases (s.blocks.length + 1) (nodeEntries c.trie ref)).map Prod.fst
      · obtain ⟨child, hmem⟩ := childCases_target (switchTarget_mem hkey)
        have hchild := (mem_nodeEntries S hlive).mp (List.fst_mem_of_mem_zipIdx hmem)
        obtain ⟨a₁, a₂, hempty, hregs, hdesc, hF₃⟩ := E.child _ _ hmem
        refine cont_dispatchChild K S hshort (open_position hempty) hlive hchild hdesc (hF₃.trans hF) hrest hmatch
          (fun hopen h hmatch => ih hopen (S.child_live hlive hchild) h (hF₃.trans hF) hmatch) _
          (R.goto hempty (hcases.regs.trans hregs))
      · rw [switchTarget_default hkey]
        have hnone : c.trie.findChild ref b = none := by
          by_contra hsome
          obtain ⟨child, hchild⟩ := Option.ne_none_iff_exists'.mp hsome
          exact hkey ((childCases_keys _ _ _).mpr ⟨child, (mem_nodeEntries S hlive).mpr hchild⟩)
        rw [loopsTo_noChild (fun b' l heq => (List.cons.inj heq).1 ▸ hnone) hmatch]
        exact R.returnBest K.ret
    · intro hnil
      exact loopsTo_noChild (by simp [hnil]) hmatch

end dispatch

/-! ## The whole function -/

def entryBuilder : Builder :=
  (emitMethodToSlot
    { blocks :=
        [{ instrs := [(0, .alloca), (1, .store (routeConst kInvalidRoute) (.reg 0))] }, {}, {}]
      cur := 0
      nextReg := 2 } 2 (.param 2)).1

def entryCtx (endian : Endian) (t : ArtTrie) : EmitCtx :=
  { trie := t, endian, methodSlot := .reg 2, best := .reg 0, returnBest := 1, returnInvalid := 2 }

def finish (b : Builder) : List Block :=
  let (b, bestVal) := (b.positionAtEnd 1).build (.load 16 (.reg 0))
  let b := (b.terminate (.ret bestVal)).positionAtEnd 2
  (b.terminate (.ret (routeConst kInvalidRoute))).blocks

def finished : Option Builder → Option (List Block)
  | none => none
  | some b => some (finish b)

lemma artJitSpecialize_eq (endian : Endian) (t : ArtTrie) : artJitSpecialize endian t =
      (emitNodeDispatch (entryCtx endian t) (nodeCount t)
        (emitTerminalPickup (entryCtx endian t) entryBuilder (t.header t.rootRef)) t.rootRef 0).map finish := by
  change finished (emitNodeDispatch (entryCtx endian t) (nodeCount t)
    (emitTerminalPickup (entryCtx endian t) entryBuilder (t.header t.rootRef)) t.rootRef 0) = _
  cases emitNodeDispatch (entryCtx endian t) (nodeCount t)
    (emitTerminalPickup (entryCtx endian t) entryBuilder (t.header t.rootRef)) t.rootRef 0 <;> rfl

lemma entryBuilder_blocks :
    entryBuilder.blocks[0]? = some ⟨[(0, .alloca), (1, .store (routeConst kInvalidRoute) (.reg 0))],
      some (.switch (.param 2) 3 ((List.range 10).map fun k => (k, k + 5)))⟩ ∧
    entryBuilder.blocks[1]? = some ⟨[], none⟩ ∧ entryBuilder.blocks[2]? = some ⟨[], none⟩ ∧
    entryBuilder.blocks[3]? = some ⟨[], some (.br 2)⟩ ∧ entryBuilder.blocks[4]? =
      some ⟨[(2, .phi ((List.range 10).map fun k => (.const 32 k, k + 5)))], none⟩ ∧
    (∀ k < 10, entryBuilder.blocks[k + 5]? = some ⟨[], some (.br 4)⟩) ∧
    entryBuilder.cur = 4 ∧ entryBuilder.nextReg = 3 := by
  decide

section entry

variable {F : List Block} {args : Args} {endian : Endian} {t : ArtTrie}

lemma Contained.ended {xs ys} (h : Contained xs ys) {i : Nat} {instrs term} (hi : xs[i]? = some ⟨instrs, some term⟩) : ys[i]? = some ⟨instrs, some term⟩ := by
  obtain ⟨blk, hblk, -, hended⟩ := h _ _ hi
  rw [hblk, hended (by simp)]

def entryMachine (target : Nat) : Machine :=
  { block := target
    pc := 0
    prev := 0
    env := Function.update (fun _ => none) 0 (some .slot)
    cell := some kInvalidRoute.toNat }

lemma switchTarget_method (n : Nat) :
    switchTarget n 3 ((List.range 10).map fun k => (k, k + 5)) = if n < 10 then n + 5 else 3 := by
  have hkeys : n ∈ ((List.range 10).map fun k => (k, k + 5)).map Prod.fst ↔ n < 10 := by simp
  split_ifs with hn
  · obtain ⟨k, -, heq⟩ := List.mem_map.mp (switchTarget_mem (d := 3) (hkeys.mpr hn))
    simp only [Prod.mk.injEq] at heq
    rw [← heq.2, heq.1]
  · exact switchTarget_default fun h => hn (hkeys.mp h)

lemma loopsTo_entry (hF : Contained entryBuilder.blocks F) {n} : LoopsTo (irStep F args) .start n ↔
      LoopsTo (irStep F args) (entryMachine (if args.method.toNat < 10 then args.method.toNat + 5 else 3)) n := by
  have hblk := hF.ended entryBuilder_blocks.1
  have h₁ : irStep F args .start = .inl { entryMachine 0 with cell := none, pc := 1 } := by
    simp [irStep, Machine.start, hblk, Instr.exec, Machine.result, entryMachine]
  have h₂ : irStep F args { entryMachine 0 with cell := none, pc := 1 } = .inl { entryMachine 0 with pc := 2 } := by
    simp [irStep, hblk, Instr.exec, entryMachine, routeConst, Operand.eval]
  have h₃ : irStep F args { entryMachine 0 with pc := 2 } =
      .inl (entryMachine (if args.method.toNat < 10 then args.method.toNat + 5 else 3)) := by
    rw [irStep_ended hblk rfl rfl]
    simp only [Terminator.exec, Operand.eval, switchTarget_method]
    rfl
  rw [loopsTo_step h₁, loopsTo_step h₂, loopsTo_step h₃]

lemma find_method {k} (hk : k < 10) :
    ((List.range 10).map fun j => (Operand.const 32 j, j + 5)).find? (fun p => p.2 == k + 5) =
      some (.const 32 k, k + 5) := by
  interval_cases k <;> rfl

lemma entry_known {want r} (hF : Contained entryBuilder.blocks F) (hkey : methodKeySlot args.method = some want)
    (h : Cont F args (entryCtx endian t) want kInvalidRoute entryBuilder r) :
    LoopsTo (irStep F args) .start (some r.toNat) := by
  obtain ⟨hlt, hwant⟩ : args.method.toNat < 10 ∧ args.method.toNat = want.val := by
    unfold methodKeySlot at hkey
    split_ifs at hkey with hlt
    exact ⟨hlt, congrArg Fin.val (Option.some.inj hkey)⟩
  obtain ⟨-, -, -, -, hphi, hcase, hcur, hnext⟩ := entryBuilder_blocks
  rw [loopsTo_entry hF, if_pos hlt]
  have h₁ : irStep F args (entryMachine (args.method.toNat + 5)) = _ :=
    irStep_ended (hF.ended (hcase _ hlt)) rfl rfl
  rw [loopsTo_step h₁]
  have h₂ : irStep F args ((entryMachine (args.method.toNat + 5)).goto 4) =
      .inl (((entryMachine (args.method.toNat + 5)).goto 4).result 2 (.int args.method.toNat)) := by
    obtain ⟨blk, hblk, ⟨more, hmore⟩, -⟩ := hF _ _ hphi
    have hget : blk.instrs[0]? = some (2, .phi ((List.range 10).map fun k => (.const 32 k, k + 5))) := by
      rw [← hmore]
      rfl
    have hsmall : args.method.toNat < 2 ^ 32 := by omega
    simp only [irStep, Machine.goto, entryMachine, hblk, hget, Instr.exec, find_method hlt, eval_const hsmall,
      Option.map_some]
  rw [loopsTo_step h₂]
  refine h _ ⟨⟨hcur.symm, _, hcur ▸ hphi, rfl⟩, ⟨0, by omega, rfl, rfl⟩, ⟨2, by omega, rfl, ?_⟩, rfl⟩
  rw [hwant]
  rfl

lemma finish_blocks {b} (h₁ : b.blocks[1]? = some ⟨[], none⟩) (h₂ : b.blocks[2]? = some ⟨[], none⟩) :
    Contained b.blocks (finish b) ∧
    (finish b)[1]? = some ⟨[(b.nextReg, .load 16 (.reg 0))], some (.ret (.reg b.nextReg))⟩ ∧
    (finish b)[2]? = some ⟨[], some (.ret (routeConst kInvalidRoute))⟩ := by
  have hopen := open_position h₁
  set s := ((b.positionAtEnd 1).build (.load 16 (.reg 0))).1.terminate (.ret (.reg b.nextReg)) with hs
  have hemit : Emitted (b.positionAtEnd 1) s :=
    (emitted_build (b.positionAtEnd 1) (.load 16 (.reg 0))).trans hopen (emitted_terminate _ _)
  have hretBest : s.blocks[1]? = some ⟨[(b.nextReg, .load 16 (.reg 0))], some (.ret (.reg b.nextReg))⟩ :=
    terminate_cur (s := ((b.positionAtEnd 1).build _).1) (build_cur (s := b.positionAtEnd 1) h₁)
  have h₂' := hemit.empty_at h₂ (by decide)
  have hend := emitted_terminate (s.positionAtEnd 2) (.ret (routeConst kInvalidRoute))
  refine ⟨(hemit.contained hopen).trans (hend.contained (open_position h₂')), ?_, ?_⟩
  · exact (hend.other (List.getElem?_eq_some_iff.mp hretBest).1 (by simp [Builder.positionAtEnd])).trans hretBest
  · exact terminate_cur (s := s.positionAtEnd 2) h₂'

lemma entry_unknown (hF : Contained entryBuilder.blocks F)
    (hret : F[2]? = some ⟨[], some (.ret (routeConst kInvalidRoute))⟩) (hkey : methodKeySlot args.method = none) :
    LoopsTo (irStep F args) .start (some kInvalidRoute.toNat) := by
  have hlt : ¬ args.method.toNat < 10 := by
    unfold methodKeySlot at hkey
    split_ifs at hkey with hlt
    exact hlt
  rw [loopsTo_entry hF, if_neg hlt]
  have h₁ : irStep F args (entryMachine 3) = _ := irStep_ended (hF.ended entryBuilder_blocks.2.2.2.1) rfl rfl
  rw [loopsTo_step h₁]
  have h₂ : irStep F args ((entryMachine 3).goto 2) = _ := irStep_ended hret rfl rfl
  exact (loopsTo_leave h₂).mpr rfl

end entry

/-- The block `return_best` of the function. -/
lemma retBest_of_block {F args endian t reg} (h : F[1]? = some ⟨[(reg, .load 16 (.reg 0))], some (.ret (.reg reg))⟩) :
    RetBest F args (entryCtx endian t) := by
  intro m r n hblock hpc hr henv hcell
  cases hr
  have hF : F[m.block]? = some ⟨[(reg, .load 16 (.reg 0))], some (.ret (.reg reg))⟩ := hblock ▸ h
  have h₁ : irStep F args m = .inl (m.result reg (.int n)) := by
    simp [irStep, hF, hpc, Instr.exec, Operand.eval, henv, hcell]
  have hend : (m.result reg (.int n)).pc = 1 := congrArg (· + 1) hpc
  have h₂ : irStep F args (m.result reg (.int n)) = _ := irStep_ended hF hend rfl
  rw [Terminator.exec, result_reg] at h₂
  rw [loopsTo_step h₁]
  exact (loopsTo_leave h₂).mpr rfl

/-- The function emitted for a trie of any successful insertions returns what `match_canonical_key` returns,
for every path and method key; it never reads outside of the path. Paths are shorter than the indices of the
emitted code reach. -/
theorem artJitSpecialize_correct {mode : ArtMatchMode} {es : List Insertion} {t : ArtTrie} (endian : Endian)
    (hshort : ∀ e ∈ es, (finalizePathCanonical e.path).length < 2 ^ 31)
    (h : (ArtTrie.clear mode).insertAll es = some t) :
    ∃ F, artJitSpecialize endian t = some F ∧
      ∀ path methodKey, path.length < 2 ^ 32 →
        Returns F ⟨endian, path, methodKey⟩ (t.matchCanonicalKey path methodKey).toNat := by
  obtain ⟨es', hes', hmode, live, paths, S, C, W⟩ := (artInv_clear (pathBound_length (2 ^ 31 - 1))).insertAll_shape
    (pathBound_length _) (fun e he => Nat.le_pred_of_lt (hshort e he)) (by simp [ValidRoutes]) h
  have W' : Within (fun p => p.length < 2 ^ 31) live paths := by
    intro i hi
    exact Nat.lt_of_le_pred (by decide) (W hi)
  set c := entryCtx endian t with hc
  obtain ⟨-, h₁, h₂, -, hphi, -, hcur, -⟩ := entryBuilder_blocks
  have hopen₀ : Open entryBuilder := ⟨_, hcur ▸ hphi, rfl⟩
  obtain ⟨hemit, hopen⟩ := emitted_pickup c (t.header t.rootRef) hopen₀
  have hway : WayDown live paths t.rootRef [] := by
    refine ⟨List.nodup_singleton _, fun i hi => ?_⟩
    rw [List.mem_singleton.mp hi]
    exact ⟨S.tree.root_live, Nat.le_refl _⟩
  obtain ⟨b, hb⟩ : ∃ b, emitNodeDispatch c (nodeCount t)
      (emitTerminalPickup c entryBuilder (t.header t.rootRef)) t.rootRef 0 = some b :=
    dispatch_some S hway (Nat.le_refl _)
  have hkept : ∀ {i}, i < 4 → b.blocks[i]? = entryBuilder.blocks[i]? := by
    intro i hi
    have hfour := (List.getElem?_eq_some_iff.mp hphi).1
    exact (hemit.trans hopen₀ (emitted_dispatch hopen hb)).other (Nat.lt_trans hi hfour) (by omega)
  obtain ⟨hF, hretBest, hretInvalid⟩ := finish_blocks ((hkept (by decide)).trans h₁) ((hkept (by decide)).trans h₂)
  have hF₁ := ((emitted_dispatch hopen hb).contained hopen).trans hF
  have hF₀ := (hemit.contained hopen₀).trans hF₁
  refine ⟨finish b, by rw [artJitSpecialize_eq, ← hc, hb, Option.map_some], ?_⟩
  intro path methodKey hlen
  cases hkey : methodKeySlot methodKey with
  | none =>
    have hinv : t.matchCanonicalKey path methodKey = kInvalidRoute := by simp only [ArtTrie.matchCanonicalKey, hkey]
    rw [hinv]
    exact entry_unknown hF₀ hretInvalid hkey
  | some want =>
    have K : CallOk (finish b) ⟨endian, path, methodKey⟩ c := ⟨retBest_of_block hretBest, rfl, hlen⟩
    have hmatch := (matchGeneral_best S C hes' path want).2
    rw [← matchCanonicalKey_general S hkey path] at hmatch
    have hroot : emitNodeDispatch c (nodeCount t) (emitTerminalPickup c entryBuilder (t.header t.rootRef))
        t.rootRef (paths t.rootRef).length = some b := by
      rw [S.tree.root_path]
      exact hb
    refine entry_known hF₀ hkey (cont_pickup hopen₀ hF₁ (cont_dispatch K S W' hopen S.tree.root_live hroot hF ?_))
    · have hbest : orBest (artPickTerminal (t.header t.rootRef) want) kInvalidRoute =
          artPickTerminal (t.header t.rootRef) want := by
        rw [orBest]
        split_ifs with hpick
        · rfl
        · exact (not_not.mp hpick).symm
      rw [hbest, S.tree.root_path]
      exact hmatch

theorem fanOutRoutes_jit :
    ∃ t F, (ArtTrie.clear .segmentPrefix).insertAll fanOutRoutes = some t ∧
      artJitSpecialize .little t = some F ∧
      Returns F ⟨.little, lit ['a','p','i','/','e','x'], kRouteMethodGet⟩ 6 := by
  obtain ⟨t, ht⟩ : ∃ t, (ArtTrie.clear .segmentPrefix).insertAll fanOutRoutes = some t :=
    Option.isSome_iff_exists.mp (by decide)
  have hrun : ((ArtTrie.clear .segmentPrefix).insertAll fanOutRoutes).map (fun t =>
      t.matchCanonicalKey (lit ['a','p','i','/','e','x']) kRouteMethodGet) = some 6 := by
    decide
  rw [ht, Option.map_some, Option.some.injEq] at hrun
  obtain ⟨F, hF, hret⟩ := artJitSpecialize_correct .little (by decide) ht
  have h := hret (lit ['a','p','i','/','e','x']) kRouteMethodGet (by decide)
  rw [hrun] at h
  exact ⟨t, F, ht, hF, h⟩

end Rut.Jit
