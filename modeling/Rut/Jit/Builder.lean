import Rut.Jit.ArtJit

/-!
# The builder

What the calls of the builder do to the function: the block at its position grows, fresh blocks are
appended, and all other blocks stay (`Emitted`). A function contains all states of its builder (`Contained`),
so a machine at the position of the builder executes what is built next. `Ready` says that the machine is
there with the method slot and the best route so far.
-/

set_option linter.all false
namespace Rut.Jit

open Lib Route

def Open (b : Builder) : Prop := ∃ blk, b.blocks[b.cur]? = some blk ∧ blk.term = none

/-- The blocks of `xs` are in `ys`: those not ended may have grown. -/
def Contained (xs ys : List Block) : Prop :=
  ∀ (i : Nat) (blk : Block), xs[i]? = some blk →
    ∃ blk', ys[i]? = some blk' ∧ blk.instrs <+: blk'.instrs ∧ (blk.term ≠ none → blk' = blk)

lemma Contained.refl (xs : List Block) : Contained xs xs :=
  fun _ blk h => ⟨blk, h, List.prefix_refl _, fun _ => rfl⟩

lemma Contained.trans {xs ys zs} (h : Contained xs ys) (h' : Contained ys zs) : Contained xs zs := by
  intro i blk hi
  obtain ⟨blk', hi', hpre, hended⟩ := h i blk hi
  obtain ⟨blk'', hi'', hpre', hended'⟩ := h' i blk' hi'
  refine ⟨blk'', hi'', hpre.trans hpre', fun ht => ?_⟩
  obtain rfl := hended ht
  exact hended' ht

/-- From `s` to `s'` only the block at the position of `s` has grown. -/
structure Emitted (s s' : Builder) : Prop where
  le : s.blocks.length ≤ s'.blocks.length
  other : ∀ {i}, i < s.blocks.length → i ≠ s.cur → s'.blocks[i]? = s.blocks[i]?
  cur : ∀ {blk}, s.blocks[s.cur]? = some blk →
    ∃ blk', s'.blocks[s.cur]? = some blk' ∧ blk.instrs <+: blk'.instrs
  place : s'.cur = s.cur ∨ s.blocks.length ≤ s'.cur
  regs : s.nextReg ≤ s'.nextReg

section emitted

variable {s s' s'' : Builder} {i : Instr} {t : Terminator} {k : Nat}

lemma Open.cur_lt (h : Open s) : s.cur < s.blocks.length := by
  obtain ⟨blk, hblk, -⟩ := h
  exact (List.getElem?_eq_some_iff.mp hblk).1

lemma Emitted.refl (s : Builder) : Emitted s s :=
  ⟨Nat.le_refl _, fun _ _ => rfl, fun h => ⟨_, h, List.prefix_refl _⟩, .inl rfl, Nat.le_refl _⟩

/-- Going on at a block that `s` does not have. -/
lemma Emitted.trans_at (h : Emitted s s') (hk : s.blocks.length ≤ k) (hopen : Open s)
    (h' : Emitted (s'.positionAtEnd k) s'') : Emitted s s'' := by
  have hcur := hopen.cur_lt
  have hle := h.le
  refine ⟨hle.trans h'.le, ?_, ?_, ?_, h.regs.trans h'.regs⟩
  · intro i hi hne
    rw [h'.other (Nat.lt_of_lt_of_le hi h.le) (by simp only [Builder.positionAtEnd]; omega)]
    exact h.other hi hne
  · intro blk hblk
    obtain ⟨blk', hblk', hpre⟩ := h.cur hblk
    refine ⟨blk', ?_, hpre⟩
    rw [h'.other (Nat.lt_of_lt_of_le hcur h.le) (by simp only [Builder.positionAtEnd]; omega)]
    exact hblk'
  · rcases h'.place with hp | hp
    · exact .inr (hp ▸ hk)
    · exact .inr (hle.trans hp)

lemma Emitted.trans (h : Emitted s s') (hopen : Open s) (h' : Emitted s' s'') : Emitted s s'' := by
  rcases h.place with hp | hp
  · refine ⟨h.le.trans h'.le, ?_, ?_, ?_, h.regs.trans h'.regs⟩
    · intro i hi hne
      rw [h'.other (Nat.lt_of_lt_of_le hi h.le) (hp ▸ hne)]
      exact h.other hi hne
    · intro blk hblk
      obtain ⟨blk', hblk', hpre⟩ := h.cur hblk
      rw [← hp] at hblk' ⊢
      obtain ⟨blk'', hblk'', hpre'⟩ := h'.cur hblk'
      exact ⟨blk'', hblk'', hpre.trans hpre'⟩
    · rcases h'.place with hp' | hp'
      · exact .inl (hp'.trans hp)
      · exact .inr (h.le.trans hp')
  · exact h.trans_at hp hopen h'

lemma Emitted.contained (h : Emitted s s') (hopen : Open s) : Contained s.blocks s'.blocks := by
  intro i blk hi
  by_cases hic : i = s.cur
  · subst hic
    obtain ⟨blk', hblk', hpre⟩ := h.cur hi
    obtain ⟨blk₀, hblk₀, hterm⟩ := hopen
    rw [hi, Option.some.injEq] at hblk₀
    subst hblk₀
    exact ⟨blk', hblk', hpre, fun hne => absurd hterm hne⟩
  · exact ⟨blk, (h.other (List.getElem?_eq_some_iff.mp hi).1 hic).trans hi, List.prefix_refl _, fun _ => rfl⟩

lemma build_cur {blk} (h : s.blocks[s.cur]? = some blk) :
    (s.build i).1.blocks[s.cur]? = some { blk with instrs := blk.instrs ++ [(s.nextReg, i)] } := by
  simp [Builder.build, h]

lemma terminate_cur {blk} (h : s.blocks[s.cur]? = some blk) :
    (s.terminate t).blocks[s.cur]? = some { blk with term := some t } := by
  simp [Builder.terminate, h]

lemma emitted_build (s : Builder) (i : Instr) : Emitted s (s.build i).1 := by
  refine ⟨by simp [Builder.build], ?_, ?_, .inl rfl, Nat.le_succ _⟩
  · intro j _ hne
    simp [Builder.build, Ne.symm hne]
  · intro blk hblk
    exact ⟨_, build_cur hblk, List.prefix_append ..⟩

lemma Open.build (h : Open s) (i : Instr) : Open (s.build i).1 := by
  obtain ⟨blk, hblk, hterm⟩ := h
  exact ⟨_, build_cur hblk, hterm⟩

lemma Open.contained_build {F : List Block} (h : Open s) (hF : Contained (s.build i).1.blocks F) :
    Contained s.blocks F :=
  ((emitted_build s i).contained h).trans hF

lemma emitted_appendBlock (s : Builder) : Emitted s s.appendBlock.1 := by
  refine ⟨by simp [Builder.appendBlock], ?_, ?_, .inl rfl, Nat.le_refl _⟩
  · intro j hj _
    exact List.getElem?_append_left hj
  · intro blk hblk
    exact ⟨blk, (List.getElem?_append_left (List.getElem?_eq_some_iff.mp hblk).1).trans hblk,
      List.prefix_refl _⟩

lemma Open.appendBlock (h : Open s) : Open s.appendBlock.1 := by
  obtain ⟨blk, hblk, hterm⟩ := h
  exact ⟨blk, (List.getElem?_append_left (List.getElem?_eq_some_iff.mp hblk).1).trans hblk, hterm⟩

lemma appendBlock_new (s : Builder) : s.appendBlock.1.blocks[s.appendBlock.2]? = some {} := by
  simp [Builder.appendBlock]

lemma emitted_terminate (s : Builder) (t : Terminator) : Emitted s (s.terminate t) := by
  refine ⟨by simp [Builder.terminate], ?_, ?_, .inl rfl, Nat.le_refl _⟩
  · intro j _ hne
    simp [Builder.terminate, Ne.symm hne]
  · intro blk hblk
    exact ⟨_, terminate_cur hblk, List.prefix_refl _⟩

lemma emitted_position (hk : s.blocks[k]? = some {}) (h : Emitted s s') (hne : k ≠ s.cur) :
    s'.blocks[k]? = some {} := by
  rw [h.other (List.getElem?_eq_some_iff.mp hk).1 hne, hk]

lemma Emitted.empty_at {k' : Nat} (h : Emitted (s.positionAtEnd k') s') (hk : s.blocks[k]? = some {})
    (hne : k ≠ k') : s'.blocks[k]? = some {} :=
  (h.other (List.getElem?_eq_some_iff.mp hk).1 hne).trans hk

lemma open_position (hk : s.blocks[k]? = some {}) : Open (s.positionAtEnd k) := ⟨_, hk, rfl⟩

lemma emitted_check (c : EmitCtx) (cond : Operand) (hopen : Open s) :
    Emitted s (emitCheckOrBreak c s cond) ∧ Open (emitCheckOrBreak c s cond) := by
  have hnew := appendBlock_new s
  have h₁ := emitted_appendBlock s
  have h₂ := emitted_terminate s.appendBlock.1 (.condBr cond s.appendBlock.2 c.returnBest)
  have hcur := hopen.cur_lt
  have hne : s.appendBlock.2 ≠ s.appendBlock.1.cur := by
    simp only [Builder.appendBlock]
    omega
  have hpass := emitted_position hnew h₂ hne
  exact ⟨(h₁.trans hopen h₂).trans_at (Nat.le_refl _) hopen (Emitted.refl _), open_position hpass⟩

end emitted

/-! ## Cases of a switch -/

/-- From `s` to `s'` only the switch of the block `sw` has grown, by the cases `more`. -/
structure CasesAdded (sw : Nat) (s s' : Builder) (more : List (Nat × Nat)) : Prop where
  le : s.blocks.length ≤ s'.blocks.length
  other : ∀ {i}, i < s.blocks.length → i ≠ sw → s'.blocks[i]? = s.blocks[i]?
  switch : ∀ {instrs v d cases}, s.blocks[sw]? = some ⟨instrs, some (.switch v d cases)⟩ →
    s'.blocks[sw]? = some ⟨instrs, some (.switch v d (cases ++ more))⟩
  regs : s.nextReg ≤ s'.nextReg

section cases

variable {s s' s'' : Builder} {sw value : Nat} {more more' : List (Nat × Nat)}

lemma CasesAdded.refl (sw : Nat) (s : Builder) : CasesAdded sw s s [] :=
  ⟨Nat.le_refl _, fun _ _ => rfl, fun h => by simpa using h, Nat.le_refl _⟩

lemma CasesAdded.trans (h : CasesAdded sw s s' more) (h' : CasesAdded sw s' s'' more') :
    CasesAdded sw s s'' (more ++ more') := by
  refine ⟨h.le.trans h'.le, ?_, ?_, h.regs.trans h'.regs⟩
  · intro i hi hne
    rw [h'.other (Nat.lt_of_lt_of_le hi h.le) hne, h.other hi hne]
  · intro instrs v d cases hsw
    rw [h'.switch (h.switch hsw), List.append_assoc]

lemma casesAdded_addCase (s : Builder) {sw} (hsw : sw < s.blocks.length) (value : Nat) :
    CasesAdded sw s (s.appendBlock.1.addCase sw value s.appendBlock.2) [(value, s.blocks.length)] := by
  refine ⟨by simp [Builder.addCase, Builder.appendBlock], ?_, ?_, Nat.le_refl _⟩
  · intro i hi hne
    simp [Builder.addCase, Builder.appendBlock, Ne.symm hne, List.getElem?_append_left hi]
  · intro instrs v d cases hblk
    simp [Builder.addCase, Builder.appendBlock, List.getElem?_append_left hsw, hblk, Terminator.addCase]

lemma CasesAdded.contained {v d} (h : CasesAdded s.cur (s.terminate (.switch v d [])) s' more)
    (hopen : Open s) : Contained s.blocks s'.blocks := by
  obtain ⟨blk₀, hblk₀, hterm⟩ := hopen
  intro i blk hi
  by_cases hic : i = s.cur
  · subst hic
    rw [hblk₀, Option.some.injEq] at hi
    subst hi
    exact ⟨_, h.switch (terminate_cur hblk₀), List.prefix_refl _, fun hne => absurd hterm hne⟩
  · have hlt := (List.getElem?_eq_some_iff.mp hi).1
    have hle := (emitted_terminate s (.switch v d [])).le
    refine ⟨blk, ?_, List.prefix_refl _, fun _ => rfl⟩
    rw [h.other (Nat.lt_of_lt_of_le hlt hle) hic, (emitted_terminate s _).other hlt hic, hi]

lemma CasesAdded.emit {k} (h : CasesAdded sw s s' more) (hk : s.blocks.length ≤ k)
    (hsw : sw < s.blocks.length) (h' : Emitted (s'.positionAtEnd k) s'') : CasesAdded sw s s'' more := by
  refine ⟨h.le.trans h'.le, ?_, ?_, h.regs.trans h'.regs⟩
  · intro i hi hne
    rw [h'.other (Nat.lt_of_lt_of_le hi h.le) (by simp only [Builder.positionAtEnd]; omega)]
    exact h.other hi hne
  · intro instrs v d cases hblk
    rw [h'.other (Nat.lt_of_lt_of_le hsw h.le) (by simp only [Builder.positionAtEnd]; omega)]
    exact h.switch hblk

lemma switchTarget_mem {n d} (h : n ∈ more.map Prod.fst) : (n, switchTarget n d more) ∈ more := by
  cases hfind : more.find? fun p => p.1 == n with
  | none =>
    obtain ⟨p, hp, rfl⟩ := List.mem_map.mp h
    exact absurd (beq_self_eq_true p.1) (List.find?_eq_none.mp hfind p hp)
  | some p =>
    have hp := List.find?_some hfind
    rw [beq_iff_eq] at hp
    rw [switchTarget, hfind, ← hp]
    exact List.mem_of_find?_eq_some hfind

lemma switchTarget_default {n d} (h : n ∉ more.map Prod.fst) : switchTarget n d more = d := by
  have hfind : more.find? (fun p => p.1 == n) = none := by
    rw [List.find?_eq_none]
    intro p hp heq
    exact h (List.mem_map.mpr ⟨p, hp, beq_iff_eq.mp heq⟩)
  rw [switchTarget, hfind]
  rfl

end cases

/-! ## Execution -/

structure At (s : Builder) (m : Machine) : Prop where
  block : m.block = s.cur
  pc : ∃ blk, s.blocks[s.cur]? = some blk ∧ m.pc = blk.instrs.length

section step

variable {s : Builder} {i : Instr} {t : Terminator} {F : List Block} {args : Args} {m : Machine}

lemma irStep_build {m'} (hF : Contained (s.build i).1.blocks F) (hat : At s m)
    (hexec : i.exec args m s.nextReg = some m') : irStep F args m = .inl m' := by
  obtain ⟨blk, hblk, hpc⟩ := hat.pc
  obtain ⟨blk', hblk', ⟨more, hmore⟩, -⟩ := hF _ _ (build_cur hblk)
  have hget : blk'.instrs[m.pc]? = some (s.nextReg, i) := by
    rw [← hmore, hpc]
    simp
  simp only [irStep, hat.block, hblk', hget, hexec]

lemma irStep_ended {blk} (hF : F[m.block]? = some blk) (hpc : m.pc = blk.instrs.length)
    (ht : blk.term = some t) : irStep F args m = t.exec args m := by
  have hget : blk.instrs[m.pc]? = none := List.getElem?_eq_none (by omega)
  simp [irStep, hF, hget, ht]

lemma irStep_terminate (hF : Contained (s.terminate t).blocks F) (hat : At s m) : irStep F args m = t.exec args m := by
  obtain ⟨blk, hblk, hpc⟩ := hat.pc
  obtain ⟨blk', hblk', -, hended⟩ := hF _ _ (terminate_cur hblk)
  obtain rfl := hended (by simp)
  rw [← hat.block] at hblk'
  exact irStep_ended hblk' hpc rfl

end step

/-- The machine is at the position of the builder and knows the slot of the method and the best route. -/
structure Ready (c : EmitCtx) (want : Slot) (best : RouteIdx) (s : Builder) (m : Machine) : Prop where
  here : At s m
  bestReg : ∃ r, r < s.nextReg ∧ c.best = .reg r ∧ m.env r = some .slot
  slotReg : ∃ r, r < s.nextReg ∧ c.methodSlot = .reg r ∧ m.env r = some (.int want.val)
  cell : m.cell = some best.toNat

/-- From the position of the builder the function returns `r`. -/
def Cont (F : List Block) (args : Args) (c : EmitCtx) (want : Slot) (best : RouteIdx) (s : Builder)
    (r : RouteIdx) : Prop :=
  ∀ m, Ready c want best s m → LoopsTo (irStep F args) m (some r.toNat)

/-- The block `return_best` returns the best route. -/
def RetBest (F : List Block) (args : Args) (c : EmitCtx) : Prop :=
  ∀ m r n, m.block = c.returnBest → m.pc = 0 → c.best = .reg r → m.env r = some .slot → m.cell = some n →
    LoopsTo (irStep F args) m (some n)

section ready

variable {c : EmitCtx} {want : Slot} {best : RouteIdx} {s s' : Builder} {m : Machine} {F : List Block}
  {args : Args} {i : Instr} {v : Value} {k : Nat} {cond : Operand}

lemma eval_const {width value env} (h : value < 2 ^ width) :
    (Operand.const width value).eval args env = some (.int value) := by
  rw [Operand.eval, Nat.mod_eq_of_lt h]

lemma Ready.best_eval (R : Ready c want best s m) : c.best.eval args m.env = some .slot := by
  obtain ⟨r, -, hr, henv⟩ := R.bestReg
  simp [hr, Operand.eval, henv]

lemma Ready.slot_eval (R : Ready c want best s m) : c.methodSlot.eval args m.env = some (.int want.val) := by
  obtain ⟨r, -, hr, henv⟩ := R.slotReg
  simp [hr, Operand.eval, henv]

lemma result_env_of_lt (m : Machine) (v : Value) {r r' : Nat} (h : r' < r) :
    (m.result r v).env r' = m.env r' := Function.update_of_ne (Nat.ne_of_lt h) ..

lemma At.build (h : At s m) {m'} (hblock : m'.block = m.block) (hpc : m'.pc = m.pc + 1) : At (s.build i).1 m' := by
  obtain ⟨blk, hblk, hp⟩ := h.pc
  exact ⟨hblock.trans h.block, _, build_cur hblk, by simp [hpc, hp]⟩

lemma Ready.build (R : Ready c want best s m) (hF : Contained (s.build i).1.blocks F)
    (hexec : i.exec args m s.nextReg = some (m.result s.nextReg v)) :
    Ready c want best (s.build i).1 (m.result s.nextReg v) ∧
    ∀ n, LoopsTo (irStep F args) m n ↔ LoopsTo (irStep F args) (m.result s.nextReg v) n := by
  have hstep := irStep_build hF R.here hexec
  refine ⟨⟨R.here.build rfl rfl, ?_, ?_, R.cell⟩, fun n => loopsTo_step hstep⟩
  · obtain ⟨r, hlt, hr, henv⟩ := R.bestReg
    exact ⟨r, Nat.lt_succ_of_lt hlt, hr, (result_env_of_lt m v hlt).trans henv⟩
  · obtain ⟨r, hlt, hr, henv⟩ := R.slotReg
    exact ⟨r, Nat.lt_succ_of_lt hlt, hr, (result_env_of_lt m v hlt).trans henv⟩

lemma result_reg (m : Machine) (r : Nat) (v : Value) (args : Args) :
    (Operand.reg r).eval args (m.result r v).env = some v := by
  simp [Operand.eval, Machine.result]

lemma Ready.moved {m' best'} (R : Ready c want best s m) (hat : At s' m')
    (hregs : s.nextReg ≤ s'.nextReg) (henv : m'.env = m.env) (hcell : m'.cell = some best'.toNat) :
    Ready c want best' s' m' := by
  refine ⟨hat, ?_, ?_, hcell⟩
  · obtain ⟨r, hlt, hr, hslot⟩ := R.bestReg
    exact ⟨r, Nat.lt_of_lt_of_le hlt hregs, hr, henv ▸ hslot⟩
  · obtain ⟨r, hlt, hr, hslot⟩ := R.slotReg
    exact ⟨r, Nat.lt_of_lt_of_le hlt hregs, hr, henv ▸ hslot⟩

lemma Ready.goto (R : Ready c want best s m) (hk : s'.blocks[k]? = some {}) (hregs : s.nextReg ≤ s'.nextReg) :
    Ready c want best (s'.positionAtEnd k) (m.goto k) :=
  R.moved ⟨rfl, {}, hk, rfl⟩ hregs rfl R.cell

/-- Leaving to `return_best`. -/
lemma Ready.returnBest (R : Ready c want best s m) (ret : RetBest F args c) :
    LoopsTo (irStep F args) (m.goto c.returnBest) (some best.toNat) := by
  obtain ⟨r, -, hr, henv⟩ := R.bestReg
  exact ret _ r _ rfl rfl hr henv R.cell

lemma loopsTo_condBr {kt kf} (hF : Contained (s.terminate (.condBr cond kt kf)).blocks F) (hat : At s m)
    {b : Bool} (hcond : cond.eval args m.env = some (.int b.toNat)) {n} :
    LoopsTo (irStep F args) m n ↔ LoopsTo (irStep F args) (m.goto (if b then kt else kf)) n := by
  have hstep : irStep F args m = _ := irStep_terminate hF hat
  simp only [Terminator.exec, hcond] at hstep
  rw [loopsTo_step hstep]
  cases b <;> rfl

lemma loopsTo_switch {a v d n more}
    (hcases : CasesAdded s.cur (s.terminate (.switch v d [])) a more) (hF : Contained a.blocks F) (hat : At s m)
    (hv : v.eval args m.env = some (.int n)) {o} :
    LoopsTo (irStep F args) m o ↔ LoopsTo (irStep F args) (m.goto (switchTarget n d more)) o := by
  obtain ⟨blk, hblk, hpc⟩ := hat.pc
  obtain ⟨blk', hblk', -, hended⟩ := hF _ _ (hcases.switch (terminate_cur hblk))
  obtain rfl := hended (by simp)
  rw [← hat.block] at hblk'
  have hstep : irStep F args m = _ := irStep_ended hblk' hpc rfl
  simp only [Terminator.exec, hv, List.nil_append] at hstep
  rw [loopsTo_step hstep]

lemma Ready.check (R : Ready c want best s m) (hopen : Open s)
    (hF : Contained (emitCheckOrBreak c s cond).blocks F) (ret : RetBest F args c) {b}
    (hcond : cond.eval args m.env = some (.int b.toNat)) {r}
    (hpass : b = true → Cont F args c want best (emitCheckOrBreak c s cond) r)
    (hbreak : b = false → r = best) : LoopsTo (irStep F args) m (some r.toNat) := by
  have hnew := appendBlock_new s
  have hcur := hopen.cur_lt
  have hat : At s.appendBlock.1 m := by
    obtain ⟨blk, hblk, hpc⟩ := R.here.pc
    exact ⟨R.here.block, blk, (List.getElem?_append_left hcur).trans hblk, hpc⟩
  rw [loopsTo_condBr hF hat hcond]
  cases b with
  | true =>
    refine hpass rfl _ (R.goto ?_ (Nat.le_refl _))
    refine emitted_position hnew (emitted_terminate _ _) ?_
    simp only [Builder.appendBlock]
    omega
  | false =>
    rw [hbreak rfl]
    exact R.returnBest ret

/-- Storing a route in `best`. -/
lemma cont_storeBest {r'} (hF : Contained (storeBest c s r').blocks F) {r}
    (h : Cont F args c want r' (storeBest c s r') r) : Cont F args c want best s r := by
  intro m R
  have hexec : (Instr.store (routeConst r') c.best).exec args m s.nextReg =
      some { m with pc := m.pc + 1, cell := some r'.toNat } := by
    simp only [Instr.exec, routeConst, eval_const r'.toNat_lt, R.best_eval]
  rw [loopsTo_step (irStep_build hF R.here hexec)]
  exact h _ (R.moved (R.here.build rfl rfl) (Nat.le_succ _) rfl rfl)

lemma cont_br (hF : Contained (s.terminate (.br k)).blocks F) (hk : s'.blocks[k]? = some {})
    (hregs : s.nextReg ≤ s'.nextReg) {r} (h : Cont F args c want best (s'.positionAtEnd k) r) :
    Cont F args c want best s r := by
  intro m R
  rw [loopsTo_step (irStep_terminate hF R.here)]
  exact h _ (R.goto hk hregs)

end ready

end Rut.Jit
