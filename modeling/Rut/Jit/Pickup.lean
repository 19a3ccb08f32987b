import Rut.Jit.Builder

/-!
# Emitted comparisons and terminal pickups

The code for an edge leaves to `return_best` unless the path goes on with the edge; chunks of up to eight
bytes are equal exactly if their bytes are. The code for a terminal leaves the terminal that
`pick_terminal` chooses in `best`.
-/

set_option linter.all false
namespace Rut.Jit

open Lib Route

/-! ## Chunks -/

section chunk

variable {α : Type*}

lemma testBit_foldl_or (f : α → Nat) (l : List α) (a i : Nat) :
    (l.foldl (fun acc x => acc ||| f x) a).testBit i = (a.testBit i || l.any fun x => (f x).testBit i) := by
  induction l generalizing a with
  | nil => simp
  | cons x l ih => rw [List.foldl_cons, ih, Nat.testBit_or, List.any_cons, Bool.or_assoc]

lemma foldl_or_lt (f : α → Nat) (l : List α) (a n : Nat) (ha : a < 2 ^ n) (hf : ∀ x ∈ l, f x < 2 ^ n) :
    l.foldl (fun acc x => acc ||| f x) a < 2 ^ n := by
  induction l generalizing a with
  | nil => exact ha
  | cons x l ih =>
    exact ih _ (Nat.or_lt_two_pow ha (hf x List.mem_cons_self)) fun y hy => hf y (List.mem_cons_of_mem _ hy)

end chunk

lemma Endian.shift_spec (e : Endian) {width j j' r} (hj : j < width) (hj' : j' < width) (hr : r < 8)
    (hle : e.shift width j' ≤ e.shift width j + r) (hlt : e.shift width j + r < e.shift width j' + 8) : j' = j := by
  cases e <;> simp only [Endian.shift] at hle hlt <;> omega

lemma Endian.shift_lt (e : Endian) {width j} (hj : j < width) : e.shift width j + 8 ≤ width * 8 := by
  cases e <;> simp only [Endian.shift] <;> omega

lemma testBit_byte {b : UInt8} {i} (h : b.toNat.testBit i = true) : i < 8 := by
  by_contra hi
  have hlt : b.toNat < 2 ^ i :=
    Nat.lt_of_lt_of_le b.toNat_lt (Nat.pow_le_pow_right (by decide) (by omega : 8 ≤ i))
  rw [Nat.testBit_lt_two_pow hlt] at h
  cases h

/-- The bits of the byte `j` of a chunk. -/
lemma chunkValue_testBit (e : Endian) (bytes : Str) {j r} (hj : j < bytes.length) (hr : r < 8) :
    (chunkValue e bytes).testBit (e.shift bytes.length j + r) = (bytes[j]).toNat.testBit r := by
  rw [chunkValue, testBit_foldl_or, Nat.zero_testBit, Bool.false_or, Bool.eq_iff_iff, List.any_eq_true]
  constructor
  · rintro ⟨⟨b, j'⟩, hmem, hbit⟩
    rw [List.mem_zipIdx_iff_getElem?] at hmem
    obtain ⟨hj', hb⟩ := List.getElem?_eq_some_iff.mp hmem
    rw [Nat.testBit_shiftLeft, Bool.and_eq_true, decide_eq_true_eq] at hbit
    have hlt := testBit_byte hbit.2
    obtain rfl := e.shift_spec hj hj' hr hbit.1 (by omega)
    rw [hb]
    simpa using hbit.2
  · intro hbit
    refine ⟨(bytes[j], j), List.mem_zipIdx_iff_getElem?.mpr (List.getElem?_eq_getElem hj), ?_⟩
    rw [Nat.testBit_shiftLeft, Bool.and_eq_true, decide_eq_true_eq]
    exact ⟨Nat.le_add_right .., by simpa using hbit⟩

lemma chunkValue_inj {e a b} (hlen : a.length = b.length) : chunkValue e a = chunkValue e b ↔ a = b := by
  refine ⟨fun h => List.ext_getElem hlen fun j ha hb => ?_, fun h => h ▸ rfl⟩
  rw [← UInt8.toNat_inj]
  refine Nat.eq_of_testBit_eq fun r => ?_
  by_cases hr : r < 8
  · rw [← chunkValue_testBit e a ha hr, ← chunkValue_testBit e b hb hr, h, hlen]
  · have hno : ∀ x : UInt8, x.toNat.testBit r = false :=
      fun x => Bool.eq_false_iff.mpr fun hx => hr (testBit_byte hx)
    rw [hno, hno]

lemma chunkValue_lt (e : Endian) (bytes : Str) : chunkValue e bytes < 2 ^ (bytes.length * 8) := by
  refine foldl_or_lt _ _ _ _ (Nat.two_pow_pos _) ?_
  rintro ⟨b, j⟩ hmem
  rw [List.mem_zipIdx_iff_getElem?] at hmem
  have hj := (List.getElem?_eq_some_iff.mp hmem).1
  have hle : e.shift bytes.length j + 8 ≤ bytes.length * 8 := e.shift_lt hj
  have hb : b.toNat < 2 ^ 8 := b.toNat_lt
  calc b.toNat <<< e.shift bytes.length j = b.toNat * 2 ^ e.shift bytes.length j := Nat.shiftLeft_eq ..
    _ < 2 ^ 8 * 2 ^ e.shift bytes.length j := Nat.mul_lt_mul_of_pos_right hb (Nat.two_pow_pos _)
    _ = 2 ^ (8 + e.shift bytes.length j) := (Nat.pow_add ..).symm
    _ ≤ 2 ^ (bytes.length * 8) := Nat.pow_le_pow_right (by decide) (by omega)

/-! ## Edges -/

/-- A call of the function: its host is the one it was emitted for, the length of the path is an `i32`. -/
structure CallOk (F : List Block) (args : Args) (c : EmitCtx) : Prop where
  ret : RetBest F args c
  endian : args.endian = c.endian
  len : args.path.length < 2 ^ 32

section edges

variable {c : EmitCtx} {want : Slot} {best r : RouteIdx} {s : Builder} {m : Machine} {F : List Block}
  {args : Args} {off : Nat}

lemma CallOk.effLen (K : CallOk F args c) (env : Nat → Option Value) :
    effLen.eval args env = some (.int args.path.length) := by
  simp only [Jit.effLen, Operand.eval, Nat.mod_eq_of_lt K.len]

lemma exec_gep {k} (h : off < 2 ^ 31) :
    (Instr.gep effPtr (.const 32 off)).exec args m k = some (m.result k (.path off)) := by
  have hoff : off < 2 ^ 32 := by omega
  simp only [Instr.exec, effPtr, Operand.eval, Nat.mod_eq_of_lt hoff, signExtend, if_pos h, zero_add]

lemma exec_icmp {p a b x y k} (ha : a.eval args m.env = some (.int x)) (hb : b.eval args m.env = some (.int y)) :
    (Instr.icmp p a b).exec args m k = some (m.result k (.int (p.holds x y).toNat)) := by
  simp only [Instr.exec, ha, hb]

lemma exec_load {k width ptr} (hptr : ptr.eval args m.env = some (.path off)) (h : off + width ≤ args.path.length) :
    (Instr.load (width * 8) ptr).exec args m k =
      some (m.result k (.int (chunkValue args.endian ((args.path.drop off).take width)))) := by
  have hin : (0 : Int) ≤ off ∧ (off : Int) + (width : Nat) ≤ args.path.length := by omega
  simp [Instr.exec, hptr, Args.bytesAt, hin]

lemma chunkValue_byte (e : Endian) (b : UInt8) : chunkValue e [b] = b.toNat := by
  cases e <;> simp [chunkValue, Endian.shift]

lemma emitted_loadByte (s : Builder) (offset : Operand) (hopen : Open s) :
    Emitted s (emitLoadByte s offset).1 ∧ Open (emitLoadByte s offset).1 :=
  ⟨(emitted_build s _).trans hopen (emitted_build _ _), (hopen.build _).build _⟩

lemma Ready.loadByte {b} {rest : Str} (R : Ready c want best s m) (hopen : Open s)
    (hF : Contained (emitLoadByte s (.const 32 off)).1.blocks F) (hoff : off < 2 ^ 31)
    (hpath : args.path.drop off = b :: rest) : ∃ m', Ready c want best (emitLoadByte s (.const 32 off)).1 m' ∧
      (emitLoadByte s (.const 32 off)).2.eval args m'.env = some (.int b.toNat) ∧
      ∀ n, LoopsTo (irStep F args) m n ↔ LoopsTo (irStep F args) m' n := by
  have hin : off + 1 ≤ args.path.length := by
    have hlen := congrArg List.length hpath
    rw [List.length_drop, List.length_cons] at hlen
    omega
  have hopen₁ := hopen.build (.gep effPtr (.const 32 off))
  obtain ⟨R₁, e₁⟩ := R.build (hopen₁.contained_build hF) (exec_gep hoff)
  have hload := exec_load (k := s.nextReg + 1) (result_reg m s.nextReg (.path off) args) hin
  rw [hpath, List.take_succ_cons, List.take_zero, chunkValue_byte] at hload
  obtain ⟨R₂, e₂⟩ := R₁.build hF hload
  exact ⟨_, R₂, result_reg _ (s.nextReg + 1) _ args, fun n => (e₁ n).trans (e₂ n)⟩

lemma chunkWidth_pos (n : Nat) : 0 < chunkWidth n := by
  unfold chunkWidth
  split_ifs <;> omega

lemma chunkWidth_le {n} (h : 0 < n) : chunkWidth n ≤ n ∧ chunkWidth n ≤ 8 := by
  unfold chunkWidth
  split_ifs <;> omega

lemma emitted_chunk (c : EmitCtx) (off width expected : Nat) (hopen : Open s) :
    Emitted s (emitChunk c s off width expected) ∧ Open (emitChunk c s off width expected) := by
  have h₁ := emitted_build s (.gep effPtr (.const 32 off))
  have h₂ := emitted_build (s.build (.gep effPtr (.const 32 off))).1 (.load (width * 8) (.reg s.nextReg))
  have h₃ := emitted_build ((s.build (.gep effPtr (.const 32 off))).1.build (.load (width * 8) (.reg s.nextReg))).1
    (.icmp .eq (.reg (s.nextReg + 1)) (.const (width * 8) expected))
  obtain ⟨hcheck, hopen'⟩ := emitted_check c (.reg (s.nextReg + 2)) (((hopen.build _).build _).build _)
  exact ⟨(((h₁.trans hopen h₂).trans hopen h₃).trans hopen hcheck), hopen'⟩

lemma emitted_edgeChunks (c : EmitCtx) (fuel off : Nat) (edge : Str) (hopen : Open s) :
    Emitted s (emitEdgeChunks c fuel s off edge) ∧ Open (emitEdgeChunks c fuel s off edge) := by
  induction fuel generalizing s off edge with
  | zero => exact ⟨Emitted.refl s, hopen⟩
  | succ fuel ih =>
    cases edge with
    | nil => exact ⟨Emitted.refl s, hopen⟩
    | cons b edge =>
      obtain ⟨h₁, hopen₁⟩ := emitted_chunk c off (chunkWidth (b :: edge).length)
        (chunkValue c.endian ((b :: edge).take (chunkWidth (b :: edge).length))) hopen
      obtain ⟨h₂, hopen₂⟩ := ih (off + chunkWidth (b :: edge).length)
        ((b :: edge).drop (chunkWidth (b :: edge).length)) hopen₁
      exact ⟨h₁.trans hopen h₂, hopen₂⟩

lemma cont_chunk {bytes width} (K : CallOk F args c) (hopen : Open s) (hlen : bytes.length = width)
    (hF : Contained (emitChunk c s off width (chunkValue c.endian bytes)).blocks F)
    (hoff : off < 2 ^ 31) (hin : off + width ≤ args.path.length) (hpass : bytes <+: args.path.drop off →
      Cont F args c want best (emitChunk c s off width (chunkValue c.endian bytes)) r)
    (hbreak : ¬ bytes <+: args.path.drop off → r = best) : Cont F args c want best s r := by
  subst hlen
  intro m R
  have hopen₁ := hopen.build (.gep effPtr (.const 32 off))
  have hopen₂ := hopen₁.build (.load (bytes.length * 8) (.reg s.nextReg))
  have hopen₃ := hopen₂.build (.icmp .eq (.reg (s.nextReg + 1)) (.const (bytes.length * 8) (chunkValue c.endian bytes)))
  have hF₃ := ((emitted_check c (.reg (s.nextReg + 2)) hopen₃).1.contained hopen₃).trans hF
  have hF₂ := hopen₂.contained_build hF₃
  obtain ⟨R₁, e₁⟩ := R.build (hopen₁.contained_build hF₂) (exec_gep hoff)
  obtain ⟨R₂, e₂⟩ := R₁.build hF₂ (exec_load (result_reg m s.nextReg (.path off) args) hin)
  obtain ⟨R₃, e₃⟩ := R₂.build hF₃ (exec_icmp (result_reg _ (s.nextReg + 1) _ args)
    (eval_const (chunkValue_lt c.endian bytes)))
  rw [e₁, e₂, e₃]
  have hiff : chunkValue args.endian ((args.path.drop off).take bytes.length) = chunkValue c.endian bytes ↔
      bytes <+: args.path.drop off := by
    rw [K.endian, chunkValue_inj (by simp; omega), List.prefix_iff_eq_take, eq_comm]
  refine R₃.check hopen₃ hF K.ret (result_reg _ (s.nextReg + 2) _ args) ?_ ?_
  · intro heq
    exact hpass (hiff.mp (beq_iff_eq.mp heq))
  · intro hne
    exact hbreak fun hpre => by simp [IntPredicate.holds, hiff.mpr hpre] at hne

lemma prefix_split {edge : Str} {k} (path : Str) (hk : k ≤ edge.length) :
    edge <+: path ↔ edge.take k <+: path ∧ edge.drop k <+: path.drop k := by
  conv_lhs => rw [← List.take_append_drop k edge]
  constructor
  · rintro ⟨rest, rfl⟩
    refine ⟨⟨edge.drop k ++ rest, (List.append_assoc ..).symm⟩, ⟨rest, ?_⟩⟩
    rw [List.append_assoc, List.drop_append_of_le_length (by simp [hk])]
    simp [List.drop_eq_nil_of_le]
  · rintro ⟨⟨u, hu⟩, ⟨v, hv⟩⟩
    have hdrop : path.drop k = u := by
      rw [← hu, List.drop_append_of_le_length (by simp [hk])]
      simp [List.drop_eq_nil_of_le]
    exact ⟨v, by rw [List.append_assoc, hv, hdrop, hu]⟩

lemma cont_edgeChunks {fuel edge} (K : CallOk F args c) (hopen : Open s)
    (hF : Contained (emitEdgeChunks c fuel s off edge).blocks F) (hfuel : edge.length ≤ fuel)
    (hoff : off + edge.length ≤ 2 ^ 31) (hin : off + edge.length ≤ args.path.length)
    (hpass : edge <+: args.path.drop off → Cont F args c want best (emitEdgeChunks c fuel s off edge) r)
    (hbreak : ¬ edge <+: args.path.drop off → r = best) : Cont F args c want best s r := by
  induction fuel generalizing s off edge with
  | zero =>
    obtain rfl := List.eq_nil_of_length_eq_zero (Nat.le_zero.mp hfuel)
    exact hpass List.nil_prefix
  | succ fuel ih =>
    cases edge with
    | nil => exact hpass List.nil_prefix
    | cons b edge =>
      rw [emitEdgeChunks] at hF hpass
      have hpos := chunkWidth_pos (b :: edge).length
      obtain ⟨hle, -⟩ := chunkWidth_le (n := (b :: edge).length) (Nat.succ_pos _)
      generalize chunkWidth (b :: edge).length = width at *
      generalize hedge : b :: edge = whole at *
      have htake : (whole.take width).length = width := by simp [hle]
      have hdrop : (whole.drop width).length = whole.length - width := List.length_drop
      obtain ⟨-, hopen'⟩ := emitted_chunk c off width (chunkValue c.endian (whole.take width)) hopen
      obtain ⟨hrest, -⟩ := emitted_edgeChunks c fuel (off + width) (whole.drop width) hopen'
      have hsplit := prefix_split (args.path.drop off) hle
      rw [List.drop_drop] at hsplit
      refine cont_chunk K hopen htake ((hrest.contained hopen').trans hF) (by omega) (by omega) ?_ ?_
      · intro hchunk
        refine ih hopen' hF (by omega) (by omega) (by omega) ?_ ?_
        · exact fun hpre => hpass (hsplit.mpr ⟨hchunk, hpre⟩)
        · exact fun hpre => hbreak fun hwhole => hpre (hsplit.mp hwhole).2
      · exact fun hchunk => hbreak fun hwhole => hchunk (hsplit.mp hwhole).1

end edges

/-! ## Terminals -/

section terminal

variable {c : EmitCtx} {want : Slot} {best r : RouteIdx} {s : Builder} {m : Machine} {F : List Block}
  {args : Args} {t : Slot → RouteIdx} {sw cont : Nat} {hdr : ArtNodeHeader}

lemma emitTermCase_spec (c : EmitCtx) (t : Slot → RouteIdx) (cont : Nat) (hsw : sw < s.blocks.length) (slot : Slot) :
    CasesAdded sw s (emitTermCase c t sw cont s slot) [(slot.val, s.blocks.length)] ∧
    (emitTermCase c t sw cont s slot).blocks[s.blocks.length]? =
      some ⟨[(s.nextReg, .store (routeConst (t slot)) c.best)], some (.br cont)⟩ ∧
    (emitTermCase c t sw cont s slot).blocks.length = s.blocks.length + 1 := by
  have hcases := casesAdded_addCase s hsw slot.val
  set s₁ := (s.appendBlock.1.addCase sw slot.val s.appendBlock.2).positionAtEnd s.blocks.length with hs₁
  have hnew : s₁.blocks[s₁.cur]? = some {} := by
    simp [hs₁, Builder.addCase, Builder.appendBlock, Builder.positionAtEnd, Nat.ne_of_lt hsw]
  have hopen : Open s₁ := ⟨_, hnew, rfl⟩
  have hstore := emitted_build s₁ (.store (routeConst (t slot)) c.best)
  refine ⟨hcases.emit (Nat.le_refl _) hsw (hstore.trans hopen (emitted_terminate _ _)), ?_, ?_⟩
  · exact terminate_cur (build_cur hnew)
  · simp [emitTermCase, storeBest, Builder.terminate, Builder.build, Builder.positionAtEnd, Builder.addCase,
      Builder.appendBlock]

def TermCases (c : EmitCtx) (t : Slot → RouteIdx) (cont : Nat) (blocks : List Block)
    (more : List (Nat × Nat)) : Prop :=
  ∀ p ∈ more, ∀ slot : Slot, slot.val = p.1 →
    ∃ reg, blocks[p.2]? = some ⟨[(reg, .store (routeConst (t slot)) c.best)], some (.br cont)⟩

lemma emitTermCases_spec (slots : List Slot) (hsw : sw < s.blocks.length) :
    ∃ more, CasesAdded sw s (slots.foldl (emitTermCase c t sw cont) s) more ∧
      more.map Prod.fst = slots.map Fin.val ∧ (∀ p ∈ more, s.blocks.length ≤ p.2) ∧
      TermCases c t cont (slots.foldl (emitTermCase c t sw cont) s).blocks more := by
  induction slots generalizing s with
  | nil => exact ⟨[], CasesAdded.refl sw s, rfl, by simp, by simp [TermCases]⟩
  | cons slot slots ih =>
    obtain ⟨hcase, hblock, hlen⟩ := emitTermCase_spec c t cont hsw slot
    obtain ⟨more, hcases, hkeys, hfresh, hterm⟩ := ih (s := emitTermCase c t sw cont s slot) (by omega)
    refine ⟨(slot.val, s.blocks.length) :: more, hcase.trans hcases, by simp [hkeys], ?_, ?_⟩
    · intro p hp
      rcases List.mem_cons.mp hp with rfl | hp
      · exact Nat.le_refl _
      · have := hfresh p hp
        omega
    · intro p hp slot' hslot
      rcases List.mem_cons.mp hp with rfl | hp
      · obtain rfl := Fin.ext hslot
        refine ⟨s.nextReg, ?_⟩
        rw [List.foldl_cons, hcases.other (by omega) (by omega)]
        exact hblock
      · exact hterm p hp slot' hslot

def storeAny (c : EmitCtx) (s : Builder) (t : Slot → RouteIdx) : Builder :=
  if t anySlot = kInvalidRoute then s else storeBest c s (t anySlot)

lemma storeAny_spec (hopen : Open s) :
    Emitted s (storeAny c s t) ∧ Open (storeAny c s t) ∧ (storeAny c s t).cur = s.cur := by
  unfold storeAny
  split_ifs
  · exact ⟨Emitted.refl s, hopen, rfl⟩
  · exact ⟨emitted_build _ _, hopen.build _, rfl⟩

def orBest (candidate best : RouteIdx) : RouteIdx := if candidate ≠ kInvalidRoute then candidate else best

lemma cont_storeAny (hF : Contained (storeAny c s t).blocks F)
    (h : Cont F args c want (orBest (t anySlot) best) (storeAny c s t) r) : Cont F args c want best s r := by
  unfold storeAny at hF h
  split_ifs at hF h with hany
  · rwa [orBest, if_neg (not_not.mpr hany)] at h
  · rw [orBest, if_pos hany] at h
    exact cont_storeBest hF h

def openSwitch (c : EmitCtx) (s : Builder) : Builder :=
  s.appendBlock.1.appendBlock.1.terminate (.switch c.methodSlot (s.blocks.length + 1) [])

section openSwitch

variable (c)

lemma openSwitch_length (s : Builder) : (openSwitch c s).blocks.length = s.blocks.length + 2 := by
  simp [openSwitch, Builder.terminate, Builder.appendBlock]

lemma openSwitch_new {i} (hopen : Open s) (h : s.blocks.length ≤ i) (h' : i < s.blocks.length + 2) :
    (openSwitch c s).blocks[i]? = some {} := by
  have hcur := hopen.cur_lt
  have hne : s.cur ≠ i := by omega
  rcases (by omega : i = s.blocks.length ∨ i = s.blocks.length + 1) with rfl | rfl <;>
    simp [openSwitch, Builder.terminate, Builder.appendBlock, hne]

lemma openSwitch_cur {blk} (h : s.blocks[s.cur]? = some blk) : (openSwitch c s).blocks[s.cur]? =
      some ⟨blk.instrs, some (.switch c.methodSlot (s.blocks.length + 1) [])⟩ := by
  have hlt := (List.getElem?_eq_some_iff.mp h).1
  have h₂ : s.appendBlock.1.appendBlock.1.blocks[s.cur]? = some blk := by
    simp [Builder.appendBlock, List.getElem?_append_left hlt, h]
  exact terminate_cur h₂

lemma openSwitch_other {i} (hi : i < s.blocks.length) (hne : i ≠ s.cur) :
    (openSwitch c s).blocks[i]? = s.blocks[i]? := by
  simp [openSwitch, Builder.terminate, Builder.appendBlock, Ne.symm hne, List.getElem?_append_left hi]

end openSwitch

/-- The pickup of a node with a terminal for some method: a switch over the slots whose cases store their
terminals, and a default, built from `a` on, that stores the one for any method. -/
structure PickupSwitch (c : EmitCtx) (s : Builder) (hdr : ArtNodeHeader) (a : Builder)
    (more : List (Nat × Nat)) : Prop where
  eq : emitTerminalPickup c s hdr =
    ((storeAny c a hdr.routeIdxByMethod).terminate (.br s.blocks.length)).positionAtEnd s.blocks.length
  cur : a.cur = s.blocks.length + 1
  cases : CasesAdded s.cur (openSwitch c s) a more
  keys : more.map Prod.fst = (specificSlots hdr.routeIdxByMethod).map Fin.val
  fresh : ∀ p ∈ more, s.blocks.length + 2 ≤ p.2
  term : TermCases c hdr.routeIdxByMethod s.blocks.length a.blocks more

lemma emitTerminalPickup_switch (c : EmitCtx) (hopen : Open s) (h : specificSlots hdr.routeIdxByMethod ≠ []) :
    ∃ a more, PickupSwitch c s hdr a more := by
  have hcur : s.cur < (openSwitch c s).blocks.length := by
    rw [openSwitch_length]
    exact Nat.lt_add_right 2 hopen.cur_lt
  obtain ⟨more, hcases, hkeys, hfresh, hterm⟩ :=
    emitTermCases_spec (c := c) (t := hdr.routeIdxByMethod) (specificSlots hdr.routeIdxByMethod) hcur
  rw [openSwitch_length] at hfresh
  refine ⟨((specificSlots hdr.routeIdxByMethod).foldl (emitTermCase c hdr.routeIdxByMethod s.cur s.blocks.length)
    (openSwitch c s)).positionAtEnd (s.blocks.length + 1), more, ?_, rfl,
    ⟨hcases.le, hcases.other, hcases.switch, hcases.regs⟩, hkeys, hfresh, hterm⟩
  simp only [emitTerminalPickup, if_neg h, Builder.appendBlock, openSwitch, storeAny, List.length_append,
    List.length_cons, List.length_nil]

lemma emitTerminalPickup_nil (h : specificSlots hdr.routeIdxByMethod = []) :
    emitTerminalPickup c s hdr = storeAny c s hdr.routeIdxByMethod := by
  simp only [emitTerminalPickup, if_pos h, storeAny]

section pickupSwitch

variable {a : Builder} {more : List (Nat × Nat)}

lemma PickupSwitch.le (P : PickupSwitch c s hdr a more) : s.blocks.length + 2 ≤ a.blocks.length := by
  have hle := P.cases.le
  rwa [openSwitch_length] at hle

lemma PickupSwitch.new (P : PickupSwitch c s hdr a more) (hopen : Open s) {i} (hi : s.blocks.length ≤ i)
    (hi' : i < s.blocks.length + 2) : a.blocks[i]? = some {} := by
  have hlt := hopen.cur_lt
  rw [P.cases.other (by rw [openSwitch_length]; exact hi') (by omega), openSwitch_new c hopen hi hi']

lemma PickupSwitch.default_open (P : PickupSwitch c s hdr a more) (hopen : Open s) : Open a :=
  ⟨{}, P.cur ▸ P.new hopen (Nat.le_succ _) (Nat.lt_succ_self _), rfl⟩

lemma PickupSwitch.ended (P : PickupSwitch c s hdr a more) (hopen : Open s) :
    Emitted a ((storeAny c a hdr.routeIdxByMethod).terminate (.br s.blocks.length)) := by
  have hopenA := P.default_open hopen
  exact (storeAny_spec hopenA).1.trans hopenA (emitted_terminate _ _)

lemma PickupSwitch.kept (P : PickupSwitch c s hdr a more) (hopen : Open s) {i} (hi : i < a.blocks.length)
    (hne : i ≠ s.blocks.length + 1) : (emitTerminalPickup c s hdr).blocks[i]? = a.blocks[i]? := by
  rw [P.eq]
  exact (P.ended hopen).other hi (P.cur ▸ hne)

lemma PickupSwitch.cont_new (P : PickupSwitch c s hdr a more) (hopen : Open s) :
    (emitTerminalPickup c s hdr).blocks[s.blocks.length]? = some {} := by
  have hle := P.le
  rw [P.kept hopen (by omega) (by omega), P.new hopen (Nat.le_refl _) (by omega)]

end pickupSwitch

lemma emitted_pickup (c : EmitCtx) (hdr : ArtNodeHeader) (hopen : Open s) :
    Emitted s (emitTerminalPickup c s hdr) ∧ Open (emitTerminalPickup c s hdr) := by
  by_cases hnil : specificSlots hdr.routeIdxByMethod = []
  · rw [emitTerminalPickup_nil hnil]
    obtain ⟨hemit, hopen', -⟩ := storeAny_spec (c := c) (t := hdr.routeIdxByMethod) hopen
    exact ⟨hemit, hopen'⟩
  obtain ⟨a, more, P⟩ := emitTerminalPickup_switch c hopen hnil
  have hlt := hopen.cur_lt
  have hle := P.le
  have hcur : (emitTerminalPickup c s hdr).cur = s.blocks.length := by rw [P.eq]; rfl
  refine ⟨⟨?_, ?_, ?_, .inr (Nat.le_of_eq hcur.symm), ?_⟩, ?_⟩
  · rw [P.eq]
    exact (by omega : s.blocks.length ≤ a.blocks.length).trans (P.ended hopen).le
  · intro i hi hne
    rw [P.kept hopen (by omega) (by omega), P.cases.other (by rw [openSwitch_length]; omega) hne,
      openSwitch_other c hi hne]
  · intro blk hblk
    refine ⟨_, (P.kept hopen (by omega) (by omega)).trans (P.cases.switch (openSwitch_cur c hblk)), ?_⟩
    exact List.prefix_refl _
  · rw [P.eq]
    exact P.cases.regs.trans (P.ended hopen).regs
  · exact ⟨{}, hcur ▸ P.cont_new hopen, rfl⟩

lemma loopsTo_termCase {s' : Builder} {reg target r'} (R : Ready c want best s m)
    (hblk : F[target]? = some ⟨[(reg, .store (routeConst r') c.best)], some (.br cont)⟩)
    (hcont : s'.blocks[cont]? = some {}) (hregs : s.nextReg ≤ s'.nextReg)
    (h : Cont F args c want r' (s'.positionAtEnd cont) r) : LoopsTo (irStep F args) (m.goto target) (some r.toNat) := by
  have hstore : irStep F args (m.goto target) =
      .inl { m with block := target, pc := 1, prev := m.block, cell := some r'.toNat } := by
    have hbest : c.best.eval args m.env = some .slot := R.best_eval
    simp [irStep, Machine.goto, hblk, Instr.exec, routeConst, eval_const r'.toNat_lt, hbest]
  rw [loopsTo_step hstore]
  have hbr : irStep F args { m with block := target, pc := 1, prev := m.block, cell := some r'.toNat } = _ :=
    irStep_ended hblk rfl rfl
  rw [loopsTo_step hbr]
  exact h _ (R.moved ⟨rfl, {}, hcont, rfl⟩ hregs rfl rfl)

/-- The code for a terminal leaves the picked one in `best`. -/
lemma cont_pickup (hopen : Open s) (hF : Contained (emitTerminalPickup c s hdr).blocks F)
    (h : Cont F args c want (orBest (artPickTerminal hdr want) best) (emitTerminalPickup c s hdr) r) :
    Cont F args c want best s r := by
  have hmem : want ∈ specificSlots hdr.routeIdxByMethod ↔
      want ≠ anySlot ∧ hdr.routeIdxByMethod want ≠ kInvalidRoute := by
    simp [specificSlots]
  by_cases hnil : specificSlots hdr.routeIdxByMethod = []
  · rw [emitTerminalPickup_nil hnil] at hF h
    rw [hnil] at hmem
    rw [artPickTerminal, if_neg fun hw => List.not_mem_nil (hmem.mpr hw)] at h
    exact cont_storeAny hF h
  obtain ⟨a, more, P⟩ := emitTerminalPickup_switch c hopen hnil
  have hlt := hopen.cur_lt
  have hpos : (emitTerminalPickup c s hdr).positionAtEnd s.blocks.length = emitTerminalPickup c s hdr := by
    rw [P.eq]
    rfl
  have hFa : Contained a.blocks F := by
    rw [P.eq] at hF
    exact ((P.ended hopen).contained (P.default_open hopen)).trans hF
  intro m R
  have hat : At s.appendBlock.1.appendBlock.1 m := by
    obtain ⟨blk, hblk, hpc⟩ := R.here.pc
    refine ⟨R.here.block, blk, ?_, hpc⟩
    simp [Builder.appendBlock, List.getElem?_append_left hlt, hblk]
  rw [loopsTo_switch P.cases hFa hat R.slot_eval]
  by_cases hw : want ∈ specificSlots hdr.routeIdxByMethod
  · have hkey : want.val ∈ more.map Prod.fst := P.keys ▸ List.mem_map_of_mem hw
    have hp := switchTarget_mem (d := s.blocks.length + 1) hkey
    obtain ⟨reg, hcase⟩ := P.term _ hp want rfl
    have hfresh : s.blocks.length + 2 ≤ switchTarget want.val (s.blocks.length + 1) more := P.fresh _ hp
    rw [← P.kept hopen (List.getElem?_eq_some_iff.mp hcase).1 (by omega)] at hcase
    obtain ⟨blk'', hblk'', -, hended''⟩ := hF _ _ hcase
    obtain rfl := hended'' (by simp)
    rw [artPickTerminal, if_pos (hmem.mp hw), orBest, if_pos (hmem.mp hw).2, ← hpos] at h
    exact loopsTo_termCase R hblk'' (P.cont_new hopen) (emitted_pickup c hdr hopen).1.regs h
  · have hkey : want.val ∉ more.map Prod.fst := by
      rw [P.keys, List.mem_map]
      rintro ⟨slot, hslot, hval⟩
      exact hw (Fin.ext hval ▸ hslot)
    have hnew := P.new hopen (Nat.le_succ _) (Nat.lt_succ_self _)
    have hat : At a (m.goto (s.blocks.length + 1)) := ⟨P.cur.symm, {}, P.cur ▸ hnew, rfl⟩
    have hopenA := P.default_open hopen
    obtain ⟨-, hopenAny, -⟩ := storeAny_spec (c := c) (t := hdr.routeIdxByMethod) hopenA
    rw [artPickTerminal, if_neg fun h => hw (hmem.mpr h), ← hpos] at h
    rw [P.eq] at hF
    rw [switchTarget_default hkey]
    refine cont_storeAny (((emitted_terminate _ _).contained hopenAny).trans hF) ?_ _
      (R.moved hat P.cases.regs rfl R.cell)
    refine cont_br hF (P.cont_new hopen) ?_ h
    rw [P.eq]
    exact Nat.le_refl _

end terminal

/-! ## Terminals at the end of a segment -/

section segment

variable {c : EmitCtx} {want : Slot} {best r : RouteIdx} {s : Builder} {m : Machine} {F : List Block}
  {args : Args} {hdr : ArtNodeHeader} {off pickup descend : Nat} {stop : Operand}

lemma emitted_slashTest (s : Builder) (stop : Operand) (pickup descend : Nat) (hopen : Open s) :
    Emitted s (emitSlashTest s stop pickup descend) := by
  obtain ⟨hload, hopen'⟩ := emitted_loadByte s stop hopen
  have hcmp := emitted_build (emitLoadByte s stop).1 (.icmp .eq (emitLoadByte s stop).2 (.const 8 (ch '/').toNat))
  exact (hload.trans hopen hcmp).trans hopen (emitted_terminate _ _)

lemma cont_slashTest {s₁ s₂ : Builder} {b} {rest : Str} (hopen : Open s)
    (hF : Contained (emitSlashTest s (.const 32 off) pickup descend).blocks F) (hoff : off < 2 ^ 31)
    (hpath : args.path.drop off = b :: rest) (hpickup : s₁.blocks[pickup]? = some {})
    (hregs₁ : (emitSlashTest s (.const 32 off) pickup descend).nextReg ≤ s₁.nextReg)
    (hdescend : s₂.blocks[descend]? = some {})
    (hregs₂ : (emitSlashTest s (.const 32 off) pickup descend).nextReg ≤ s₂.nextReg)
    (hslash : b = ch '/' → Cont F args c want best (s₁.positionAtEnd pickup) r)
    (hother : b ≠ ch '/' → Cont F args c want best (s₂.positionAtEnd descend) r) : Cont F args c want best s r := by
  intro m R
  obtain ⟨-, hopen₁⟩ := emitted_loadByte s (.const 32 off) hopen
  have hopen₂ := hopen₁.build (.icmp .eq (emitLoadByte s (.const 32 off)).2 (.const 8 (ch '/').toNat))
  have hF₂ := ((emitted_terminate _ _).contained hopen₂).trans hF
  obtain ⟨m', R₁, hbyte, e₁⟩ := R.loadByte hopen (hopen₁.contained_build hF₂) hoff hpath
  obtain ⟨R₂, e₂⟩ := R₁.build hF₂ (exec_icmp hbyte (eval_const (by decide)))
  rw [e₁, e₂, loopsTo_condBr hF R₂.here (result_reg ..)]
  have hiff : IntPredicate.eq.holds b.toNat (ch '/').toNat = true ↔ b = ch '/' :=
    beq_iff_eq.trans UInt8.toNat_inj
  split_ifs with hb
  · exact hslash (hiff.mp hb) _ (R₂.goto hpickup hregs₁)
  · exact hother (fun heq => hb (hiff.mpr heq)) _ (R₂.goto hdescend hregs₂)

/-- The stages of a pickup at the end of a segment: after the test for the end of the path, after the test
for a slash and after the terminal. -/
structure SegmentPickup (c : EmitCtx) (s : Builder) (hdr : ArtNodeHeader) (stop : Operand)
    (s₁ s₂ s₃ : Builder) : Prop where
  first : s₁ = (s.appendBlock.1.appendBlock.1.appendBlock.1.build (.icmp .eq stop effLen)).1.terminate
    (.condBr (.reg s.nextReg) s.blocks.length (s.blocks.length + 1))
  second : s₂ = emitSlashTest (s₁.positionAtEnd (s.blocks.length + 1)) stop s.blocks.length (s.blocks.length + 2)
  third : s₃ = emitTerminalPickup c (s₂.positionAtEnd s.blocks.length) hdr
  eq : emitSegmentPickup c s hdr stop =
    (s₃.terminate (.br (s.blocks.length + 2))).positionAtEnd (s.blocks.length + 2)

lemma emitSegmentPickup_stages (c : EmitCtx) (s : Builder) (hdr : ArtNodeHeader) (stop : Operand) :
    ∃ s₁ s₂ s₃, SegmentPickup c s hdr stop s₁ s₂ s₃ := by
  refine ⟨_, _, _, rfl, rfl, rfl, ?_⟩
  simp only [emitSegmentPickup, Builder.appendBlock, Builder.build, List.length_append, List.length_cons, List.length_nil]

section stages

variable {s₁ s₂ s₃ : Builder}

lemma SegmentPickup.emitted_first (P : SegmentPickup c s hdr stop s₁ s₂ s₃) (hopen : Open s) : Emitted s s₁ := by
  have h₁ := emitted_appendBlock s
  have h₂ := emitted_appendBlock s.appendBlock.1
  have h₃ := emitted_appendBlock s.appendBlock.1.appendBlock.1
  have h₄ := emitted_build s.appendBlock.1.appendBlock.1.appendBlock.1 (.icmp .eq stop effLen)
  rw [P.first]
  exact (((h₁.trans hopen h₂).trans hopen h₃).trans hopen h₄).trans hopen (emitted_terminate _ _)

lemma SegmentPickup.new_first (P : SegmentPickup c s hdr stop s₁ s₂ s₃) (hopen : Open s) {i}
    (hi : s.blocks.length ≤ i) (hi' : i < s.blocks.length + 3) : s₁.blocks[i]? = some {} := by
  have hcur := hopen.cur_lt
  have hne : s.cur ≠ i := by omega
  rw [P.first]
  rcases (by omega : i = s.blocks.length ∨ i = s.blocks.length + 1 ∨ i = s.blocks.length + 2) with
    rfl | rfl | rfl <;>
    simp [Builder.terminate, Builder.appendBlock, Builder.build, hne]

lemma SegmentPickup.emitted_second (P : SegmentPickup c s hdr stop s₁ s₂ s₃) (hopen : Open s) :
    Emitted (s₁.positionAtEnd (s.blocks.length + 1)) s₂ := by
  rw [P.second]
  exact emitted_slashTest _ _ _ _ (open_position (P.new_first hopen (by omega) (by omega)))

lemma SegmentPickup.new_second (P : SegmentPickup c s hdr stop s₁ s₂ s₃) (hopen : Open s) {i : Nat}
    (hi : i = s.blocks.length ∨ i = s.blocks.length + 2) : s₂.blocks[i]? = some {} :=
  (P.emitted_second hopen).empty_at (P.new_first hopen (by omega) (by omega)) (by omega)

lemma SegmentPickup.emitted_third (P : SegmentPickup c s hdr stop s₁ s₂ s₃) (hopen : Open s) :
    Emitted (s₂.positionAtEnd s.blocks.length) s₃ ∧ Open s₃ := by
  rw [P.third]
  exact emitted_pickup c hdr (open_position (P.new_second hopen (.inl rfl)))

lemma SegmentPickup.new_last (P : SegmentPickup c s hdr stop s₁ s₂ s₃) (hopen : Open s) :
    (emitSegmentPickup c s hdr stop).blocks[s.blocks.length + 2]? = some {} := by
  have hopen' := open_position (P.new_second hopen (.inl rfl))
  rw [P.eq]
  exact ((P.emitted_third hopen).1.trans hopen' (emitted_terminate s₃ (.br (s.blocks.length + 2)))).empty_at
    (P.new_second hopen (.inr rfl)) (by omega)

end stages

lemma emitted_segmentPickup (c : EmitCtx) (hdr : ArtNodeHeader) (stop : Operand) (hopen : Open s) :
    Emitted s (emitSegmentPickup c s hdr stop) ∧ Open (emitSegmentPickup c s hdr stop) := by
  obtain ⟨s₁, s₂, s₃, P⟩ := emitSegmentPickup_stages c s hdr stop
  have hlast := P.new_last hopen
  rw [P.eq] at hlast ⊢
  refine ⟨?_, open_position hlast⟩
  have h₂ := (P.emitted_first hopen).trans_at (Nat.le_succ _) hopen (P.emitted_second hopen)
  have h₃ := h₂.trans_at (Nat.le_refl _) hopen (P.emitted_third hopen).1
  have h₄ := h₃.trans hopen (emitted_terminate s₃ (.br (s.blocks.length + 2)))
  exact h₄.trans_at (Nat.le_add_right _ _) hopen (Emitted.refl _)

lemma cont_segmentPickup (K : CallOk F args c) (hopen : Open s)
    (hF : Contained (emitSegmentPickup c s hdr (.const 32 off)).blocks F) (hoff : off < 2 ^ 31)
    (hin : off ≤ args.path.length) (h : Cont F args c want
      (if atBoundary .segmentPrefix (args.path.drop off) then orBest (artPickTerminal hdr want) best else best)
      (emitSegmentPickup c s hdr (.const 32 off)) r) : Cont F args c want best s r := by
  obtain ⟨s₁, s₂, s₃, P⟩ := emitSegmentPickup_stages c s hdr (.const 32 off)
  have hlast := P.new_last hopen
  rw [P.eq] at hlast hF h
  have hopen₂ := open_position (P.new_second hopen (.inl rfl))
  obtain ⟨h₃, hopen₃⟩ := P.emitted_third hopen
  have hF₃ := ((emitted_terminate s₃ (.br (s.blocks.length + 2))).contained hopen₃).trans hF
  have hF₂ := (h₃.contained hopen₂).trans hF₃
  have hopen₁ := open_position (P.new_first hopen (Nat.le_succ _) (by omega))
  have hF₁ := ((P.emitted_second hopen).contained hopen₁).trans hF₂
  have hregs₃ : s₂.nextReg ≤ s₃.nextReg := h₃.regs
  -- at the pickup, and behind it
  have hdescend : ∀ {best'}, Cont F args c want best' ((s₃.terminate (.br (s.blocks.length + 2))).positionAtEnd
      (s.blocks.length + 2)) r → Cont F args c want best' s₃ r := by
    intro best' h'
    exact cont_br hF hlast (Nat.le_refl _) h'
  have hpickup : atBoundary .segmentPrefix (args.path.drop off) = true →
      Cont F args c want best (s₂.positionAtEnd s.blocks.length) r := by
    intro hat
    rw [if_pos hat] at h
    refine cont_pickup hopen₂ (P.third ▸ hF₃) ?_
    rw [← P.third]
    exact hdescend h
  intro m R
  have hopen' := hopen.appendBlock.appendBlock.appendBlock
  have hat : At s.appendBlock.1.appendBlock.1.appendBlock.1 m := by
    obtain ⟨blk, hblk, hpc⟩ := R.here.pc
    refine ⟨R.here.block, blk, ?_, hpc⟩
    simp [Builder.appendBlock, List.getElem?_append_left hopen.cur_lt, hblk]
  have R' := R.moved hat (Nat.le_refl _) rfl R.cell
  rw [P.first] at hF₁
  have hopen'' := hopen'.build (.icmp .eq (.const 32 off) effLen)
  have hF₀ := ((emitted_terminate _ _).contained hopen'').trans hF₁
  have hoff' : off < 2 ^ 32 := by omega
  obtain ⟨R₁, e₁⟩ := R'.build hF₀ (exec_icmp (eval_const hoff') (K.effLen _))
  rw [e₁, loopsTo_condBr hF₁ R₁.here (result_reg _ s.nextReg _ _)]
  have hregs₁ : s.nextReg + 1 = s₁.nextReg := by rw [P.first]; rfl
  have hregs₂ : s₁.nextReg ≤ s₂.nextReg := (P.emitted_second hopen).regs
  split_ifs with hend
  · have hnil : args.path.drop off = [] := by
      rw [beq_iff_eq.mp hend, List.drop_length]
    exact hpickup (by simp [hnil, atBoundary]) _
      (R₁.goto (P.new_second hopen (.inl rfl)) (Nat.le_trans (Nat.le_of_eq hregs₁) hregs₂))
  · obtain ⟨b, rest, hrest⟩ : ∃ b rest, args.path.drop off = b :: rest := by
      refine List.exists_cons_of_ne_nil fun hnil => hend (beq_iff_eq.mpr ?_)
      exact Nat.le_antisymm hin (List.drop_eq_nil_iff.mp hnil)
    rw [P.second] at hF₂ hregs₃
    rw [hrest] at h hpickup
    refine cont_slashTest hopen₁ hF₂ hoff hrest (P.new_second hopen (.inl rfl)) (P.second ▸ Nat.le_refl _) hlast
      hregs₃ ?_ ?_ _ (R₁.goto (P.new_first hopen (Nat.le_succ _) (by omega)) (Nat.le_of_eq hregs₁))
    · intro hb
      exact hpickup (by simp [atBoundary, hb])
    · intro hb
      rwa [if_neg (by simp [atBoundary, hb])] at h

end segment

end Rut.Jit
