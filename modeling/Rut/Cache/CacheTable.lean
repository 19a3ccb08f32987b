import Rut.Common.Types
import Rut.Lib.Mix

/-!
# The cache table

Port of `CacheTable` of `include/rut/runtime/cache_table.h`, with its slots mapped. A set is one cache line of four
slots. Slots hold the mixed hash of a key and not the key, so the table is a map only because no two keys have the same
hash; it is lossy, but what it answers is what was stored last.
-/

namespace Rut.Cache

abbrev Hash := BitVec 64

def kWays : Nat := 4

/-- `CacheTable::Slot`; the hash of an empty slot is zero. The value is an `i64`, of which only the order matters. -/
structure Slot where
  keyHash : Hash := 0
  value : Int := 0
deriving DecidableEq

abbrev Line := Fin kWays → Slot

structure CacheTable where
  setCount : Nat
  setCount_pos : 0 < setCount
  seed : Hash
  sets : Fin setCount → Line

def roundCapacity (requested : BitVec 32) : BitVec 32 :=
  let c := (if requested.toNat < kWays then 4 else requested) - 1
  let c := c ||| (c >>> 1)
  let c := c ||| (c >>> 2)
  let c := c ||| (c >>> 4)
  let c := c ||| (c >>> 8)
  let c := c ||| (c >>> 16)
  c + 1

lemma roundCapacity_cases (requested : BitVec 32) :
    roundCapacity requested = 0 ∨ kWays ≤ (roundCapacity requested).toNat := by
  unfold roundCapacity
  dsimp only
  have hmin : 3 ≤ ((if requested.toNat < kWays then 4 else requested) - 1).toNat := by
    unfold kWays
    split
    · decide
    · rename_i h
      dsimp
      omega
  generalize (if requested.toNat < kWays then 4 else requested) - 1 = c at hmin ⊢
  have hor : ∀ (a : BitVec 32) (n : Nat), 3 ≤ a.toNat → 3 ≤ (a ||| (a >>> n)).toNat := by
    intro a n h
    exact h.trans Nat.left_le_or
  have hall := hor _ 16 (hor _ 8 (hor _ 4 (hor _ 2 (hor _ 1 hmin))))
  generalize _ ||| (_ : BitVec 32) >>> 16 = c' at hall ⊢
  unfold kWays
  by_cases hlast : c'.toNat + 1 < 2 ^ 32
  · right
    dsimp
    omega
  · left
    apply BitVec.eq_of_toNat_eq
    dsimp
    omega

/-- `CacheTable::init`; an empty mapping fails. -/
def CacheTable.init (requested : BitVec 32) (seed : Hash) : Option CacheTable :=
  if h : roundCapacity requested = 0 then none
  else
    some
      { setCount := (roundCapacity requested).toNat / kWays
        setCount_pos := Nat.div_pos ((roundCapacity_cases requested).resolve_left h) (by decide)
        seed
        sets := fun _ _ => {} }

/-- The multiplications and shifts of `mix`. -/
def mixWord (x : Hash) : Hash :=
  let h := x * 0x9E3779B97F4A7C15
  let h := h ^^^ (h >>> 29)
  let h := h * 0xBF58476D1CE4E5B9
  h ^^^ (h >>> 32)

def mix (key : BitVec 32) (seed : Hash) : Hash :=
  let h := mixWord (key.zeroExtend 64 ^^^ seed)
  if h = 0 then 1 else h

def CacheTable.indexOf (t : CacheTable) (h : Hash) : Fin t.setCount :=
  ⟨h.toNat &&& (t.setCount - 1), lt_of_le_of_lt Nat.and_le_right (Nat.sub_lt t.setCount_pos Nat.one_pos)⟩

def ways : List (Fin kWays) := List.finRange kWays

/-- The loop of `get`. -/
def Line.find (line : Line) (h : Hash) : List (Fin kWays) → Option Int
  | [] => none
  | w :: ws => if (line w).keyHash = h then some (line w).value else find line h ws

def CacheTable.get (t : CacheTable) (key : BitVec 32) : Option Int :=
  let h := mix key t.seed
  Line.find (t.sets (t.indexOf h)) h ways

/-- The loop of `set`: the way of the hash, an empty one, or the victim. -/
def Line.choose (line : Line) (h : Hash) : List (Fin kWays) → Fin kWays → Fin kWays
  | [], victim => victim
  | w :: ws, victim =>
    if (line w).keyHash = h then w
    else if (line w).keyHash = 0 then w
    else choose line h ws (if (line w).value < (line victim).value then w else victim)

/-- `CacheTable::set`; a slot that has the hash already is written with it once more. -/
def CacheTable.set (t : CacheTable) (key : BitVec 32) (value : Int) : CacheTable :=
  let h := mix key t.seed
  let i := t.indexOf h
  let line := t.sets i
  { t with sets := Function.update t.sets i (Function.update line (Line.choose line h ways ⟨0, by decide⟩) ⟨h, value⟩) }

/-! ## Keys and hashes -/

lemma mixWord_injective : Function.Injective mixWord := by
  have h₁ := Lib.mul_injective (show 0x9E3779B97F4A7C15#64 * 0xf1de83e19937733d#64 = 1#64 by decide)
  have h₂ := Lib.xorShift_injective (w := 64) (n := 29) (by decide)
  have h₃ := Lib.mul_injective (show 0xBF58476D1CE4E5B9#64 * 0x96de1b173f119089#64 = 1#64 by decide)
  have h₄ := Lib.xorShift_injective (w := 64) (n := 32) (by decide)
  exact h₄.comp (h₃.comp (h₂.comp h₁))

lemma mix_ne_zero (key : BitVec 32) (seed : Hash) : mix key seed ≠ 0 := by
  unfold mix
  dsimp only
  split
  · decide
  · assumption

lemma zeroExtend_xor_toNat_lt (k k' : BitVec 32) : (k.zeroExtend 64 ^^^ k'.zeroExtend 64).toNat < 2 ^ 32 := by
  rw [BitVec.toNat_xor, BitVec.toNat_setWidth, BitVec.toNat_setWidth]
  refine Nat.xor_lt_two_pow ?_ ?_
  · exact lt_of_le_of_lt (Nat.mod_le _ _) k.isLt
  · exact lt_of_le_of_lt (Nat.mod_le _ _) k'.isLt

lemma remap_disjoint {k k' : BitVec 32} {seed} (h₀ : mixWord (k.zeroExtend 64 ^^^ seed) = 0)
    (h₁ : mixWord (k'.zeroExtend 64 ^^^ seed) = 1) : False := by
  have hzero : k.zeroExtend 64 ^^^ seed = 0 := mixWord_injective (h₀.trans (by decide))
  have hone : k'.zeroExtend 64 ^^^ seed = 0xf5c9978817929c01 := mixWord_injective (h₁.trans (by decide))
  have hseed : k.zeroExtend 64 = seed := BitVec.xor_eq_zero_iff.mp hzero
  have hlt := zeroExtend_xor_toNat_lt k' k
  rw [hseed, hone] at hlt
  exact absurd hlt (by decide)

lemma mix_injective (seed : Hash) : Function.Injective fun key => mix key seed := by
  intro k k' h
  dsimp only [mix] at h
  have hkey : mixWord (k.zeroExtend 64 ^^^ seed) = mixWord (k'.zeroExtend 64 ^^^ seed) := by
    split at h <;> split at h
    · rename_i h₀ h₀'
      exact h₀.trans h₀'.symm
    · rename_i h₀ _
      exact (remap_disjoint h₀ h.symm).elim
    · rename_i h₀
      exact (remap_disjoint h₀ h).elim
    · exact h
  have hxor := (BitVec.xor_left_inj seed).mp (mixWord_injective hkey)
  have hnat := congrArg BitVec.toNat hxor
  rw [BitVec.toNat_setWidth, BitVec.toNat_setWidth] at hnat
  exact BitVec.eq_of_toNat_eq (by omega)

/-! ## Sets -/

namespace Line

variable {line : Line} {h h' : Hash} {v : Int}

structure Inv (line : Line) : Prop where
  distinct : ∀ w w', (line w).keyHash ≠ 0 → (line w).keyHash = (line w').keyHash → w = w'
  suffix : ∀ w w', w ≤ w' → (line w).keyHash = 0 → (line w').keyHash = 0

def Full (line : Line) : Prop := ∀ w, (line w).keyHash ≠ 0

lemma find_none {ws} (hne : ∀ w ∈ ws, (line w).keyHash ≠ h) : find line h ws = none := by
  induction ws with
  | nil => rfl
  | cons w ws ih =>
    rw [List.forall_mem_cons] at hne
    rw [find, if_neg hne.1]
    exact ih hne.2

lemma find_some {w ws} (hw : w ∈ ws) (hh : (line w).keyHash = h)
    (hunique : ∀ w', (line w').keyHash = h → w' = w) : find line h ws = some (line w).value := by
  induction ws with
  | nil => cases hw
  | cons w' ws ih =>
    rw [find]
    by_cases hw' : (line w').keyHash = h
    · rw [if_pos hw', hunique w' hw']
    · rw [if_neg hw']
      refine ih ((List.mem_cons.mp hw).resolve_left ?_)
      rintro rfl
      exact hw' hh

lemma mem_ways (w : Fin kWays) : w ∈ ways := List.mem_finRange w

lemma Inv.find_cases (hinv : line.Inv) (hh : h ≠ 0) :
    (∃ w, (line w).keyHash = h ∧ find line h ways = some (line w).value) ∨
      (∀ w, (line w).keyHash ≠ h) ∧ find line h ways = none := by
  by_cases hex : ∃ w, (line w).keyHash = h
  · obtain ⟨w, hw⟩ := hex
    refine .inl ⟨w, hw, find_some (mem_ways w) hw fun w' hw' => ?_⟩
    exact (hinv.distinct w w' (hw ▸ hh) (hw.trans hw'.symm)).symm
  · rw [not_exists] at hex
    exact .inr ⟨hex, find_none fun w _ => hex w⟩

lemma choose_cases (line : Line) (h : Hash) (ws : List (Fin kWays)) (victim : Fin kWays) :
    (∃ ws₁ w ws₂, ws = ws₁ ++ w :: ws₂ ∧ choose line h ws victim = w ∧
      ((line w).keyHash = h ∨ (line w).keyHash = 0) ∧ ∀ w' ∈ ws₁, (line w').keyHash ≠ h ∧ (line w').keyHash ≠ 0) ∨
    (∀ w ∈ ws, (line w).keyHash ≠ h ∧ (line w).keyHash ≠ 0) ∧
      (line (choose line h ws victim)).value ≤ (line victim).value ∧
      ∀ w ∈ ws, (line (choose line h ws victim)).value ≤ (line w).value := by
  induction ws generalizing victim with
  | nil => exact .inr ⟨fun w hw => absurd hw List.not_mem_nil, le_rfl, fun w hw => absurd hw List.not_mem_nil⟩
  | cons w ws ih =>
    rw [choose]
    by_cases hmatch : (line w).keyHash = h
    · rw [if_pos hmatch]
      exact .inl ⟨[], w, ws, rfl, rfl, .inl hmatch, fun w' hw' => absurd hw' List.not_mem_nil⟩
    rw [if_neg hmatch]
    by_cases hempty : (line w).keyHash = 0
    · rw [if_pos hempty]
      exact .inl ⟨[], w, ws, rfl, rfl, .inr hempty, fun w' hw' => absurd hw' List.not_mem_nil⟩
    rw [if_neg hempty]
    generalize hvictim : (if (line w).value < (line victim).value then w else victim) = next
    have hle : (line next).value ≤ (line victim).value ∧ (line next).value ≤ (line w).value := by
      rw [← hvictim]
      split <;> omega
    obtain ⟨ws₁, w', ws₂, rfl, heq, hfound, hbefore⟩ | ⟨hne, hnext, hmin⟩ := ih next
    · exact .inl ⟨w :: ws₁, w', ws₂, rfl, heq, hfound, List.forall_mem_cons.mpr ⟨⟨hmatch, hempty⟩, hbefore⟩⟩
    · exact .inr ⟨List.forall_mem_cons.mpr ⟨⟨hmatch, hempty⟩, hne⟩, hnext.trans hle.1,
        List.forall_mem_cons.mpr ⟨hnext.trans hle.2, hmin⟩⟩

lemma Inv.choose_cases (hinv : line.Inv) (hh : h ≠ 0) (victim : Fin kWays) :
    (line (choose line h ways victim)).keyHash = h ∨ (∀ w, (line w).keyHash ≠ h) ∧
      ((line (choose line h ways victim)).keyHash = 0 ∧ (∀ w, w < choose line h ways victim → (line w).keyHash ≠ 0) ∨
        line.Full ∧ ∀ w, (line (choose line h ways victim)).value ≤ (line w).value) := by
  obtain ⟨ws₁, w, ws₂, hws, heq, hfound, hbefore⟩ | ⟨hne, -, hmin⟩ := Line.choose_cases line h ways victim
  · rw [heq]
    rcases hfound with hfound | hfound
    · exact .inl hfound
    · have hsorted : (ws₁ ++ w :: ws₂).Pairwise (· < ·) := hws ▸ List.pairwise_lt_finRange kWays
      have hlt : ∀ w', w' < w → w' ∈ ws₁ := by
        intro w' hlt
        have hmem : w' ∈ ws₁ ++ w :: ws₂ := hws ▸ mem_ways w'
        rcases List.mem_append.mp hmem with hmem | hmem
        · exact hmem
        · rcases List.mem_cons.mp hmem with rfl | hmem
          · exact absurd hlt (lt_irrefl _)
          · have hafter := (List.pairwise_cons.mp (List.pairwise_append.mp hsorted).2.1).1 w' hmem
            exact absurd hlt hafter.asymm
      refine .inr ⟨fun w' hw' => ?_, .inl ⟨hfound, fun w' hlt' => (hbefore w' (hlt w' hlt')).2⟩⟩
      -- Behind an empty way there are only empty ones.
      rcases lt_or_ge w' w with hlt' | hge
      · exact (hbefore w' (hlt w' hlt')).1 hw'
      · exact hh (hw'.symm.trans (hinv.suffix w w' hge hfound))
  · exact .inr ⟨fun w => (hne w (mem_ways w)).1, .inr ⟨fun w => (hne w (mem_ways w)).2, fun w => hmin w (mem_ways w)⟩⟩

def put (line : Line) (h : Hash) (v : Int) (victim : Fin kWays) : Line :=
  Function.update line (choose line h ways victim) ⟨h, v⟩

lemma put_self (line : Line) (h : Hash) (v : Int) (victim : Fin kWays) :
    line.put h v victim (choose line h ways victim) = ⟨h, v⟩ :=
  Function.update_self ..

lemma put_ne {victim w : Fin kWays} (hw : w ≠ choose line h ways victim) : line.put h v victim w = line w :=
  Function.update_of_ne hw ..

lemma Inv.put (hinv : line.Inv) (hh : h ≠ 0) (victim : Fin kWays) : (line.put h v victim).Inv := by
  have hcases := hinv.choose_cases hh victim
  have honly : ∀ w, w ≠ choose line h ways victim → (line w).keyHash ≠ h := by
    intro w hw heq
    rcases hcases with hown | ⟨hnone, -⟩
    · exact hw (hinv.distinct w _ (heq ▸ hh) (heq.trans hown.symm))
    · exact hnone w heq
  constructor
  · intro w w' hw heq
    by_cases hc : w = choose line h ways victim <;> by_cases hc' : w' = choose line h ways victim
    · exact hc.trans hc'.symm
    · rw [hc, put_self, put_ne hc'] at heq
      exact absurd heq.symm (honly w' hc')
    · rw [hc', put_self, put_ne hc] at heq
      exact absurd heq (honly w hc)
    · rw [put_ne hc] at hw heq
      rw [put_ne hc'] at heq
      exact hinv.distinct w w' hw heq
  · intro w w' hle hw
    by_cases hc : w = choose line h ways victim
    · rw [hc, put_self] at hw
      exact absurd hw hh
    rw [put_ne hc] at hw
    by_cases hc' : w' = choose line h ways victim
    · -- The way is not behind an empty one.
      exfalso
      have hlt : w < choose line h ways victim := hc' ▸ lt_of_le_of_ne hle (fun heq => hc (heq.trans hc'))
      rcases hcases with hown | ⟨-, ⟨-, hbefore⟩ | ⟨hfull, -⟩⟩
      · exact hh (hown.symm.trans (hinv.suffix w _ hlt.le hw))
      · exact hbefore w hlt hw
      · exact hfull w hw
    · rw [put_ne hc']
      exact hinv.suffix w w' hle hw

lemma Inv.find_put_self (hinv : line.Inv) (hh : h ≠ 0) (victim : Fin kWays) :
    find (line.put h v victim) h ways = some v := by
  have hself := congrArg Slot.keyHash (put_self line h v victim)
  obtain ⟨w, hw, hfind⟩ | ⟨hnone, -⟩ := (hinv.put (v := v) hh victim).find_cases hh
  · have hchosen := (hinv.put (v := v) hh victim).distinct w _ (by rw [hw]; exact hh) (hw.trans hself.symm)
    rw [hfind, hchosen, put_self]
  · exact absurd hself (hnone _)

lemma Inv.find_put_other (hinv : line.Inv) (hh : h ≠ 0) (hh' : h' ≠ 0) (hne : h' ≠ h) (victim : Fin kWays) :
    find (line.put h v victim) h' ways = find line h' ways ∨
      (line (choose line h ways victim)).keyHash = h' ∧ find (line.put h v victim) h' ways = none ∧
      line.Full ∧ ∀ w, (line (choose line h ways victim)).value ≤ (line w).value := by
  have hput := hinv.put (v := v) hh victim
  by_cases hvictim : (line (choose line h ways victim)).keyHash = h'
  · refine .inr ⟨hvictim, ?_, ?_⟩
    · refine find_none fun w _ hw => ?_
      by_cases hc : w = choose line h ways victim
      · rw [hc, put_self] at hw
        exact hne hw.symm
      · rw [put_ne hc] at hw
        exact hc (hinv.distinct w _ (hw ▸ hh') (hw.trans hvictim.symm))
    · rcases hinv.choose_cases hh victim with hown | ⟨-, ⟨hempty, -⟩ | hfull⟩
      · exact absurd (hvictim.symm.trans hown) hne
      · exact absurd (hvictim.symm.trans hempty) hh'
      · exact hfull
  · refine .inl ?_
    obtain ⟨w, hw, hfind⟩ | ⟨hnone, hfind⟩ := hinv.find_cases hh'
    · have hc : w ≠ choose line h ways victim := fun hc => hvictim (hc ▸ hw)
      have hw' : (line.put h v victim w).keyHash = h' := by rw [put_ne hc, hw]
      rw [hfind, find_some (mem_ways w) hw' fun w' h'' => hput.distinct w' w (h'' ▸ hh') (h''.trans hw'.symm),
        put_ne hc]
    · rw [hfind]
      refine find_none fun w _ hw => ?_
      by_cases hc : w = choose line h ways victim
      · rw [hc, put_self] at hw
        exact hne hw.symm
      · rw [put_ne hc] at hw
        exact hnone w hw

end Line

/-! ## Tables -/

namespace CacheTable

variable {t : CacheTable}

structure Inv (t : CacheTable) : Prop where
  line : ∀ i, (t.sets i).Inv
  index : ∀ i w, (t.sets i w).keyHash ≠ 0 → t.indexOf (t.sets i w).keyHash = i

def setOf (t : CacheTable) (key : BitVec 32) : Line := t.sets (t.indexOf (mix key t.seed))

lemma get_eq (t : CacheTable) (key : BitVec 32) : t.get key = Line.find (t.setOf key) (mix key t.seed) ways := rfl

lemma init_inv {requested seed} (h : init requested seed = some t) : t.Inv ∧ ∀ key, t.get key = none := by
  unfold init at h
  split_ifs at h
  cases h
  refine ⟨⟨fun i => ⟨fun w w' hw => absurd rfl hw, fun _ _ _ _ => rfl⟩, fun i w hw => absurd rfl hw⟩, fun key => ?_⟩
  exact Line.find_none fun w _ hw => mix_ne_zero _ _ hw.symm

lemma set_sets_self (t : CacheTable) (key : BitVec 32) (v : Int) :
    (t.set key v).sets (t.indexOf (mix key t.seed)) = (t.setOf key).put (mix key t.seed) v ⟨0, by decide⟩ :=
  Function.update_self ..

lemma set_sets_ne (t : CacheTable) {key : BitVec 32} {v : Int} {i : Fin t.setCount} (hi : i ≠ t.indexOf (mix key t.seed)) :
    (t.set key v).sets i = t.sets i :=
  Function.update_of_ne hi ..

lemma Inv.set (hinv : t.Inv) (key : BitVec 32) (v : Int) : (t.set key v).Inv := by
  constructor
  · intro i
    by_cases hi : i = t.indexOf (mix key t.seed)
    · rw [hi, set_sets_self]
      exact (hinv.line _).put (mix_ne_zero _ _) _
    · rw [t.set_sets_ne hi]
      exact hinv.line i
  · intro i w hw
    by_cases hi : i = t.indexOf (mix key t.seed)
    · subst hi
      by_cases hc : w = Line.choose (t.setOf key) (mix key t.seed) ways ⟨0, by decide⟩
      · rw [set_sets_self, hc, Line.put_self]
        rfl
      · rw [set_sets_self, Line.put_ne hc] at hw ⊢
        exact hinv.index _ w hw
    · rw [t.set_sets_ne hi] at hw ⊢
      exact hinv.index i w hw

lemma Inv.get_set_self (hinv : t.Inv) (key : BitVec 32) (v : Int) : (t.set key v).get key = some v := by
  change Line.find ((t.set key v).sets (t.indexOf (mix key t.seed))) (mix key t.seed) ways = some v
  rw [set_sets_self]
  exact (hinv.line _).find_put_self (mix_ne_zero _ _) _

lemma Inv.get_set_other (hinv : t.Inv) {key other} (hne : other ≠ key) (v : Int) :
    (t.set key v).get other = t.get other ∨
      (t.setOf key (Line.choose (t.setOf key) (mix key t.seed) ways ⟨0, by decide⟩)).keyHash = mix other t.seed ∧
      (t.set key v).get other = none ∧ (t.setOf key).Full ∧
      ∀ w, (t.setOf key (Line.choose (t.setOf key) (mix key t.seed) ways ⟨0, by decide⟩)).value ≤ (t.setOf key w).value := by
  change Line.find ((t.set key v).sets (t.indexOf (mix other t.seed))) (mix other t.seed) ways = t.get other ∨
    _ ∧ Line.find ((t.set key v).sets (t.indexOf (mix other t.seed))) (mix other t.seed) ways = none ∧ _
  by_cases hi : t.indexOf (mix other t.seed) = t.indexOf (mix key t.seed)
  · have hhash : mix other t.seed ≠ mix key t.seed := fun heq => hne (mix_injective t.seed heq)
    rw [get_eq, setOf, hi, set_sets_self]
    exact (hinv.line _).find_put_other (mix_ne_zero _ _) (mix_ne_zero _ _) hhash _
  · rw [t.set_sets_ne hi]
    exact .inl rfl

def setAll (t : CacheTable) (ops : List (BitVec 32 × Int)) : CacheTable := ops.foldl (fun t op => t.set op.1 op.2) t

def stored (ops : List (BitVec 32 × Int)) (key : BitVec 32) : Option Int :=
  (ops.reverse.find? fun op => op.1 == key).map (·.2)

lemma setAll_snoc (t : CacheTable) (ops : List (BitVec 32 × Int)) (op : BitVec 32 × Int) :
    t.setAll (ops ++ [op]) = (t.setAll ops).set op.1 op.2 := by
  rw [setAll, List.foldl_append]
  rfl

lemma stored_snoc (ops : List (BitVec 32 × Int)) (op : BitVec 32 × Int) (key : BitVec 32) :
    stored (ops ++ [op]) key = if op.1 = key then some op.2 else stored ops key := by
  unfold stored
  rw [List.reverse_append, List.reverse_singleton, List.singleton_append, List.find?_cons]
  by_cases h : op.1 = key
  · rw [if_pos h, beq_iff_eq.mpr h]
    rfl
  · rw [if_neg h, beq_eq_false_iff_ne.mpr h]

lemma setAll_inv {requested seed t₀} (h : init requested seed = some t₀) (ops : List (BitVec 32 × Int)) :
    (t₀.setAll ops).Inv ∧ ∀ key, (t₀.setAll ops).get key = none ∨ (t₀.setAll ops).get key = stored ops key := by
  obtain ⟨hinv₀, hempty⟩ := init_inv h
  induction ops using List.reverseRecOn with
  | nil => exact ⟨hinv₀, fun key => .inl (hempty key)⟩
  | append_singleton ops op ih =>
    obtain ⟨hinv, htrue⟩ := ih
    rw [setAll_snoc]
    refine ⟨hinv.set op.1 op.2, fun key => ?_⟩
    rw [stored_snoc]
    by_cases hkey : op.1 = key
    · subst hkey
      rw [if_pos rfl]
      exact .inr (hinv.get_set_self op.1 op.2)
    · rw [if_neg hkey]
      rcases hinv.get_set_other (fun heq => hkey heq.symm) op.2 with heq | ⟨-, hnone, -⟩
      · rw [heq]
        exact htrue key
      · exact .inl hnone

end CacheTable

/-- The table is a lossy map that never lies. After every sequence of stores, the answer for a key is what was stored
for it last, or nothing; a key is in one slot at most; and one more store is answered with its value, and changes the
answer for one other key at most, which then was in the same set, a full one, with its least value, and is lost. -/
theorem cacheTable_faithful {requested : BitVec 32} {seed : Hash} {t₀ : CacheTable}
    (h : CacheTable.init requested seed = some t₀) (ops : List (BitVec 32 × Int)) :
    (∀ key, (t₀.setAll ops).get key = none ∨ (t₀.setAll ops).get key = CacheTable.stored ops key) ∧
    (∀ key i w j w', ((t₀.setAll ops).sets i w).keyHash = mix key (t₀.setAll ops).seed →
      ((t₀.setAll ops).sets j w').keyHash = mix key (t₀.setAll ops).seed → i = j ∧ w = w') ∧
    ∀ key v, ((t₀.setAll ops).set key v).get key = some v ∧
      (∀ other other', other ≠ key → other' ≠ key →
        ((t₀.setAll ops).set key v).get other ≠ (t₀.setAll ops).get other →
        ((t₀.setAll ops).set key v).get other' ≠ (t₀.setAll ops).get other' → other = other') ∧
      ∀ other, other ≠ key → ((t₀.setAll ops).set key v).get other ≠ (t₀.setAll ops).get other →
        ((t₀.setAll ops).setOf key).Full ∧ ((t₀.setAll ops).set key v).get other = none ∧
        ∃ w, ((t₀.setAll ops).setOf key w).keyHash = mix other (t₀.setAll ops).seed ∧
          (t₀.setAll ops).get other = some ((t₀.setAll ops).setOf key w).value ∧
          ∀ w', ((t₀.setAll ops).setOf key w).value ≤ ((t₀.setAll ops).setOf key w').value := by
  obtain ⟨hinv, htrue⟩ := CacheTable.setAll_inv h ops
  generalize t₀.setAll ops = t at hinv htrue ⊢
  refine ⟨htrue, ?_, fun key v => ⟨hinv.get_set_self key v, ?_, ?_⟩⟩
  · intro key i w j w' hi hj
    have hne : (t.sets i w).keyHash ≠ 0 := hi ▸ mix_ne_zero key t.seed
    have hij : i = j := by
      rw [← hinv.index i w hne, hi, ← hj]
      exact hinv.index j w' (hj ▸ mix_ne_zero key t.seed)
    subst hij
    exact ⟨rfl, (hinv.line i).distinct w w' hne (hi.trans hj.symm)⟩
  · intro other other' hne hne' hchanged hchanged'
    rcases hinv.get_set_other hne v with heq | ⟨hvictim, -⟩
    · exact absurd heq hchanged
    · rcases hinv.get_set_other hne' v with heq | ⟨hvictim', -⟩
      · exact absurd heq hchanged'
      · exact mix_injective t.seed (hvictim.symm.trans hvictim')
  · intro other hne hchanged
    rcases hinv.get_set_other hne v with heq | ⟨hvictim, hnone, hfull, hmin⟩
    · exact absurd heq hchanged
    · refine ⟨hfull, hnone, _, hvictim, ?_, hmin⟩
      have hnz := hfull (Line.choose (t.setOf key) (mix key t.seed) ways ⟨0, by decide⟩)
      have hindex : t.indexOf (mix other t.seed) = t.indexOf (mix key t.seed) := by
        rw [← hvictim]
        exact hinv.index _ _ hnz
      rw [CacheTable.get_eq, CacheTable.setOf, hindex]
      refine Line.find_some (Line.mem_ways _) hvictim fun w' hw' => ?_
      exact (hinv.line _).distinct w' _ (by rw [hw']; exact mix_ne_zero _ _) (hw'.trans hvictim.symm)

/-- A table of one set in which five keys are stored: the second one had the least value. -/
theorem fiveKeys_faithful :
    ∃ t₀, CacheTable.init 4 7 = some t₀ ∧ (t₀.setAll [(1, 50), (2, 10), (3, 30), (4, 20)]).get 2 = some 10 ∧
      ((t₀.setAll [(1, 50), (2, 10), (3, 30), (4, 20)]).set 5 40).get 2 = none ∧
      ((t₀.setAll [(1, 50), (2, 10), (3, 30), (4, 20)]).set 5 40).get 5 = some 40 := by
  have hinit : (CacheTable.init 4 7).map (fun t₀ =>
      ((t₀.setAll [(1, 50), (2, 10), (3, 30), (4, 20)]).get 2,
        ((t₀.setAll [(1, 50), (2, 10), (3, 30), (4, 20)]).set 5 40).get 2)) = some (some 10, none) := by
    decide +kernel
  obtain ⟨t₀, h₀, heq⟩ := Option.map_eq_some_iff.mp hinit
  refine ⟨t₀, h₀, congrArg Prod.fst heq, congrArg Prod.snd heq, ?_⟩
  exact ((cacheTable_faithful h₀ _).2.2 5 40).1

end Rut.Cache
