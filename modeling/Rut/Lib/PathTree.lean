import Mathlib

/-!
# Trees of labelled paths

Nodes that live in a pool and refer to each other form a tree when every live node but the root is the
child of a live node, the path of a child extends the path of its parent by a non-empty label, and the
first letter of that label tells the child from its siblings. The paths then determine the nodes, and
the way down to a node is found by looking at one letter at a time.
-/

namespace Rut.Lib

/-- The live nodes form a tree in which `path` is the word that leads to a node. -/
structure PathTree {ι α : Type*} (live : ι → Prop) (child : ι → ι → Prop) (root : ι)
    (path : ι → List α) : Prop where
  root_live : live root
  root_path : path root = []
  child_live : ∀ {i c}, live i → child i c → live c
  child_path : ∀ {i c}, live i → child i c → ∃ a l, path c = path i ++ a :: l
  parent : ∀ {j}, live j → j = root ∨ ∃ i, live i ∧ child i j
  child_unique : ∀ {i c d a l m}, live i → child i c → child i d →
    path c = path i ++ a :: l → path d = path i ++ a :: m → c = d

namespace PathTree

variable {ι α : Type*} {live : ι → Prop} {child : ι → ι → Prop} {root : ι} {path : ι → List α}

lemma child_path_prefix (T : PathTree live child root path) {i c} (hi : live i) (hc : child i c) :
    path i <+: path c := by
  obtain ⟨a, l, h⟩ := T.child_path hi hc
  exact ⟨_, h.symm⟩

lemma child_path_length (T : PathTree live child root path) {i c} (hi : live i) (hc : child i c) :
    (path i).length < (path c).length := by
  obtain ⟨a, l, h⟩ := T.child_path hi hc
  simp [h]

lemma child_eq_of_prefix (T : PathTree live child root path) {i c d w} (hi : live i)
    (hc : child i c) (hd : child i d) (hcw : path c <+: w) (hdw : path d <+: w) : c = d := by
  obtain ⟨a, l, hl⟩ := T.child_path hi hc
  obtain ⟨b, m, hm⟩ := T.child_path hi hd
  obtain ⟨u, rfl⟩ := hcw
  obtain ⟨v, hv⟩ := hdw
  rw [hl, hm] at hv
  simp only [List.append_assoc, List.cons_append, List.append_cancel_left_eq, List.cons.injEq] at hv
  obtain ⟨rfl, -⟩ := hv
  exact T.child_unique hi hc hd hl hm

lemma path_ne_nil (T : PathTree live child root path) {j} (hj : live j) (hne : j ≠ root) : path j ≠ [] := by
  obtain rfl | ⟨i, hi, hc⟩ := T.parent hj
  · exact absurd rfl hne
  · obtain ⟨a, l, h⟩ := T.child_path hi hc
    simp [h]

lemma way_down_aux (T : PathTree live child root path) (n : Nat) {i j} (hi : live i) (hj : live j)
    (hn : (path i).length + (path j).length ≤ n) (hij : path i <+: path j) :
    i = j ∨ ∃ c, child i c ∧ path c <+: path j := by
  induction n using Nat.strongRecOn generalizing i j with
  | _ n ih =>
    obtain rfl | ⟨p, hp, hpj⟩ := T.parent hj
    · rw [T.root_path, List.prefix_nil] at hij
      exact .inl (by_contra fun hne => T.path_ne_nil hi hne hij)
    have hlt := T.child_path_length hp hpj
    have hpre := T.child_path_prefix hp hpj
    rcases List.prefix_or_prefix_of_prefix hij hpre with hip | hpi
    · -- the parent of `j` lies below `i`
      rcases ih _ (by omega) hi hp (Nat.le_refl _) hip with rfl | ⟨c, hc, hcp⟩
      · exact .inr ⟨j, hpj, List.prefix_refl _⟩
      · exact .inr ⟨c, hc, hcp.trans hpre⟩
    · rcases ih _ (by omega) hp hi (Nat.le_refl _) hpi with rfl | ⟨c, hc, hci⟩
      · exact .inr ⟨j, hpj, List.prefix_refl _⟩
      -- `i` lies below the parent of `j`, so the two paths are equal
      obtain rfl := T.child_eq_of_prefix hp hc hpj (hci.trans hij) (List.prefix_refl _)
      have heq := hij.eq_of_length_le hci.length_le
      obtain rfl | ⟨q, hq, hqi⟩ := T.parent hi
      · exact absurd (heq ▸ T.root_path) (T.path_ne_nil hj (by
          rintro rfl
          simp [T.root_path] at hlt))
      have hlen := congrArg List.length heq
      have hqlt := T.child_path_length hq hqi
      have hqpre := T.child_path_prefix hq hqi
      left
      rcases List.prefix_or_prefix_of_prefix hqpre (heq ▸ hpre) with hqp | hpq
      · rcases ih _ (by omega) hq hp (Nat.le_refl _) hqp with rfl | ⟨d, hd, hdp⟩
        · exact T.child_eq_of_prefix hq hqi hpj (heq ▸ List.prefix_refl _) (List.prefix_refl _)
        · obtain rfl := T.child_eq_of_prefix hq hd hqi (hdp.trans (heq ▸ hpre)) (List.prefix_refl _)
          have := hdp.length_le
          omega
      · rcases ih _ (by omega) hp hq (Nat.le_refl _) hpq with rfl | ⟨d, hd, hdq⟩
        · exact T.child_eq_of_prefix hp hqi hpj (heq ▸ List.prefix_refl _) (List.prefix_refl _)
        · obtain rfl := T.child_eq_of_prefix hp hd hpj (hdq.trans (heq ▸ hqpre)) (List.prefix_refl _)
          have := hdq.length_le
          omega

/-- From a node whose path is a prefix of the path of `j`, one child leads to `j`. -/
theorem way_down (T : PathTree live child root path) {i j} (hi : live i) (hj : live j)
    (hij : path i <+: path j) : i = j ∨ ∃ c, child i c ∧ path c <+: path j :=
  T.way_down_aux _ hi hj (Nat.le_refl _) hij

/-- Live nodes are determined by their paths. -/
theorem path_inj (T : PathTree live child root path) {i j} (hi : live i) (hj : live j)
    (h : path i = path j) : i = j := by
  rcases T.way_down hi hj (h ▸ List.prefix_refl _) with rfl | ⟨c, hc, hcj⟩
  · rfl
  · have hlt := T.child_path_length hi hc
    have hle := hcj.length_le
    rw [← h] at hle
    omega

/-- No node lies beyond a letter that no child starts with. -/
theorem path_ne_of_no_child (T : PathTree live child root path) {i a} (hi : live i)
    (h : ∀ {c m}, child i c → path c ≠ path i ++ a :: m) {j m} (hj : live j) :
    path j ≠ path i ++ a :: m := by
  intro hpj
  rcases T.way_down hi hj (hpj ▸ List.prefix_append ..) with rfl | ⟨c, hc, hcj⟩
  · simp at hpj
  · obtain ⟨b, l, hl⟩ := T.child_path hi hc
    rw [hpj, hl, List.prefix_append_right_inj, List.cons_prefix_cons] at hcj
    exact h hc (hcj.1 ▸ hl)

/-- No node lies inside an edge. -/
theorem path_ne_inside_edge (T : PathTree live child root path) {i c a l b m} (hi : live i)
    (hc : child i c) (hpc : path c = path i ++ a :: l ++ b :: m) {j} (hj : live j) :
    path j ≠ path i ++ a :: l := by
  intro hpj
  rcases T.way_down hi hj (hpj ▸ List.prefix_append ..) with rfl | ⟨d, hd, hdj⟩
  · simp at hpj
  · have hjc : path j <+: path c := by
      rw [hpc, hpj]
      exact List.prefix_append ..
    obtain rfl := T.child_eq_of_prefix hi hd hc (hdj.trans hjc) (List.prefix_refl _)
    have := hdj.length_le
    simp only [hpc, hpj, List.length_append, List.length_cons] at this
    omega

/-- A node has one parent. -/
theorem parent_unique (T : PathTree live child root path) {i j c} (hi : live i) (hj : live j)
    (hic : child i c) (hjc : child j c) : i = j := by
  have hlt := T.child_path_length hi hic
  have hlt' := T.child_path_length hj hjc
  have hi' := T.child_path_prefix hi hic
  have hj' := T.child_path_prefix hj hjc
  rcases List.prefix_or_prefix_of_prefix hi' hj' with h | h
  · rcases T.way_down hi hj h with rfl | ⟨d, hd, hdj⟩
    · rfl
    · obtain rfl := T.child_eq_of_prefix hi hd hic (hdj.trans hj') (List.prefix_refl _)
      have := hdj.length_le
      omega
  · rcases T.way_down hj hi h with rfl | ⟨d, hd, hdi⟩
    · rfl
    · obtain rfl := T.child_eq_of_prefix hj hd hjc (hdi.trans hi') (List.prefix_refl _)
      have := hdi.length_le
      omega

/-- The root is nobody's child. -/
theorem root_not_child (T : PathTree live child root path) {i} (hi : live i) : ¬ child i root := by
  intro hc
  have := T.child_path_length hi hc
  simp [T.root_path] at this

/-- The tree only depends on what is said about live nodes. -/
theorem congr (T : PathTree live child root path) {live' : ι → Prop} {child' : ι → ι → Prop}
    (hlive : ∀ {i}, live' i ↔ live i) (hchild : ∀ {i c}, live i → (child' i c ↔ child i c)) :
    PathTree live' child' root path where
  root_live := hlive.mpr T.root_live
  root_path := T.root_path
  child_live := fun hi hc => hlive.mpr (T.child_live (hlive.mp hi) ((hchild (hlive.mp hi)).mp hc))
  child_path := fun hi hc => T.child_path (hlive.mp hi) ((hchild (hlive.mp hi)).mp hc)
  parent := fun hj => (T.parent (hlive.mp hj)).imp id
    fun ⟨i, hi, hc⟩ => ⟨i, hlive.mpr hi, (hchild hi).mpr hc⟩
  child_unique := fun hi hc hd => T.child_unique (hlive.mp hi) ((hchild (hlive.mp hi)).mp hc)
    ((hchild (hlive.mp hi)).mp hd)

/-- A fresh node becomes a leaf under `p`, with a label no sibling starts like. -/
theorem addLeaf (T : PathTree live child root path) {live' : ι → Prop} {child' : ι → ι → Prop}
    {path' : ι → List α} {p n : ι} {a l} (hp : live p) (hn : ¬ live n)
    (hfresh : ∀ {c m}, child p c → path c ≠ path p ++ a :: m)
    (hlive : ∀ {i}, live' i ↔ live i ∨ i = n)
    (hchild : ∀ {i c}, live i → (child' i c ↔ child i c ∨ i = p ∧ c = n))
    (hleaf : ∀ {c}, ¬ child' n c) (hpath : ∀ {i}, live i → path' i = path i)
    (hpn : path' n = path p ++ a :: l) : PathTree live' child' root path' where
  root_live := hlive.mpr (.inl T.root_live)
  root_path := (hpath T.root_live).trans T.root_path
  child_live := by
    intro i c hi hc
    rcases hlive.mp hi with hi | rfl
    · rcases (hchild hi).mp hc with hc | ⟨-, rfl⟩
      · exact hlive.mpr (.inl (T.child_live hi hc))
      · exact hlive.mpr (.inr rfl)
    · exact absurd hc hleaf
  child_path := by
    intro i c hi hc
    rcases hlive.mp hi with hi | rfl
    · rcases (hchild hi).mp hc with hc | ⟨rfl, rfl⟩
      · rw [hpath hi, hpath (T.child_live hi hc)]
        exact T.child_path hi hc
      · exact ⟨a, l, by rw [hpn, hpath hi]⟩
    · exact absurd hc hleaf
  parent := by
    intro j hj
    rcases hlive.mp hj with hj | rfl
    · rcases T.parent hj with rfl | ⟨i, hi, hc⟩
      · exact .inl rfl
      · exact .inr ⟨i, hlive.mpr (.inl hi), (hchild hi).mpr (.inl hc)⟩
    · exact .inr ⟨p, hlive.mpr (.inl hp), (hchild hp).mpr (.inr ⟨rfl, rfl⟩)⟩
  child_unique := by
    intro i c d b u v hi hc hd huc hvd
    rcases hlive.mp hi with hi | rfl
    · rw [hpath hi] at huc hvd
      rcases (hchild hi).mp hc with hc | ⟨rfl, rfl⟩ <;> rcases (hchild hi).mp hd with hd | ⟨hip, rfl⟩
      · rw [hpath (T.child_live hi hc)] at huc
        rw [hpath (T.child_live hi hd)] at hvd
        exact T.child_unique hi hc hd huc hvd
      · subst hip
        rw [hpath (T.child_live hi hc)] at huc
        rw [hpn] at hvd
        obtain ⟨rfl, -⟩ := List.cons.inj (List.append_cancel_left hvd)
        exact absurd huc (hfresh hc)
      · rw [hpath (T.child_live hi hd)] at hvd
        rw [hpn] at huc
        obtain ⟨rfl, -⟩ := List.cons.inj (List.append_cancel_left huc)
        exact absurd hvd (hfresh hd)
      · rfl
    · exact absurd hc hleaf

/-- The nodes are given new names. -/
theorem map (T : PathTree live child root path) {κ : Type*} {live' : κ → Prop} {child' : κ → κ → Prop}
    {path' : κ → List α} (σ : ι → κ) (hlive : ∀ {j}, live' j ↔ ∃ i, live i ∧ σ i = j)
    (hchild : ∀ {i d}, live i → (child' (σ i) d ↔ ∃ c, child i c ∧ σ c = d))
    (hpath : ∀ {i}, live i → path' (σ i) = path i) : PathTree live' child' (σ root) path' where
  root_live := hlive.mpr ⟨root, T.root_live, rfl⟩
  root_path := (hpath T.root_live).trans T.root_path
  child_live := by
    intro j d hj hd
    obtain ⟨i, hi, rfl⟩ := hlive.mp hj
    obtain ⟨c, hc, rfl⟩ := (hchild hi).mp hd
    exact hlive.mpr ⟨c, T.child_live hi hc, rfl⟩
  child_path := by
    intro j d hj hd
    obtain ⟨i, hi, rfl⟩ := hlive.mp hj
    obtain ⟨c, hc, rfl⟩ := (hchild hi).mp hd
    rw [hpath hi, hpath (T.child_live hi hc)]
    exact T.child_path hi hc
  parent := by
    intro j hj
    obtain ⟨i, hi, rfl⟩ := hlive.mp hj
    rcases T.parent hi with rfl | ⟨p, hp, hc⟩
    · exact .inl rfl
    · exact .inr ⟨σ p, hlive.mpr ⟨p, hp, rfl⟩, (hchild hp).mpr ⟨i, hc, rfl⟩⟩
  child_unique := by
    intro j d d' a l m hj hd hd' hl hm
    obtain ⟨i, hi, rfl⟩ := hlive.mp hj
    obtain ⟨c, hc, rfl⟩ := (hchild hi).mp hd
    obtain ⟨c', hc', rfl⟩ := (hchild hi).mp hd'
    rw [hpath hi, hpath (T.child_live hi hc)] at hl
    rw [hpath hi, hpath (T.child_live hi hc')] at hm
    rw [T.child_unique hi hc hc' hl hm]

/-- A fresh node `m` cuts the edge from `p` to `c` in two. -/
theorem insertBetween (T : PathTree live child root path) {live' : ι → Prop} {child' : ι → ι → Prop}
    {path' : ι → List α} {p c m : ι} {a l b e} (hp : live p) (hc : child p c) (hm : ¬ live m)
    (hpc : path c = path p ++ a :: l ++ b :: e) (hlive : ∀ {i}, live' i ↔ live i ∨ i = m)
    (hchild : ∀ {i x}, live i → i ≠ p → (child' i x ↔ child i x))
    (hchildp : ∀ {x}, child' p x ↔ (child p x ∧ x ≠ c) ∨ x = m) (hchildm : ∀ {x}, child' m x ↔ x = c)
    (hpath : ∀ {i}, live i → path' i = path i) (hpm : path' m = path p ++ a :: l) :
    PathTree live' child' root path' where
  root_live := hlive.mpr (.inl T.root_live)
  root_path := (hpath T.root_live).trans T.root_path
  child_live := by
    intro i x hi hx
    rcases hlive.mp hi with hi | rfl
    · by_cases hip : i = p
      · subst hip
        rcases hchildp.mp hx with ⟨hx, -⟩ | rfl
        · exact hlive.mpr (.inl (T.child_live hi hx))
        · exact hlive.mpr (.inr rfl)
      · exact hlive.mpr (.inl (T.child_live hi ((hchild hi hip).mp hx)))
    · rw [hchildm.mp hx]
      exact hlive.mpr (.inl (T.child_live hp hc))
  child_path := by
    intro i x hi hx
    rcases hlive.mp hi with hi | rfl
    · by_cases hip : i = p
      · subst hip
        rcases hchildp.mp hx with ⟨hx, -⟩ | rfl
        · rw [hpath hi, hpath (T.child_live hi hx)]
          exact T.child_path hi hx
        · exact ⟨a, l, by rw [hpm, hpath hi]⟩
      · have hx := (hchild hi hip).mp hx
        rw [hpath hi, hpath (T.child_live hi hx)]
        exact T.child_path hi hx
    · rw [hchildm.mp hx, hpm, hpath (T.child_live hp hc)]
      exact ⟨b, e, hpc⟩
  parent := by
    intro j hj
    rcases hlive.mp hj with hj | rfl
    · rcases T.parent hj with rfl | ⟨i, hi, hij⟩
      · exact .inl rfl
      · right
        by_cases hjc : j = c
        · exact ⟨m, hlive.mpr (.inr rfl), hchildm.mpr hjc⟩
        · by_cases hip : i = p
          · subst hip
            exact ⟨i, hlive.mpr (.inl hi), hchildp.mpr (.inl ⟨hij, hjc⟩)⟩
          · exact ⟨i, hlive.mpr (.inl hi), (hchild hi hip).mpr hij⟩
    · exact .inr ⟨p, hlive.mpr (.inl hp), hchildp.mpr (.inr rfl)⟩
  child_unique := by
    -- the new node starts with the letter of the edge it cuts
    have hother : ∀ {x u}, child p x → x ≠ c → path x ≠ path p ++ a :: u := by
      intro x u hx hne hpx
      rw [List.append_assoc, List.cons_append] at hpc
      exact hne (T.child_unique hp hx hc hpx hpc)
    intro i x y d u v hi hx hy hu hv
    rcases hlive.mp hi with hi | rfl
    · by_cases hip : i = p
      · subst hip
        rw [hpath hi] at hu hv
        rcases hchildp.mp hx with ⟨hx, hxc⟩ | rfl <;> rcases hchildp.mp hy with ⟨hy, hyc⟩ | hym
        · rw [hpath (T.child_live hi hx)] at hu
          rw [hpath (T.child_live hi hy)] at hv
          exact T.child_unique hi hx hy hu hv
        · subst hym
          rw [hpm] at hv
          rw [hpath (T.child_live hi hx)] at hu
          obtain ⟨rfl, -⟩ := List.cons.inj (List.append_cancel_left hv)
          exact absurd hu (hother hx hxc)
        · rw [hpm] at hu
          rw [hpath (T.child_live hi hy)] at hv
          obtain ⟨rfl, -⟩ := List.cons.inj (List.append_cancel_left hu)
          exact absurd hv (hother hy hyc)
        · exact hym.symm
      · have hx := (hchild hi hip).mp hx
        have hy := (hchild hi hip).mp hy
        rw [hpath hi] at hu hv
        rw [hpath (T.child_live hi hx)] at hu
        rw [hpath (T.child_live hi hy)] at hv
        exact T.child_unique hi hx hy hu hv
    · rw [hchildm.mp hx, hchildm.mp hy]

end PathTree

end Rut.Lib
