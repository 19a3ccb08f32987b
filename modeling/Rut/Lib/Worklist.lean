import Mathlib

/-!
# Searches that leave a node out

A node dominates another one if every path from the root to the other goes through it. A search from the root that never
visits the node decides this: a worklist holds the nodes whose edges are still to be followed.
-/

namespace Rut.Lib

open Relation

section paths

variable {α : Type*} {edge : α → α → Prop} {root d e : α}

structure IsPath (edge : α → α → Prop) (root : α) (path : List α) : Prop where
  head : path.head? = some root
  chain : path.IsChain edge

/-- Every path from the root to `e` has `d` on it. -/
def Dominates (edge : α → α → Prop) (root d e : α) : Prop :=
  ∀ path, IsPath edge root path → path.getLast? = some e → d ∈ path

lemma dominates_self (edge : α → α → Prop) (root d : α) : Dominates edge root d d :=
  fun _ _ hlast => List.mem_of_getLast? hlast

lemma dominates_root (edge : α → α → Prop) (root e : α) : Dominates edge root root e :=
  fun _ hpath _ => List.mem_of_mem_head? hpath.head

/-- The edges that do not go to `d`. -/
def Avoiding (edge : α → α → Prop) (d : α) (a b : α) : Prop := edge a b ∧ b ≠ d

lemma not_mem_of_avoiding {l a} (h : (a :: l).IsChain (Avoiding edge d)) : d ∉ l := by
  induction l generalizing a with
  | nil => exact List.not_mem_nil
  | cons b l ih =>
    rw [List.isChain_cons_cons] at h
    intro hmem
    rcases List.mem_cons.mp hmem with rfl | hmem
    · exact h.1.2 rfl
    · exact ih h.2 hmem

lemma dominates_iff (hne : root ≠ d) : Dominates edge root d e ↔ ¬ ReflTransGen (Avoiding edge d) root e := by
  constructor
  · intro hdom hreach
    obtain ⟨l, hchain, hlast⟩ := List.exists_isChain_cons_of_relationReflTransGen hreach
    have hpath : IsPath edge root (root :: l) := ⟨rfl, hchain.imp fun _ _ h => h.1⟩
    have hmem := hdom _ hpath (by rw [List.getLast?_eq_some_getLast (List.cons_ne_nil _ _), hlast])
    rcases List.mem_cons.mp hmem with rfl | hmem
    · exact hne rfl
    · exact not_mem_of_avoiding hchain hmem
  · intro hno path hpath hlast
    by_contra hmem
    have hchain : path.IsChain (Avoiding edge d) :=
      hpath.chain.imp_of_mem_imp fun a b _ hb hedge => ⟨hedge, fun h => hmem (h ▸ hb)⟩
    cases path with
    | nil => cases hpath.head
    | cons a l =>
      cases hpath.head
      apply hno
      apply List.relationReflTransGen_of_exists_isChain_cons l hchain
      exact Option.some.inj hlast

end paths

/-- The nodes that a search has seen, and those of them whose edges it has not followed. -/
structure Worklist (α : Type*) where
  visited : Finset α
  pending : List α

namespace Worklist

section invariant

variable {α : Type*}

/-- The nodes are reached around `skip`, and what is not pending is no target and has no edge out of them. -/
structure Inv (edge : α → α → Prop) (root skip target : α) (w : Worklist α) : Prop where
  reached : ∀ v ∈ w.visited, ReflTransGen (Avoiding edge skip) root v
  root : root ∈ w.visited
  pending : ∀ v ∈ w.pending, v ∈ w.visited
  done : ∀ v ∈ w.visited, v ∉ w.pending → v ≠ target ∧ ∀ u, edge v u → u = skip ∨ u ∈ w.visited

variable {edge : α → α → Prop} {root skip target : α} {w : Worklist α}

lemma inv_initial (edge : α → α → Prop) (root skip target : α) : Inv edge root skip target ⟨{root}, [root]⟩ where
  reached v hv := by
    rw [Finset.mem_singleton.mp hv]
  root := Finset.mem_singleton_self _
  pending v hv := Finset.mem_singleton.mpr (List.mem_singleton.mp hv)
  done v hv hno := absurd (List.mem_singleton.mpr (Finset.mem_singleton.mp hv)) hno

lemma Inv.found (h : Inv edge root skip target w) (hne : root ≠ skip) (hmem : target ∈ w.pending) :
    ¬ Dominates edge root skip target := by
  rw [dominates_iff hne, not_not]
  exact h.reached target (h.pending target hmem)

lemma Inv.exhausted (h : Inv edge root skip target w) (hne : root ≠ skip) (hnil : w.pending = []) :
    Dominates edge root skip target := by
  have hdone : ∀ v ∈ w.visited, v ≠ target ∧ ∀ u, edge v u → u = skip ∨ u ∈ w.visited := by
    intro v hv
    apply h.done v hv
    rw [hnil]
    exact List.not_mem_nil
  have hclosed : ∀ v, ReflTransGen (Avoiding edge skip) root v → v ∈ w.visited := by
    intro v hv
    induction hv with
    | refl => exact h.root
    | tail _ hedge ih =>
      rcases (hdone _ ih).2 _ hedge.1 with hskip | hmem
      · exact absurd hskip hedge.2
      · exact hmem
  rw [dominates_iff hne]
  intro hreach
  exact (hdone target (hclosed target hreach)).1 rfl

end invariant

/-! ## The edges of a node -/

section visit

variable {α : Type*} [DecidableEq α] {edge : α → α → Prop} {root skip target v : α} {w : Worklist α} {nexts rest : List α}

def visit (skip : α) (w : Worklist α) (next : α) : Worklist α :=
  if next = skip ∨ next ∈ w.visited then w else ⟨insert next w.visited, next :: w.pending⟩

lemma visit_visited (skip : α) (w : Worklist α) (next : α) : w.visited ⊆ (w.visit skip next).visited := by
  unfold visit
  split
  · exact Finset.Subset.refl _
  · exact Finset.subset_insert _ _

lemma foldl_visit_visited (skip : α) (nexts : List α) (w : Worklist α) :
    w.visited ⊆ (nexts.foldl (visit skip) w).visited := by
  induction nexts generalizing w with
  | nil => exact Finset.Subset.refl _
  | cons next nexts ih => exact (visit_visited skip w next).trans (ih _)

lemma mem_foldl_visit {nexts : List α} {u} (hu : u ∈ nexts) (w : Worklist α) :
    u = skip ∨ u ∈ (nexts.foldl (visit skip) w).visited := by
  induction nexts generalizing w with
  | nil => cases hu
  | cons next nexts ih =>
    rcases List.mem_cons.mp hu with rfl | hu
    · by_cases hskip : u = skip
      · exact .inl hskip
      · right
        refine foldl_visit_visited skip nexts (w.visit skip u) ?_
        by_cases hmem : u ∈ w.visited
        · exact visit_visited skip w u hmem
        · rw [visit, if_neg (not_or.mpr ⟨hskip, hmem⟩)]
          exact Finset.mem_insert_self _ _
    · exact ih hu _

lemma visit_settled {next x} (hx : x ∈ (w.visit skip next).visited) (hno : x ∉ (w.visit skip next).pending) :
    x ∈ w.visited ∧ x ∉ w.pending := by
  unfold visit at hx hno
  split at hx
  next hold =>
    rw [if_pos hold] at hno
    exact ⟨hx, hno⟩
  next hnew =>
    rw [if_neg hnew] at hno
    obtain ⟨hne, hno⟩ := not_or.mp (mt List.mem_cons.mpr hno)
    exact ⟨(Finset.mem_insert.mp hx).resolve_left hne, hno⟩

lemma foldl_visit_settled {x} (hx : x ∈ (nexts.foldl (visit skip) w).visited)
    (hno : x ∉ (nexts.foldl (visit skip) w).pending) : x ∈ w.visited ∧ x ∉ w.pending := by
  induction nexts generalizing w with
  | nil => exact ⟨hx, hno⟩
  | cons next nexts ih =>
    obtain ⟨hx', hno'⟩ := ih hx hno
    exact visit_settled hx' hno'

def Sound (edge : α → α → Prop) (root skip : α) (w : Worklist α) : Prop :=
  (∀ v ∈ w.visited, ReflTransGen (Avoiding edge skip) root v) ∧ ∀ v ∈ w.pending, v ∈ w.visited

lemma Sound.visit {next} (h : Sound edge root skip w) (hv : v ∈ w.visited) (hedge : edge v next) :
    Sound edge root skip (w.visit skip next) := by
  unfold Worklist.visit
  split
  · exact h
  next hnew =>
    constructor
    · intro u hu
      rcases Finset.mem_insert.mp hu with rfl | hu
      · exact (h.1 v hv).tail ⟨hedge, fun hskip => hnew (.inl hskip)⟩
      · exact h.1 u hu
    · intro u hu
      rcases List.mem_cons.mp hu with rfl | hu
      · exact Finset.mem_insert_self _ _
      · exact Finset.mem_insert_of_mem (h.2 u hu)

lemma Sound.foldl_visit (h : Sound edge root skip w) (hv : v ∈ w.visited) (hedges : ∀ u ∈ nexts, edge v u) :
    Sound edge root skip (nexts.foldl (Worklist.visit skip) w) := by
  induction nexts generalizing w with
  | nil => exact h
  | cons next nexts ih =>
    apply ih (h.visit hv (hedges next List.mem_cons_self)) (visit_visited skip w next hv)
    intro u hu
    exact hedges u (List.mem_cons_of_mem _ hu)

lemma Inv.round (h : Inv edge root skip target w) (hpend : w.pending = v :: rest) (hv : v ≠ target)
    (hedges : ∀ u, edge v u ↔ u ∈ nexts) : Inv edge root skip target (nexts.foldl (visit skip) ⟨w.visited, rest⟩) := by
  have hmem : v ∈ w.visited := h.pending v (hpend ▸ List.mem_cons_self)
  have hsound : Sound edge root skip ⟨w.visited, rest⟩ :=
    ⟨h.reached, fun u hu => h.pending u (hpend ▸ List.mem_cons_of_mem _ hu)⟩
  have hsound' := hsound.foldl_visit hmem fun u hu => (hedges u).mpr hu
  have hmono := foldl_visit_visited skip nexts ⟨w.visited, rest⟩
  refine ⟨hsound'.1, hmono h.root, hsound'.2, ?_⟩
  intro x hx hno
  obtain ⟨hx', hno'⟩ := foldl_visit_settled hx hno
  by_cases hxv : x = v
  · subst hxv
    exact ⟨hv, fun u hu => mem_foldl_visit ((hedges u).mp hu) _⟩
  · have hpend' : x ∉ w.pending := by
      rw [hpend]
      exact List.not_mem_cons_of_ne_of_not_mem hxv hno'
    obtain ⟨htarget, hout⟩ := h.done x hx' hpend'
    exact ⟨htarget, fun u hu => (hout u hu).imp_right fun hu' => hmono hu'⟩

/-- Rounds that are left, of a search in `nodes`. -/
def measure (nodes : Finset α) (w : Worklist α) : Nat := w.pending.length + (nodes \ w.visited).card

lemma visit_measure {nodes next} (hnext : next ∈ nodes) : (w.visit skip next).measure nodes = w.measure nodes := by
  unfold visit
  split
  · rfl
  next hnew =>
    have hin : next ∈ nodes \ w.visited := Finset.mem_sdiff.mpr ⟨hnext, fun hmem => hnew (.inr hmem)⟩
    have hcard := Finset.card_erase_add_one hin
    simp only [measure, List.length_cons, Finset.sdiff_insert]
    omega

lemma foldl_visit_measure {nodes} (hnexts : ∀ u ∈ nexts, u ∈ nodes) :
    (nexts.foldl (visit skip) w).measure nodes = w.measure nodes := by
  induction nexts generalizing w with
  | nil => rfl
  | cons next nexts ih =>
    rw [List.foldl_cons, ih fun u hu => hnexts u (List.mem_cons_of_mem _ hu), visit_measure (hnexts next List.mem_cons_self)]

end visit

end Worklist

end Rut.Lib
