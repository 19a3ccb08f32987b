import Mathlib.Data.List.Nodup
import Mathlib.Data.Sum.Basic
import Mathlib.Logic.Function.Basic
import Mathlib.Tactic.Common

/-!
# Intrusive rings

Circular doubly linked lists whose links are kept in the nodes. Each ring has a head; an element is in one ring at most,
and linked to itself if it is in none. The links represent the list of elements of each ring, from the head on.
-/

namespace Rut.Lib

structure Links (N : Type*) where
  prev : N → N
  next : N → N

namespace Links

variable {N : Type*} {l l' : Links N} {a b n x : N} {xs ys : List N}

def alone : Links N := ⟨id, id⟩

/-- The links lead from `a` over `xs` to `b`, and back. -/
def Path (l : Links N) : N → List N → N → Prop
  | a, [], b => l.next a = b ∧ l.prev b = a
  | a, x :: xs, b => (l.next a = x ∧ l.prev x = a) ∧ l.Path x xs b

lemma path_append : l.Path a (xs ++ n :: ys) b ↔ l.Path a xs n ∧ l.Path n ys b := by
  induction xs generalizing a with
  | nil => rfl
  | cons x xs ih => rw [List.cons_append, Path, Path, ih, and_assoc (b := l.Path x xs n)]

lemma Path.frame (h : l.Path a xs b) (hnext : ∀ x ∈ a :: xs, l'.next x = l.next x)
    (hprev : ∀ x ∈ xs ++ [b], l'.prev x = l.prev x) : l'.Path a xs b := by
  induction xs generalizing a with
  | nil =>
    obtain ⟨hn, hp⟩ := h
    exact ⟨(hnext a List.mem_cons_self).trans hn, (hprev b List.mem_cons_self).trans hp⟩
  | cons x xs ih =>
    obtain ⟨⟨hn, hp⟩, hrest⟩ := h
    refine ⟨⟨(hnext a List.mem_cons_self).trans hn, (hprev x List.mem_cons_self).trans hp⟩, ?_⟩
    exact ih hrest (fun y hy => hnext y (List.mem_cons_of_mem _ hy)) fun y hy => hprev y (List.mem_cons_of_mem _ hy)

lemma Path.next_mem (h : l.Path a xs b) : l.next a ∈ xs ++ [b] := by
  cases xs with
  | nil => exact List.mem_singleton.mpr h.1
  | cons x xs => exact List.mem_append_left _ (h.1.1 ▸ List.mem_cons_self)

lemma Path.prev_mem (h : l.Path a xs b) : l.prev b ∈ a :: xs := by
  induction xs generalizing a with
  | nil => exact List.mem_singleton.mpr h.2
  | cons x xs ih => exact List.mem_cons_of_mem _ (ih h.2)

variable [DecidableEq N]

def remove (l : Links N) (n : N) : Links N where
  prev := Function.update l.prev (l.next n) (l.prev n)
  next := Function.update l.next (l.prev n) (l.next n)

def init (l : Links N) (n : N) : Links N where
  prev := Function.update l.prev n n
  next := Function.update l.next n n

def insertAfter (l : Links N) (a n : N) : Links N where
  prev := Function.update (Function.update l.prev n a) (l.next a) n
  next := Function.update (Function.update l.next n (l.next a)) a n

def detach (l : Links N) (n : N) : Links N := (l.remove n).init n

lemma next_detach (l : Links N) (n : N) :
    (l.detach n).next = Function.update (Function.update l.next (l.prev n) (l.next n)) n n := rfl

lemma prev_detach (l : Links N) (n : N) :
    (l.detach n).prev = Function.update (Function.update l.prev (l.next n) (l.prev n)) n n := rfl

lemma detach_next (l : Links N) (n : N) : (l.detach n).next n = n := Function.update_self ..

lemma detach_prev (l : Links N) (n : N) : (l.detach n).prev n = n := Function.update_self ..

lemma detach_next_of_ne (hn : x ≠ n) (hp : x ≠ l.prev n) : (l.detach n).next x = l.next x := by
  rw [next_detach, Function.update_of_ne hn, Function.update_of_ne hp]

lemma detach_prev_of_ne (hn : x ≠ n) (hp : x ≠ l.next n) : (l.detach n).prev x = l.prev x := by
  rw [prev_detach, Function.update_of_ne hn, Function.update_of_ne hp]

lemma detach_alone (hn : l.next n = n) (hp : l.prev n = n) : l.detach n = l := by
  have hnext : (l.detach n).next = l.next := by
    funext x
    by_cases hx : x = n
    · rw [hx, detach_next, hn]
    · exact detach_next_of_ne hx (hp.symm ▸ hx)
  have hprev : (l.detach n).prev = l.prev := by
    funext x
    by_cases hx : x = n
    · rw [hx, detach_prev, hp]
    · exact detach_prev_of_ne hx (hn.symm ▸ hx)
  cases l
  exact congrArg₂ Links.mk hprev hnext

lemma Path.detach (h : l.Path a (xs ++ n :: ys) b) (hsource : (a :: xs ++ n :: ys).Nodup)
    (htarget : (xs ++ n :: ys ++ [b]).Nodup) : (l.detach n).Path a (xs ++ ys) b := by
  induction xs generalizing a with
  | nil =>
    obtain ⟨⟨hna, hpn⟩, hrest⟩ := h
    rw [List.singleton_append, List.nodup_cons, List.mem_cons, not_or] at hsource
    rw [List.nil_append, List.cons_append, List.nodup_cons] at htarget
    have hnext : (l.detach n).next a = l.next n := by
      rw [next_detach, Function.update_of_ne hsource.1.1, ← hpn, Function.update_self]
    have hprev : (l.detach n).prev (l.next n) = a := by
      have hne : l.next n ≠ n := fun heq => htarget.1 (heq ▸ hrest.next_mem)
      rw [prev_detach, Function.update_of_ne hne, Function.update_self, hpn]
    cases ys with
    | nil =>
      obtain ⟨hnb, -⟩ := hrest
      exact ⟨hnext.trans hnb, hnb ▸ hprev⟩
    | cons y ys =>
      obtain ⟨⟨hny, -⟩, hrest⟩ := hrest
      refine ⟨⟨hnext.trans hny, hny ▸ hprev⟩, hrest.frame (fun x hx => ?_) fun x hx => ?_⟩
      · refine detach_next_of_ne ?_ ?_
        · rintro rfl
          exact htarget.1 (List.mem_append_left _ hx)
        · rintro rfl
          exact hsource.1.2 (hpn ▸ hx)
      · refine detach_prev_of_ne ?_ ?_
        · rintro rfl
          exact htarget.1 (List.mem_cons_of_mem _ hx)
        · rw [hny]
          rintro rfl
          exact (List.nodup_cons.mp htarget.2).1 hx
  | cons x xs ih =>
    obtain ⟨⟨hna, hpx⟩, hrest⟩ := h
    rw [List.cons_append, List.cons_append, List.nodup_cons] at hsource
    rw [List.cons_append, List.cons_append, List.nodup_cons] at htarget
    refine ⟨⟨?_, ?_⟩, ih hrest hsource.2 htarget.2⟩
    · rw [detach_next_of_ne, hna]
      · rintro rfl
        exact hsource.1 (List.mem_cons_of_mem _ (List.mem_append_right _ List.mem_cons_self))
      · intro heq
        have hmem := (path_append.mp hrest).1.prev_mem
        exact hsource.1 (heq ▸ List.mem_append_left _ hmem)
    · rw [detach_prev_of_ne, hpx]
      · rintro rfl
        exact htarget.1 (List.mem_append_left _ (List.mem_append_right _ List.mem_cons_self))
      · intro heq
        have hmem := (path_append.mp hrest).2.next_mem
        refine htarget.1 (heq ▸ ?_)
        rw [List.append_assoc, List.cons_append]
        exact List.mem_append_right _ (List.mem_cons_of_mem _ hmem)

lemma next_insertAfter (l : Links N) (a n : N) :
    (l.insertAfter a n).next = Function.update (Function.update l.next n (l.next a)) a n := rfl

lemma prev_insertAfter (l : Links N) (a n : N) :
    (l.insertAfter a n).prev = Function.update (Function.update l.prev n a) (l.next a) n := rfl

lemma insertAfter_next_self (l : Links N) (a n : N) : (l.insertAfter a n).next a = n := Function.update_self ..

lemma insertAfter_next_of_ne (ha : x ≠ a) (hn : x ≠ n) : (l.insertAfter a n).next x = l.next x := by
  rw [next_insertAfter, Function.update_of_ne ha, Function.update_of_ne hn]

lemma insertAfter_prev_of_ne (ha : x ≠ l.next a) (hn : x ≠ n) : (l.insertAfter a n).prev x = l.prev x := by
  rw [prev_insertAfter, Function.update_of_ne ha, Function.update_of_ne hn]

/-- A node that is put behind `a` comes first on the path. -/
lemma Path.insertAfter (h : l.Path a xs b) (hsource : (a :: xs).Nodup) (htarget : (xs ++ [b]).Nodup)
    (hn : n ∉ a :: xs) (hb : n ≠ b) : (l.insertAfter a n).Path a (n :: xs) b := by
  rw [List.mem_cons, not_or] at hn
  have hne : l.next a ≠ n := by
    intro heq
    rcases List.mem_append.mp (heq ▸ h.next_mem) with hmem | hmem
    · exact hn.2 hmem
    · exact hb (List.mem_singleton.mp hmem)
  have hprev : (l.insertAfter a n).prev n = a := by
    rw [prev_insertAfter, Function.update_of_ne hne.symm, Function.update_self]
  have hnext : (l.insertAfter a n).next n = l.next a := by
    rw [next_insertAfter, Function.update_of_ne hn.1, Function.update_self]
  have hback : (l.insertAfter a n).prev (l.next a) = n := Function.update_self ..
  refine ⟨⟨insertAfter_next_self l a n, hprev⟩, ?_⟩
  cases xs with
  | nil =>
    obtain ⟨hab, -⟩ := h
    exact ⟨hnext.trans hab, hab ▸ hback⟩
  | cons x xs =>
    obtain ⟨⟨hax, -⟩, hrest⟩ := h
    refine ⟨⟨hnext.trans hax, hax ▸ hback⟩, hrest.frame (fun y hy => ?_) fun y hy => ?_⟩
    · refine insertAfter_next_of_ne ?_ ?_
      · rintro rfl
        exact (List.nodup_cons.mp hsource).1 hy
      · rintro rfl
        exact hn.2 hy
    · refine insertAfter_prev_of_ne ?_ ?_
      · rw [hax]
        rintro rfl
        exact (List.nodup_cons.mp htarget).1 hy
      · rintro rfl
        rcases List.mem_append.mp hy with hy | hy
        · exact hn.2 (List.mem_cons_of_mem _ hy)
        · exact hb (List.mem_singleton.mp hy)

/-! ## Rings with heads -/

variable {H E : Type*} {L : H → List E} {h : H} {e : E}

structure Represents (l : Links (H ⊕ E)) (L : H → List E) : Prop where
  path : ∀ h, l.Path (.inl h) ((L h).map .inr) (.inl h)
  nodup : ∀ h, (L h).Nodup
  disjoint : ∀ h h' e, e ∈ L h → e ∈ L h' → h = h'
  free : ∀ e, (∀ h, e ∉ L h) → l.next (.inr e) = .inr e ∧ l.prev (.inr e) = .inr e

lemma represents_alone : (alone : Links (H ⊕ E)).Represents fun _ => [] :=
  ⟨fun _ => ⟨rfl, rfl⟩, fun _ => List.nodup_nil, (fun _ _ _ he => absurd he List.not_mem_nil), fun _ _ => ⟨rfl, rfl⟩⟩

lemma sources_nodup {xs : List E} (hxs : xs.Nodup) : ((.inl h : H ⊕ E) :: xs.map .inr).Nodup := by
  refine List.nodup_cons.mpr ⟨fun hmem => ?_, hxs.map Sum.inr_injective⟩
  obtain ⟨x, -, hx⟩ := List.mem_map.mp hmem
  cases hx

lemma targets_nodup {xs : List E} (hxs : xs.Nodup) : (xs.map Sum.inr ++ [Sum.inl h]).Nodup := by
  refine List.nodup_append.mpr ⟨hxs.map Sum.inr_injective, List.nodup_singleton _, ?_⟩
  intro x hx y hy heq
  obtain ⟨e, -, rfl⟩ := List.mem_map.mp hx
  cases List.mem_singleton.mp hy
  cases heq

lemma mem_sources {xs : List E} {x : H ⊕ E} :  x ∈ .inl h :: xs.map .inr ↔ x ∈ xs.map .inr ++ [.inl h] := by
  rw [List.mem_cons, List.mem_append, List.mem_singleton, or_comm]

lemma Represents.ring_unique {l : Links (H ⊕ E)} (hr : l.Represents L) {h h'} {x : H ⊕ E} (hx : x ∈ .inl h :: (L h).map .inr)
    (hx' : x ∈ .inl h' :: (L h').map .inr) : h = h' := by
  cases x with
  | inl k =>
    have hhead : ∀ {h : H}, (.inl k : H ⊕ E) ∈ .inl h :: (L h).map .inr → k = h := by
      intro h hmem
      rcases List.mem_cons.mp hmem with heq | hmem
      · exact Sum.inl_injective heq
      · obtain ⟨y, -, hy⟩ := List.mem_map.mp hmem
        cases hy
    exact (hhead hx).symm.trans (hhead hx')
  | inr e =>
    have helem : ∀ {h : H}, (.inr e : H ⊕ E) ∈ .inl h :: (L h).map .inr → e ∈ L h := by
      intro h hmem
      rcases List.mem_cons.mp hmem with heq | hmem
      · cases heq
      · exact (List.mem_map_of_injective Sum.inr_injective).mp hmem
    exact hr.disjoint h h' e (helem hx) (helem hx')

variable [DecidableEq H] [DecidableEq E]

lemma Represents.detach {l : Links (H ⊕ E)} (hr : l.Represents L) (e : E) :
    (l.detach (.inr e)).Represents fun h => (L h).erase e := by
  by_cases hfree : ∀ h, e ∉ L h
  · obtain ⟨hn, hp⟩ := hr.free e hfree
    rw [detach_alone hn hp]
    have hsame : (fun h => (L h).erase e) = L := by
      funext h
      exact List.erase_of_not_mem (hfree h)
    rw [hsame]
    exact hr
  · push Not at hfree
    obtain ⟨h₀, he⟩ := hfree
    obtain ⟨xs, ys, hsplit⟩ := List.append_of_mem he
    have hpath := hr.path h₀
    have hnodup := hr.nodup h₀
    rw [hsplit] at hnodup
    have herase : (L h₀).erase e = xs ++ ys := by
      have hne : e ∉ xs := fun hmem => List.disjoint_of_nodup_append hnodup hmem List.mem_cons_self
      rw [hsplit, List.erase_append_right _ hne, List.erase_cons_head]
    have hsource := sources_nodup (h := h₀) hnodup
    have htarget := targets_nodup (h := h₀) hnodup
    rw [hsplit, List.map_append, List.map_cons] at hpath
    rw [List.map_append, List.map_cons] at hsource htarget
    have hring : ∀ x ∈ (.inl h₀ : H ⊕ E) :: xs.map .inr ++ .inr e :: ys.map .inr, x ∈ .inl h₀ :: (L h₀).map .inr := by
      intro x hx
      rw [hsplit, List.map_append, List.map_cons]
      exact hx
    have hprev : l.prev (.inr e) ∈ .inl h₀ :: (L h₀).map .inr :=
      hring _ (List.mem_append_left _ (path_append.mp hpath).1.prev_mem)
    have hnext : l.next (.inr e) ∈ .inl h₀ :: (L h₀).map .inr := by
      refine mem_sources.mpr ?_
      rw [hsplit, List.map_append, List.map_cons, List.append_assoc, List.cons_append]
      exact List.mem_append_right _ (List.mem_cons_of_mem _ (path_append.mp hpath).2.next_mem)
    have hself : (.inr e : H ⊕ E) ∈ .inl h₀ :: (L h₀).map .inr :=
      hring _ (List.mem_append_right _ List.mem_cons_self)
    refine ⟨fun h => ?_, fun h => (hr.nodup h).erase e, fun h h' x hx hx' => ?_, fun x hx => ?_⟩
    · by_cases hh : h = h₀
      · subst hh
        rw [herase, List.map_append]
        exact hpath.detach hsource htarget
      · have herase' : (L h).erase e = L h :=
          List.erase_of_not_mem fun hmem => hh (hr.disjoint h h₀ e hmem he)
        rw [herase']
        refine (hr.path h).frame (fun x hx => ?_) fun x hx => ?_
        · exact detach_next_of_ne (fun heq => hh (hr.ring_unique (heq ▸ hx) hself))
            fun heq => hh (hr.ring_unique (heq ▸ hx) hprev)
        · rw [← mem_sources] at hx
          exact detach_prev_of_ne (fun heq => hh (hr.ring_unique (heq ▸ hx) hself))
            fun heq => hh (hr.ring_unique (heq ▸ hx) hnext)
    · exact hr.disjoint h h' x (List.mem_of_mem_erase hx) (List.mem_of_mem_erase hx')
    · by_cases hxe : x = e
      · rw [hxe]
        exact ⟨detach_next .., detach_prev ..⟩
      · have hout : ∀ h, x ∉ L h := fun h hmem => hx h ((List.mem_erase_of_ne hxe).mpr hmem)
        obtain ⟨hn, hp⟩ := hr.free x hout
        have hnot : ∀ y ∈ .inl h₀ :: (L h₀).map .inr, (.inr x : H ⊕ E) ≠ y := by
          rintro y hy rfl
          rcases List.mem_cons.mp hy with hy | hy
          · cases hy
          · exact hout h₀ ((List.mem_map_of_injective Sum.inr_injective).mp hy)
        rw [detach_next_of_ne (hnot _ hself) (hnot _ hprev), detach_prev_of_ne (hnot _ hself) (hnot _ hnext)]
        exact ⟨hn, hp⟩

lemma Represents.insertAfter {l : Links (H ⊕ E)} (hr : l.Represents L) (h₀ : H) (hfree : ∀ h, e ∉ L h) :
    (l.insertAfter (.inl h₀) (.inr e)).Represents (Function.update L h₀ (e :: L h₀)) := by
  have hnot : ∀ h, (.inr e : H ⊕ E) ∉ .inl h :: (L h).map .inr := by
    intro h hmem
    rcases List.mem_cons.mp hmem with hmem | hmem
    · cases hmem
    · exact hfree h ((List.mem_map_of_injective Sum.inr_injective).mp hmem)
  have hnext : l.next (.inl h₀) ∈ .inl h₀ :: (L h₀).map .inr := mem_sources.mpr (hr.path h₀).next_mem
  refine ⟨fun h => ?_, fun h => ?_, fun h h' x hx hx' => ?_, fun x hx => ?_⟩
  · by_cases hh : h = h₀
    · subst hh
      rw [Function.update_self, List.map_cons]
      exact (hr.path h).insertAfter (sources_nodup (hr.nodup h)) (targets_nodup (hr.nodup h)) (hnot h) Sum.inr_ne_inl
    · rw [Function.update_of_ne hh]
      refine (hr.path h).frame (fun x hx => ?_) fun x hx => ?_
      · refine insertAfter_next_of_ne (fun heq => ?_) fun heq => hnot h (heq ▸ hx)
        exact hh (hr.ring_unique hx (heq ▸ List.mem_cons_self))
      · rw [← mem_sources] at hx
        exact insertAfter_prev_of_ne (fun heq => hh (hr.ring_unique (heq ▸ hx) hnext)) fun heq => hnot h (heq ▸ hx)
  · by_cases hh : h = h₀
    · rw [hh, Function.update_self]
      exact List.nodup_cons.mpr ⟨hfree h₀, hr.nodup h₀⟩
    · rw [Function.update_of_ne hh]
      exact hr.nodup h
  · have hmem : ∀ {h : H}, x ∈ Function.update L h₀ (e :: L h₀) h → x = e ∧ h = h₀ ∨ x ∈ L h := by
      intro h hx
      by_cases hh : h = h₀
      · rw [hh, Function.update_self] at hx
        exact (List.mem_cons.mp hx).imp (fun heq => ⟨heq, hh⟩) fun hx => hh ▸ hx
      · rw [Function.update_of_ne hh] at hx
        exact .inr hx
    rcases hmem hx with ⟨rfl, hh⟩ | hx <;> rcases hmem hx' with ⟨hxe, hh'⟩ | hx'
    · exact hh.trans hh'.symm
    · exact absurd hx' (hfree h')
    · exact absurd (hxe ▸ hx) (hfree h)
    · exact hr.disjoint h h' x hx hx'
  · have hxe : x ≠ e := by
      rintro rfl
      have := hx h₀
      rw [Function.update_self] at this
      exact this List.mem_cons_self
    have hout : ∀ h, x ∉ L h := by
      intro h hmem
      refine hx h ?_
      by_cases hh : h = h₀
      · rw [hh, Function.update_self]
        exact List.mem_cons_of_mem _ (hh ▸ hmem)
      · rw [Function.update_of_ne hh]
        exact hmem
    obtain ⟨hn, hp⟩ := hr.free x hout
    have hne : (.inr x : H ⊕ E) ≠ .inr e := fun heq => hxe (Sum.inr_injective heq)
    have hring : (.inr x : H ⊕ E) ≠ l.next (.inl h₀) := by
      intro heq
      rw [← heq] at hnext
      rcases List.mem_cons.mp hnext with hmem | hmem
      · cases hmem
      · exact hout h₀ ((List.mem_map_of_injective Sum.inr_injective).mp hmem)
    rw [insertAfter_next_of_ne Sum.inr_ne_inl hne, insertAfter_prev_of_ne hring hne]
    exact ⟨hn, hp⟩

end Links

end Rut.Lib
