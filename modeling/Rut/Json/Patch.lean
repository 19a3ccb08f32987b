import Rut.Json.Update

/-!
# Changes by node index

The nodes of a document are numbered in the order of its text, a member name before its value.
`patch` changes the value with a given number, as `Document::write` does, and `locate` follows a
pointer to a number, as `Document::pointer` does. Both together are the update at the pointer.
-/

namespace Rut.Json

variable {ρ σ : Type}

/-- The value number `target` changed by `g`, or taken out, in values numbered from `base` on. -/
def Forest.patch (target : Option Nat) (g : Value ρ → Option (Value ρ)) : Nat → Forest ρ → Forest ρ
  | _, .nil => .nil
  | base, .cons name mark shape children next =>
    match (if target = some (base + name.toList.length) then g ⟨mark, shape, children⟩
      else some ⟨mark, shape, patch target g (base + name.toList.length + 1) children⟩) with
    | none => patch target g (base + name.toList.length + 1 + children.size) next
    | some v => .item name v (patch target g (base + name.toList.length + 1 + children.size) next)

/-- The same for the value number `id`. -/
def Value.patch (target : Option Nat) (g : Value ρ → Option (Value ρ)) (id : Nat) (v : Value ρ) : Option (Value ρ) :=
  if target = some id then g v else some { v with children := v.children.patch target g (id + 1) }

def Forest.itemIf (name : Option (ρ × Str)) : Option (Value ρ) → Forest ρ → Forest ρ
  | none, next => next
  | some v, next => .item name v next

def Forest.locate : Nat → Nat → Forest ρ → Option (Nat × Value ρ)
  | _, _, .nil => none
  | base, 0, .cons name mark shape children _ => some (base + name.toList.length, ⟨mark, shape, children⟩)
  | base, i + 1, .cons name _ _ children next => next.locate (base + name.toList.length + 1 + children.size) i

def Value.locate : List Str → Nat → Value ρ → Option (Nat × Value ρ)
  | [], id, v => some (id, v)
  | token :: tokens, id, v =>
    match v.select token with
    | none => none
    | some i =>
      match v.children.locate (id + 1) i with
      | none => none
      | some (child, u) => u.locate tokens child

section
variable {target : Option Nat} {g : Value ρ → Option (Value ρ)} {base id i k t : Nat} {f : Forest ρ} {v u : Value ρ}
  {tokens : List Str}

lemma Forest.patch_item (name : Option (ρ × Str)) (next : Forest ρ) : (Forest.item name v next).patch target g base =
      itemIf name (v.patch target g (base + name.toList.length))
        (next.patch target g (base + name.toList.length + v.size)) := by
  rw [item, patch, Value.patch, Value.size, Nat.add_assoc _ 1, Nat.add_comm 1]
  split <;> rename_i h <;> rw [h] <;> rfl

lemma Forest.patch_outside (h : ∀ k, target = some k → k < base ∨ base + f.size ≤ k) : f.patch target g base = f := by
  induction f generalizing base with
  | nil => rfl
  | cons name mark shape children next ihc ihn =>
    rw [size] at h
    have hid : target ≠ some (base + name.toList.length) := fun hk => by have := h _ hk; omega
    rw [patch, if_neg hid]
    rw [ihc fun k hk => by have := h k hk; omega, ihn fun k hk => by have := h k hk; omega]
    rfl

lemma Forest.locate_range (h : f.locate base i = some (k, u)) : base ≤ k ∧ k + u.size ≤ base + f.size := by
  induction f generalizing base i with
  | nil => cases i <;> cases h
  | cons name mark shape children next _ ihn =>
    rw [size]
    cases i with
    | zero =>
      cases h
      simp only [Value.size]
      omega
    | succ i =>
      have := ihn h
      omega

lemma Value.locate_range (h : v.locate tokens id = some (t, u)) : id ≤ t ∧ t + u.size ≤ id + v.size := by
  induction tokens generalizing v id with
  | nil =>
    cases h
    exact ⟨Nat.le_refl _, Nat.le_refl _⟩
  | cons token tokens ih =>
    rw [locate] at h
    split at h
    next => cases h
    next i _ =>
      split at h
      next => cases h
      next child c hc =>
        have hchild := Forest.locate_range hc
        have hinside := ih h
        simp only [Value.size] at hchild hinside ⊢
        omega

lemma Forest.updateAt_patch (h : f.locate base i = some (k, u)) (hk : k ≤ t) (ht : t < k + u.size)
    {G} (hG : G u = some (u.patch (some t) g k)) : f.updateAt G i = some (f.patch (some t) g base) := by
  induction f generalizing base i with
  | nil => cases i <;> cases h
  | cons name mark shape children next _ ihn =>
    have hitem := @Forest.patch_item ρ (some t) g base ⟨mark, shape, children⟩ name next
    rw [item] at hitem
    rw [hitem]
    cases i with
    | zero =>
      cases h
      have hnext : next.patch (some t) g (base + name.toList.length + Value.size ⟨mark, shape, children⟩) = next := by
        apply patch_outside
        rintro k ⟨⟩
        exact .inl ht
      rw [updateAt, hG, hnext]
      cases Value.patch (some t) g (base + name.toList.length) ⟨mark, shape, children⟩ <;> rfl
    | succ i =>
      have hnext : next.locate (base + name.toList.length + 1 + children.size) i = some (k, u) := h
      have hrange := locate_range hnext
      have hhere : Value.patch (some t) g (base + name.toList.length) ⟨mark, shape, children⟩ =
          some ⟨mark, shape, children⟩ := by
        rw [Value.patch, if_neg (by simp; omega)]
        simp only
        rw [patch_outside]
        rintro k ⟨⟩
        exact .inr (by omega)
      rw [updateAt, ihn hnext, hhere, Value.size]
      simp only [← Nat.add_assoc, Nat.add_right_comm _ children.size 1]
      rfl

lemma Forest.updateAt_none (base : Nat) {G}
    (h : ∀ k u, f.locate base i = some (k, u) → G u = none) : f.updateAt G i = none := by
  induction f generalizing base i with
  | nil => cases i <;> rfl
  | cons name mark shape children next _ ihn =>
    cases i with
    | zero => rw [updateAt, h _ _ rfl]
    | succ i => rw [updateAt, ihn _ h, Option.map_none]

lemma Value.update_patch (h : v.locate tokens id = some (t, u)) {G}
    (hG : G u = some (g u)) : v.update G tokens = some (v.patch (some t) g id) := by
  induction tokens generalizing v id with
  | nil =>
    cases h
    rw [update, hG, patch, if_pos rfl]
  | cons token tokens ih =>
    rw [locate] at h
    split at h
    next => cases h
    next i hi =>
      split at h
      next => cases h
      next child c hc =>
        have hchild := Forest.locate_range hc
        have hinside := locate_range h
        have hu : 0 < u.size := Nat.succ_pos _
        rw [update, hi]
        simp only
        rw [Forest.updateAt_patch hc (by omega) (by omega) (ih h), patch, if_neg (by simp; omega)]
        rfl

lemma Value.update_none (id : Nat) {G}
    (h : ∀ t u, v.locate tokens id = some (t, u) → G u = none) : v.update G tokens = none := by
  induction tokens generalizing v id with
  | nil => exact h id v rfl
  | cons token tokens ih =>
    rw [update]
    split
    next => rfl
    next i hi =>
      rw [Forest.updateAt_none (id + 1), Option.map_none]
      intro k c hc
      apply ih k
      intro t u htu
      apply h t u
      rw [locate, hi]
      simp only
      rw [hc]
      exact htu

end

/-! ## Other marks -/

section
variable (e : ρ → σ)

@[simp] lemma Forest.size_map (f : Forest ρ) : (f.map e).size = f.size := by
  induction f with
  | nil => rfl
  | cons name mark shape children next ihc ihn =>
    rw [map, size, size, ihc, ihn]
    cases name <;> rfl

lemma Forest.map_map {τ} (e' : σ → τ) (f : Forest ρ) : (f.map e).map e' = f.map fun m => e' (e m) := by
  induction f with
  | nil => rfl
  | cons name mark shape children next ihc ihn =>
    rw [map, map, map, ihc, ihn]
    cases name <;> rfl

lemma Value.map_map {τ} (e' : σ → τ) (v : Value ρ) : (v.map e).map e' = v.map fun m => e' (e m) := by
  rw [map, map, map, Forest.map_map]

lemma Forest.position_map (name : Str) (f : Forest ρ) : (f.map e).position name = f.position name := by
  induction f with
  | nil => rfl
  | cons n mark shape children next _ ihn =>
    rw [map, position, position, ihn]
    cases n <;> rfl

lemma Forest.locate_position {name} {f : Forest ρ} {i} (h : f.position name = some i) (base : Nat) :
    ∃ r, f.locate base i = some r := by
  induction f generalizing base i with
  | nil => cases h
  | cons n mark shape children next _ ihn =>
    rw [position] at h
    split at h
    next =>
      cases h
      exact ⟨_, rfl⟩
    next =>
      rw [Option.map_eq_some_iff] at h
      obtain ⟨j, hj, rfl⟩ := h
      exact ihn hj _

lemma Value.select_map (token : Str) (v : Value ρ) : (v.map e).select token = v.select token := by
  obtain ⟨mark, shape, children⟩ := v
  cases shape <;> first | rfl | exact Forest.position_map e token children

lemma Forest.locate_map (base i : Nat) (f : Forest ρ) :
    (f.map e).locate base i = (f.locate base i).map fun r => (r.1, r.2.map e) := by
  induction f generalizing base i with
  | nil => cases i <;> rfl
  | cons name mark shape children next _ ihn =>
    have hname : (name.map fun n => (e n.1, n.2)).toList.length = name.toList.length := by cases name <;> rfl
    cases i with
    | zero =>
      rw [map, locate, locate, hname]
      rfl
    | succ i => rw [map, locate, locate, hname, size_map, ihn]

lemma Value.locate_map (tokens : List Str) (id : Nat) (v : Value ρ) :
    (v.map e).locate tokens id = (v.locate tokens id).map fun r => (r.1, r.2.map e) := by
  induction tokens generalizing v id with
  | nil => rfl
  | cons token tokens ih =>
    rw [locate, locate, select_map]
    cases v.select token with
    | none => rfl
    | some i =>
      simp only
      rw [show (v.map e).children = v.children.map e from rfl, Forest.locate_map]
      cases v.children.locate (id + 1) i with
      | none => rfl
      | some r => exact ih r.1 r.2

lemma Forest.map_itemIf (name : Option (ρ × Str)) (v : Option (Value ρ)) (next : Forest ρ) :
    (itemIf name v next).map e = itemIf (name.map fun n => (e n.1, n.2)) (v.map fun v => v.map e) (next.map e) := by
  cases v <;> rfl

end

section
variable {τ : Type} {target : Option Nat} {g : Value σ → Option (Value σ)} {g' : Value τ → Option (Value τ)}

lemma Forest.patch_map (m : ρ → σ) (e : σ → τ)
    (hg : ∀ v : Value ρ, (g (v.map m)).map (fun v => v.map e) = g' (v.map fun r => e (m r))) (base : Nat) (f : Forest ρ) :
    ((f.map m).patch target g base).map e = (f.map fun r => e (m r)).patch target g' base := by
  induction f generalizing base with
  | nil => rfl
  | cons name mark shape children next ihc ihn =>
    have hname : (name.map fun n => (m n.1, n.2)).toList.length = name.toList.length := by cases name <;> rfl
    have hname' : (name.map fun n => (e (m n.1), n.2)).toList.length = name.toList.length := by cases name <;> rfl
    have hitem := @Forest.patch_item σ target g base ⟨m mark, shape, children.map m⟩
      (name.map fun n => (m n.1, n.2)) (next.map m)
    have hitem' := @Forest.patch_item τ target g' base ⟨e (m mark), shape, children.map fun r => e (m r)⟩
      (name.map fun n => (e (m n.1), n.2)) (next.map fun r => e (m r))
    rw [item] at hitem hitem'
    rw [map, map, hitem, map_itemIf, hitem', Value.size, Value.size, size_map, size_map, ihn, hname, hname']
    congr 1
    · cases name <;> rfl
    · rw [Value.patch, Value.patch]
      split
      next => exact hg ⟨mark, shape, children⟩
      next => simp only [Option.map_some, Value.map, ihc]

lemma Value.patch_map (m : ρ → σ) (e : σ → τ)
    (hg : ∀ v : Value ρ, (g (v.map m)).map (fun v => v.map e) = g' (v.map fun r => e (m r))) (id : Nat) (v : Value ρ) :
    ((v.map m).patch target g id).map (fun v => v.map e) = (v.map fun r => e (m r)).patch target g' id := by
  rw [patch, patch]
  split
  next => exact hg v
  next => simp only [Option.map_some, map, Forest.patch_map m e hg]

end

/-! ## Texts of changed values -/

def KeepsText (g : Value (Option Str) → Option (Value (Option Str))) : Prop :=
  ∀ v, v.Printable → ∀ u ∈ g v, u.Printable

def appending (obj : Bool) (name : Option (Option Str × Str)) (new v : Value (Option Str)) :
    Option (Value (Option Str)) :=
  if v.mark = none ∧ v.shape = container obj then some (v.append name new) else some v

lemma Forest.Printable.snoc {f : Forest (Option Str)} {obj name new} (h : f.Printable obj) (hobj : name.isSome = obj) (hname : ∀ n ∈ name, WellFormed n.2)
    (hnew : new.Printable) : (f.snoc name new).Printable obj := by
  induction f with
  | nil => exact ⟨⟨hobj, hname⟩, hnew, trivial⟩
  | cons n mark shape children next _ ihn => exact ⟨h.1, h.2.1, ihn h.2.2⟩

lemma appending_keepsText {obj name new}
    (hobj : name.isSome = obj) (hname : ∀ n ∈ name, WellFormed n.2) (hnew : new.Printable) :
    KeepsText (appending obj name new) := by
  rintro ⟨mark, shape, children⟩ hv u hu
  rw [appending] at hu
  split at hu
  next hcond =>
    obtain ⟨rfl, rfl⟩ := hcond
    cases hu
    cases obj
    · exact Forest.Printable.snoc hv hobj hname hnew
    · exact Forest.Printable.snoc hv hobj hname hnew
  next =>
    cases hu
    exact hv

section
variable {target : Option Nat} {g : Value (Option Str) → Option (Value (Option Str))}

lemma Value.Printable.patch_of {v : Value ρ} (hg : KeepsText g) (h : (v.map fun _ => none).Printable) (id : Nat)
    (hchildren : ∀ obj, (v.children.map fun _ => none).Printable obj →
      ((v.children.map fun _ => none).patch target g (id + 1)).Printable obj) :
    ∀ u ∈ (v.map fun _ => none).patch target g id, u.Printable := by
  intro u hu
  rw [Value.patch] at hu
  split at hu
  next => exact hg _ h u hu
  next =>
    cases hu
    obtain ⟨mark, shape, children⟩ := v
    have hnil : (children.map fun _ => (none : Option Str)) = .nil →
        (children.map fun _ => (none : Option Str)).patch target g (id + 1) = .nil := by
      intro hnil
      rw [hnil]
      rfl
    cases shape with
    | null => exact hnil h
    | boolean b => exact hnil h
    | number lexeme => exact ⟨h.1, hnil h.2⟩
    | string content => exact ⟨h.1, hnil h.2⟩
    | array => exact hchildren false h
    | object => exact hchildren true h

lemma Forest.Printable.patch {f : Forest ρ} {obj} (hg : KeepsText g)
    (h : (f.map fun _ => none).Printable obj) (base : Nat) :
    ((f.map fun _ => none).patch target g base).Printable obj := by
  induction f generalizing obj base with
  | nil => trivial
  | cons name mark shape children next ihc ihn =>
    obtain ⟨hname, hv, hnext⟩ := h
    have hitem := @Forest.patch_item (Option Str) target g base ⟨none, shape, children.map fun _ => none⟩
      (name.map fun n => (none, n.2)) (next.map fun _ => none)
    rw [item] at hitem
    rw [map, hitem]
    have hvalue := @Value.Printable.patch_of ρ target g ⟨mark, shape, children⟩ hg hv
      (base + (name.map fun n => ((none : Option Str), n.2)).toList.length) fun obj hobj => ihc hobj _
    have hrest := ihn hnext (base + (name.map fun n => ((none : Option Str), n.2)).toList.length +
      Value.size (⟨none, shape, children.map fun _ => none⟩ : Value (Option Str)))
    cases hp : Value.patch target g (base + (name.map fun n => ((none : Option Str), n.2)).toList.length)
      (⟨none, shape, children.map fun _ => none⟩ : Value (Option Str)) with
    | none => exact hrest
    | some u => exact ⟨hname, hvalue u hp, hrest⟩

lemma Value.Printable.patch {v : Value ρ} (hg : KeepsText g) (h : (v.map fun _ => none).Printable) (id : Nat) :
    ∀ u ∈ (v.map fun _ => none).patch target g id, u.Printable :=
  Value.Printable.patch_of hg h id fun _ hobj => hobj.patch hg _

end

end Rut.Json
