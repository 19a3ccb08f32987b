import Rut.Json.Parse
import Rut.Json.Patch
import Rut.Json.Write

/-!
# Following pointers through the pool

`Document::pointer` against `Value.locate`: the loops over the children of a node, the array
indices and the reference tokens of a pointer.
-/

namespace Rut.Json.Document

variable {d : Document} {id base i k turns : Nat} {head : Option Nat} {f : Forest Span} {v u : Value Span}
  {tokens : List Str}

/-- Node `id` of the pool is a value, and its text can be written again. -/
structure Stands (d : Document) (id : Nat) (v : Value Span) : Prop where
  shows : d.Shows id v.mark v.shape
  holds : d.Holds v.children (id + 1) (d.nodes id).child
  room : id + v.size ≤ d.count
  printable : (v.map fun _ => none).Printable

structure Stand (d : Document) (obj : Bool) (f : Forest Span) (base : Nat) (head : Option Nat) : Prop where
  holds : d.Holds f base head
  room : base + f.size ≤ d.count
  printable : (f.map fun _ => none).Printable obj

/-! ## Children -/

lemma atLoop_eq (h : d.Holds f base head) (i : Nat) : d.atLoop i head = (f.locate base i).map Prod.fst := by
  induction f generalizing base head i with
  | nil =>
    cases h
    cases i <;> rfl
  | cons n mark shape children next _ ihn =>
    obtain ⟨rfl, -, -, -, -, hnext⟩ := h
    cases i with
    | zero => rfl
    | succ i => exact ihn hnext i

lemma Stand.tail {obj n mark shape children next} (h : d.Stand obj (.cons n mark shape children next) base head) :
    d.Stand obj next (base + n.toList.length + 1 + children.size) (d.nodes (base + n.toList.length)).next := by
  have hroom := h.room
  rw [Forest.size] at hroom
  exact ⟨h.holds.2.2.2.2.2, by omega, h.printable.2.2⟩

lemma Stand.first {obj n mark shape children next} (h : d.Stand obj (.cons n mark shape children next) base head) :
    d.Stands (base + n.toList.length) ⟨mark, shape, children⟩ := by
  have hroom := h.room
  rw [Forest.size] at hroom
  obtain ⟨-, -, -, hshows, hchildren, -⟩ := h.holds
  exact ⟨hshows, hchildren, by simp only [Value.size]; omega, h.printable.2.1⟩

lemma Stand.keyName {n mark shape children next} (hd : d.Sane)
    (h : d.Stand true (.cons n mark shape children next) base head) :
    ∃ m, n = some m ∧ (d.nodes (base + n.toList.length)).key.bind d.content = some m.2 := by
  obtain ⟨-, hkey, hname, -⟩ := h.holds
  have hsome := h.printable.1.1
  rw [Option.isSome_map] at hsome
  obtain ⟨m, rfl⟩ := Option.isSome_iff_exists.1 hsome
  have hroom := h.room
  rw [Forest.size] at hroom
  refine ⟨m, rfl, ?_⟩
  rw [hkey, Option.map_some, Option.bind_some]
  exact (hname m rfl).content hd (by omega)

lemma Stand.locate {obj} (h : d.Stand obj f base head) (hu : f.locate base i = some (k, u)) : d.Stands k u := by
  induction f generalizing base head i with
  | nil => cases i <;> cases hu
  | cons n mark shape children next _ ihn =>
    cases i with
    | zero =>
      cases hu
      exact h.first
    | succ i => exact ihn h.tail hu

lemma findMember_eq (hd : d.Sane) (h : d.Stand true f base head) (hturns : f.length ≤ turns) (name : Str) :
    d.findMember name turns head = some ((f.position name).bind fun i => (f.locate base i).map Prod.fst) := by
  induction f generalizing base head turns with
  | nil =>
    cases h.holds
    cases turns <;> rfl
  | cons n mark shape children next _ ihn =>
    obtain ⟨m, rfl, hm⟩ := h.keyName hd
    obtain ⟨rfl, -⟩ := h.holds
    cases turns with
    | zero => cases hturns
    | succ turns =>
      rw [findMember, hm, Forest.position]
      simp only [Option.map_some, Option.some.injEq]
      split
      next => rfl
      next =>
        rw [ihn h.tail (by simpa [Forest.length] using hturns)]
        cases next.position name <;> rfl

lemma length_le_size (f : Forest Span) : f.length ≤ f.size := by
  induction f with
  | nil => exact Nat.le_refl _
  | cons name mark shape children next _ ihn =>
    rw [Forest.length, Forest.size]
    omega

lemma locate_lt (h : f.locate base i = some (k, u)) : i < f.length := by
  induction f generalizing base i with
  | nil => cases i <;> cases h
  | cons name mark shape children next _ ihn =>
    cases i with
    | zero => exact Nat.succ_pos _
    | succ i => exact Nat.succ_lt_succ (ihn h)

lemma Stands.items {obj} (h : d.Stands id v) (hshape : v.shape = container obj) :
    d.Stand obj v.children (id + 1) (d.nodes id).child := by
  have hroom := h.room
  have hprint := h.printable
  rw [Value.size] at hroom
  refine ⟨h.holds, by omega, ?_⟩
  obtain ⟨mark, shape, children⟩ := v
  cases hshape
  cases obj
  · exact hprint
  · exact hprint

lemma Stands.children {token} (h : d.Stands id v) (hselect : v.select token = some i) :
    ∃ obj, d.Stand obj v.children (id + 1) (d.nodes id).child := by
  rw [Value.select] at hselect
  split at hselect
  next hshape => exact ⟨false, h.items hshape⟩
  next hshape => exact ⟨true, h.items hshape⟩
  next => cases hselect

/-! ## Array indices -/

def digitsValue (n : Nat) (s : Str) : Nat := s.foldl (fun n c => n * 10 + (c.toNat - (ch '0').toNat)) n

lemma le_digitsValue (n : Nat) (s : Str) : n ≤ digitsValue n s := by
  induction s generalizing n with
  | nil => exact Nat.le_refl n
  | cons c s ih =>
    refine Nat.le_trans ?_ (ih (n * 10 + (c.toNat - (ch '0').toNat)))
    omega

lemma isDigit_iff (c : UInt8) : isDigit c = true ↔ ¬ (c < ch '0' ∨ ch '9' < c) := by
  simp only [isDigit, Bool.and_eq_true, decide_eq_true_eq, not_or, UInt8.not_lt]

lemma indexLoop_sound {n m s} (h : indexLoop n s = some m) : s.all isDigit = true ∧ m = digitsValue n s := by
  induction s generalizing n with
  | nil =>
    cases h
    exact ⟨rfl, rfl⟩
  | cons c s ih =>
    rw [indexLoop] at h
    split at h
    next => cases h
    next hdigit =>
      split at h
      next => cases h
      next =>
        obtain ⟨hall, hm⟩ := ih h
        have hc : isDigit c = true := by
          rw [isDigit_iff]
          exact fun hc => hdigit (hc.elim .inl fun hc => .inr (.inl hc))
        exact ⟨by rw [List.all_cons, hc, hall]; rfl, hm⟩

lemma indexLoop_complete {n s} (h : s.all isDigit = true) (hmax : digitsValue n s ≤ 4294967295) :
    indexLoop n s = some (digitsValue n s) := by
  induction s generalizing n with
  | nil => rfl
  | cons c s ih =>
    rw [List.all_cons, Bool.and_eq_true] at h
    have hle := le_digitsValue (n * 10 + (c.toNat - (ch '0').toNat)) s
    have hval : digitsValue n (c :: s) = digitsValue (n * 10 + (c.toNat - (ch '0').toNat)) s := rfl
    have hdigit := (isDigit_iff c).1 h.1
    rw [indexLoop, if_neg, if_neg]
    · exact ih h.2 (hval ▸ hmax)
    · omega
    · rintro (hc | hc | hc)
      · exact hdigit (.inl hc)
      · exact hdigit (.inr hc)
      · omega

lemma index_sound {s m} (h : index s = some m) : arrayIndex s = some m := by
  rw [index] at h
  split at h
  next => cases h
  next hlead =>
    obtain ⟨hall, rfl⟩ := indexLoop_sound h
    rw [not_or, not_and] at hlead
    rw [arrayIndex, if_pos]
    · rfl
    · refine ⟨hall, hlead.1, ?_⟩
      rcases Nat.lt_or_ge 1 s.length with hlen | hlen
      · exact .inr (hlead.2 hlen)
      · left
        have := List.length_pos_iff.2 hlead.1
        omega

lemma index_complete {s m} (h : arrayIndex s = some m) (hmax : m ≤ 4294967295) : index s = some m := by
  rw [arrayIndex] at h
  split at h
  next hs =>
    cases h
    rw [index, if_neg]
    · exact indexLoop_complete hs.1 hmax
    · rintro (hnil | ⟨hlen, hzero⟩)
      · exact hs.2.1 hnil
      · rcases hs.2.2 with hone | hlead
        · omega
        · exact hlead hzero
  next => cases h

lemma Stands.step (h : d.Stands id v) (hd : d.Sane) (token : Str) :
    d.step id token = (v.select token).bind fun i => (v.children.locate (id + 1) i).map Prod.fst := by
  obtain ⟨mark, shape, children⟩ := v
  have hroom := h.room
  simp only [Value.size] at hroom
  rw [Document.step, h.shows.kind]
  cases shape with
  | array =>
    simp only [Shape.kind, Value.select]
    -- an index that does not fit 32 bits is behind the end of every array
    have hcap : ∀ {i r}, children.locate (id + 1) i = some r → i ≤ 4294967295 := by
      intro i r hr
      have := locate_lt hr
      have := length_le_size children
      have := hd.room
      simp only [kMaxNodes] at this
      omega
    have hat : ∀ n, d.atIndex id n = (children.locate (id + 1) n).map Prod.fst := atLoop_eq h.holds
    simp only [hat]
    cases hindex : index token with
    | some m => rw [index_sound hindex]
    | none =>
      cases harray : arrayIndex token with
      | none => rfl
      | some m =>
        cases hlocate : children.locate (id + 1) m with
        | none => simp [hlocate]
        | some r =>
          have hsome := index_complete harray (hcap hlocate)
          rw [hindex] at hsome
          cases hsome
  | object =>
    have hstand : d.Stand true children (id + 1) (d.nodes id).child := h.items (v := ⟨mark, .object, children⟩) rfl
    rw [findMember_eq hd hstand (by have := length_le_size children; omega)]
    rfl
  | null => rfl
  | boolean b => rfl
  | number l => rfl
  | string s => rfl

/-! ## Reference tokens -/

def Ends (rest : Str) : Prop := ∀ c s, rest = c :: s → c = ch '/'

lemma tokenLoop_complete {t token rest} (h : TokenText t token) (hrest : Ends rest) (w : Writer) :
    tokenLoop (t ++ rest) w = some (rest, w.puts token) := by
  induction h generalizing w with
  | nil =>
    cases rest with
    | nil => rfl
    | cons c s =>
      obtain rfl := hrest c s rfl
      cases s <;> simp [tokenLoop, Writer.puts]
  | @plain c t token hslash htilde ht ih =>
    have hputs : w.puts (c :: token) = (w.put c).puts token := rfl
    rw [hputs, ← ih]
    cases htr : t ++ rest with
    | nil => simp [tokenLoop, htr, hslash, htilde]
    | cons e s => simp [tokenLoop, htr, hslash, htilde]
  | tilde ht ih =>
    rw [List.cons_append, List.cons_append, tokenLoop, if_neg (by decide), if_pos rfl, if_pos rfl, ih]
    rfl
  | slash ht ih =>
    rw [List.cons_append, List.cons_append, tokenLoop, if_neg (by decide), if_pos rfl, if_neg (by decide), if_pos rfl, ih]
    rfl

lemma tokenLoop_sound {s rest w w'} (h : tokenLoop s w = some (rest, w')) :
    ∃ t token, s = t ++ rest ∧ TokenText t token ∧ Ends rest := by
  fun_induction tokenLoop s w with
  | case1 token =>
    cases h
    exact ⟨[], [], rfl, .nil, fun c s hs => by cases hs⟩
  | case2 token =>
    cases h
    exact ⟨[], [], rfl, .nil, by rintro c s ⟨⟩; rfl⟩
  | case3 => cases h
  | case4 c token hslash htilde =>
    cases h
    exact ⟨[c], [c], rfl, .plain hslash htilde .nil, fun c s hs => by cases hs⟩
  | case5 token e rest' =>
    cases h
    exact ⟨[], [], rfl, .nil, by rintro c s ⟨⟩; rfl⟩
  | case6 token rest' _ ih =>
    obtain ⟨t, tok, rfl, ht, hend⟩ := ih h
    exact ⟨_, _, rfl, .tilde ht, hend⟩
  | case7 token rest' _ _ ih =>
    obtain ⟨t, tok, rfl, ht, hend⟩ := ih h
    exact ⟨_, _, rfl, .slash ht, hend⟩
  | case8 => cases h
  | case9 c e rest' token hslash htilde ih =>
    obtain ⟨t, tok, hs, ht, hend⟩ := ih h
    exact ⟨c :: t, c :: tok, by rw [hs]; rfl, .plain hslash htilde ht, hend⟩

/-! ## Pointers -/

lemma PointerText.ends {p} (h : PointerText p tokens) : Ends p := by
  cases h with
  | nil => exact fun c s hs => by cases hs
  | cons => exact by rintro c s ⟨⟩; rfl

/-- The loop of `pointer` follows the tokens of its text. -/
lemma pointerLoop_eq {path} (hd : d.Sane) (h : d.Stands id v) (hpath : PointerText path tokens)
    (hturns : path.length ≤ turns) (hlen : path.length ≤ kMaxBytes) :
    d.pointerLoop turns id path = (v.locate tokens id).map Prod.fst := by
  induction hpath generalizing id v turns with
  | nil => cases turns <;> rfl
  | @cons t token p tokens ht hp ih =>
    rw [List.length_cons, List.length_append] at hturns hlen
    cases turns with
    | zero => cases hturns
    | succ turns =>
      have hfits : token.length ≤ kMaxBytes := by
        have := ht.length
        omega
      have hdone : ((Writer.fresh kMaxBytes).puts token).done = some ⟨token, kMaxBytes, true, hfits⟩ := by
        rw [Writer.done_eq, Writer.emit_puts, List.append_nil, Writer.emit_fresh]
      rw [pointerLoop, if_neg (by simp), tokenLoop_complete ht (PointerText.ends hp)]
      simp only [hdone, h.step hd]
      rw [Value.locate]
      cases hselect : v.select token with
      | none => rfl
      | some i =>
        obtain ⟨obj, hstand⟩ := h.children hselect
        simp only [Option.bind_some]
        cases hlocate : v.children.locate (id + 1) i with
        | none => rfl
        | some r => exact ih (hstand.locate hlocate) (by omega) (by omega)

lemma pointerLoop_sound {path r} (h : d.pointerLoop turns id path = some r) : ∃ tokens, PointerText path tokens := by
  induction turns generalizing id path with
  | zero =>
    cases path with
    | nil => exact ⟨[], .nil⟩
    | cons => cases h
  | succ turns ih =>
    cases path with
    | nil => exact ⟨[], .nil⟩
    | cons c path =>
      rw [pointerLoop] at h
      split at h
      next => cases h
      next hslash =>
        rw [ne_eq, not_not] at hslash
        subst hslash
        split at h
        next => cases h
        next rest token htoken =>
          obtain ⟨t, tok, rfl, ht, -⟩ := tokenLoop_sound htoken
          split at h
          next => cases h
          next =>
            split at h
            next => cases h
            next =>
              obtain ⟨tokens, htokens⟩ := ih h
              exact ⟨_, .cons ht htokens⟩

end Rut.Json.Document
