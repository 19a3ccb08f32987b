import Rut.Route.Trie

/-!
# Registered routes

What a route table registers, stated without a trie: the non-empty segments of a path, and the route
that a list of insertions registers first for a key and a method slot. The key of a path is its list of
segments for the segment trie and its bytes for the byte trie.
-/

namespace Rut.Route

def segments (path : Str) : List Str := (path.splitOn (ch '/')).filter (· != [])

def firstRoute {κ : Type} [DecidableEq κ] (key : Str → κ) (es : List Insertion) (k : κ) (slot : Slot) :
    Option RouteIdx :=
  (es.find? fun e => key e.path = k ∧ methodSlot e.method = some slot).map Insertion.routeIdx

def ValidRoutes (es : List Insertion) : Prop := ∀ e ∈ es, e.routeIdx ≠ kInvalidRoute

section firstRoute

variable {κ : Type} [DecidableEq κ] {key : Str → κ} {es : List Insertion} {k : κ} {slot : Slot}

@[simp] lemma firstRoute_nil : firstRoute key [] k slot = none := rfl

lemma firstRoute_concat (e : Insertion) : firstRoute key (es ++ [e]) k slot = (firstRoute key es k slot).or
        (if key e.path = k ∧ methodSlot e.method = some slot then some e.routeIdx else none) := by
  simp only [firstRoute, List.find?_append]
  cases es.find? fun e => key e.path = k ∧ methodSlot e.method = some slot with
  | some e' => rfl
  | none =>
    by_cases h : key e.path = k ∧ methodSlot e.method = some slot <;> simp [h]

lemma firstRoute_eq_none : firstRoute key es k slot = none ↔
      ∀ e ∈ es, ¬ (key e.path = k ∧ methodSlot e.method = some slot) := by
  simp [firstRoute]

lemma firstRoute_some {r} (h : firstRoute key es k slot = some r) :
    ∃ e ∈ es, key e.path = k ∧ methodSlot e.method = some slot ∧ e.routeIdx = r := by
  obtain ⟨e, he, rfl⟩ := Option.map_eq_some_iff.mp h
  have hp := List.find?_some he
  simp only [decide_eq_true_eq] at hp
  exact ⟨e, List.mem_of_find?_eq_some he, hp.1, hp.2, rfl⟩

lemma firstRoute_ne_invalid {r} (hes : ValidRoutes es) (h : firstRoute key es k slot = some r) : r ≠ kInvalidRoute := by
  obtain ⟨e, he, -, -, rfl⟩ := firstRoute_some h
  exact hes e he

/-- The entry of a node table for the key: the first route or `kInvalidRoute`. -/
lemma firstRoute_getD_eq_invalid (hes : ValidRoutes es) :
    (firstRoute key es k slot).getD kInvalidRoute = kInvalidRoute ↔ firstRoute key es k slot = none := by
  cases h : firstRoute key es k slot with
  | none => simp
  | some r => simpa using firstRoute_ne_invalid hes h

lemma firstRoute_record {e : Insertion} {table} (hes : ValidRoutes es)
    (hkey : key e.path = k) (hslot : methodSlot e.method = some slot)
    (htable : ∀ s, table s = (firstRoute key es k s).getD kInvalidRoute) {s} :
    (if table slot = kInvalidRoute then Function.update table slot e.routeIdx else table) s =
      (firstRoute key (es ++ [e]) k s).getD kInvalidRoute := by
  rw [firstRoute_concat, htable slot]
  simp only [firstRoute_getD_eq_invalid hes, hkey, hslot, true_and, Option.some.injEq]
  by_cases hs : slot = s
  · subst hs
    cases h : firstRoute key es k slot with
    | none => simp
    | some r => simp [htable, h]
  · simp only [if_neg hs, Option.or_none]
    split_ifs
    · simp only [Function.update_of_ne (Ne.symm hs), htable]
    · exact htable s

end firstRoute

/-! ## Tokenizing -/

lemma pushSegment_eq (cur : Str) (out : List Str) (hout : out.length ≤ kMaxPathSegments) : pushSegment cur out =
      if (out ++ [cur].filter (· != [])).length ≤ kMaxPathSegments then some (out ++ [cur].filter (· != []))
      else none := by
  by_cases hc : cur = []
  · simp [pushSegment, hc, hout]
  · have hlen : (out ++ [cur].filter (· != [])).length = out.length + 1 := by simp [hc]
    by_cases hl : out.length < kMaxPathSegments
    · rw [if_pos (by omega)]
      simp [pushSegment, hc, hl]
    · rw [if_neg (by omega)]
      simp [pushSegment, hc, hl]

lemma take_overflow {cur : Str} {out more : List Str} (hout : out.length ≤ kMaxPathSegments)
    (hl : ¬ (out ++ [cur].filter (· != [])).length ≤ kMaxPathSegments) : (out ++ more).take kMaxPathSegments = out := by
  have h1 : ([cur].filter (· != [])).length ≤ 1 := List.length_filter_le _ [cur]
  rw [List.length_append] at hl
  exact List.take_left' (by omega)

lemma segments_cons_slash {cur path : Str} (hcur : ch '/' ∉ cur) :
    segments (cur ++ ch '/' :: path) = [cur].filter (· != []) ++ segments path := by
  have hfree : ∀ b ∈ cur, (b == ch '/') = false := by
    intro b hb
    rw [beq_eq_false_iff_ne]
    exact fun h => hcur (h ▸ hb)
  rw [segments, List.splitOn_eq_splitOnP, List.splitOnP_append_cons_of_forall_mem hfree _ (by simp),
    ← List.splitOn_eq_splitOnP, List.filter_cons, segments]
  by_cases hc : cur = [] <;> simp [hc]

lemma segments_of_not_mem {cur} (hcur : ch '/' ∉ cur) : segments cur = [cur].filter (· != []) := by
  have hfree : ∀ b ∈ cur, (b == ch '/') = false := by
    intro b hb
    rw [beq_eq_false_iff_ne]
    exact fun h => hcur (h ▸ hb)
  rw [segments, List.splitOn_eq_splitOnP, List.splitOnP_eq_singleton hfree]

lemma tokenizeLoop_eq {path cur out} (hout : out.length ≤ kMaxPathSegments) (hcur : ch '/' ∉ cur) :
    tokenizeLoop path cur out = ((out ++ segments (cur ++ path)).take kMaxPathSegments,
        min (out ++ segments (cur ++ path)).length (kMaxPathSegments + 1)) := by
  induction path generalizing cur out with
  | nil =>
    rw [tokenizeLoop, pushSegment_eq cur out hout, List.append_nil, segments_of_not_mem hcur]
    by_cases hl : (out ++ [cur].filter (· != [])).length ≤ kMaxPathSegments
    · rw [if_pos hl, List.take_of_length_le hl, Nat.min_eq_left (by omega)]
    · rw [if_neg hl, take_overflow hout hl, Nat.min_eq_right (by omega)]
  | cons b path ih =>
    rw [tokenizeLoop]
    by_cases hb : b = ch '/'
    · subst hb
      rw [if_pos rfl, pushSegment_eq cur out hout, segments_cons_slash hcur, ← List.append_assoc]
      by_cases hl : (out ++ [cur].filter (· != [])).length ≤ kMaxPathSegments
      · rw [if_pos hl]
        exact ih hl (by simp)
      · rw [if_neg hl, List.append_assoc, take_overflow hout hl, ← List.append_assoc,
          Nat.min_eq_right (by rw [List.length_append]; omega)]
    · rw [if_neg hb, ih hout (by simpa [Ne.symm hb] using hcur), List.append_assoc]
      rfl

/-- `tokenize_segments` returns the first segments of the path and counts up to the sentinel. -/
lemma tokenizeSegments_eq (path : Str) : tokenizeSegments path =
      ((segments path).take kMaxPathSegments, min (segments path).length (kMaxPathSegments + 1)) :=
  tokenizeLoop_eq (Nat.zero_le _) (by simp)

lemma segments_ne_nil {path seg} (h : seg ∈ segments path) : seg ≠ [] := by
  simpa using (List.mem_filter.mp h).2

end Rut.Route
