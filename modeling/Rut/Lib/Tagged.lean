import Mathlib

/-!
# Tagged fields

Fields one after the other, each behind its tag. A field of a fixed length may hold any letters; one of any length holds
no tags. Then the fields can be told apart.
-/

namespace Rut.Lib

variable {ι β : Type*}

def tagged (tag : ι → β) (field : ι → List β) (is : List ι) : List β := is.flatMap fun i => tag i :: field i

section tagged

variable {tag : ι → β} {field field' : ι → List β} {isTag : β → Prop} {is : List ι}

@[simp] lemma tagged_cons (i : ι) (is : List ι) :
    tagged tag field (i :: is) = tag i :: (field i ++ tagged tag field is) := rfl

lemma append_inj_of_tag {w w' r r' : List β} (h : w ++ r = w' ++ r') (hw : ∀ c ∈ w, ¬ isTag c) (hw' : ∀ c ∈ w', ¬ isTag c)
    (hr : ∀ c ∈ r.head?, isTag c) (hr' : ∀ c ∈ r'.head?, isTag c) : w = w' ∧ r = r' := by
  induction w generalizing w' with
  | nil =>
    cases w' with
    | nil => exact ⟨rfl, h⟩
    | cons c w' =>
      rw [List.nil_append] at h
      exact absurd (hr c (by rw [h]; rfl)) (hw' c List.mem_cons_self)
  | cons c w ih =>
    cases w' with
    | nil =>
      rw [List.nil_append] at h
      exact absurd (hr' c (by rw [← h]; rfl)) (hw c List.mem_cons_self)
    | cons c' w' =>
      rw [List.cons_append, List.cons_append, List.cons.injEq] at h
      obtain ⟨rfl, h⟩ := h
      obtain ⟨rfl, rfl⟩ := ih h (fun d hd => hw d (List.mem_cons_of_mem _ hd)) fun d hd => hw' d (List.mem_cons_of_mem _ hd)
      exact ⟨rfl, rfl⟩

lemma tagged_head (htag : ∀ i ∈ is, isTag (tag i)) : ∀ c ∈ (tagged tag field is).head?, isTag c := by
  cases is with
  | nil =>
    intro c hc
    cases hc
  | cons i is =>
    intro c hc
    cases hc
    exact htag i List.mem_cons_self

/-- Tagged fields are as their letters say. -/
theorem tagged_inj (tag : ι → β) (isTag : β → Prop) (htag : ∀ i ∈ is, isTag (tag i))
    (hfield : ∀ i ∈ is, (field i).length = (field' i).length ∨ (∀ c ∈ field i, ¬ isTag c) ∧ ∀ c ∈ field' i, ¬ isTag c)
    (h : tagged tag field is = tagged tag field' is) : ∀ i ∈ is, field i = field' i := by
  induction is with
  | nil =>
    intro i hi
    cases hi
  | cons i is ih =>
    rw [tagged_cons, tagged_cons, List.cons.injEq] at h
    have htags : ∀ j ∈ is, isTag (tag j) := fun j hj => htag j (List.mem_cons_of_mem _ hj)
    obtain ⟨hhead, htail⟩ : field i = field' i ∧ tagged tag field is = tagged tag field' is := by
      rcases hfield i List.mem_cons_self with hlen | ⟨hplain, hplain'⟩
      · exact List.append_inj h.2 hlen
      · exact append_inj_of_tag h.2 hplain hplain' (tagged_head htags) (tagged_head htags)
    intro j hj
    rcases List.mem_cons.mp hj with rfl | hj
    · exact hhead
    · exact ih htags (fun k hk => hfield k (List.mem_cons_of_mem _ hk)) htail j hj

end tagged

end Rut.Lib
