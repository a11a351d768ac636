import Mathlib.Data.List.Forall2
import Mathlib.Data.List.Count

/-! # Lists related item by item

A traversal in `Except` whose steps succeed gives a list that is related to the one that it went
through (`exists_mapM_eq_ok`), and so does a selection that keeps every item
(`forall₂_filterMap`).  Items of related lists have partners (`exists_mem_of_forall₂_left`,
`exists_mem_of_forall₂_right`), a selection from one list is one from the other
(`filterMap_of_forall₂`), and an item is as frequent as its only partner (`count_of_forall₂`). -/

namespace PetriCcs

variable {α β γ ε : Type} {R : α → β → Prop} {as : List α} {bs : List β} {a : α} {b : β}

theorem exists_mapM_eq_ok {f : α → Except ε β} :
    ∀ {as : List α}, (∀ a ∈ as, ∃ b, f a = .ok b ∧ R a b) →
      ∃ bs, as.mapM f = .ok bs ∧ List.Forall₂ R as bs
  | [], _ => ⟨[], rfl, List.Forall₂.nil⟩
  | a :: as, h => by
      obtain ⟨⟨b, hb, hR⟩, hrest⟩ := List.forall_mem_cons.1 h
      obtain ⟨bs, hbs, hall⟩ := exists_mapM_eq_ok hrest
      refine ⟨b :: bs, ?_, List.Forall₂.cons hR hall⟩
      rw [List.mapM_cons, hb, hbs]
      rfl

theorem forall₂_filterMap {f : α → Option β} :
    ∀ {as : List α}, (∀ a ∈ as, ∃ b, f a = some b) →
      List.Forall₂ (fun a b => f a = some b) as (as.filterMap f)
  | [], _ => List.Forall₂.nil
  | a :: as, h => by
      obtain ⟨⟨b, hb⟩, hrest⟩ := List.forall_mem_cons.1 h
      rw [List.filterMap_cons_some hb]
      exact List.Forall₂.cons hb (forall₂_filterMap hrest)

theorem exists_mem_of_forall₂_left (h : List.Forall₂ R as bs) (ha : a ∈ as) : ∃ b ∈ bs, R a b := by
  induction h with
  | nil => exact absurd ha List.not_mem_nil
  | @cons a' b as bs hR _ ih =>
      rcases List.mem_cons.1 ha with rfl | ha
      · exact ⟨b, List.mem_cons_self, hR⟩
      · obtain ⟨b', hmem, hR'⟩ := ih ha
        exact ⟨b', List.mem_cons_of_mem _ hmem, hR'⟩

theorem exists_mem_of_forall₂_right (h : List.Forall₂ R as bs) (hb : b ∈ bs) : ∃ a ∈ as, R a b :=
  exists_mem_of_forall₂_left h.flip hb

theorem filterMap_of_forall₂ (h : List.Forall₂ R as bs) {f : β → Option γ} {p : α → Bool}
    {g : α → γ} (hf : ∀ a b, R a b → f b = if p a then some (g a) else none) :
    bs.filterMap f = (as.filter p).map g := by
  induction h with
  | nil => rfl
  | @cons a b as bs hR _ ih =>
      have hb := hf a b hR
      by_cases hp : p a = true
      · rw [if_pos hp] at hb
        rw [List.filterMap_cons_some hb, List.filter_cons_of_pos hp, List.map_cons, ih]
      · rw [if_neg hp] at hb
        rw [List.filterMap_cons_none hb, List.filter_cons_of_neg hp, ih]

/-- An item whose only partner is `a` is as frequent as `a`. -/
theorem count_of_forall₂ [BEq α] [LawfulBEq α] [BEq β] [LawfulBEq β] (h : List.Forall₂ R as bs)
    (hiff : ∀ {a' b'}, R a' b' → (b' = b ↔ a' = a)) : bs.count b = as.count a := by
  induction h with
  | nil => rfl
  | @cons a' b' as bs hR _ ih =>
      have hsame : (b' == b) = (a' == a) := by
        rw [Bool.eq_iff_iff, beq_iff_eq, beq_iff_eq]
        exact hiff hR
      rw [List.count_cons, List.count_cons, ih, hsame]

end PetriCcs
