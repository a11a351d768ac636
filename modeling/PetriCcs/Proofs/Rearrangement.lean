import PetriCcs.Proofs.Actions
import Mathlib.Data.List.Perm.Basic

/-! # Terms up to the order of their parts

`Term.Rearranged` relates two terms that are the same when the order of the summands of a choice and
of the components of a composition does not count, at any depth.  Rearranged terms begin with the
same actions (`Rearranged.headActions_perm`), and the constructors that take lists of any length take
rearranged lists to rearranged terms (`Rearranged.sum`, `Rearranged.compose`). -/

namespace PetriCcs

open scoped List

/-- Where two lists are related item by item to arrangements of one list, one of them can be
rearranged so that they are related to each other. -/
theorem exists_perm_forall₂ {α β γ : Type} {R : α → β → Prop} {R' : α → γ → Prop}
    {S : β → γ → Prop} {as as' : List α} {bs : List β} {cs : List γ} (hperm : as ~ as')
    (hall : List.Forall₂ R as bs) (hall' : List.Forall₂ R' as' cs)
    (hS : ∀ {a b c}, R a b → R' a c → S b c) : ∃ bs', bs ~ bs' ∧ List.Forall₂ S bs' cs := by
  obtain ⟨bs', hmatched, hback⟩ := List.perm_comp_forall₂ hperm.symm hall
  refine ⟨bs', hback.symm, ?_⟩
  clear hperm hall hback
  induction hall' generalizing bs' with
  | nil =>
      cases hmatched
      exact List.Forall₂.nil
  | cons hR' _ ih =>
      cases hmatched with
      | cons hR hmatched => exact List.Forall₂.cons (hS hR hR') (ih _ hmatched)

namespace Term

mutual

/-- The same term up to the order of summands and of components. -/
inductive Rearranged : Term → Term → Prop where
  | inaction : Rearranged .inaction .inaction
  | guarded {a : Action} {P Q : Term} (h : Rearranged P Q) :
      Rearranged (.guarded a P) (.guarded a Q)
  | choice {xs ys zs : List Summand} (hperm : xs ~ ys)
      (hall : List.Forall₂ RearrangedSummand ys zs) : Rearranged (.choice xs) (.choice zs)
  | parallel {Ps Qs Rs : List Term} (hperm : Ps ~ Qs) (hall : List.Forall₂ Rearranged Qs Rs) :
      Rearranged (.parallel Ps) (.parallel Rs)
  | exponent {P Q : Term} {count : UInt64} (h : Rearranged P Q) :
      Rearranged (.exponent P count) (.exponent Q count)
  | restriction {s : ActionName} {P Q : Term} (h : Rearranged P Q) :
      Rearranged (.restriction s P) (.restriction s Q)
  | constant {X : ConstantName} : Rearranged (.constant X) (.constant X)

/-- The same action with rearranged processes after it. -/
inductive RearrangedSummand : Action × Term → Action × Term → Prop where
  | mk {a : Action} {P Q : Term} (h : Rearranged P Q) : RearrangedSummand (a, P) (a, Q)

end

mutual

theorem Rearranged.refl : ∀ P : Term, Rearranged P P
  | .inaction => .inaction
  | .guarded _ P => .guarded (Rearranged.refl P)
  | .choice summands => .choice (List.Perm.refl _) (RearrangedSummand.refl_all summands)
  | .parallel Ps => .parallel (List.Perm.refl _) (Rearranged.refl_all Ps)
  | .exponent P _ => .exponent (Rearranged.refl P)
  | .restriction _ P => .restriction (Rearranged.refl P)
  | .constant _ => .constant

theorem RearrangedSummand.refl_all : ∀ summands : List (Action × Term),
    List.Forall₂ RearrangedSummand summands summands
  | [] => .nil
  | (_, P) :: summands => .cons ⟨Rearranged.refl P⟩ (RearrangedSummand.refl_all summands)

theorem Rearranged.refl_all : ∀ Ps : List Term, List.Forall₂ Rearranged Ps Ps
  | [] => .nil
  | P :: Ps => .cons (Rearranged.refl P) (Rearranged.refl_all Ps)

end

variable {P Q : Term} {Ps Qs Rs : List Term} {xs ys zs : List Summand}

/-! ### Choices and compositions of any size -/

theorem sum_eq_choice : ∀ {xs : List Summand}, 2 ≤ xs.length → sum xs = .choice xs
  | _ :: _ :: _, _ => rfl

theorem compose_eq_parallel : ∀ {Ps : List Term}, 2 ≤ Ps.length → compose Ps = .parallel Ps
  | _ :: _ :: _, _ => rfl

theorem Rearranged.sum (hperm : xs ~ ys) (hall : List.Forall₂ RearrangedSummand ys zs) :
    Rearranged (.sum xs) (.sum zs) := by
  rcases hall with _ | ⟨hhead, htail⟩
  · rw [List.perm_nil.1 hperm]
    exact .inaction
  rcases htail with _ | ⟨hsecond, htail⟩
  · obtain ⟨h⟩ := hhead
    rw [List.perm_singleton.1 hperm]
    exact .guarded h
  · rw [sum_eq_choice (by simp [hperm.length_eq])]
    exact .choice hperm (.cons hhead (.cons hsecond htail))

theorem Rearranged.compose (hperm : Ps ~ Qs) : Rearranged (.compose Ps) (.compose Qs) := by
  rcases Qs with _ | ⟨Q, _ | ⟨Q', Qs⟩⟩
  · rw [List.perm_nil.1 hperm]
    exact .inaction
  · rw [List.perm_singleton.1 hperm]
    exact .refl Q
  · rw [compose_eq_parallel (by simp [hperm.length_eq])]
    exact .parallel hperm (Rearranged.refl_all _)

/-! ### First actions -/

theorem map_fst_eq (hall : List.Forall₂ RearrangedSummand ys zs) :
    ys.map Prod.fst = zs.map Prod.fst := by
  induction hall with
  | nil => rfl
  | cons hhead _ ih =>
      obtain ⟨-⟩ := hhead
      rw [List.map_cons, List.map_cons, ih]

/-- Rearranged terms begin with the same actions, each as often. -/
theorem Rearranged.headActions_perm (h : Rearranged P Q) : P.headActions ~ Q.headActions := by
  cases h with
  | choice hperm hall =>
      rw [headActions, headActions, ← map_fst_eq hall]
      exact hperm.map Prod.fst
  | guarded _ => exact List.Perm.refl _
  | inaction | parallel _ _ | exponent _ | restriction _ | constant => exact List.Perm.refl _

end Term
end PetriCcs
