import Mathlib.Data.List.Basic
import PetriCcs.Ccs.Encoding

/-! # Actions of a term

The actions of a term, by its constructors.  A choice has those of its summands and what stands
behind them (`Term.actions_sum`), compositions, copies and restrictions add none
(`Term.actions_compose`, `Term.actions_times`, `Term.actions_restrict`). -/

namespace PetriCcs
namespace Term

variable {P : Term} {Ps : List Term} {summands : List Summand}

theorem subtermsOfSummands_eq : ∀ summands : List Summand,
    subtermsOfSummands summands = summands.flatMap fun summand => summand.2.subterms
  | [] => rfl
  | (_, P) :: summands => by
      rw [subtermsOfSummands, subtermsOfSummands_eq summands, List.flatMap_cons]

theorem subtermsOfAll_eq : ∀ Ps : List Term, subtermsOfAll Ps = Ps.flatMap subterms
  | [] => rfl
  | P :: Ps => by rw [subtermsOfAll, subtermsOfAll_eq Ps, List.flatMap_cons]

/-! ### Constructors -/

theorem actions_guarded (a : Action) (P : Term) : (guarded a P).actions = a :: P.actions := by
  rw [actions, subterms, List.flatMap_cons]
  rfl

theorem actions_choice (summands : List Summand) : (choice summands).actions =
    summands.map Prod.fst ++ summands.flatMap fun summand => summand.2.actions := by
  rw [actions, subterms, List.flatMap_cons, subtermsOfSummands_eq, List.flatMap_assoc]
  rfl

theorem actions_parallel (Ps : List Term) : (parallel Ps).actions = Ps.flatMap actions := by
  rw [actions, subterms, List.flatMap_cons, subtermsOfAll_eq, List.flatMap_assoc]
  rfl

theorem actions_exponent (P : Term) (count : UInt64) : (exponent P count).actions = P.actions := by
  rw [actions, subterms, List.flatMap_cons]
  rfl

theorem actions_restriction (s : ActionName) (P : Term) :
    (restriction s P).actions = P.actions := by
  rw [actions, subterms, List.flatMap_cons]
  rfl

/-! ### Choices, compositions and restrictions of any size -/

theorem actions_sum : ∀ summands : List Summand, (sum summands).actions =
    summands.map Prod.fst ++ summands.flatMap fun summand => summand.2.actions
  | [] => rfl
  | [(a, P)] => by
      rw [sum, actions_guarded, List.flatMap_singleton]
      rfl
  | _ :: _ :: _ => actions_choice _

theorem actions_compose : ∀ Ps : List Term, (compose Ps).actions = Ps.flatMap actions
  | [] => rfl
  | [P] => (List.flatMap_singleton actions P).symm
  | _ :: _ :: _ => actions_parallel _

theorem actions_times (P : Term) (count : UInt64) : (P.times count).actions = P.actions := by
  unfold times
  split_ifs
  · exact actions_exponent P count
  · rfl

theorem actions_restrict (names : List ActionName) (P : Term) :
    (Encoding.restrict names P).actions = P.actions := by
  induction names with
  | nil => rfl
  | cons s names ih => exact (actions_restriction s _).trans ih

/-- A composition of processes without actions has none. -/
theorem actions_compose_eq_nil (h : ∀ P ∈ Ps, P.actions = []) : (compose Ps).actions = [] := by
  rw [actions_compose, List.flatMap_eq_nil_iff]
  exact h

/-- A choice between processes without actions has the actions that guard them. -/
theorem actions_sum_eq_map (h : ∀ summand ∈ summands, summand.2.actions = []) :
    (sum summands).actions = summands.map Prod.fst := by
  rw [actions_sum, List.flatMap_eq_nil_iff.2 h, List.append_nil]

end Term
end PetriCcs
