import Mathlib.Tactic
import PetriCcs.Ccs.Encoding

/-! # Shape of a term

What it means, constructor by constructor, that a term is a choice between summands
(`Term.ChoiceOf`), a composition of components (`Term.CompositionOf`), a number of copies of a
process (`Term.CopiesOf`) or a process under restrictions (`Term.RestrictionOf`): no operator stands
where there is nothing to join.  The collapsing constructors write these forms (`choiceOf_sum`,
`compositionOf_compose`, `copiesOf_times`, `restrictionOf_restrict`).

A term is shaped over a list of names (`Term.Shaped`) when everywhere in it a choice or a composition
joins at least two processes, a composition joins neither inactions nor other compositions, and a
constant is one of the names. -/

namespace PetriCcs
namespace Term

/-- A process that is one component of a composition. -/
def IsComponent : Term → Prop
  | .inaction => False
  | .parallel _ => False
  | _ => True

/-! ### Forms -/

/-- A term offers the listed summands, in this order. -/
inductive ChoiceOf : List Summand → Term → Prop where
  | none : ChoiceOf [] .inaction
  | one (a : Action) (P : Term) : ChoiceOf [(a, P)] (.guarded a P)
  | many {summands : List Summand} (hlength : 2 ≤ summands.length) :
      ChoiceOf summands (.choice summands)

/-- A term runs the listed components side by side, in this order. -/
inductive CompositionOf : List Term → Term → Prop where
  | none : CompositionOf [] .inaction
  | one {P : Term} (h : P.IsComponent) : CompositionOf [P] P
  | many {Ps : List Term} (hlength : 2 ≤ Ps.length) (h : ∀ P ∈ Ps, P.IsComponent) :
      CompositionOf Ps (.parallel Ps)

/-- A term stands for a number of copies of a process, with an exponent above one. -/
inductive CopiesOf (P : Term) : UInt64 → Term → Prop where
  | one : CopiesOf P 1 P
  | many {count : UInt64} (h : 1 < count) : CopiesOf P count (.exponent P count)

/-- A term restricts a process to the listed names, one by one and the first outermost. -/
inductive RestrictionOf (P : Term) : List ActionName → Term → Prop where
  | none : RestrictionOf P [] P
  | cons (s : ActionName) {names : List ActionName} {T : Term} (h : RestrictionOf P names T) :
      RestrictionOf P (s :: names) (.restriction s T)

variable {P T : Term} {Ps : List Term} {summands : List Summand} {count : UInt64}

theorem choiceOf_sum : ∀ summands : List Summand, ChoiceOf summands (sum summands)
  | [] => .none
  | [(a, P)] => .one a P
  | _ :: _ :: _ => .many (by simp)

theorem CompositionOf.eq_compose (h : CompositionOf Ps T) : T = compose Ps := by
  cases h with
  | none => rfl
  | one h => rfl
  | many hlength h =>
      match Ps, hlength with
      | _ :: _ :: _, _ => rfl

theorem compositionOf_compose : ∀ {Ps : List Term}, (∀ P ∈ Ps, P.IsComponent) →
    CompositionOf Ps (compose Ps)
  | [], _ => .none
  | [_], h => .one (h _ List.mem_cons_self)
  | _ :: _ :: _, h => .many (by simp) h

theorem components_of_isComponent (h : P.IsComponent) : P.components = [P] := by
  cases P with
  | inaction => exact absurd h id
  | parallel Ps => exact absurd h id
  | guarded _ _ | choice _ | exponent _ _ | restriction _ _ | constant _ => rfl

/-- The components of a composition are those that it was made of. -/
theorem CompositionOf.components_eq (h : CompositionOf Ps T) : T.components = Ps := by
  cases h with
  | none => rfl
  | one h => exact components_of_isComponent h
  | many _ _ => rfl

theorem CopiesOf.eq_times (h : CopiesOf P count T) : T = P.times count := by
  cases h with
  | one => rfl
  | many h => exact (if_pos h).symm

theorem copiesOf_times (hcount : count ≠ 0) : CopiesOf P count (P.times count) := by
  unfold times
  split_ifs with hlt
  · exact .many hlt
  · obtain rfl : count = 1 := by
      have hpos : count.toNat ≠ 0 := fun hzero => hcount (UInt64.toNat_inj.1 hzero)
      have hle : ¬ 1 < count.toNat := hlt
      exact UInt64.toNat_inj.1 (by change count.toNat = 1; omega)
    exact .one

theorem CopiesOf.isComponent (h : CopiesOf P count T) (hP : P.IsComponent) : T.IsComponent := by
  cases h with
  | one => exact hP
  | many _ => exact trivial

theorem restrictionOf_restrict : ∀ (names : List ActionName) (P : Term),
    RestrictionOf P names (Encoding.restrict names P)
  | [], _ => .none
  | s :: names, P => .cons s (restrictionOf_restrict names P)

/-! ### Shape -/

/-- Every node of a term joins enough processes of the right kind, or is one of the names. -/
inductive Shaped (names : List ConstantName) : Term → Prop where
  | inaction : Shaped names .inaction
  | guarded {a : Action} {P : Term} (h : Shaped names P) : Shaped names (.guarded a P)
  | choice {summands : List Summand} (hlength : 2 ≤ summands.length)
      (h : ∀ summand ∈ summands, Shaped names summand.2) : Shaped names (.choice summands)
  | parallel {Ps : List Term} (hlength : 2 ≤ Ps.length) (hcomponents : ∀ P ∈ Ps, P.IsComponent)
      (h : ∀ P ∈ Ps, Shaped names P) : Shaped names (.parallel Ps)
  | exponent {P : Term} {count : UInt64} (h : Shaped names P) : Shaped names (.exponent P count)
  | restriction {s : ActionName} {P : Term} (h : Shaped names P) :
      Shaped names (.restriction s P)
  | constant {X : ConstantName} (h : X ∈ names) : Shaped names (.constant X)

variable {names : List ConstantName}

theorem ChoiceOf.shaped (h : ChoiceOf summands T)
    (hall : ∀ summand ∈ summands, Shaped names summand.2) : Shaped names T := by
  cases h with
  | none => exact .inaction
  | one a P => exact .guarded (hall _ List.mem_cons_self)
  | many hlength => exact .choice hlength hall

theorem CompositionOf.shaped (h : CompositionOf Ps T) (hall : ∀ P ∈ Ps, Shaped names P) :
    Shaped names T := by
  cases h with
  | none => exact .inaction
  | one _ => exact hall _ List.mem_cons_self
  | many hlength hcomponents => exact .parallel hlength hcomponents hall

theorem CopiesOf.shaped (h : CopiesOf P count T) (hP : Shaped names P) : Shaped names T := by
  cases h with
  | one => exact hP
  | many _ => exact .exponent hP

theorem RestrictionOf.shaped {restricted : List ActionName} (h : RestrictionOf P restricted T)
    (hP : Shaped names P) : Shaped names T := by
  induction h with
  | none => exact hP
  | cons s _ ih => exact .restriction ih

end Term
end PetriCcs
