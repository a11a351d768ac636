import Mathlib.Data.List.Basic
import Mathlib.Tactic
import PetriCcs.Proofs.Actions

/-! # Splicing nested compositions

`Term.spliced` puts the components of a composition that stands directly in another one in its place,
at every depth.  What is left holds no composition directly in another (`flat_spliced`), and where
there was none nothing changes (`spliced_of_flat`).  `Term.Joined` asks of a term that its choices
and compositions join at least two processes; splicing keeps that (`Joined.joinsTwo_spliced`). -/

namespace PetriCcs
namespace Term

variable {P : Term} {Ps : List Term} {summands : List Summand}

/-- Induction over a term, in a choice or a composition over everything in it. -/
@[elab_as_elim]
theorem nestedInduction {motive : Term → Prop} (inaction : motive .inaction)
    (guarded : ∀ a P, motive P → motive (.guarded a P))
    (choice : ∀ summands, (∀ summand ∈ summands, motive summand.2) → motive (.choice summands))
    (parallel : ∀ Ps, (∀ P ∈ Ps, motive P) → motive (.parallel Ps))
    (exponent : ∀ P count, motive P → motive (.exponent P count))
    (restriction : ∀ s P, motive P → motive (.restriction s P))
    (constant : ∀ X, motive (.constant X)) (P : Term) : motive P :=
  @Term.rec motive (fun summands => ∀ summand ∈ summands, motive summand.2)
    (fun Ps => ∀ P ∈ Ps, motive P) (fun summand => motive summand.2)
    inaction guarded choice parallel exponent restriction constant
    (List.forall_mem_nil _) (fun _ _ head tail => List.forall_mem_cons.2 ⟨head, tail⟩)
    (List.forall_mem_nil _) (fun _ _ head tail => List.forall_mem_cons.2 ⟨head, tail⟩)
    (fun _ _ h => h) P

/-! ### Two processes to join -/

/-- A choice or a composition joins at least two processes. -/
def JoinsTwo : Term → Prop
  | .choice summands => 2 ≤ summands.length
  | .parallel Ps => 2 ≤ Ps.length
  | _ => True

/-- Every choice and every composition in a term joins at least two processes. -/
def Joined (P : Term) : Prop := ∀ Q ∈ P.subterms, Q.JoinsTwo

instance : DecidablePred JoinsTwo
  | .choice summands => inferInstanceAs (Decidable (2 ≤ summands.length))
  | .parallel Ps => inferInstanceAs (Decidable (2 ≤ Ps.length))
  | .inaction | .guarded _ _ | .exponent _ _ | .restriction _ _ | .constant _ => instDecidableTrue

instance : DecidablePred Joined := fun P => List.decidableBAll JoinsTwo P.subterms

theorem joined_guarded {a : Action} : (guarded a P).Joined ↔ P.Joined := by
  rw [Joined, subterms, List.forall_mem_cons]
  exact and_iff_right trivial

theorem joined_choice : (choice summands).Joined ↔
    2 ≤ summands.length ∧ ∀ summand ∈ summands, summand.2.Joined := by
  rw [Joined, subterms, subtermsOfSummands_eq, List.forall_mem_cons, List.forall_mem_flatMap]
  rfl

theorem joined_parallel : (parallel Ps).Joined ↔ 2 ≤ Ps.length ∧ ∀ P ∈ Ps, P.Joined := by
  rw [Joined, subterms, subtermsOfAll_eq, List.forall_mem_cons, List.forall_mem_flatMap]
  rfl

theorem joined_exponent {count : UInt64} : (exponent P count).Joined ↔ P.Joined := by
  rw [Joined, subterms, List.forall_mem_cons]
  exact and_iff_right trivial

theorem joined_restriction {s : ActionName} : (restriction s P).Joined ↔ P.Joined := by
  rw [Joined, subterms, List.forall_mem_cons]
  exact and_iff_right trivial

/-! ### Splicing -/

/-- What a process contributes to a composition: the components of a composition, any other process
itself. -/
def strands : Term → List Term
  | .parallel components => components
  | process => [process]

mutual

/-- Every composition that is directly a component of a composition is spliced into it. -/
def spliced : Term → Term
  | .inaction => .inaction
  | .guarded action continuation => .guarded action continuation.spliced
  | .choice summands => .choice (splicedSummands summands)
  | .parallel components => .parallel (splicedStrands components)
  | .exponent base count => .exponent base.spliced count
  | .restriction name body => .restriction name body.spliced
  | .constant name => .constant name

def splicedSummands : List (Action × Term) → List (Action × Term)
  | [] => []
  | (action, continuation) :: summands =>
    (action, continuation.spliced) :: splicedSummands summands

def splicedStrands : List Term → List Term
  | [] => []
  | component :: components => component.spliced.strands ++ splicedStrands components

end

theorem splicedSummands_eq_map (summands : List Summand) :
    splicedSummands summands = summands.map fun summand => (summand.1, summand.2.spliced) := by
  induction summands with
  | nil => rfl
  | cons summand summands ih => rw [splicedSummands, ih, List.map_cons]

theorem splicedStrands_eq_flatMap (Ps : List Term) :
    splicedStrands Ps = Ps.flatMap fun P => P.spliced.strands := by
  induction Ps with
  | nil => rfl
  | cons P Ps ih => rw [splicedStrands, ih, List.flatMap_cons]

theorem Joined.strands_spliced_ne_nil (h : P.Joined) : P.spliced.strands ≠ [] := by
  induction P using nestedInduction with
  | parallel Ps ih =>
      obtain ⟨hlength, hall⟩ := joined_parallel.1 h
      obtain ⟨P, hP⟩ := List.exists_mem_of_length_pos (Nat.lt_of_lt_of_le Nat.two_pos hlength)
      rw [spliced, strands, splicedStrands_eq_flatMap]
      exact fun hnil => ih P hP (hall P hP) (List.flatMap_eq_nil_iff.1 hnil P hP)
  | inaction | guarded _ _ _ | choice _ _ | exponent _ _ _ | restriction _ _ _ | constant _ =>
      exact List.cons_ne_nil _ _

/-- Every component contributes to a composition, so none gets fewer components. -/
theorem length_le_length_splicedStrands (h : ∀ P ∈ Ps, P.Joined) :
    Ps.length ≤ (splicedStrands Ps).length := by
  induction Ps with
  | nil => exact le_rfl
  | cons P Ps ih =>
      obtain ⟨hP, hPs⟩ := List.forall_mem_cons.1 h
      have hpos := List.length_pos_iff.2 hP.strands_spliced_ne_nil
      have hrest := ih hPs
      rw [splicedStrands, List.length_append, List.length_cons]
      omega

theorem Joined.joinsTwo_spliced (h : P.Joined) : P.spliced.JoinsTwo := by
  cases P with
  | choice summands =>
      rw [spliced, splicedSummands_eq_map]
      exact (joined_choice.1 h).1.trans_eq (List.length_map _).symm
  | parallel Ps =>
      obtain ⟨hlength, hall⟩ := joined_parallel.1 h
      exact hlength.trans (length_le_length_splicedStrands hall)
  | inaction | guarded _ _ | exponent _ _ | restriction _ _ | constant _ => exact trivial

/-! ### Flat terms -/

/-- No composition is directly a component of this process. -/
def IsFlat : Term → Prop
  | .parallel Ps => ∀ P ∈ Ps, ∀ Qs, P ≠ .parallel Qs
  | _ => True

theorem mem_subterms_self (P : Term) : P ∈ P.subterms := by
  cases P <;> exact List.mem_cons_self

/-- The strands of a flat process are no compositions. -/
theorem IsFlat.ne_parallel (h : P.IsFlat) {Q : Term} (hQ : Q ∈ P.strands) (Qs : List Term) :
    Q ≠ .parallel Qs := by
  cases P with
  | parallel Ps => exact h Q hQ Qs
  | inaction | guarded _ _ | choice _ | exponent _ _ | restriction _ _ | constant _ =>
      rw [List.mem_singleton.1 hQ]
      exact nofun

theorem mem_subterms_of_mem_strands {Q R : Term} (hQ : Q ∈ P.strands) (hR : R ∈ Q.subterms) :
    R ∈ P.subterms := by
  cases P with
  | parallel Ps =>
      rw [subterms, subtermsOfAll_eq]
      exact List.mem_cons_of_mem _ (List.mem_flatMap.2 ⟨Q, hQ, hR⟩)
  | inaction | guarded _ _ | choice _ | exponent _ _ | restriction _ _ | constant _ =>
      rwa [List.mem_singleton.1 hQ] at hR

/-- Splicing leaves no composition directly in another. -/
theorem flat_spliced (P : Term) : ∀ Q ∈ P.spliced.subterms, Q.IsFlat := by
  induction P using nestedInduction with
  | inaction | constant _ => exact List.forall_mem_singleton.2 trivial
  | guarded _ _ ih | exponent _ _ ih | restriction _ _ ih =>
      exact List.forall_mem_cons.2 ⟨trivial, ih⟩
  | choice summands ih =>
      rw [spliced, splicedSummands_eq_map, subterms, subtermsOfSummands_eq, List.flatMap_map]
      refine List.forall_mem_cons.2 ⟨trivial, List.forall_mem_flatMap.2 ih⟩
  | parallel Ps ih =>
      rw [spliced, splicedStrands_eq_flatMap, subterms, subtermsOfAll_eq]
      refine List.forall_mem_cons.2 ⟨List.forall_mem_flatMap.2 fun P hP Q hQ Qs => ?_,
        List.forall_mem_flatMap.2 (List.forall_mem_flatMap.2 fun P hP Q hQ R hR => ?_)⟩
      · exact (ih P hP _ (mem_subterms_self _)).ne_parallel hQ Qs
      · exact ih P hP R (mem_subterms_of_mem_strands hQ hR)

theorem strands_of_ne_parallel (h : ∀ Qs, P ≠ .parallel Qs) : P.strands = [P] := by
  cases P with
  | parallel Ps => exact absurd rfl (h Ps)
  | inaction | guarded _ _ | choice _ | exponent _ _ | restriction _ _ | constant _ => rfl

/-- A term without compositions directly in others stays as it is. -/
theorem spliced_of_flat (h : ∀ Q ∈ P.subterms, Q.IsFlat) : P.spliced = P := by
  induction P using nestedInduction with
  | inaction | constant _ => rfl
  | guarded a P ih => exact congrArg (guarded a) (ih (List.forall_mem_cons.1 h).2)
  | exponent P count ih => exact congrArg (exponent · count) (ih (List.forall_mem_cons.1 h).2)
  | restriction s P ih => exact congrArg (restriction s) (ih (List.forall_mem_cons.1 h).2)
  | choice summands ih =>
      rw [subterms, subtermsOfSummands_eq, List.forall_mem_cons, List.forall_mem_flatMap] at h
      rw [spliced, splicedSummands_eq_map]
      have hsame : ∀ summand ∈ summands, (summand.1, summand.2.spliced) = summand :=
        fun summand hsummand => Prod.ext rfl (ih summand hsummand (h.2 summand hsummand))
      rw [List.map_congr_left hsame, List.map_id']
  | parallel Ps ih =>
      rw [subterms, subtermsOfAll_eq, List.forall_mem_cons, List.forall_mem_flatMap] at h
      rw [spliced, splicedStrands_eq_flatMap]
      have hstrands : ∀ P ∈ Ps, P.spliced.strands = [P] := fun P hP => by
        rw [ih P hP (h.2 P hP), strands_of_ne_parallel (h.1 P hP)]
      rw [List.flatMap_congr hstrands, List.flatMap_singleton']

end Term
end PetriCcs
