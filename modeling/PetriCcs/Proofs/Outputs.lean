import PetriCcs.Proofs.Actions
import PetriCcs.Proofs.Names
import PetriCcs.Proofs.Related
import PetriCcs.Proofs.Shape

/-! # The compositions in an encoding

After a transition stands the composition of the places that it produces into, each with the weight
of its arc (`Net.Produces`), and an encoding starts with the marked places, each with its tokens, and
with the transitions without inputs (`Encoding.Initial`).  The encoder finds these (`produced_ok`,
`marked_eq`), and there is no action in them. -/

namespace PetriCcs

open Encoding

namespace Net

variable {net : Net} {t : TransitionId} {P : Term}

/-- The constant of a place as often as the weight says. -/
def Copies (net : Net) (entry : PlaceId × Weight) (component : Term) : Prop :=
  ∃ place, net.place? entry.1 = some place ∧
    (Term.constant (placeKey place)).CopiesOf entry.2 component

/-- The composition of the places that a transition produces into. -/
def Produces (net : Net) (t : TransitionId) (P : Term) : Prop :=
  ∃ components, List.Forall₂ net.Copies (net.postset t) components ∧
    Term.CompositionOf components P

/-- The transitions without inputs. -/
def unfed (net : Net) : List Transition := net.transitions.toList.filter (·.incoming.isEmpty)

theorem Consistent.unfed_eq (h : net.Consistent) : net.unfed =
    net.transitions.toList.filter fun transition => (net.preset transition.id).isEmpty := by
  refine List.filter_congr fun transition hmem => ?_
  have ht := (mem_transitions_iff h.identified).1 hmem
  rw [Bool.eq_iff_iff, List.isEmpty_iff, List.isEmpty_iff, h.preset_eq_nil_iff ht]

/-- The processes that are started for a net: the marked places in order, each as often as it has
tokens, and then the transitions without inputs. -/
def Starts (net : Net) (components : List Term) : Prop :=
  ∃ marked, List.Forall₂ (fun place => (Term.constant (placeKey place)).CopiesOf place.tokens)
      (net.places.toList.filter (0 < ·.tokens)) marked ∧
    components = marked ++ net.unfed.map fun transition => .constant (generatorKey transition)

/-- The processes that the encoder writes for the marked places. -/
def markedTerms (net : Net) : List Term :=
  (net.places.toList.filter (0 < ·.tokens)).map fun place =>
    (Term.constant (placeKey place)).times place.tokens

/-- The processes that the encoder starts. -/
def startTerms (net : Net) : List Term :=
  net.markedTerms ++ net.unfed.map fun transition => .constant (generatorKey transition)

theorem starts_startTerms (net : Net) : net.Starts net.startTerms := by
  refine ⟨net.markedTerms, List.forall₂_map_right_iff.2 ?_, rfl⟩
  refine List.forall₂_same.2 fun place hplace => Term.copiesOf_times fun hzero => ?_
  have hpos : 0 < place.tokens := by simpa using List.of_mem_filter hplace
  rw [hzero] at hpos
  exact absurd hpos (by decide)

theorem Copies.isComponent {entry : PlaceId × Weight} (h : net.Copies entry P) :
    P.IsComponent := by
  obtain ⟨place, -, hcopies⟩ := h
  exact hcopies.isComponent trivial

theorem isComponent_of_forall₂_copies {entries : List (PlaceId × Weight)} {Ps : List Term}
    (h : List.Forall₂ net.Copies entries Ps) : ∀ P ∈ Ps, P.IsComponent := fun P hP => by
  obtain ⟨entry, -, hcopies⟩ := exists_mem_of_forall₂_right h hP
  exact hcopies.isComponent

theorem Starts.isComponent {components : List Term} (h : net.Starts components) :
    ∀ P ∈ components, P.IsComponent := by
  obtain ⟨marked, hmarked, rfl⟩ := h
  intro P hP
  rcases List.mem_append.1 hP with hP | hP
  · obtain ⟨place, -, hcopies⟩ := exists_mem_of_forall₂_right hmarked hP
    exact hcopies.isComponent trivial
  · obtain ⟨transition, -, rfl⟩ := List.mem_map.1 hP
    exact trivial

theorem copies_ok {entries : List (PlaceId × Weight)}
    (h : ∀ entry ∈ entries, net.contains (.place entry.1) = true ∧ entry.2 ≠ 0) :
    ∃ Ps, (entries.mapM fun (place, weight) => copies net place weight) = .ok Ps ∧
      List.Forall₂ net.Copies entries Ps := by
  refine exists_mapM_eq_ok fun entry hentry => ?_
  obtain ⟨hcontains, hweight⟩ := h entry hentry
  obtain ⟨place, hplace⟩ := Arena.contains_iff_get?.1 hcontains
  have hplace' : net.place? entry.1 = some place := hplace
  refine ⟨(Term.constant (placeKey place)).times entry.2, ?_, place, hplace',
    Term.copiesOf_times hweight⟩
  simp only [copies, hplace', placeConstant_eq]
  rfl

/-- The encoder finds what a transition produces. -/
theorem produced_ok (h : net.Consistent) (t : TransitionId) :
    ∃ P, produced net t = .ok P ∧ net.Produces t P := by
  obtain ⟨Ps, hPs, hall⟩ := @copies_ok net (net.postset t) fun entry hentry =>
    ⟨(h.mem_postset_iff.1 hentry).contains h .target, (h.mem_postset_iff.1 hentry).fits h⟩
  refine ⟨.compose Ps, ?_, Ps, hall,
    Term.compositionOf_compose (isComponent_of_forall₂_copies hall)⟩
  rw [produced, hPs]
  rfl

theorem marked_eq (net : Net) : marked net = .ok net.markedTerms := by
  rw [marked, markedTerms]
  induction net.places.toList.filter (0 < ·.tokens) with
  | nil => rfl
  | cons place places ih =>
      rw [List.mapM_cons, ih, placeConstant_eq]
      rfl

/-! ### No actions -/

theorem Produces.actions_eq_nil (h : net.Produces t P) : P.actions = [] := by
  obtain ⟨components, hall, hP⟩ := h
  rw [hP.eq_compose]
  refine Term.actions_compose_eq_nil fun component hmem => ?_
  obtain ⟨entry, -, place, -, hcopies⟩ := exists_mem_of_forall₂_right hall hmem
  rw [hcopies.eq_times]
  exact Term.actions_times _ _

theorem actions_of_mem_startTerms (h : P ∈ net.startTerms) : P.actions = [] := by
  rcases List.mem_append.1 h with h | h
  · obtain ⟨place, -, rfl⟩ := List.mem_map.1 h
    exact Term.actions_times _ _
  · obtain ⟨transition, -, rfl⟩ := List.mem_map.1 h
    rfl

end Net

namespace Encoding

/-- The initial process is the composition of what is started for a net, with one restriction around
it for each of the restricted names, the first outermost. -/
def Initial (net : Net) (encoding : Encoding) : Prop :=
  ∃ components process, net.Starts components ∧ Term.CompositionOf components process ∧
    process.RestrictionOf encoding.syncNames encoding.initial

end Encoding
end PetriCcs
