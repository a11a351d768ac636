import PetriCcs.Proofs.Reachable

/-! # The contract of a synchronisation

On a reachable net a synchronisation returns exactly when the net is in one of its two classes, and
what it returns is a well-formed net of the 2-τ-synchronisation class (`synchronise_contract`).  It
has no steps exactly when the input was in that class, and then the output is the input, position by
position; so another synchronisation changes nothing. -/

namespace PetriCcs
namespace Net

variable {net : Net} {n : ℕ} {σ : Type} [RandomSource σ]

/-- Two nets with the same places, transitions, edges and lists of links at every position. -/
structure SamePositions (net net' : Net) : Prop where
  places : ∀ i : ℕ, net'.places.items[i]? = (net.places.items[i]?).map (Place.retag net'.tag)
  transitions : ∀ i : ℕ,
    net'.transitions.items[i]? = (net.transitions.items[i]?).map (Transition.retag net'.tag)
  edges : ∀ i : ℕ, net'.edges.items[i]? = (net.edges.items[i]?).map (Edge.retag net'.tag)

theorem samePositions_copy (net : Net) (tag : ℕ) : SamePositions net (net.copy tag) where
  places := fun _ => Array.getElem?_map ..
  transitions := fun _ => Array.getElem?_map ..
  edges := fun _ => Array.getElem?_map ..

/-- Synchronising a consistent net in one of the classes returns, with steps exactly when the net
was not yet of the 2-τ-synchronisation class. -/
theorem Consistent.synchronise_ok (h : net.Consistent)
    (hclass : net.isTwoTauSynchronisation = true ∨ net.isGroupChoice = true) (tag : ℕ)
    (source : σ) :
    ∃ result rest, net.synchronise tag source = .ok (result, rest) ∧
      (result.isUnchanged = true ↔ net.isTwoTauSynchronisation = true) ∧
      (net.isTwoTauSynchronisation = true → result.net = net.copy tag) := by
  by_cases htwoTau : net.isTwoTauSynchronisation = true
  · exact ⟨_, source, synchronise_of_isTwoTauSynchronisation htwoTau tag source,
      ⟨fun _ => htwoTau, fun _ => rfl⟩, fun _ => rfl⟩
  · obtain ⟨output, blocks, rest, hrun, hpasses, hresult⟩ := synchronise_of_isGroupChoice h htwoTau
      (hclass.resolve_left htwoTau) tag source
    refine ⟨⟨output, _⟩, rest, hrun, ⟨fun hunchanged => ?_, fun h' => absurd h' htwoTau⟩,
      fun h' => absurd h' htwoTau⟩
    -- without steps the output would be the copy, which is as far from the class as the net
    have hsteps : blocks.flatMap Sync.Block.steps = [] := List.isEmpty_iff.1 hunchanged
    have hsplits := hpasses.splits
    rw [hsteps] at hsplits
    rw [hsplits.eq_of_nil, isTwoTauSynchronisation_copy] at hresult
    exact hresult

/-- A synchronisation is refused because of the class of the net, and for no other reason. -/
theorem Consistent.error_of_synchronise (h : net.Consistent) {tag : ℕ} {source : σ}
    {error : NetError} (hrun : net.synchronise tag source = .error error) :
    error = .structuralMismatch .synchronisable := by
  by_cases hclass : net.isTwoTauSynchronisation = true ∨ net.isGroupChoice = true
  · obtain ⟨result, rest, hok, -⟩ := h.synchronise_ok hclass tag source
    rw [hok] at hrun
    cases hrun
  · rw [synchronise_refused (fun h' => hclass (Or.inl h')) fun h' => hclass (Or.inr h')] at hrun
    exact (Except.error.inj hrun).symm

/-- A synchronisation returns exactly on nets of the two classes; what it returns is well-formed, of
the 2-τ-synchronisation class, unchanged exactly when the input was, and stable. -/
theorem synchronise_contract (h : net.Reachable n) (tag : ℕ) (source : σ) :
    (¬ (net.isTwoTauSynchronisation = true ∨ net.isGroupChoice = true) →
      net.synchronise tag source = .error (.structuralMismatch .synchronisable)) ∧
    ((net.isTwoTauSynchronisation = true ∨ net.isGroupChoice = true) →
      ∃ result rest, net.synchronise tag source = .ok (result, rest) ∧
        result.net.isTwoTauSynchronisation = true ∧
        result.net.check = .ok () ∧
        (n + result.additions < additionLimit → result.net.WellFormed) ∧
        (result.isUnchanged = true ↔ net.isTwoTauSynchronisation = true) ∧
        (result.isUnchanged = true → SamePositions net result.net) ∧
        ∀ (σ' : Type) [RandomSource σ'] (tag' : ℕ) (source' : σ'),
          ∃ again rest', result.net.synchronise tag' source' = .ok (again, rest') ∧
            again.steps = [] ∧ Document.ofNet again.net = Document.ofNet result.net) := by
  refine ⟨fun hclass => ?_, fun hclass => ?_⟩
  · exact synchronise_refused (fun h' => hclass (Or.inl h')) (fun h' => hclass (Or.inr h')) tag source
  · obtain ⟨result, rest, hrun, hunchanged, hcopy⟩ := h.consistent.synchronise_ok hclass tag source
    have hreachable := h.synchronise hrun
    have htwoTau := (synchronise_splits h.consistent hrun).2
    refine ⟨result, rest, hrun, htwoTau, hreachable.consistent.check,
      fun hn => (hreachable.named hn).wellFormed hreachable.consistent, hunchanged, fun hsame => ?_,
      fun σ' _ tag' source' => ?_⟩
    · rw [hcopy (hunchanged.1 hsame)]
      exact samePositions_copy net tag
    · exact ⟨_, source', synchronise_of_isTwoTauSynchronisation htwoTau tag' source', rfl,
        Document.ofNet_copy hreachable.consistent tag'⟩

/-- Two places that together feed a visible transition. -/
def rendezvous : Net :=
  [Change.addPlace none 1, .addPlace none 1, .addLabelledTransition none (.visible "a"),
    .addEdge (.place ⟨0, 0⟩) (.transition ⟨0, 0⟩) 1,
    .addEdge (.place ⟨0, 1⟩) (.transition ⟨0, 0⟩) 1].foldl
      (fun net change => (change.runOn net).2) (empty 0)

theorem rendezvous_reachable : rendezvous.Reachable 5 :=
  Reachable.of_changes (by decide +kernel)

theorem rendezvous_isGroupChoice : rendezvous.isGroupChoice = true := by decide

theorem synchronise_contract_rendezvous : rendezvous.Reachable 5 ∧
    ∃ result rest, rendezvous.synchronise 1 (WordList.mk [3, 1]) = .ok (result, rest) ∧
      result.net.isTwoTauSynchronisation = true := by
  obtain ⟨result, rest, hrun, htwoTau, -⟩ :=
    (synchronise_contract rendezvous_reachable 1 (WordList.mk [3, 1])).2
      (Or.inr rendezvous_isGroupChoice)
  exact ⟨rendezvous_reachable, result, rest, hrun, htwoTau⟩

end Net
end PetriCcs
