import PetriCcs.Classification.Basic
import PetriCcs.Proofs.ChoiceClasses
import PetriCcs.Proofs.GroupFlow
import PetriCcs.Proofs.SynchroniseContract

/-! # The classes of a synchronised net

Splitting a group keeps the workflow property and the presence of inputs in both directions, and free
choice as far as `Net.FreelySplit` asks for it (`Splits.property_iffs`).  So the classes of a
synchronised net can be read off the net that went in (`Consistent.synchronise_class_iffs`): they do
not depend on the random source (`synchronise_classes`).  Of the two classes that splitting rests on,
free choice is part of group choice (`reachable_freeChoice`), and the test of group choice decides
what it is meant to (`reachable_groupChoice`). -/

namespace PetriCcs
namespace Sync

variable {net net' : Net} {group : Group} {joins steps : List Step} {left : List PlaceId}
  {t u : TransitionId}

/-! ### The splitting of a group -/

theorem SplitsGroup.left_ne_nil (s : SplitsGroup net group joins left net') : left ≠ [] := by
  obtain ⟨p, hp⟩ := List.exists_mem_of_ne_nil _ s.isGroup.places_ne
  obtain ⟨q, hq, -⟩ := s.leads_left (Or.inl hp)
  exact List.ne_nil_of_mem hq

/-- Splitting a group takes no transition its last input and gives none a first one. -/
theorem SplitsGroup.fed_iff (h : net.Consistent) (s : SplitsGroup net group joins left net') :
    net'.Fed ↔ net.Fed := by
  constructor
  · intro hfed t ht
    obtain ⟨p, hp⟩ := List.exists_mem_of_ne_nil _ (hfed t (s.contains_iff.2 (Or.inl ht)))
    by_cases hgroup : t ∈ group.transitions
    · obtain ⟨q, hq⟩ := List.exists_mem_of_ne_nil _ s.isGroup.places_ne
      exact List.ne_nil_of_mem ((s.isGroup.fed t hgroup q).2 hq)
    · exact List.ne_nil_of_mem ((s.preset_other h ht hgroup p).1 hp)
  · intro hfed t ht
    rcases s.contains_iff.1 ht with hold | ⟨l, r, u, q, hstep, heq | heq⟩
    · obtain ⟨p, hp⟩ := List.exists_mem_of_ne_nil _ (hfed t hold)
      by_cases hgroup : t ∈ group.transitions
      · obtain ⟨q, hq⟩ := List.exists_mem_of_ne_nil _ s.left_ne_nil
        exact List.ne_nil_of_mem ((s.preset_group h hgroup q).2 hq)
      · exact List.ne_nil_of_mem ((s.preset_other h hold hgroup p).2 hp)
    · cases heq
      exact List.ne_nil_of_mem (((s.isJoin h hstep).preset l).2 (Or.inl rfl))
    · cases heq

/-- A group of internal transitions keeps two places, any other group one. -/
theorem keep_eq (net : Net) (group : Group) :
    group.keep net = if ∀ t ∈ group.transitions, net.label? t = some .tau then 2 else 1 := by
  have htest : ∀ t : TransitionId,
      (net.transition? t).any Transition.isTau = true ↔ net.label? t = some .tau := by
    intro t
    rw [Net.label?]
    cases net.transition? t with
    | none => simp
    | some transition =>
        rw [Option.any_some, Option.map_some, Option.some_inj, Transition.isTau]
        cases transition.label <;> simp [Label.isTau]
  exact if_congr (List.all_eq_true.trans (forall₂_congr fun t _ => htest t)) rfl rfl

/-- A group with a transition over its limit has several places. -/
theorem IsGroup.one_lt_length (h : net.Consistent) (hg : IsGroup net group)
    (hu : u ∈ group.transitions) (hlimit : ¬ net.WithinLimit u) : 1 < group.places.length := by
  have hperm := (List.perm_ext_iff_of_nodup (h.nodup_preset u) hg.places_nodup).2 (hg.fed u hu)
  by_contra hle
  refine hlimit fun label _ => ?_
  have hone : 1 ≤ label.limit := by
    unfold Label.limit
    split <;> omega
  rw [hperm.length_eq]
  omega

/-- Splitting a group keeps what is asked of each transition. -/
theorem SplitsGroup.freelySplit_iff (h : net.Consistent)
    (s : SplitsGroup net group joins left net') (hu : u ∈ group.transitions)
    (hlimit : ¬ net.WithinLimit u) (hleft : left.length = group.keep net) :
    net'.FreelySplit ↔ net.FreelySplit := by
  refine forall_congr' fun t => ?_
  by_cases hgroup : t ∈ group.transitions
  · have hlabel : (∀ v ∈ group.transitions, net'.label? v = some .tau) ↔
        ∀ v ∈ group.transitions, net.label? v = some .tau :=
      forall₂_congr fun v hv => by rw [s.label_old (s.isGroup.contains_transition h hv)]
    rw [Net.freelySplitAt_iff (s.preset_group h hgroup) (fun p hp => s.consumers_left h hp)
        (List.Nodup.of_append_left (s.nodup h)) fun htau => ?_,
      Net.freelySplitAt_iff (s.isGroup.fed t hgroup) s.isGroup.feeds s.isGroup.places_nodup
        fun _ => s.isGroup.one_lt_length h hu hlimit, hlabel]
    rw [hleft, keep_eq, if_pos (hlabel.1 htau)]
    decide
  · by_cases hold : net.contains (.transition t) = true
    · -- its inputs and those who share them are left alone
      refine forall₂_congr fun p q => ?_
      rw [s.preset_other h hold hgroup p, s.preset_other h hold hgroup q]
      refine imp_congr_right fun hp => imp_congr_right fun _ => imp_congr_right fun _ => ?_
      have hpold := (SplitsGroup.old_of_preset h hp).1
      have hout : p ∉ group.places := fun hin =>
        hgroup ((s.isGroup.feeds p hin t).1 (h.mem_preset_iff_mem_consumers.1 hp))
      simp only [s.consumers_other h hpold hout]
      refine imp_congr_left (forall₂_congr fun v hv => ?_)
      rw [s.label_old ((h.mem_consumers_iff.1 hv).contains h .target)]
    · refine iff_of_true (fun p q hp _ _ _ v hv => ?_) fun p q hp => ?_
      · rcases (s.mem_preset_iff h).1 hp with ⟨hp, -⟩ | ⟨l, r, place, hstep, hin⟩ | ⟨-, ht⟩
        · exact absurd (SplitsGroup.old_of_preset h hp).2 hold
        · exact (s.consumers_input h hstep hin v).1 hv
        · exact absurd ht hgroup
      · exact absurd (SplitsGroup.old_of_preset h hp).2 hold

/-! ### The splitting of all groups -/

/-- A run of splits changes none of the three properties. -/
theorem Splits.property_iffs (h : Splits net steps net') (hnet : net.Consistent) :
    (net'.WorkflowNet ↔ net.WorkflowNet) ∧ (net'.Fed ↔ net.Fed) ∧
      (net'.FreelySplit ↔ net.FreelySplit) := by
  induction h with
  | done _ => exact ⟨Iff.rfl, Iff.rfl, Iff.rfl⟩
  | split s hu hlimit hleft _ ih =>
      obtain ⟨hworkflow, hfed, hfree⟩ := ih s.evolves.consistent
      exact ⟨hworkflow.trans (s.workflowNet_iff hnet), hfed.trans (s.fed_iff hnet),
        hfree.trans (s.freelySplit_iff hnet hu hlimit hleft)⟩

end Sync

namespace Net

variable {net : Net} {n : ℕ} {σ : Type} [RandomSource σ]

/-- Only nets of the two classes are synchronised. -/
theorem class_of_synchronise {tag : ℕ} {source rest : σ} {result : Sync.Result}
    (hrun : net.synchronise tag source = .ok (result, rest)) :
    net.isTwoTauSynchronisation = true ∨ net.isGroupChoice = true := by
  by_contra hnot
  rw [synchronise_refused (fun h => hnot (Or.inl h)) (fun h => hnot (Or.inr h))] at hrun
  cases hrun

/-- The classes of a synchronised net, in terms of the net that went in. -/
theorem Consistent.synchronise_class_iffs (h : net.Consistent) {tag : ℕ} {source rest : σ}
    {result : Sync.Result} (hrun : net.synchronise tag source = .ok (result, rest)) :
    (result.net.isWorkflow = true ↔ net.WorkflowNet) ∧ (result.net.isCcs = true ↔ net.Fed) ∧
      (result.net.isGroupChoice = true ↔ net.GroupChoice) ∧
      (result.net.isFreeChoice = true ↔
        net.FreeChoice ∨ net.isTwoTauSynchronisation = false ∧ net.FreelySplit) := by
  obtain ⟨hsplits, htwoTau⟩ := synchronise_splits h hrun
  have hresult := hsplits.evolves.consistent
  obtain ⟨hworkflow, hfed, hfreely⟩ := hsplits.property_iffs (h.copy tag)
  rw [hresult.isWorkflow_iff, hresult.isCcs_iff, hresult.isGroupChoice_iff, hresult.isFreeChoice_iff,
    hworkflow, hfed, h.copy_iff WorkflowNet.copy, h.copy_iff Fed.copy]
  refine ⟨Iff.rfl, and_iff_right htwoTau, ?_⟩
  by_cases hclass : net.isTwoTauSynchronisation = true
  · rw [synchronise_of_isTwoTauSynchronisation hclass] at hrun
    cases hrun
    rw [h.copy_iff GroupChoice.copy, h.copy_iff FreeChoice.copy, hclass]
    simp
  · -- a net that needs splitting has the group-choice property, and so does what it becomes
    have hchoice :=
      h.groupChoice_of_isGroupChoice ((class_of_synchronise hrun).resolve_left hclass)
    have hout := hsplits.groupChoice (h.copy tag) (hchoice.copy h tag)
    rw [hresult.freeChoice_iff_freelySplit hout (hresult.isTwoTauSynchronisation_iff.1 htwoTau),
      hfreely, h.copy_iff FreelySplit.copy, Bool.not_eq_true _ |>.mp hclass]
    refine ⟨iff_of_true hout hchoice, fun hfree => Or.inr ⟨rfl, hfree⟩, fun hfree => ?_⟩
    exact hfree.elim FreeChoice.freelySplit And.right

/-- Synchronisation keeps the workflow class in both directions, keeps group choice and free choice,
and makes CCS nets of exactly those nets whose transitions all have inputs.  The classes of the result
do not depend on the random source. -/
theorem synchronise_classes (h : net.Reachable n) {tag : ℕ} {source rest : σ}
    {result : Sync.Result} (hrun : net.synchronise tag source = .ok (result, rest)) :
    result.net.isWorkflow = net.isWorkflow ∧
      (net.isGroupChoice = true → result.net.isGroupChoice = true) ∧
      (net.isFreeChoice = true → result.net.isFreeChoice = true) ∧
      (result.net.isCcs = true ↔
        ∀ transition ∈ net.transitions.toList, transition.incoming ≠ []) ∧
      ∀ (σ' : Type) [RandomSource σ'] (tag' : ℕ) (source' : σ'), ∃ result' rest',
        net.synchronise tag' source' = .ok (result', rest') ∧
          result'.net.classify = result.net.classify := by
  have hnet := h.consistent
  obtain ⟨hworkflow, hccs, hgroup, hfree⟩ := hnet.synchronise_class_iffs hrun
  have htwoTau := (synchronise_splits hnet hrun).2
  refine ⟨?_, ?_, ?_, ?_, fun σ' _ tag' source' => ?_⟩
  · rw [Bool.eq_iff_iff, hworkflow, hnet.isWorkflow_iff]
  · rw [hgroup, hnet.isGroupChoice_iff]
    exact id
  · rw [hfree, hnet.isFreeChoice_iff]
    exact Or.inl
  · rw [hccs, hnet.fed_iff]
  · obtain ⟨result', rest', hrun', -⟩ :=
      hnet.synchronise_ok (class_of_synchronise hrun) tag' source'
    obtain ⟨hworkflow', hccs', hgroup', hfree'⟩ := hnet.synchronise_class_iffs hrun'
    have htwoTau' := (synchronise_splits hnet hrun').2
    refine ⟨result', rest', hrun', ?_⟩
    rw [classify, classify, NetClass.mk.injEq]
    exact ⟨Bool.eq_iff_iff.2 (hccs'.trans hccs.symm), htwoTau'.trans htwoTau.symm,
      Bool.eq_iff_iff.2 (hfree'.trans hfree.symm), Bool.eq_iff_iff.2 (hgroup'.trans hgroup.symm),
      Bool.eq_iff_iff.2 (hworkflow'.trans hworkflow.symm)⟩

/-- A workflow that forks into two places and joins them again by a visible transition. -/
def forkJoin : Net :=
  [Change.addPlace none 1, .addPlace none 0, .addPlace none 0, .addPlace none 0,
    .addLabelledTransition none (.visible "a"), .addLabelledTransition none (.visible "b"),
    .addEdge (.place ⟨0, 0⟩) (.transition ⟨0, 0⟩) 1,
    .addEdge (.transition ⟨0, 0⟩) (.place ⟨0, 1⟩) 1,
    .addEdge (.transition ⟨0, 0⟩) (.place ⟨0, 2⟩) 1,
    .addEdge (.place ⟨0, 1⟩) (.transition ⟨0, 1⟩) 1,
    .addEdge (.place ⟨0, 2⟩) (.transition ⟨0, 1⟩) 1,
    .addEdge (.transition ⟨0, 1⟩) (.place ⟨0, 3⟩) 1].foldl
      (fun net change => (change.runOn net).2) (empty 0)

theorem forkJoin_reachable : forkJoin.Reachable 12 :=
  Reachable.of_changes (by decide +kernel)

theorem synchronise_classes_forkJoin : forkJoin.Reachable 12 ∧
    ∃ result rest, forkJoin.synchronise 1 (WordList.mk [3, 1]) = .ok (result, rest) ∧
      result.net.isWorkflow = true ∧ result.net.isGroupChoice = true ∧
      result.net.isFreeChoice = true ∧ result.net.isCcs = true := by
  have hchoice : forkJoin.isGroupChoice = true := by decide
  obtain ⟨result, rest, hrun, -⟩ :=
    forkJoin_reachable.consistent.synchronise_ok (Or.inr hchoice) 1 (WordList.mk [3, 1])
  obtain ⟨hworkflow, hgroup, hfree, hccs, -⟩ := synchronise_classes forkJoin_reachable hrun
  exact ⟨forkJoin_reachable, result, rest, hrun, hworkflow.trans (by decide), hgroup hchoice,
    hfree (by decide), hccs.2 (by decide)⟩

/-- Free-choice nets are group-choice nets, so synchronising one succeeds with every random source. -/
theorem reachable_freeChoice (h : net.Reachable n) (hclass : net.isFreeChoice = true) :
    net.isGroupChoice = true ∧
      ∀ (σ : Type) [RandomSource σ] (tag : ℕ) (source : σ), ∃ result rest,
        net.synchronise tag source = .ok (result, rest) := by
  have hnet := h.consistent
  have hchoice : net.isGroupChoice = true :=
    hnet.isGroupChoice_iff.2 ((hnet.isFreeChoice_iff.1 hclass).groupChoice hnet)
  refine ⟨hchoice, fun σ _ tag source => ?_⟩
  obtain ⟨result, rest, hrun, -⟩ := hnet.synchronise_ok (Or.inr hchoice) tag source
  exact ⟨result, rest, hrun⟩

theorem reachable_freeChoice_forkJoin : forkJoin.Reachable 12 ∧ forkJoin.isFreeChoice = true ∧
    forkJoin.isGroupChoice = true ∧ ∃ result rest,
      forkJoin.synchronise 1 (WordList.mk [3, 1]) = .ok (result, rest) := by
  have hclass : forkJoin.isFreeChoice = true := by decide
  obtain ⟨hchoice, hruns⟩ := reachable_freeChoice forkJoin_reachable hclass
  exact ⟨forkJoin_reachable, hclass, hchoice, hruns WordList 1 (WordList.mk [3, 1])⟩

/-- The group-choice test holds exactly when places that share a consumer have the same consumers, in
whichever order the pass visits the places.  Then the places that feed a transition and the
transitions that consume from one of them are joined each with each. -/
theorem reachable_groupChoice (h : net.Reachable n) :
    (∀ p t, (t ∈ net.consumers p ↔ net.Flows (.place p) (.transition t)) ∧
      (p ∈ net.preset t ↔ net.Flows (.place p) (.transition t))) ∧
    (net.isGroupChoice = true ↔ ∀ p q t, t ∈ net.consumers p → t ∈ net.consumers q →
      ∀ u, u ∈ net.consumers p ↔ u ∈ net.consumers q) ∧
    (∀ order : List PlaceId, (∀ p, p ∈ order ↔ net.contains (.place p) = true) →
      net.groupPass order [] = net.isGroupChoice) ∧
    (net.isGroupChoice = true → ∀ t, ∀ p ∈ net.preset t, ∀ u ∈ net.consumers p,
      ∀ q, q ∈ net.preset u ↔ q ∈ net.preset t) := by
  have hnet := h.consistent
  refine ⟨fun p t => ⟨hnet.mem_consumers_iff_flows, hnet.mem_preset_iff_mem_consumers.trans
    hnet.mem_consumers_iff_flows⟩, ?_, fun order horder => ?_, fun hclass t p hp u hu q => ?_⟩
  · rw [hnet.isGroupChoice_iff, hnet.groupChoice_iff]
  · rw [Bool.eq_iff_iff, hnet.isGroupChoice_iff]
    exact hnet.groupPass_iff fun p => (horder p).2
  · exact (hnet.isGroupChoice_iff.1 hclass).mem_preset_iff hnet
      (hnet.mem_preset_iff_mem_consumers.1 hp) hu q

/-- Two places that both feed the same two transitions. -/
def crossed : Net :=
  [Change.addPlace none 1, .addPlace none 1,
    .addLabelledTransition none (.visible "a"), .addLabelledTransition none (.visible "b"),
    .addEdge (.place ⟨0, 0⟩) (.transition ⟨0, 0⟩) 1,
    .addEdge (.place ⟨0, 0⟩) (.transition ⟨0, 1⟩) 1,
    .addEdge (.place ⟨0, 1⟩) (.transition ⟨0, 0⟩) 1,
    .addEdge (.place ⟨0, 1⟩) (.transition ⟨0, 1⟩) 1].foldl
      (fun net change => (change.runOn net).2) (empty 0)

theorem crossed_reachable : crossed.Reachable 8 :=
  Reachable.of_changes (by decide +kernel)

theorem reachable_groupChoice_crossed : crossed.Reachable 8 ∧ crossed.isGroupChoice = true ∧
    crossed.groupPass [⟨0, 1⟩, ⟨0, 0⟩] [] = true ∧
    ∀ q, q ∈ crossed.preset ⟨0, 0⟩ ↔ q ∈ crossed.preset ⟨0, 1⟩ := by
  obtain ⟨-, -, horders, hjoined⟩ := reachable_groupChoice crossed_reachable
  have hclass : crossed.isGroupChoice = true := by decide +kernel
  have hplaces : crossed.places.handles = [⟨0, 0⟩, ⟨0, 1⟩] := by decide +kernel
  refine ⟨crossed_reachable, hclass, (horders _ fun p => ?_).trans hclass,
    hjoined hclass ⟨0, 1⟩ ⟨0, 0⟩ (by decide +kernel) ⟨0, 0⟩ (by decide +kernel)⟩
  rw [Net.contains, ← Arena.mem_handles_iff, hplaces]
  simp [or_comm]

end Net
end PetriCcs
