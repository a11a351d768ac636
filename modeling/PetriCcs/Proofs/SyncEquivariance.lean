import PetriCcs.Proofs.ChoiceClasses
import PetriCcs.Proofs.Equivariance
import PetriCcs.Proofs.Workflow

/-! # Synchronising in translated handles

The classes of a net do not depend on its tag (`Consistent.classify_rename`), and splitting a group is
made of edits.  So a synchronisation of the translated net from the same random source draws the same
words, takes the same steps in translated handles and returns the translated net
(`Consistent.synchronise_rename`). -/

namespace PetriCcs

variable {ρ : ℕ → ℕ}

def Sync.Step.rename (ρ : ℕ → ℕ) : Sync.Step → Sync.Step
  | .merged left right transition place =>
      .merged (left.rename ρ) (right.rename ρ) (transition.rename ρ) (place.rename ρ)
  | .reconnected places transitions =>
      .reconnected (places.map (·.rename ρ)) (transitions.map (·.rename ρ))

def Sync.Result.rename (ρ : ℕ → ℕ) (result : Sync.Result) : Sync.Result where
  net := result.net.rename ρ
  steps := result.steps.map (·.rename ρ)

def Sync.Group.rename (ρ : ℕ → ℕ) (group : Sync.Group) : Sync.Group where
  places := group.places.map (·.rename ρ)
  transitions := group.transitions.map (·.rename ρ)

/-! ### Classes -/

namespace Net

variable {net : Net}

theorem isTwoTauSynchronisation_rename :
    (net.rename ρ).isTwoTauSynchronisation = net.isTwoTauSynchronisation := by
  have htoList : (net.rename ρ).transitions.toList =
      net.transitions.toList.map (Transition.rename ρ) := Arena.toList_rename
  rw [isTwoTauSynchronisation, isTwoTauSynchronisation, htoList, List.all_map]
  congr 1
  funext transition
  simp only [Function.comp_apply, Transition.rename, List.length_map]
  rfl

/-- Copies are in the classes of the net. -/
theorem Consistent.classify_copy (h : net.Consistent) (tag : ℕ) :
    (net.copy tag).classify = net.classify := by
  have hcopy := h.copy tag
  have hccs : (net.copy tag).isCcs = net.isCcs := by
    rw [Bool.eq_iff_iff, hcopy.isCcs_iff, h.isCcs_iff, isTwoTauSynchronisation_copy]
    exact and_congr_right' (h.copy_iff (fun h hfed => Fed.copy h hfed) tag)
  have hfree : (net.copy tag).isFreeChoice = net.isFreeChoice := by
    rw [Bool.eq_iff_iff, hcopy.isFreeChoice_iff, h.isFreeChoice_iff]
    exact h.copy_iff (fun h hfree => FreeChoice.copy h hfree) tag
  have hgroup : (net.copy tag).isGroupChoice = net.isGroupChoice := by
    rw [Bool.eq_iff_iff, hcopy.isGroupChoice_iff, h.isGroupChoice_iff]
    exact h.copy_iff (fun h hchoice => GroupChoice.copy h hchoice) tag
  have hworkflow : (net.copy tag).isWorkflow = net.isWorkflow := by
    rw [Bool.eq_iff_iff, hcopy.isWorkflow_iff, h.isWorkflow_iff]
    exact h.copy_iff (fun h hflow => WorkflowNet.copy h hflow) tag
  rw [classify, classify, hccs, isTwoTauSynchronisation_copy, hfree, hgroup, hworkflow]

theorem Consistent.classify_rename (h : net.Consistent) (ρ : ℕ → ℕ) :
    (net.rename ρ).classify = net.classify := by
  rw [← h.copy_eq_rename]
  exact h.classify_copy _

end Net

/-! ### Splitting a group -/

namespace Sync

variable {net : Net}

theorem withinLimit_rename (transition : Transition) :
    withinLimit (transition.rename ρ) = withinLimit transition := by
  rw [withinLimit, withinLimit, Transition.rename, List.length_map]
  rfl

section Injective

variable (hρ : Function.Injective ρ)

include hρ

theorem group?_rename (t : TransitionId) :
    group? (net.rename ρ) (t.rename ρ) = (group? net t).map (·.rename ρ) := by
  unfold group?
  rw [Net.preset_rename hρ]
  cases net.preset t with
  | nil => rfl
  | cons first rest =>
      rw [List.map_cons]
      simp only [Net.consumers_rename hρ]
      rfl

theorem keep_rename (group : Group) :
    (group.rename ρ).keep (net.rename ρ) = group.keep net := by
  have htest : ∀ t : TransitionId, ((net.rename ρ).transition? (t.rename ρ)).any Transition.isTau =
      (net.transition? t).any Transition.isTau := by
    intro t
    rw [Net.transition?_rename hρ]
    cases net.transition? t <;> rfl
  simp only [Group.keep, Group.rename, List.all_map, Function.comp_def, htest]

theorem overLimit?_rename (position : ℕ) :
    overLimit? (net.rename ρ) position = (overLimit? net position).map (·.rename ρ) := by
  have hhandle : (net.rename ρ).transitions.handle? position = _ := Arena.handle?_rename position
  unfold overLimit?
  rw [hhandle]
  cases net.transitions.handle? position with
  | none => rfl
  | some id =>
      simp only [Option.map_some, Option.bind_eq_bind, Option.bind_some, Net.transition?_rename hρ]
      cases net.transition? id with
      | none => rfl
      | some transition =>
          simp only [Option.map_some, Option.bind_some, withinLimit_rename]
          split_ifs
          · rfl
          · exact group?_rename hρ id

theorem disconnect_equivariant (group : Group) :
    Edit.Equivariant ρ id (disconnect group) (disconnect (group.rename ρ)) := by
  have hplaces : ∀ p : PlaceId, Edit.Equivariant ρ id
      (Edit.removeListed (Edit.storedOutgoing (.place p)))
      (Edit.removeListed (Edit.storedOutgoing (.place (p.rename ρ)))) := fun p =>
    Edit.removeListed_equivariant hρ (Edit.storedOutgoing_equivariant hρ (.place p))
  have htransitions : ∀ t : TransitionId, Edit.Equivariant ρ id
      (Edit.removeListed (Edit.storedIncoming (.transition t)))
      (Edit.removeListed (Edit.storedIncoming (.transition (t.rename ρ)))) := fun t =>
    Edit.removeListed_equivariant hρ (Edit.storedIncoming_equivariant hρ (.transition t))
  exact (equivariant_forM (Handle.rename ρ) hplaces group.places).bind fun _ =>
    equivariant_forM (Handle.rename ρ) htransitions group.transitions

theorem join_equivariant (left right : PlaceId) :
    Edit.Equivariant ρ (fun made => (made.1.rename ρ, made.2.rename ρ)) (join left right)
      (join (left.rename ρ) (right.rename ρ)) := by
  refine (Edit.addLabelledTransition_equivariant none .tau).bind fun transition => ?_
  refine (Edit.addPlace_equivariant none 0).bind fun place => ?_
  refine (Edit.addEdge_equivariant hρ (.place left) (.transition transition) 1).bind fun _ => ?_
  refine (Edit.addEdge_equivariant hρ (.place right) (.transition transition) 1).bind fun _ => ?_
  refine (Edit.addEdge_equivariant hρ (.transition transition) (.place place) 1).bind fun _ => ?_
  exact equivariant_pure (transition, place)

omit hρ in
theorem merge_rename (working : List PlaceId) (first second : ℕ) (place : PlaceId) :
    merge (working.map (·.rename ρ)) first second (place.rename ρ) =
      (merge working first second place).map (·.rename ρ) := by
  simp only [merge, ← List.map_set, List.getLast?_map]
  cases (working.set first place).getLast? with
  | none => rfl
  | some last => simp only [Option.map_some, ← List.map_set, List.map_dropLast]

theorem mergePairs_equivariant : ∀ (pairs : List (ℕ × ℕ)) (working : List PlaceId),
    Edit.Equivariant ρ
      (fun merged => (merged.1.map (Step.rename ρ), merged.2.map (Handle.rename ρ)))
      (mergePairs pairs working) (mergePairs pairs (working.map (Handle.rename ρ)))
  | [], working => equivariant_pure ([], working)
  | (first, second) :: pairs, working => by
      unfold mergePairs
      simp only [List.getElem?_map]
      cases working[first]? with
      | none => exact equivariant_throw _
      | some left =>
          cases working[second]? with
          | none => exact equivariant_throw _
          | some right =>
              refine (join_equivariant hρ left right).bind fun made => ?_
              have hrest := mergePairs_equivariant pairs (merge working first second made.2)
              rw [← merge_rename] at hrest
              exact hrest.bind fun merged => equivariant_pure
                (.merged left right made.1 made.2 :: merged.1, merged.2)

theorem connect_equivariant (places : List PlaceId) (transitions : List TransitionId) :
    Edit.Equivariant ρ id (connect places transitions)
      (connect (places.map (Handle.rename ρ)) (transitions.map (Handle.rename ρ))) := by
  have hedge : ∀ (p : PlaceId) (t : TransitionId), Edit.Equivariant ρ id
      (do let _ ← Edit.addEdge (.place p) (.transition t) 1)
      (do let _ ← Edit.addEdge (.place (p.rename ρ)) (.transition (t.rename ρ)) 1) := fun p t =>
    (Edit.addEdge_equivariant hρ (.place p) (.transition t) 1).bind fun _ => equivariant_pure ()
  have hplace : ∀ p : PlaceId, Edit.Equivariant ρ id
      (transitions.forM fun t => do let _ ← Edit.addEdge (.place p) (.transition t) 1)
      ((transitions.map (Handle.rename ρ)).forM fun t => do
        let _ ← Edit.addEdge (.place (p.rename ρ)) (.transition t) 1) := fun p =>
    equivariant_forM (Handle.rename ρ) (hedge p) transitions
  exact equivariant_forM (Handle.rename ρ) hplace places

theorem splitGroup_equivariant (group : Group) (pairs : List (ℕ × ℕ)) :
    Edit.Equivariant ρ (List.map (Step.rename ρ)) (splitGroup group pairs)
      (splitGroup (group.rename ρ) pairs) := by
  refine (disconnect_equivariant hρ group).bind fun _ => ?_
  refine (mergePairs_equivariant hρ pairs group.places).bind fun merged => ?_
  refine (connect_equivariant hρ merged.2 group.transitions).bind fun _ => ?_
  have hsteps : Edit.Equivariant ρ (List.map (Step.rename ρ))
      (pure (merged.1 ++ [.reconnected merged.2 group.transitions])) (pure _) := equivariant_pure _
  rw [List.map_append] at hsteps
  exact hsteps

end Injective

/-! ### Splitting all groups -/

variable {σ : Type} [RandomSource σ] (hρ : Function.Injective ρ)

include hρ

theorem splitAt_equivariant (position : ℕ) (source : σ) :
    Edit.Equivariant ρ (fun split => (split.1.map (Step.rename ρ), split.2))
      ((splitAt position).run source) ((splitAt position).run source) := by
  intro net
  change ((splitAt position).run source).runOn (net.rename ρ) =
    (translate _ _ (((splitAt position).run source).runOn net).1,
      (((splitAt position).run source).runOn net).2.rename ρ)
  rw [splitAt_run, splitAt_run, overLimit?_rename hρ]
  cases overLimit? net position with
  | none => rfl
  | some group =>
      have hlength : (group.rename ρ).places.length = group.places.length := List.length_map _
      simp only [Option.map_some, hlength, keep_rename hρ]
      generalize (Pairing.order group.places.length (group.keep net)).run source = drawn
      have hsplit : (splitGroup (group.rename ρ) drawn.1).runOn (net.rename ρ) =
          (translate _ _ ((splitGroup group drawn.1).runOn net).1,
            ((splitGroup group drawn.1).runOn net).2.rename ρ) :=
        splitGroup_equivariant hρ group drawn.1 net
      rw [hsplit]
      cases (splitGroup group drawn.1).runOn net with
      | mk result net' => cases result <;> rfl

theorem splitAll_equivariant : ∀ (positions : List ℕ) (source : σ),
    Edit.Equivariant ρ (fun split => (split.1.map (Step.rename ρ), split.2))
      ((splitAll positions).run source) ((splitAll positions).run source)
  | [], source => equivariant_pure ([], source)
  | position :: positions, source => by
      unfold splitAll
      rw [StateT.run_bind]
      refine (splitAt_equivariant hρ position source).bind fun split => ?_
      rw [StateT.run_bind]
      refine (splitAll_equivariant positions split.2).bind fun rest => ?_
      have hsteps : Edit.Equivariant ρ
          (fun split : List Step × σ => (split.1.map (Step.rename ρ), split.2))
          (pure (split.1 ++ rest.1, rest.2)) (pure _) := equivariant_pure _
      rw [List.map_append] at hsteps
      exact hsteps

end Sync

namespace Net

variable {net : Net} {σ : Type} [RandomSource σ]

/-- A synchronisation works on a copy, so it does not show which tag the net has. -/
theorem Consistent.synchronise_copy (h : net.Consistent) (copied tag : ℕ) (source : σ) :
    (net.copy copied).synchronise tag source = net.synchronise tag source := by
  have hgroup : (net.copy copied).isGroupChoice = net.isGroupChoice :=
    congrArg NetClass.groupChoice (h.classify_copy copied)
  have hsize : (net.copy copied).transitions.size = net.transitions.size := Arena.size_map _
  unfold synchronise
  rw [isTwoTauSynchronisation_copy, hgroup, hsize, copy_copy]

/-- Synchronising the translated net from the same source gives the translated result. -/
theorem Consistent.synchronise_rename (h : net.Consistent) (hρ : Function.Injective ρ) (tag : ℕ)
    (source : σ) : (net.rename ρ).synchronise (ρ tag) source =
      translate (NetError.rename ρ) (fun made => (made.1.rename ρ, made.2))
        (net.synchronise tag source) := by
  have hgroup : (net.rename ρ).isGroupChoice = net.isGroupChoice :=
    congrArg NetClass.groupChoice (h.classify_rename ρ)
  have hsize : (net.rename ρ).transitions.size = net.transitions.size := Arena.size_rename
  have hcopy : (net.rename ρ).copy (ρ tag) = (net.copy tag).rename ρ := by
    rw [copy_rename, ← h.copy_eq_rename, copy_copy]
  unfold synchronise
  rw [isTwoTauSynchronisation_rename, hgroup, hsize, hcopy]
  split_ifs
  · rfl
  · rfl
  · have hsplit := Sync.splitAll_equivariant hρ (List.range net.transitions.size) source
      (net.copy tag)
    simp only [Edit.runOn, hsplit]
    cases ((Sync.splitAll (List.range net.transitions.size)).run source).run.run (net.copy tag) with
    | mk result output =>
        cases result with
        | error error => rfl
        | ok split =>
            simp only [translate, isTwoTauSynchronisation_rename]
            split_ifs <;> rfl

end Net
end PetriCcs
