import PetriCcs.Proofs.Copy
import PetriCcs.Proofs.GroupSplit

/-! # Synchronising a net

The groups of a net are split one after the other (`Splits`), in a pass over its transitions that
leaves a `Block` of steps for each group (`Passes`).  On a net with the group-choice property no step
of this fails (`splitAll_runOn`), and afterwards every transition is within its limit
(`Passes.withinLimit`).  So a synchronisation returns a net of the 2-τ-synchronisation class exactly
when the input is in one of the two classes (`synchronise_of_isGroupChoice`, `synchronise_refused`). -/

namespace PetriCcs
namespace Sync

/-- What became of a group: the transition at which it was found over its limit, its places and
transitions, the joins, and the places that are left. -/
structure Block where
  leader : TransitionId
  group : Group
  joins : List Step
  left : List PlaceId

/-- The steps of a block. -/
def Block.steps (block : Block) : List Step :=
  block.joins ++ [.reconnected block.left block.group.transitions]

variable {net net' : Net} {steps : List Step} {t : TransitionId}

/-- Groups with a transition over its limit are split one after the other. -/
inductive Splits : Net → List Step → Net → Prop where
  | done {net : Net} (h : net.Consistent) : Splits net [] net
  | split {net net₁ net' : Net} {group : Group} {joins steps : List Step} {left : List PlaceId}
      {u : TransitionId} (s : SplitsGroup net group joins left net₁) (hu : u ∈ group.transitions)
      (hlimit : ¬ net.WithinLimit u) (hleft : left.length = group.keep net)
      (h : Splits net₁ steps net') :
      Splits net (joins ++ .reconnected left group.transitions :: steps) net'

theorem Splits.eq_of_nil (h : Splits net [] net') : net' = net := by
  generalize hsteps : ([] : List Step) = steps at h
  cases h with
  | done _ => rfl
  | split => simp at hsteps

theorem Splits.evolves (h : Splits net steps net') : Net.Evolves (additions steps) net net' := by
  induction h with
  | done h => exact Net.Evolves.refl h
  | @split net net₁ net' group joins steps left u s hu hlimit hleft _ ih =>
      refine (s.evolves.trans ih).mono (le_of_eq ?_)
      rw [← additions_append, List.append_assoc]
      rfl

theorem Splits.claims (h : Splits net steps net') :
    Net.Claims (steps.flatMap Step.places).length (steps.flatMap Step.transitions).length net net' := by
  induction h with
  | done h => exact Net.Claims.refl h
  | split s _ _ _ _ ih => simpa [Step.places, Step.transitions] using s.claims.trans ih

theorem Splits.groupChoice (h : Splits net steps net') (hnet : net.Consistent)
    (hchoice : net.GroupChoice) : net'.GroupChoice := by
  induction h with
  | done _ => exact hchoice
  | split s _ _ _ _ ih => exact ih s.evolves.consistent (s.groupChoice hnet hchoice)

/-- A transition that is within its limit, or not there yet, ends within its limit. -/
theorem Splits.withinLimit (h : Splits net steps net') (hnet : net.Consistent)
    (ht : net.contains (.transition t) = true → net.WithinLimit t) : net'.WithinLimit t := by
  induction h with
  | done _ =>
      intro label hlabel
      exact ht (Net.contains_transition_iff.2 ⟨label, hlabel⟩) label hlabel
  | split s _ _ hleft _ ih =>
      exact ih s.evolves.consistent fun _ => s.withinLimit hnet hleft.le fun hold _ => ht hold

theorem Splits.isJoin_of_isJoin (h : Splits net steps net') (hnet : net.Consistent)
    {l r q : PlaceId} (hjoin : net.IsJoin l r t q) : net'.IsJoin l r t q := by
  induction h with
  | done _ => exact hjoin
  | split s hu hlimit _ _ ih =>
      exact ih s.evolves.consistent (s.isJoin_of_isJoin hnet hu hlimit hjoin)

/-- The joins of all splits are there at the end. -/
theorem Splits.isJoin (h : Splits net steps net') (hnet : net.Consistent) {l r q : PlaceId}
    (hstep : .merged l r t q ∈ steps) : net'.IsJoin l r t q := by
  induction h with
  | done _ => exact absurd hstep List.not_mem_nil
  | split s _ _ _ hrest ih =>
      rcases List.mem_append.1 hstep with hstep | hstep
      · exact hrest.isJoin_of_isJoin s.evolves.consistent (s.isJoin hnet hstep)
      · rcases List.mem_cons.1 hstep with heq | hstep
        · cases heq
        · exact ih s.evolves.consistent hstep

/-! ### Blocks of steps -/

/-- The group of a transition over its limit was split. -/
structure SplitsBlock (net : Net) (block : Block) (net' : Net) : Prop where
  group : group? net block.leader = some block.group
  leader : block.leader ∈ block.group.transitions
  limit : ¬ net.WithinLimit block.leader
  split : SplitsGroup net block.group block.joins block.left net'
  left : block.left.length = block.group.keep net

/-- A pass over transitions splits the group of each that it finds over its limit. -/
inductive Passes : List TransitionId → Net → List Block → Net → Prop where
  | done {net : Net} (h : net.Consistent) : Passes [] net [] net
  | skip {t : TransitionId} {ts : List TransitionId} {net net' : Net} {blocks : List Block}
      (hlimit : net.WithinLimit t) (h : Passes ts net blocks net') :
      Passes (t :: ts) net blocks net'
  | split {ts : List TransitionId} {net net₁ net' : Net} {block : Block} {blocks : List Block}
      (s : SplitsBlock net block net₁) (h : Passes ts net₁ blocks net') :
      Passes (block.leader :: ts) net (block :: blocks) net'

theorem Passes.splits {ts : List TransitionId} {blocks : List Block}
    (h : Passes ts net blocks net') : Splits net (blocks.flatMap Block.steps) net' := by
  induction h with
  | done h => exact Splits.done h
  | skip _ _ ih => exact ih
  | split s _ ih =>
      rw [List.flatMap_cons, Block.steps, List.append_assoc]
      exact Splits.split s.split s.leader s.limit s.left ih

theorem SplitsBlock.withinLimit {block : Block} (h : net.Consistent)
    (s : SplitsBlock net block net') (ht : t ∈ block.group.transitions) : net'.WithinLimit t :=
  s.split.withinLimit h s.left.le fun _ hnot => absurd ht hnot

/-- A pass brings every transition that it visits within its limit. -/
theorem Passes.withinLimit {ts : List TransitionId} {blocks : List Block}
    (h : Passes ts net blocks net') (hnet : net.Consistent) : ∀ t ∈ ts, net'.WithinLimit t := by
  induction h with
  | done _ => simp
  | skip hlimit hrest ih =>
      intro t ht
      rcases List.mem_cons.1 ht with rfl | ht
      · exact hrest.splits.withinLimit hnet fun _ => hlimit
      · exact ih hnet t ht
  | split s hrest ih =>
      intro t ht
      have hnet₁ := s.split.evolves.consistent
      rcases List.mem_cons.1 ht with rfl | ht
      · exact hrest.splits.withinLimit hnet₁ fun _ => s.withinLimit hnet s.leader
      · exact ih hnet₁ t ht

/-! ### The loop -/

variable {σ : Type} [RandomSource σ]

/-- The group to split for a transition, if it is over its limit. -/
def overLimit? (net : Net) (position : ℕ) : Option Group := do
  let id ← net.transitions.handle? position
  let transition ← net.transition? id
  if withinLimit transition then none else group? net id

omit [RandomSource σ] in
/-- An edit beside a source leaves the source as it is. -/
theorem runOn_lift (edit : Edit (List Step)) (source : σ) (net : Net) :
    ((liftM edit : StateT σ Edit (List Step)).run source).runOn net =
      match edit.runOn net with
      | (.ok steps, net') => (.ok (steps, source), net')
      | (.error error, net') => (.error error, net') := by
  have hbind : (liftM edit : StateT σ Edit (List Step)).run source =
      edit >>= fun steps => pure (steps, source) := rfl
  rw [hbind, Edit.runOn_bind]
  cases edit.runOn net with
  | mk result net' => cases result <;> rfl

/-- A split is decided by the group that is over its limit, if there is one. -/
theorem splitAt_run_overLimit (position : ℕ) (source : σ) (net : Net) :
    ((splitAt position).run source).runOn net =
      ((match overLimit? net position with
        | none => (pure [] : StateT σ Edit (List Step))
        | some group => do
          let drawn := (Pairing.order group.places.length (group.keep net)).run (← get)
          set drawn.2
          splitGroup group drawn.1).run source).runOn net := by
  have hget : ((getThe Net : StateT σ Edit Net).run source).runOn net = (.ok (net, source), net) :=
    rfl
  rw [splitAt, StateT.run_bind, Edit.runOn_bind_ok hget]
  rfl

theorem splitAt_run (position : ℕ) (source : σ) (net : Net) :
    ((splitAt position).run source).runOn net =
      match overLimit? net position with
      | none => (.ok ([], source), net)
      | some group =>
        let drawn := (Pairing.order group.places.length (group.keep net)).run source
        match (splitGroup group drawn.1).runOn net with
        | (.ok steps, net') => (.ok (steps, drawn.2), net')
        | (.error error, net') => (.error error, net') := by
  rw [splitAt_run_overLimit]
  cases overLimit? net position with
  | none => rfl
  | some group => exact runOn_lift _ _ net

/-- A transition over its limit has a group. -/
theorem overLimit?_spec (h : net.Consistent) (ht : net.contains (.transition t) = true) :
    (overLimit? net t.index = none ∧ net.WithinLimit t) ∨
      ∃ group, overLimit? net t.index = some group ∧ group? net t = some group ∧
        ¬ net.WithinLimit t := by
  obtain ⟨transition, htransition⟩ := Arena.contains_iff_get?.1 ht
  have htransition' : net.transition? t = some transition := htransition
  obtain ⟨howner, hindex⟩ := Arena.contains_iff.1 ht
  have hhandle : net.transitions.handle? t.index = some t := by
    rw [Arena.handle?, if_pos hindex, Arena.handleAt_index howner]
  have hover : overLimit? net t.index =
      if withinLimit transition then none else group? net t := by
    rw [overLimit?, hhandle]
    simp only [Option.bind_eq_bind, Option.bind_some, htransition']
  rw [hover]
  by_cases hlimit : withinLimit transition = true
  · rw [if_pos hlimit]
    exact Or.inl ⟨rfl, (h.withinLimit_iff htransition').1 hlimit⟩
  · rw [if_neg hlimit]
    have hnot : ¬ net.WithinLimit t := fun hw => hlimit ((h.withinLimit_iff htransition').2 hw)
    have hlabel := Net.label?_eq_some htransition'
    refine Or.inr ?_
    cases hpreset : net.preset t with
    | nil =>
        refine absurd (fun label _ => ?_) hnot
        rw [hpreset]
        exact Nat.zero_le _
    | cons first rest =>
        refine ⟨⟨first :: rest, net.consumers first⟩, ?_, ?_, hnot⟩
        · rw [group?, hpreset]
        · rw [group?, hpreset]

/-- At a position nothing happens if its transition is within its limit; otherwise its group is
split. -/
theorem splitAt_runOn (h : net.Consistent) (hchoice : net.GroupChoice)
    (ht : net.contains (.transition t) = true) (source : σ) :
    (((splitAt t.index).run source).runOn net = (.ok ([], source), net) ∧ net.WithinLimit t) ∨
      ∃ block source' net', block.leader = t ∧ SplitsBlock net block net' ∧
        ((splitAt t.index).run source).runOn net = (.ok (block.steps, source'), net') := by
  rw [splitAt_run]
  rcases overLimit?_spec h ht with ⟨hnone, hlimit⟩ | ⟨group, hsome, hgroup, hlimit⟩
  · rw [hnone]
    exact Or.inl ⟨rfl, hlimit⟩
  · obtain ⟨hg, htg, hplaces⟩ := isGroup_of_group? h hchoice hgroup
    obtain ⟨label, hlabel⟩ := Net.contains_transition_iff.1 ht
    have hkeep : group.keep net ≤ group.places.length := by
      by_contra hlt
      refine hlimit fun other hother => ?_
      rw [hlabel] at hother
      cases hother
      rw [← hplaces]
      exact (Nat.le_of_not_le hlt).trans (keep_le_limit htg hlabel)
    have hone := one_le_keep net group
    have hstay : max (group.keep net) 1 = group.keep net := max_eq_left hone
    have hpairs := Pairing.order_shrinks (group.keep net)
      (group.places.length - max (group.keep net) 1) source
    rw [hstay, Nat.add_sub_of_le hkeep] at hpairs
    obtain ⟨joins, left, net', hrun, hsplit, hlength⟩ := splitGroup_runOn h hg hpairs
    refine Or.inr ⟨⟨t, group, joins, left⟩,
      ((Pairing.order group.places.length (group.keep net)).run source).2, net', rfl,
      ⟨hgroup, htg, hlimit, hsplit, hlength⟩, ?_⟩
    rw [hsome]
    simp only [hrun, Block.steps]

/-- Splitting at all positions never fails. -/
theorem splitAll_runOn :
    ∀ (ts : List TransitionId) (net : Net) (source : σ), net.Consistent → net.GroupChoice →
      (∀ t ∈ ts, net.contains (.transition t) = true) →
      ∃ blocks source' net', ((splitAll (ts.map Handle.index)).run source).runOn net =
        (.ok (blocks.flatMap Block.steps, source'), net') ∧ Passes ts net blocks net'
  | [], net, source, h, _, _ => ⟨[], source, net, rfl, Passes.done h⟩
  | t :: ts, net, source, h, hchoice, hcontains => by
      have hrun : (splitAll ((t :: ts).map Handle.index)).run source =
          (splitAt t.index).run source >>= fun first =>
            (splitAll (ts.map Handle.index)).run first.2 >>= fun rest =>
              pure (first.1 ++ rest.1, rest.2) := rfl
      rw [hrun]
      rcases splitAt_runOn h hchoice (hcontains t List.mem_cons_self) source with
        ⟨hrun₁, hlimit⟩ | ⟨block, source₁, net₁, rfl, s, hrun₁⟩
      · obtain ⟨blocks, source₂, net₂, hrun₂, hpasses⟩ := splitAll_runOn ts net source h hchoice
          fun u hu => hcontains u (List.mem_cons_of_mem _ hu)
        refine ⟨blocks, source₂, net₂, ?_, Passes.skip hlimit hpasses⟩
        rw [Edit.runOn_bind_ok hrun₁, Edit.runOn_bind_ok hrun₂, Edit.runOn_pure, List.nil_append]
      · obtain ⟨blocks, source₂, net₂, hrun₂, hpasses⟩ := splitAll_runOn ts net₁ source₁
          s.split.evolves.consistent (s.split.groupChoice h hchoice) fun u hu =>
            s.split.grows.contains (hcontains u (List.mem_cons_of_mem _ hu))
        refine ⟨block :: blocks, source₂, net₂, ?_, Passes.split s hpasses⟩
        rw [Edit.runOn_bind_ok hrun₁, Edit.runOn_bind_ok hrun₂, Edit.runOn_pure,
          List.flatMap_cons]

end Sync

namespace Net

variable {net : Net} {σ : Type} [RandomSource σ]

/-- A copy of a net with the group-choice property has it, too. -/
theorem GroupChoice.copy (h : net.Consistent) (hchoice : net.GroupChoice) (tag : ℕ) :
    (net.copy tag).GroupChoice := by
  intro t p q hp hq u
  obtain ⟨hpowner, htowner, hp⟩ := (mem_preset_copy_iff h).1 hp
  obtain ⟨hqowner, -, hq⟩ := (mem_preset_copy_iff h).1 hq
  rw [mem_consumers_copy_iff h, mem_consumers_copy_iff h, hchoice _ _ _ hp hq]
  simp only [hpowner, hqowner]

/-! ### The whole operation -/

/-- A net of the 2-τ-synchronisation class is copied. -/
theorem synchronise_of_isTwoTauSynchronisation (hclass : net.isTwoTauSynchronisation = true)
    (tag : ℕ) (source : σ) :
    net.synchronise tag source = .ok (⟨net.copy tag, []⟩, source) := by
  rw [synchronise, if_pos hclass]

/-- A net of neither class is refused. -/
theorem synchronise_refused (hclass : ¬ net.isTwoTauSynchronisation = true)
    (hchoice : ¬ net.isGroupChoice = true) (tag : ℕ) (source : σ) :
    net.synchronise tag source = .error (.structuralMismatch .synchronisable) := by
  rw [synchronise, if_neg hclass, Bool.not_eq_true _ |>.mp hchoice]
  rfl

/-- Any other net of the group-choice class is split into one of the 2-τ-synchronisation class, in a
pass over its transitions. -/
theorem synchronise_of_isGroupChoice (h : net.Consistent)
    (hclass : ¬ net.isTwoTauSynchronisation = true) (hchoice : net.isGroupChoice = true) (tag : ℕ)
    (source : σ) :
    ∃ output blocks source',
      net.synchronise tag source = .ok (⟨output, blocks.flatMap Sync.Block.steps⟩, source') ∧
        Sync.Passes (net.copy tag).transitions.handles (net.copy tag) blocks output ∧
        output.isTwoTauSynchronisation = true := by
  have hcopy := h.copy tag
  have hgroup := (h.groupChoice_of_isGroupChoice hchoice).copy h tag
  obtain ⟨blocks, source', output, hrun, hpasses⟩ := Sync.splitAll_runOn
    (net.copy tag).transitions.handles (net.copy tag) source hcopy hgroup
    fun t ht => Arena.mem_handles_iff.1 ht
  have hpositions : (net.copy tag).transitions.handles.map Handle.index =
      List.range net.transitions.size := by
    have hsize : (net.copy tag).transitions.size = net.transitions.size := by
      rw [copy_transitions, Arena.size_map]
      rfl
    rw [Arena.handles, List.map_map, hsize]
    exact List.map_id _
  have htwoTau : output.isTwoTauSynchronisation = true := by
    rw [hpasses.splits.evolves.consistent.isTwoTauSynchronisation_iff]
    intro t
    by_cases ht : (net.copy tag).contains (.transition t) = true
    · exact hpasses.withinLimit hcopy t (Arena.mem_handles_iff.2 ht)
    · exact hpasses.splits.withinLimit hcopy fun hold => absurd hold ht
  refine ⟨output, blocks, source', ?_, hpasses, htwoTau⟩
  rw [hpositions] at hrun
  rw [synchronise, if_neg hclass, hchoice, hrun]
  simp only [Bool.not_true, Bool.false_eq_true, if_false, htwoTau, if_true]

end Net
end PetriCcs
