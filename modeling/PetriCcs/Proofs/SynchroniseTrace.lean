import PetriCcs.Proofs.Blocks
import PetriCcs.Proofs.SynchroniseFrame

/-! # The steps of a synchronisation

A pass over the transitions leaves one block of steps for each group with a transition over its
limit, in the order of the first such transitions (`Passes.foundIn`, `Passes.disjoint`,
`Passes.covers`): when a group is split, the others and their limits stay as they were
(`SplitsGroup.group?_other`, `SplitsGroup.withinLimit_other`).  What a block says of the net right
after it goes for the output, too, so the steps describe the output in terms of the groups of the
input (`synchronise_trace`). -/

namespace PetriCcs
namespace Sync

open scoped List

variable {net net₁ net' : Net} {group : Group} {joins steps : List Step} {left : List PlaceId}
  {t u : TransitionId} {ts : List TransitionId} {block other : Block} {blocks : List Block}

/-! ### The groups that are not split -/

/-- No input of a transition outside the group is a place of the group. -/
theorem IsGroup.outside_of_not_mem (h : net.Consistent) (hg : IsGroup net group)
    (ht : t ∉ group.transitions) : Outside net group .target (.transition t) := by
  intro arc harc hmem
  obtain ⟨p, hp, heq⟩ := List.mem_map.1 hmem
  obtain ⟨source, target, weight⟩ := arc
  obtain ⟨harc, rfl⟩ := h.mem_arcs_iff.1 harc
  cases heq
  have hweight : weight = 1 := harc.fits h
  subst hweight
  exact ht ((hg.feeds p hp t).1 (h.mem_consumers_iff.2 harc))

theorem SplitsGroup.preset_eq_other (h : net.Consistent)
    (s : SplitsGroup net group joins left net') (hold : net.contains (.transition t) = true)
    (ht : t ∉ group.transitions) : net'.preset t = net.preset t := by
  rw [Net.preset_eq, s.arcs_of_outside h hold (s.isGroup.outside_of_not_mem h ht), ← Net.preset_eq]

/-- A transition outside the group that is split stays in its own group. -/
theorem SplitsGroup.group?_other (h : net.Consistent) (s : SplitsGroup net group joins left net')
    (hold : net.contains (.transition t) = true) (ht : t ∉ group.transitions) :
    group? net' t = group? net t := by
  rw [group?, group?, s.preset_eq_other h hold ht]
  cases hpreset : net.preset t with
  | nil => rfl
  | cons first rest =>
      have hfirst : first ∈ net.preset t := hpreset ▸ List.mem_cons_self
      have hout : first ∉ group.places := fun hin =>
        ht ((s.isGroup.feeds first hin t).1 (h.mem_preset_iff_mem_consumers.1 hfirst))
      have hplace : net.contains (.place first) = true :=
        (h.mem_preset_iff.1 hfirst).contains h .source
      have hsource : Outside net group .source (.place first) := by
        intro arc harc hmem
        rw [h.source_of_mem_arcs harc] at hmem
        obtain ⟨p, hp, heq⟩ := List.mem_map.1 hmem
        exact hout (Node.place.inj heq ▸ hp)
      have hconsumers : net'.consumers first = net.consumers first := by
        rw [Net.consumers_eq, s.arcs_of_outside h hplace hsource, ← Net.consumers_eq]
      simp only [hconsumers]

theorem SplitsGroup.withinLimit_other (h : net.Consistent)
    (s : SplitsGroup net group joins left net') (hold : net.contains (.transition t) = true)
    (ht : t ∉ group.transitions) : net'.WithinLimit t ↔ net.WithinLimit t := by
  rw [Net.WithinLimit, Net.WithinLimit, s.label_old hold, s.preset_eq_other h hold ht]

/-- A group of the net after a split is apart from the group that was split, if one of its
transitions is. -/
theorem SplitsGroup.disjoint_group (h : net.Consistent) (hchoice : net.GroupChoice)
    (s : SplitsGroup net group joins left net') {group' : Group}
    (hgroup : group? net' t = some group') (ht : t ∉ group.transitions) :
    ∀ u ∈ group'.transitions, u ∉ group.transitions := by
  intro u hu hin
  obtain ⟨hg, htg, -⟩ :=
    isGroup_of_group? s.evolves.consistent (s.groupChoice h hchoice) hgroup
  obtain ⟨p, hp⟩ := List.exists_mem_of_ne_nil _ hg.places_ne
  have hleft : p ∈ left := (s.preset_group h hin p).1 ((hg.fed u hu p).2 hp)
  exact ht ((s.consumers_left h hleft t).1 ((hg.feeds p hp t).2 htg))

/-! ### The blocks of a pass -/

/-- The block belongs to a group of the net, found at its first transition over the limit. -/
structure FoundIn (ts : List TransitionId) (net : Net) (block : Block) : Prop where
  mem : block.leader ∈ ts
  group : group? net block.leader = some block.group
  limit : ¬ net.WithinLimit block.leader
  first : ∀ u ∈ block.group.transitions, u ∈ ts → u.index < block.leader.index →
    net.WithinLimit u

/-- The group of a later block is not the one that was split. -/
theorem SplitsBlock.leader_not_mem (h : net.Consistent) (s : SplitsBlock net block net₁)
    (hfound : FoundIn ts net₁ other) : other.leader ∉ block.group.transitions := fun hin =>
  hfound.limit (s.withinLimit h hin)

/-- What leads to a later block after a split led to it before. -/
theorem SplitsBlock.foundIn (h : net.Consistent) (hchoice : net.GroupChoice)
    (s : SplitsBlock net block net₁) (hts : ∀ u ∈ ts, net.contains (.transition u) = true)
    (hfound : FoundIn ts net₁ other) : FoundIn (block.leader :: ts) net other := by
  have hout := s.leader_not_mem h hfound
  have hold := hts _ hfound.mem
  have hdisjoint := s.split.disjoint_group h hchoice hfound.group hout
  refine ⟨List.mem_cons_of_mem _ hfound.mem, ?_, ?_, fun u hu hmem hlt => ?_⟩
  · rw [← s.split.group?_other h hold hout, hfound.group]
  · rw [← s.split.withinLimit_other h hold hout]
    exact hfound.limit
  · rcases List.mem_cons.1 hmem with rfl | hmem
    · exact absurd s.leader (hdisjoint _ hu)
    · rw [← s.split.withinLimit_other h (hts u hmem) (hdisjoint u hu)]
      exact hfound.first u hu hmem hlt

/-- Every block of a pass belongs to a group of the net that the pass started from. -/
theorem Passes.foundIn (h : Passes ts net blocks net') (hnet : net.Consistent)
    (hchoice : net.GroupChoice) (hts : ∀ t ∈ ts, net.contains (.transition t) = true)
    (hsorted : ts.Pairwise fun t u => t.index < u.index) : ∀ block ∈ blocks, FoundIn ts net block := by
  induction h with
  | done _ => simp
  | skip hlimit _ ih =>
      intro block hblock
      obtain ⟨hmem, hgroup, hover, hfirst⟩ := ih hnet hchoice
        (fun u hu => hts u (List.mem_cons_of_mem _ hu)) (List.pairwise_cons.1 hsorted).2 block hblock
      refine ⟨List.mem_cons_of_mem _ hmem, hgroup, hover, fun u hu hin hlt => ?_⟩
      rcases List.mem_cons.1 hin with rfl | hin
      · exact hlimit
      · exact hfirst u hu hin hlt
  | split s hrest ih =>
      intro other hother
      obtain ⟨hlater, hsorted⟩ := List.pairwise_cons.1 hsorted
      have hts' := fun u hu => hts u (List.mem_cons_of_mem _ hu)
      rcases List.mem_cons.1 hother with rfl | hother
      · refine ⟨List.mem_cons_self, s.group, s.limit, fun u _ hin hlt => ?_⟩
        rcases List.mem_cons.1 hin with rfl | hin
        · exact absurd hlt (lt_irrefl _)
        · exact absurd hlt (Nat.lt_asymm (hlater u hin))
      · exact s.foundIn hnet hchoice hts' (ih s.split.evolves.consistent
          (s.split.groupChoice hnet hchoice) (fun u hu => s.split.grows.contains (hts' u hu))
          hsorted other hother)

/-- The blocks come in the order of their leaders. -/
theorem Passes.sublist (h : Passes ts net blocks net') :
    (blocks.map Block.leader).Sublist ts := by
  induction h with
  | done _ => exact List.Sublist.refl _
  | skip _ _ ih => exact ih.cons _
  | split _ _ ih => exact ih.cons_cons _

/-- No transition is in the groups of two blocks. -/
theorem Passes.disjoint (h : Passes ts net blocks net') (hnet : net.Consistent)
    (hchoice : net.GroupChoice) (hts : ∀ t ∈ ts, net.contains (.transition t) = true)
    (hsorted : ts.Pairwise fun t u => t.index < u.index) :
    blocks.Pairwise fun block other =>
      ∀ u ∈ other.group.transitions, u ∉ block.group.transitions := by
  induction h with
  | done _ => exact List.Pairwise.nil
  | skip _ _ ih =>
      exact ih hnet hchoice (fun u hu => hts u (List.mem_cons_of_mem _ hu))
        (List.pairwise_cons.1 hsorted).2
  | split s hrest ih =>
      have hnet₁ := s.split.evolves.consistent
      have hchoice₁ := s.split.groupChoice hnet hchoice
      have hts₁ := fun u hu => s.split.grows.contains (hts u (List.mem_cons_of_mem _ hu))
      have hsorted₁ := (List.pairwise_cons.1 hsorted).2
      refine List.pairwise_cons.2 ⟨fun other hother => ?_, ih hnet₁ hchoice₁ hts₁ hsorted₁⟩
      have hfound := hrest.foundIn hnet₁ hchoice₁ hts₁ hsorted₁ other hother
      exact s.split.disjoint_group hnet hchoice hfound.group (s.leader_not_mem hnet hfound)

/-- Every transition that was over its limit is in the group of a block. -/
theorem Passes.covers (h : Passes ts net blocks net') (hnet : net.Consistent)
    (hts : ∀ t ∈ ts, net.contains (.transition t) = true) :
    ∀ t ∈ ts, ¬ net.WithinLimit t → ∃ block ∈ blocks, t ∈ block.group.transitions := by
  induction h with
  | done _ => simp
  | skip hlimit _ ih =>
      intro t ht hover
      rcases List.mem_cons.1 ht with rfl | ht
      · exact absurd hlimit hover
      · exact ih hnet (fun u hu => hts u (List.mem_cons_of_mem _ hu)) t ht hover
  | @split ts net net₁ net' block blocks s _ ih =>
      intro t ht hover
      by_cases hin : t ∈ block.group.transitions
      · exact ⟨block, List.mem_cons_self, hin⟩
      · have ht := (List.mem_cons.1 ht).resolve_left fun heq => hin (heq ▸ s.leader)
        have hold := hts t (List.mem_cons_of_mem _ ht)
        have hover₁ := mt (s.split.withinLimit_other hnet hold hin).1 hover
        obtain ⟨found, hfound, hmem⟩ := ih s.split.evolves.consistent
          (fun u hu => s.split.grows.contains (hts u (List.mem_cons_of_mem _ hu))) t ht hover₁
        exact ⟨found, List.mem_cons_of_mem _ hfound, hmem⟩

/-- Around the split of a block lie the splits of the blocks before it and after it. -/
theorem Passes.exists_split (h : Passes ts net blocks net') (hnet : net.Consistent) :
    ∀ block ∈ blocks, ∃ net₀ net₁ before after, Splits net before net₀ ∧
      SplitsBlock net₀ block net₁ ∧ Splits net₁ after net' := by
  induction h with
  | done _ => simp
  | skip _ _ ih => exact ih hnet
  | split s hrest ih =>
      intro block hblock
      rcases List.mem_cons.1 hblock with rfl | hblock
      · exact ⟨_, _, [], _, Splits.done hnet, s, hrest.splits⟩
      · obtain ⟨net₀, net₁, before, after, hbefore, hsplit, hafter⟩ :=
          ih s.split.evolves.consistent block hblock
        exact ⟨net₀, net₁, _, after, Splits.split s.split s.leader s.limit s.left hbefore, hsplit,
          hafter⟩

/-! ### In terms of the input -/

/-- The same group in the net tagged `tag`. -/
def Group.retag (tag : ℕ) (group : Group) : Group where
  places := group.places.map (Handle.retag tag)
  transitions := group.transitions.map (Handle.retag tag)

/-- A block of steps beside the group of the input that it stands for, of which `t` is the first
transition over its limit, and the output. -/
structure Block.Traces (block : Block) (net : Net) (tag : ℕ) (output : Net) (t : TransitionId)
    (group : Group) : Prop where
  leader : block.leader = t.retag tag
  found : group? net t = some group
  renamed : block.group = group.retag tag
  limit : ¬ net.WithinLimit t
  first : ∀ u ∈ group.transitions, u.index < t.index → net.WithinLimit u
  length_joins : block.joins.length + group.keep net = group.places.length
  length_left : block.left.length = group.keep net
  merged : ∀ step ∈ block.joins, step.isMerged = true
  ne : ∀ l r t p, .merged l r t p ∈ block.joins → l ≠ r
  /-- Merged places are places of the group or of earlier joins. -/
  earlier : ∀ before l r t p after, block.joins = before ++ .merged l r t p :: after →
    ∀ q ∈ [l, r], q ∈ block.group.places ∨ q ∈ before.flatMap Step.places
  /-- Every place of the group and of a join is used, by a later join or in the end, and by one. -/
  used : block.left ++ block.joins.flatMap Step.inputs ~
    block.group.places ++ block.joins.flatMap Step.places
  used_once : (block.left ++ block.joins.flatMap Step.inputs).Nodup
  joins : ∀ l r t p, .merged l r t p ∈ block.joins → output.Joins l r t p
  fresh : ∀ p ∈ block.joins.flatMap Step.places, p ∉ net.places.handles.map (Handle.retag tag)
  preset : ∀ u ∈ block.group.transitions, output.preset u = block.left

end Sync

namespace Net

open Sync

variable {net net' : Net} {n tag : ℕ} {t : TransitionId} {group : Group}

/-- Growth by nodes leaves the labels of the old ones. -/
theorem Grows.label?_eq {transitions : List TransitionId} {places : List PlaceId}
    (h : Grows transitions places net net') (ht : net.contains (.transition t) = true) :
    net'.label? t = net.label? t :=
  label?_of_content (h.transitionContent t ht)

/-- The group of a transition in a copy. -/
theorem Consistent.group?_copy (h : net.Consistent) (tag : ℕ)
    (ht : net.contains (.transition t) = true) :
    group? (net.copy tag) (t.retag tag) = (group? net t).map (Group.retag tag) := by
  rw [group?, group?, (h.sameArcs_copy tag .target ht).preset]
  cases hpreset : net.preset t with
  | nil => rfl
  | cons first rest =>
      have hfirst : first ∈ net.preset t := hpreset ▸ List.mem_cons_self
      have hplace : net.contains (.place first) = true :=
        (h.mem_preset_iff.1 hfirst).contains h .source
      rw [List.map_cons]
      simp only [(h.sameArcs_copy tag .source hplace).consumers]
      rfl

/-- The transitions of a group are there. -/
theorem Consistent.contains_of_group? (h : net.Consistent) (hgroup : group? net t = some group)
    {u : TransitionId} (hu : u ∈ group.transitions) : net.contains (.transition u) = true := by
  rw [group?] at hgroup
  cases hpreset : net.preset t with
  | nil => rw [hpreset] at hgroup; cases hgroup
  | cons first rest =>
      rw [hpreset] at hgroup
      cases hgroup
      exact (h.mem_consumers_iff.1 hu).contains h .target

theorem Consistent.keep_copy (h : net.Consistent) (tag : ℕ)
    (hgroup : group? net t = some group) :
    (group.retag tag).keep (net.copy tag) = group.keep net := by
  rw [keep_eq, keep_eq]
  refine if_congr (List.forall_mem_map.trans (forall₂_congr fun u hu => ?_)) rfl rfl
  rw [h.label?_retag tag (h.contains_of_group? hgroup hu)]

/-- The transitions of a net come in the order of their positions. -/
theorem pairwise_handles {kind : Kind} {α : Type} (arena : Arena kind α) :
    arena.handles.Pairwise fun id id' => id.index < id'.index :=
  List.pairwise_map.2 List.pairwise_lt_range

/-- Where a pass over a copy leads to a block, the block stands for a group of the net. -/
theorem Consistent.group_of_foundIn (h : net.Consistent) {block : Block}
    (hfound : FoundIn (net.copy tag).transitions.handles (net.copy tag) block) :
    ∃ t group, net.contains (.transition t) = true ∧ block.leader = t.retag tag ∧
      group? net t = some group ∧ block.group = group.retag tag ∧ ¬ net.WithinLimit t ∧
      ∀ u ∈ group.transitions, u.index < t.index → net.WithinLimit u := by
  have hmem : (net.copy tag).contains (.transition block.leader) = true :=
    Arena.mem_handles_iff.1 hfound.mem
  obtain ⟨howner, hcontains⟩ := (contains_copy h.identified _).1 hmem
  have hleader : block.leader = (block.leader.retag net.tag).retag tag :=
    (Handle.retag_of_owner howner).symm
  have ht : net.contains (.transition (block.leader.retag net.tag)) = true := hcontains
  have hgroup := hfound.group
  rw [hleader, h.group?_copy tag ht] at hgroup
  obtain ⟨group, hgroup, hrenamed⟩ := Option.map_eq_some_iff.1 hgroup
  refine ⟨_, group, ht, hleader, hgroup, hrenamed.symm, ?_, fun u hu hlt => ?_⟩
  · rw [← h.withinLimit_retag tag ht, ← hleader]
    exact hfound.limit
  · have hucontains := h.contains_of_group? hgroup hu
    rw [← h.withinLimit_retag tag hucontains]
    refine hfound.first _ ?_ (Arena.mem_handles_iff.2 (h.contains_retag tag hucontains)) hlt
    rw [← hrenamed]
    exact List.mem_map_of_mem hu

/-- Every block of a pass over a copy describes the group of the net that it stands for. -/
theorem Consistent.traces (h : net.Consistent) (hchoice : net.GroupChoice) {blocks : List Block}
    (hpasses : Passes (net.copy tag).transitions.handles (net.copy tag) blocks net') :
    ∀ block ∈ blocks, ∃ t group, block.Traces net tag net' t group := by
  intro block hblock
  have hcopy := h.copy tag
  have hfound := hpasses.foundIn hcopy (hchoice.copy h tag)
    (fun t ht => Arena.mem_handles_iff.1 ht) (pairwise_handles _) block hblock
  obtain ⟨t, group, -, hleader, hgroup, hrenamed, hlimit, hfirst⟩ := h.group_of_foundIn hfound
  obtain ⟨net₀, net₁, before, after, hbefore, s, hafter⟩ := hpasses.exists_split hcopy block hblock
  have hnet₀ := hbefore.evolves.consistent
  have hkeep : block.left.length = group.keep net := by
    rw [s.left, ← h.keep_copy tag hgroup, ← hrenamed]
    rw [keep_eq, keep_eq]
    refine if_congr (forall₂_congr fun u hu => ?_) rfl rfl
    rw [hbefore.grows.label?_eq (hcopy.contains_of_group? hfound.group hu)]
  have hlength : block.joins.length + block.left.length = group.places.length := by
    rw [s.split.length, hrenamed]
    exact List.length_map _
  refine ⟨t, group, hleader, hgroup, hrenamed, hlimit, hfirst, by omega, hkeep, fun step hstep => ?_,
    fun l r u p hstep => (s.split.isJoin hnet₀ hstep).ne,
    fun before l r u p after hjoins => s.split.inputs_earlier hjoins, s.split.perm,
    s.split.nodup hnet₀, fun l r u p hstep => s.split.joins_last hnet₀ hafter hstep,
    fun p hp hmem => ?_, fun u hu => s.split.preset_last hnet₀ s.left hafter hu⟩
  · obtain ⟨l, r, u, p, rfl⟩ := s.split.eq_merged hstep
    rfl
  · -- the place is new in a net that has all places of the copy
    refine s.split.fresh_place hp (hbefore.grows.contains ?_)
    obtain ⟨q, hq, rfl⟩ := List.mem_map.1 hmem
    have hold : net.contains (.place q) = true := Arena.mem_handles_iff.1 hq
    exact h.contains_retag tag hold

/-- The steps of a synchronisation are one block for each choice group with a transition over its
limit, in the order of the first of these, and each block describes the output. -/
theorem synchronise_trace (h : net.Reachable n) (hchoice : net.isGroupChoice = true)
    (hclass : net.isTwoTauSynchronisation = false) {σ : Type} [RandomSource σ] (tag : ℕ)
    (source : σ) :
    ∃ result rest, net.synchronise tag source = .ok (result, rest) ∧
      ∃ blocks : List Block, result.steps = blocks.flatMap Block.steps ∧
        (blocks.map fun block => block.leader.index).Pairwise (· < ·) ∧
        (∀ t, net.contains (.transition t) = true → ¬ net.WithinLimit t →
          ∃! block, block ∈ blocks ∧ t.retag tag ∈ block.group.transitions) ∧
        ∀ block ∈ blocks, ∃ t group, block.Traces net tag result.net t group := by
  have hnet := h.consistent
  have hcopy := hnet.copy tag
  have hproperty := hnet.groupChoice_of_isGroupChoice hchoice
  obtain ⟨output, blocks, rest, hrun, hpasses, -⟩ :=
    synchronise_of_isGroupChoice hnet (by simp [hclass]) hchoice tag source
  have hts : ∀ t ∈ (net.copy tag).transitions.handles, (net.copy tag).contains (.transition t) = true :=
    fun t ht => Arena.mem_handles_iff.1 ht
  have hdisjoint := hpasses.disjoint hcopy (hproperty.copy hnet tag) hts (pairwise_handles _)
  refine ⟨_, rest, hrun, blocks, rfl, ?_, fun t ht hover => ?_, hnet.traces hproperty hpasses⟩
  · have hsorted := (pairwise_handles (net.copy tag).transitions).sublist hpasses.sublist
    rw [List.pairwise_map] at hsorted ⊢
    exact hsorted
  · have hcontains := hnet.contains_retag tag ht
    obtain ⟨block, hblock, hmem⟩ := hpasses.covers hcopy hts (t.retag tag)
      (Arena.mem_handles_iff.2 hcontains) (mt (hnet.withinLimit_retag tag ht).1 hover)
    refine ⟨block, ⟨hblock, hmem⟩, fun other hother => by_contra fun hne => ?_⟩
    have hsymm : Std.Symm fun block other : Block =>
        ∀ u ∈ other.group.transitions, u ∉ block.group.transitions :=
      ⟨fun _ _ hapart u hu hin => hapart u hin hu⟩
    exact hdisjoint.forall hblock hother.1 (Ne.symm hne) _ hother.2 hmem

/-- The join of the workflow has a block of its own, which describes the output. -/
theorem synchronise_trace_forkJoin : forkJoin.Reachable 12 ∧ forkJoin.isGroupChoice = true ∧
    forkJoin.isTwoTauSynchronisation = false ∧ ∃ result rest, ∃ block : Block,
      forkJoin.synchronise 1 (WordList.mk [3, 1]) = .ok (result, rest) ∧
        (∀ step ∈ block.steps, step ∈ result.steps) ∧ ⟨1, 1⟩ ∈ block.group.transitions ∧
        ∃ t group, block.Traces forkJoin 1 result.net t group := by
  have hchoice : forkJoin.isGroupChoice = true := by decide
  have hclass : forkJoin.isTwoTauSynchronisation = false := by decide
  obtain ⟨result, rest, hrun, blocks, hsteps, -, hcovers, htraces⟩ :=
    synchronise_trace forkJoin_reachable hchoice hclass 1 (WordList.mk [3, 1])
  have hover : ¬ forkJoin.WithinLimit ⟨0, 1⟩ := fun hlimit =>
    absurd (hlimit (.visible "b") (by decide)) (by decide)
  obtain ⟨block, ⟨hblock, hmem⟩, -⟩ := hcovers ⟨0, 1⟩ (by decide) hover
  refine ⟨forkJoin_reachable, hchoice, hclass, result, rest, block, hrun, fun step hstep => ?_,
    hmem, htraces block hblock⟩
  rw [hsteps]
  exact List.mem_flatMap.2 ⟨block, hblock, hstep⟩

end Net
end PetriCcs
