import PetriCcs.Proofs.Splitting

/-! # A net after the splitting of a group

`SplitsGroup` describes the net after a group was split: who consumes from a place is known for the
places that are left (`consumers_left`), the merged ones (`consumers_input`) and all others
(`consumers_other`).  It follows that the group-choice property stays (`SplitsGroup.groupChoice`),
that the transitions of the group and the joins have no more inputs than their labels allow, and
that nothing else changes for the other transitions (`SplitsGroup.withinLimit`). -/

namespace PetriCcs

/-- How many inputs a label allows. -/
def Label.limit (label : Label) : ℕ := if label.isTau then 2 else 1

namespace Net

variable {net : Net} {t : TransitionId}

/-- A transition has no more inputs than its label allows. -/
def WithinLimit (net : Net) (t : TransitionId) : Prop :=
  ∀ label, net.label? t = some label → (net.preset t).length ≤ label.limit

theorem Consistent.withinLimit_iff (h : net.Consistent) {transition : Transition}
    (ht : net.transition? t = some transition) :
    Sync.withinLimit transition = true ↔ net.WithinLimit t := by
  rw [WithinLimit, label?_eq_some ht, h.length_preset ht, Sync.withinLimit, decide_eq_true_eq]
  constructor
  · rintro hle label ⟨rfl⟩
    exact hle
  · exact fun hall => hall _ rfl

/-- The class bounds the number of inputs by the label. -/
theorem Consistent.isTwoTauSynchronisation_iff (h : net.Consistent) :
    net.isTwoTauSynchronisation = true ↔ ∀ t, net.WithinLimit t := by
  have hclass : net.isTwoTauSynchronisation = net.transitions.toList.all Sync.withinLimit := by
    rw [isTwoTauSynchronisation]
    congr 1
    funext transition
    rw [Sync.withinLimit]
    rcases transition.incoming.length with _ | _ | _ | n <;> cases transition.isTau <;> simp
  rw [hclass, List.all_eq_true]
  constructor
  · intro hall t label hlabel
    obtain ⟨transition, ht, -⟩ := Option.map_eq_some_iff.1 hlabel
    have hok := hall transition (Arena.mem_toList_iff.2 ⟨t, ht⟩)
    exact (h.withinLimit_iff ht).1 hok label hlabel
  · intro hall transition hmem
    obtain ⟨t, ht⟩ := Arena.mem_toList_iff.1 hmem
    exact (h.withinLimit_iff ht).2 (hall t)

theorem WithinLimit.length_le_two (h : net.WithinLimit t) {label : Label}
    (hlabel : net.label? t = some label) : (net.preset t).length ≤ 2 := by
  have hle := h label hlabel
  unfold Label.limit at hle
  split_ifs at hle <;> omega

/-- Only an internal transition within its limit has several inputs. -/
theorem WithinLimit.eq_tau (h : net.WithinLimit t) {label : Label}
    (hlabel : net.label? t = some label) (hlength : 1 < (net.preset t).length) :
    label = .tau := by
  have hle := h label hlabel
  cases label with
  | tau => rfl
  | visible action =>
      have hone : (Label.visible action).limit = 1 := rfl
      omega

theorem withinLimit_of_mem_preset_iff {net' : Net} (h : net.Consistent) (h' : net'.Consistent)
    {t' : TransitionId} (hlabel : net'.label? t' = net.label? t)
    (hpreset : ∀ p, p ∈ net'.preset t' ↔ p ∈ net.preset t) (hlimit : net.WithinLimit t) :
    net'.WithinLimit t' := by
  have hperm := (List.perm_ext_iff_of_nodup (h'.nodup_preset t') (h.nodup_preset t)).2 hpreset
  intro label hl
  rw [hperm.length_eq]
  exact hlimit label (hlabel ▸ hl)

/-- A transition that takes from two places that feed nothing else, and produces into one. -/
structure IsJoin (net : Net) (left right : PlaceId) (t : TransitionId) (place : PlaceId) : Prop where
  ne : left ≠ right
  label : net.label? t = some .tau
  left_feeds : ∀ u, u ∈ net.consumers left ↔ u = t
  right_feeds : ∀ u, u ∈ net.consumers right ↔ u = t
  preset : ∀ p, p ∈ net.preset t ↔ p = left ∨ p = right
  postset : ∀ p weight, (p, weight) ∈ net.postset t ↔ p = place ∧ weight = 1

theorem IsJoin.withinLimit (h : net.Consistent) {left right place : PlaceId}
    (hjoin : net.IsJoin left right t place) : net.WithinLimit t := by
  intro label hlabel
  rw [hjoin.label] at hlabel
  cases hlabel
  have hperm := (List.perm_ext_iff_of_nodup (h.nodup_preset t)
    (List.nodup_cons.2 ⟨by simpa using hjoin.ne, List.nodup_singleton right⟩)).2
    (fun p => (hjoin.preset p).trans (by simp))
  exact hperm.length_eq.le

end Net

namespace Sync

open scoped List

variable {net net' : Net} {group : Group} {joins : List Step} {left : List PlaceId}

theorem one_le_keep (net : Net) (group : Group) : 1 ≤ group.keep net := by
  rw [Group.keep]
  split <;> decide

/-- A group keeps no more places than each of its transitions allows. -/
theorem keep_le_limit {t : TransitionId} {label : Label} (ht : t ∈ group.transitions)
    (hlabel : net.label? t = some label) : group.keep net ≤ label.limit := by
  rw [Group.keep, Label.limit]
  obtain ⟨transition, htransition, rfl⟩ := Option.map_eq_some_iff.1 hlabel
  split_ifs with hall htau htau
  · exact le_refl 2
  · have hany := List.all_eq_true.1 hall t ht
    rw [htransition] at hany
    exact absurd hany htau
  · exact Nat.le_succ 1
  · exact le_refl 1

/-- A net after the splitting of a group into joins and the places that are left. -/
structure SplitsGroup (net : Net) (group : Group) (joins : List Step) (left : List PlaceId)
    (net' : Net) : Prop where
  isGroup : IsGroup net group
  split : ∃ net₁ net₂, net.Keeps (fun arc => arc.source ∉ group.places.map Node.place) net₁ ∧
    Merges net₁ group.places joins left net₂ ∧
    Net.Gains [] [] (connectArcs left group.transitions) net₂ net'

/-- Arcs of joins lead from the merged places to the join and from there to the new place. -/
theorem Merges.mem_arcs_iff {working : List PlaceId} (h : Merges net working joins left net')
    {arc : Arc} : arc ∈ joins.flatMap Step.arcs ↔ ∃ l r t p, .merged l r t p ∈ joins ∧
      (arc = ⟨.place l, .transition t, 1⟩ ∨ arc = ⟨.place r, .transition t, 1⟩ ∨
        arc = ⟨.transition t, .place p, 1⟩) := by
  rw [List.mem_flatMap]
  constructor
  · rintro ⟨step, hstep, harc⟩
    obtain ⟨l, r, t, p, rfl⟩ := h.eq_merged step hstep
    exact ⟨l, r, t, p, hstep, by simpa [Step.arcs, joinArcs] using harc⟩
  · rintro ⟨l, r, t, p, hstep, harc⟩
    exact ⟨_, hstep, by simpa [Step.arcs, joinArcs] using harc⟩

/-- The places of a detached group can be merged. -/
theorem IsGroup.available {net₁ : Net} (h : net.Consistent) (hg : IsGroup net group)
    (hkeeps : net.Keeps (fun arc => arc.source ∉ group.places.map Node.place) net₁) :
    Available net₁ group.places := by
  refine ⟨hkeeps.consistent, hg.places_nodup, fun p hp => ?_⟩
  rw [Net.contains_of_bare hkeeps.bare]
  exact hg.contains_place h hp

/-- Once the places of a detached group are merged, no arc leads into the group. -/
theorem IsGroup.target_ne {net₁ net₂ : Net} (h : net.Consistent) (hg : IsGroup net group)
    (hkeeps : net.Keeps (fun arc => arc.source ∉ group.places.map Node.place) net₁)
    (hmerges : Merges net₁ group.places joins left net₂) {t : TransitionId}
    (ht : t ∈ group.transitions) {arc : Arc} (harc : net₂.HasArc arc) {p : PlaceId}
    (hsource : arc.source = .place p) : arc.target ≠ .transition t := by
  intro htarget
  rcases (hmerges.gains.hasArc_iff hkeeps.consistent).1 harc with harc | harc
  · -- an old arc into the group would come from one of its places
    obtain ⟨harc, hkeep⟩ := (hasArc_detached_iff h hkeeps).1 harc
    obtain ⟨source, target, weight⟩ := arc
    cases hsource
    cases htarget
    have hweight : weight = 1 := harc.fits h
    subst hweight
    exact hkeep (List.mem_map_of_mem ((hg.fed t ht p).1 (h.mem_preset_iff.2 harc)))
  · -- the arcs of joins lead to fresh nodes
    obtain ⟨l, r, u, q, hstep, harc⟩ := hmerges.mem_arcs_iff.1 harc
    have hut : arc.target = .transition u ∨ arc.target = .place q := by
      rcases harc with rfl | rfl | rfl
      · exact Or.inl rfl
      · exact Or.inl rfl
      · exact Or.inr rfl
    rw [htarget] at hut
    rcases hut with heq | heq
    · cases heq
      refine hmerges.gains.fresh_transition t
        (List.mem_flatMap.2 ⟨_, hstep, List.mem_singleton_self t⟩) ?_
      rw [Net.contains_of_bare hkeeps.bare]
      exact hg.contains_transition h ht
    · cases heq

/-- Splitting a group along a pairing order never fails. -/
theorem splitGroup_runOn (h : net.Consistent) (hg : IsGroup net group) {stay : ℕ}
    {pairs : List (ℕ × ℕ)} (hpairs : Pairing.Shrinks stay group.places.length pairs) :
    ∃ joins left net', (splitGroup group pairs).runOn net =
        (.ok (joins ++ [.reconnected left group.transitions]), net') ∧
      SplitsGroup net group joins left net' ∧ left.length = stay := by
  obtain ⟨net₁, hrun₁, hkeeps⟩ := disconnect_runOn h hg
  obtain ⟨joins, left, net₂, hrun₂, hmerges, hstay⟩ :=
    mergePairs_runOn pairs group.places net₁ hpairs (hg.available h hkeeps)
  have hleft := hmerges.available (hg.available h hkeeps)
  obtain ⟨net₃, hrun₃, hgains₃⟩ := connect_gains hg.transitions_nodup left net₂
    hleft.consistent hleft.nodup hleft.contains
    (fun t ht => hmerges.gains.contains (by
      rw [Net.contains_of_bare hkeeps.bare]
      exact hg.contains_transition h ht))
    fun p _ t ht arc harc hsource => hg.target_ne h hkeeps hmerges ht harc hsource
  refine ⟨joins, left, net₃, ?_, ⟨hg, net₁, net₂, hkeeps, hmerges, hgains₃⟩, hstay⟩
  rw [splitGroup, Edit.runOn_bind_ok hrun₁, Edit.runOn_bind_ok hrun₂, Edit.runOn_bind_ok hrun₃,
    Edit.runOn_pure]

/-! ### What the split changes -/

/-- How many elements a list of steps adds. -/
def additions (steps : List Step) : ℕ := (steps.map Step.additions).sum

theorem length_flatMap_steps (steps : List Step) :
    (steps.flatMap Step.transitions).length + (steps.flatMap Step.places).length +
      (steps.flatMap Step.arcs).length = additions steps := by
  induction steps with
  | nil => rfl
  | cons step steps ih =>
      simp only [additions, List.flatMap_cons, List.length_append, List.map_cons, List.sum_cons,
        Step.additions] at ih ⊢
      omega

theorem additions_append (steps steps' : List Step) :
    additions (steps ++ steps') = additions steps + additions steps' := by
  simp [additions]

/-- Splitting a group claims names for its joins. -/
theorem SplitsGroup.claims (s : SplitsGroup net group joins left net') :
    Net.Claims (joins.flatMap Step.places).length (joins.flatMap Step.transitions).length net net' := by
  obtain ⟨net₁, net₂, hkeeps, hmerges, hgains⟩ := s.split
  have hall := ((Net.Claims.of_bare hkeeps.consistent hkeeps.bare).trans
    hmerges.gains.claims).trans hgains.claims
  simpa using hall

theorem SplitsGroup.evolves (s : SplitsGroup net group joins left net') :
    Net.Evolves (additions (joins ++ [.reconnected left group.transitions])) net net' := by
  obtain ⟨net₁, net₂, hkeeps, hmerges, hgains⟩ := s.split
  have hall := ((Net.Evolves.of_bare hkeeps.consistent hkeeps.bare).trans
    hmerges.gains.evolves).trans hgains.evolves
  refine hall.mono (le_of_eq ?_)
  rw [additions_append, ← length_flatMap_steps joins]
  simp [additions, Step.additions, Step.transitions, Step.places, Step.arcs]

theorem SplitsGroup.label (s : SplitsGroup net group joins left net') (t : TransitionId) :
    net'.label? t =
      if t ∈ joins.flatMap Step.transitions then some .tau else net.label? t := by
  obtain ⟨net₁, net₂, hkeeps, hmerges, hgains⟩ := s.split
  rw [hgains.label, hmerges.gains.label, Net.label?_of_bare hkeeps.bare]
  simp

/-- The joins and their places come after the old nodes. -/
theorem SplitsGroup.grows (s : SplitsGroup net group joins left net') :
    net.Grows (joins.flatMap Step.transitions) (joins.flatMap Step.places) net' := by
  obtain ⟨net₁, net₂, hkeeps, hmerges, hgains⟩ := s.split
  have hgrows := ((Net.Grows.of_bare hkeeps.bare).trans hmerges.gains.toGrows).trans hgains.toGrows
  rwa [List.nil_append, List.nil_append, List.append_nil, List.append_nil] at hgrows

theorem SplitsGroup.fresh_transition (s : SplitsGroup net group joins left net')
    {t : TransitionId} (ht : t ∈ joins.flatMap Step.transitions) :
    ¬ net.contains (.transition t) = true :=
  s.grows.fresh_transition t ht

theorem SplitsGroup.fresh_place (s : SplitsGroup net group joins left net') {p : PlaceId}
    (hp : p ∈ joins.flatMap Step.places) : ¬ net.contains (.place p) = true :=
  s.grows.fresh_place p hp

theorem SplitsGroup.hasArc_iff (h : net.Consistent) (s : SplitsGroup net group joins left net')
    {arc : Arc} : net'.HasArc arc ↔
      (net.HasArc arc ∧ arc.source ∉ group.places.map Node.place) ∨
      (∃ l r t p, .merged l r t p ∈ joins ∧ (arc = ⟨.place l, .transition t, 1⟩ ∨
        arc = ⟨.place r, .transition t, 1⟩ ∨ arc = ⟨.transition t, .place p, 1⟩)) ∨
      ∃ p ∈ left, ∃ t ∈ group.transitions, arc = ⟨.place p, .transition t, 1⟩ := by
  obtain ⟨net₁, net₂, hkeeps, hmerges, hgains⟩ := s.split
  rw [hgains.hasArc_iff hmerges.gains.evolves.consistent, hmerges.gains.hasArc_iff hkeeps.consistent,
    hasArc_detached_iff h hkeeps, hmerges.mem_arcs_iff, mem_connectArcs_iff, or_assoc]

theorem SplitsGroup.eq_merged (s : SplitsGroup net group joins left net') {step : Step}
    (hstep : step ∈ joins) : ∃ l r t p, step = .merged l r t p := by
  obtain ⟨net₁, net₂, -, hmerges, -⟩ := s.split
  exact hmerges.eq_merged step hstep

/-- The places that are left and the merged ones are all different. -/
theorem SplitsGroup.nodup (h : net.Consistent) (s : SplitsGroup net group joins left net') :
    (left ++ joins.flatMap Step.inputs).Nodup := by
  have hfresh := fun p hp => s.fresh_place (p := p) hp
  obtain ⟨net₁, net₂, hkeeps, hmerges, hgains⟩ := s.split
  rw [hmerges.perm.nodup_iff]
  refine List.nodup_append.2 ⟨s.isGroup.places_nodup, hmerges.gains.nodup_places,
    fun p hp q hq heq => hfresh q hq ?_⟩
  rw [← heq]
  exact s.isGroup.contains_place h hp

/-- They are places of the group or new. -/
theorem SplitsGroup.mem_places (s : SplitsGroup net group joins left net') {p : PlaceId}
    (hp : p ∈ left ∨ p ∈ joins.flatMap Step.inputs) :
    p ∈ group.places ∨ p ∈ joins.flatMap Step.places := by
  obtain ⟨net₁, net₂, hkeeps, hmerges, hgains⟩ := s.split
  exact List.mem_append.1 (hmerges.perm.mem_iff.1 (List.mem_append.2 hp))

/-- Where nothing is listed twice, a listed value tells whose it is. -/
theorem eq_of_mem_flatMap {α β : Type} {f : α → List β} {xs : List α} {x y : α} {b : β}
    (hnodup : (xs.flatMap f).Nodup) (hx : x ∈ xs) (hy : y ∈ xs) (hbx : b ∈ f x) (hby : b ∈ f y) :
    x = y := by
  have hsymm : Std.Symm (Function.onFun List.Disjoint f) := ⟨fun _ _ hd => hd.symm⟩
  by_contra hne
  exact (List.nodup_flatMap.1 hnodup).2.forall hx hy hne hbx hby

theorem SplitsGroup.eq_of_input (h : net.Consistent) (s : SplitsGroup net group joins left net')
    {step step' : Step} (hstep : step ∈ joins) (hstep' : step' ∈ joins) {p : PlaceId}
    (hp : p ∈ step.inputs) (hp' : p ∈ step'.inputs) : step = step' := by
  exact eq_of_mem_flatMap (List.Nodup.of_append_right (s.nodup h)) hstep hstep' hp hp'

theorem SplitsGroup.eq_of_transition (s : SplitsGroup net group joins left net')
    {step step' : Step} (hstep : step ∈ joins) (hstep' : step' ∈ joins) {t : TransitionId}
    (ht : t ∈ step.transitions) (ht' : t ∈ step'.transitions) : step = step' := by
  obtain ⟨net₁, net₂, hkeeps, hmerges, hgains⟩ := s.split
  exact eq_of_mem_flatMap hmerges.gains.nodup_transitions hstep hstep' ht ht'

/-- A place that is left is not merged. -/
theorem SplitsGroup.not_input_of_left (h : net.Consistent)
    (s : SplitsGroup net group joins left net') {p : PlaceId} (hp : p ∈ left) {step : Step}
    (hstep : step ∈ joins) : p ∉ step.inputs := fun hin =>
  (List.nodup_append.1 (s.nodup h)).2.2 p hp p (List.mem_flatMap.2 ⟨step, hstep, hin⟩) rfl

/-! ### Who consumes from a place -/

theorem SplitsGroup.mem_consumers_iff (h : net.Consistent)
    (s : SplitsGroup net group joins left net') {p : PlaceId} {t : TransitionId} :
    t ∈ net'.consumers p ↔ (t ∈ net.consumers p ∧ p ∉ group.places) ∨
      (∃ l r q, .merged l r t q ∈ joins ∧ (p = l ∨ p = r)) ∨
      (p ∈ left ∧ t ∈ group.transitions) := by
  rw [s.evolves.consistent.mem_consumers_iff, s.hasArc_iff h, h.mem_consumers_iff]
  refine or_congr (and_congr_right fun _ => ?_) (or_congr ?_ ?_)
  · simp
  · constructor
    · rintro ⟨l, r, u, q, hstep, heq | heq | heq⟩ <;> cases heq
      · exact ⟨_, r, q, hstep, Or.inl rfl⟩
      · exact ⟨l, _, q, hstep, Or.inr rfl⟩
    · rintro ⟨l, r, q, hstep, rfl | rfl⟩
      · exact ⟨_, r, t, q, hstep, Or.inl rfl⟩
      · exact ⟨l, _, t, q, hstep, Or.inr (Or.inl rfl)⟩
  · constructor
    · rintro ⟨q, hq, u, hu, heq⟩
      cases heq
      exact ⟨hq, hu⟩
    · rintro ⟨hp, ht⟩
      exact ⟨p, hp, t, ht, rfl⟩

theorem SplitsGroup.mem_preset_iff (h : net.Consistent)
    (s : SplitsGroup net group joins left net') {p : PlaceId} {t : TransitionId} :
    p ∈ net'.preset t ↔ (p ∈ net.preset t ∧ p ∉ group.places) ∨
      (∃ l r q, .merged l r t q ∈ joins ∧ (p = l ∨ p = r)) ∨
      (p ∈ left ∧ t ∈ group.transitions) := by
  rw [s.evolves.consistent.mem_preset_iff_mem_consumers, s.mem_consumers_iff h,
    h.mem_preset_iff_mem_consumers]

/-- An old place outside the group is neither merged nor left. -/
theorem SplitsGroup.not_touched (s : SplitsGroup net group joins left net') {p : PlaceId}
    (hp : net.contains (.place p) = true) (hout : p ∉ group.places) :
    p ∉ left ∧ p ∉ joins.flatMap Step.inputs := by
  constructor
  · intro hleft
    exact (s.mem_places (Or.inl hleft)).elim hout fun hnew => s.fresh_place hnew hp
  · intro hin
    exact (s.mem_places (Or.inr hin)).elim hout fun hnew => s.fresh_place hnew hp

theorem SplitsGroup.not_old_consumer (h : net.Consistent)
    (s : SplitsGroup net group joins left net') {p : PlaceId}
    (hp : p ∈ left ∨ p ∈ joins.flatMap Step.inputs) (t : TransitionId) :
    ¬ (t ∈ net.consumers p ∧ p ∉ group.places) := by
  rintro ⟨ht, hout⟩
  have hcontains := (h.mem_consumers_iff.1 ht).contains h .source
  obtain ⟨hleft, hin⟩ := s.not_touched hcontains hout
  exact hp.elim hleft hin

theorem SplitsGroup.consumers_left (h : net.Consistent)
    (s : SplitsGroup net group joins left net') {p : PlaceId} (hp : p ∈ left) (t : TransitionId) :
    t ∈ net'.consumers p ↔ t ∈ group.transitions := by
  rw [s.mem_consumers_iff h]
  constructor
  · rintro (hold | ⟨l, r, q, hstep, hin⟩ | ⟨-, ht⟩)
    · exact absurd hold (s.not_old_consumer h (Or.inl hp) t)
    · exact absurd (by simpa [Step.inputs] using hin) (s.not_input_of_left h hp hstep)
    · exact ht
  · exact fun ht => Or.inr (Or.inr ⟨hp, ht⟩)

theorem SplitsGroup.consumers_input (h : net.Consistent)
    (s : SplitsGroup net group joins left net') {l r q p : PlaceId} {t : TransitionId}
    (hstep : .merged l r t q ∈ joins) (hp : p = l ∨ p = r) (u : TransitionId) :
    u ∈ net'.consumers p ↔ u = t := by
  have hin : p ∈ (Step.merged l r t q).inputs := by simpa [Step.inputs] using hp
  rw [s.mem_consumers_iff h]
  constructor
  · rintro (hold | ⟨l', r', q', hstep', hin'⟩ | ⟨hleft, -⟩)
    · exact absurd hold (s.not_old_consumer h (Or.inr (List.mem_flatMap.2 ⟨_, hstep, hin⟩)) u)
    · have heq := s.eq_of_input h hstep hstep' hin (by simpa [Step.inputs] using hin')
      cases heq
      rfl
    · exact absurd hin (s.not_input_of_left h hleft hstep)
  · rintro rfl
    exact Or.inr (Or.inl ⟨l, r, q, hstep, hp⟩)

theorem SplitsGroup.consumers_other (h : net.Consistent)
    (s : SplitsGroup net group joins left net') {p : PlaceId}
    (hp : net.contains (.place p) = true) (hout : p ∉ group.places) (t : TransitionId) :
    t ∈ net'.consumers p ↔ t ∈ net.consumers p := by
  obtain ⟨hleft, hin⟩ := s.not_touched hp hout
  rw [s.mem_consumers_iff h]
  constructor
  · rintro (⟨ht, -⟩ | ⟨l, r, q, hstep, heq⟩ | ⟨hmem, -⟩)
    · exact ht
    · exact absurd (List.mem_flatMap.2 ⟨_, hstep, by simpa [Step.inputs] using heq⟩) hin
    · exact absurd hmem hleft
  · exact fun ht => Or.inl ⟨ht, hout⟩

theorem SplitsGroup.old_of_preset (h : net.Consistent) {p : PlaceId} {t : TransitionId}
    (hp : p ∈ net.preset t) : net.contains (.place p) = true ∧ net.contains (.transition t) = true :=
  have harc := h.mem_preset_iff.1 hp
  ⟨harc.contains h .source, harc.contains h .target⟩

theorem SplitsGroup.not_old_of_join (s : SplitsGroup net group joins left net') {l r q : PlaceId}
    {t : TransitionId} (hstep : .merged l r t q ∈ joins) : ¬ net.contains (.transition t) = true :=
  s.fresh_transition (List.mem_flatMap.2 ⟨_, hstep, List.mem_singleton_self t⟩)

/-- Splitting a group keeps the group-choice property. -/
theorem SplitsGroup.groupChoice (h : net.Consistent) (s : SplitsGroup net group joins left net')
    (hchoice : net.GroupChoice) : net'.GroupChoice := by
  intro t p q hp hq u
  rcases (s.mem_preset_iff h).1 hp with ⟨hp, hpout⟩ | ⟨l, r, place, hstep, hin⟩ | ⟨hpleft, ht⟩
  · -- a transition outside the group
    obtain ⟨hpold, htold⟩ := SplitsGroup.old_of_preset h hp
    rcases (s.mem_preset_iff h).1 hq with ⟨hq, hqout⟩ | ⟨l, r, place, hstep, -⟩ | ⟨-, ht⟩
    · obtain ⟨hqold, -⟩ := SplitsGroup.old_of_preset h hq
      rw [s.consumers_other h hpold hpout, s.consumers_other h hqold hqout, hchoice t p q hp hq]
    · exact absurd htold (s.not_old_of_join hstep)
    · exact absurd ((s.isGroup.fed t ht p).1 hp) hpout
  · -- a join
    have htnew := s.not_old_of_join hstep
    rcases (s.mem_preset_iff h).1 hq with ⟨hq, -⟩ | ⟨l', r', place', hstep', hin'⟩ | ⟨-, ht⟩
    · exact absurd (SplitsGroup.old_of_preset h hq).2 htnew
    · rw [s.consumers_input h hstep hin, s.consumers_input h hstep' hin']
    · exact absurd (s.isGroup.contains_transition h ht) htnew
  · -- a transition of the group
    rcases (s.mem_preset_iff h).1 hq with ⟨hq, hqout⟩ | ⟨l, r, place, hstep, -⟩ | ⟨hqleft, -⟩
    · exact absurd ((s.isGroup.fed t ht q).1 hq) hqout
    · exact absurd (s.isGroup.contains_transition h ht) (s.not_old_of_join hstep)
    · rw [s.consumers_left h hpleft, s.consumers_left h hqleft]

/-! ### Limits -/

/-- An old transition keeps its label. -/
theorem SplitsGroup.label_old (s : SplitsGroup net group joins left net') {t : TransitionId}
    (ht : net.contains (.transition t) = true) : net'.label? t = net.label? t := by
  rw [s.label, if_neg fun hnew => s.fresh_transition hnew ht]

/-- The transitions of the group are fed by the places that are left. -/
theorem SplitsGroup.preset_group (h : net.Consistent) (s : SplitsGroup net group joins left net')
    {t : TransitionId} (ht : t ∈ group.transitions) (p : PlaceId) :
    p ∈ net'.preset t ↔ p ∈ left := by
  rw [s.mem_preset_iff h]
  constructor
  · rintro (⟨hp, hout⟩ | ⟨l, r, q, hstep, -⟩ | ⟨hp, -⟩)
    · exact absurd ((s.isGroup.fed t ht p).1 hp) hout
    · exact absurd (s.isGroup.contains_transition h ht) (s.not_old_of_join hstep)
    · exact hp
  · exact fun hp => Or.inr (Or.inr ⟨hp, ht⟩)

/-- Other transitions keep their inputs. -/
theorem SplitsGroup.preset_other (h : net.Consistent) (s : SplitsGroup net group joins left net')
    {t : TransitionId} (hold : net.contains (.transition t) = true) (ht : t ∉ group.transitions)
    (p : PlaceId) : p ∈ net'.preset t ↔ p ∈ net.preset t := by
  rw [s.mem_preset_iff h]
  constructor
  · rintro (⟨hp, -⟩ | ⟨l, r, q, hstep, -⟩ | ⟨-, hmem⟩)
    · exact hp
    · exact absurd hold (s.not_old_of_join hstep)
    · exact absurd hmem ht
  · intro hp
    refine Or.inl ⟨hp, fun hin => ht ?_⟩
    exact (s.isGroup.feeds p hin t).1 (h.mem_preset_iff_mem_consumers.1 hp)

/-- Old transitions keep their outputs, too. -/
theorem SplitsGroup.postset_old (h : net.Consistent) (s : SplitsGroup net group joins left net')
    {t : TransitionId} (hold : net.contains (.transition t) = true) (p : PlaceId) (weight : Weight) :
    (p, weight) ∈ net'.postset t ↔ (p, weight) ∈ net.postset t := by
  rw [s.evolves.consistent.mem_postset_iff, s.hasArc_iff h, h.mem_postset_iff]
  constructor
  · rintro (⟨harc, -⟩ | ⟨l, r, u, q, hstep, heq | heq | heq⟩ | ⟨q, -, u, -, heq⟩)
    · exact harc
    · cases heq
    · cases heq
    · cases heq
      exact absurd hold (s.not_old_of_join hstep)
    · cases heq
  · exact fun harc => Or.inl ⟨harc, by simp⟩

/-- Every join of the split is one in the net after it. -/
theorem SplitsGroup.isJoin (h : net.Consistent) (s : SplitsGroup net group joins left net')
    {l r q : PlaceId} {t : TransitionId} (hstep : .merged l r t q ∈ joins) :
    net'.IsJoin l r t q := by
  have htnew := s.not_old_of_join hstep
  have htmem : t ∈ (Step.merged l r t q).transitions := List.mem_singleton_self t
  refine ⟨?_, ?_, s.consumers_input h hstep (Or.inl rfl), s.consumers_input h hstep (Or.inr rfl),
    fun p => ?_, fun p weight => ?_⟩
  · have hinputs := (List.nodup_flatMap.1 (List.Nodup.of_append_right (s.nodup h))).1 _ hstep
    simpa [Step.inputs] using hinputs
  · rw [s.label, if_pos (List.mem_flatMap.2 ⟨_, hstep, htmem⟩)]
  · rw [s.mem_preset_iff h]
    constructor
    · rintro (⟨hp, -⟩ | ⟨l', r', q', hstep', hin⟩ | ⟨-, ht⟩)
      · exact absurd (SplitsGroup.old_of_preset h hp).2 htnew
      · cases s.eq_of_transition hstep hstep' htmem (List.mem_singleton_self t)
        exact hin
      · exact absurd (s.isGroup.contains_transition h ht) htnew
    · exact fun hp => Or.inr (Or.inl ⟨l, r, q, hstep, hp⟩)
  · rw [s.evolves.consistent.mem_postset_iff, s.hasArc_iff h]
    constructor
    · rintro (⟨harc, -⟩ | ⟨l', r', u, q', hstep', heq | heq | heq⟩ | ⟨p', -, u, -, heq⟩)
      · exact absurd (harc.contains h .source) htnew
      · cases heq
      · cases heq
      · cases heq
        cases s.eq_of_transition hstep hstep' htmem (List.mem_singleton_self t)
        exact ⟨rfl, rfl⟩
      · cases heq
    · rintro ⟨rfl, rfl⟩
      exact Or.inr (Or.inl ⟨l, r, t, p, hstep, Or.inr (Or.inr rfl)⟩)

/-- After the split every transition is within its limit that was so before, and so are the
transitions of the group and the joins. -/
theorem SplitsGroup.withinLimit (h : net.Consistent) (s : SplitsGroup net group joins left net')
    (hleft : left.length ≤ group.keep net) {t : TransitionId}
    (ht : net.contains (.transition t) = true → t ∉ group.transitions → net.WithinLimit t) :
    net'.WithinLimit t := by
  by_cases hgroup : t ∈ group.transitions
  · have hold := s.isGroup.contains_transition h hgroup
    have hperm := (List.perm_ext_iff_of_nodup (s.evolves.consistent.nodup_preset t)
      (List.Nodup.of_append_left (s.nodup h))).2 (s.preset_group h hgroup)
    intro label hlabel
    rw [s.label_old hold] at hlabel
    rw [hperm.length_eq]
    exact hleft.trans (keep_le_limit hgroup hlabel)
  · by_cases hold : net.contains (.transition t) = true
    · exact Net.withinLimit_of_mem_preset_iff h s.evolves.consistent (s.label_old hold)
        (s.preset_other h hold hgroup) (ht hold hgroup)
    · intro label hlabel
      rw [s.label] at hlabel
      split_ifs at hlabel with hnew
      · obtain ⟨step, hstep, htstep⟩ := List.mem_flatMap.1 hnew
        obtain ⟨l, r, u, q, rfl⟩ := s.eq_merged hstep
        obtain rfl := List.mem_singleton.1 htstep
        have hwithin := (s.isJoin h hstep).withinLimit s.evolves.consistent
        exact hwithin label (by rw [s.label, if_pos hnew, ← hlabel])
      · exact absurd (Net.contains_transition_iff.2 ⟨label, hlabel⟩) hold

/-- A join stays one when a group over its limit is split: it cannot be part of the group. -/
theorem SplitsGroup.isJoin_of_isJoin (h : net.Consistent)
    (s : SplitsGroup net group joins left net') {u : TransitionId}
    (hu : u ∈ group.transitions) (hlimit : ¬ net.WithinLimit u) {l r q : PlaceId}
    {t : TransitionId} (hjoin : net.IsJoin l r t q) : net'.IsJoin l r t q := by
  have hfeeds : ∀ p, (∀ v, v ∈ net.consumers p ↔ v = t) → p ∉ group.places := by
    intro p hp hin
    have hmem := (hp u).1 ((s.isGroup.feeds p hin u).2 hu)
    exact hlimit (hmem ▸ hjoin.withinLimit h)
  have hl : l ∈ net.preset t := (hjoin.preset l).2 (Or.inl rfl)
  have hr : r ∈ net.preset t := (hjoin.preset r).2 (Or.inr rfl)
  have hlout := hfeeds l hjoin.left_feeds
  have hrout := hfeeds r hjoin.right_feeds
  obtain ⟨hlold, htold⟩ := SplitsGroup.old_of_preset h hl
  obtain ⟨hrold, -⟩ := SplitsGroup.old_of_preset h hr
  have ht : t ∉ group.transitions := fun ht => hlout ((s.isGroup.fed t ht l).1 hl)
  refine ⟨hjoin.ne, (s.label_old htold).trans hjoin.label, fun v => ?_, fun v => ?_, fun p => ?_,
    fun p weight => ?_⟩
  · rw [s.consumers_other h hlold hlout, hjoin.left_feeds]
  · rw [s.consumers_other h hrold hrout, hjoin.right_feeds]
  · rw [s.preset_other h htold ht, hjoin.preset]
  · rw [s.postset_old h htold, hjoin.postset]

end Sync
end PetriCcs
