import PetriCcs.Proofs.GroupSplit
import PetriCcs.Proofs.Workflow

/-! # Paths through a split group

Splitting a group puts a forest of joins between its places and its transitions.  Every place of the
group, and every place of the forest, leads to a place that is left (`SplitsGroup.leads_left`), and
the nodes of the forest are reached from the group only (`SplitsGroup.leads_tail`).  So the old nodes
are joined by the same paths as before (`SplitsGroup.leads_iff`), no place comes to the border or
leaves it (`SplitsGroup.isBorder_iff`), and the workflow property stays in both directions
(`SplitsGroup.workflowNet_iff`). -/

namespace PetriCcs

namespace Net

variable {net net' : Net} {u v : Node} {transitions : List TransitionId} {places : List PlaceId}
  {arcs : List Arc}

theorem Gains.leads (h : Gains transitions places arcs net net') (hnet : net.Consistent)
    (hleads : net.Leads u v) : net'.Leads u v := by
  refine Relation.ReflTransGen.mono (fun a b hab => ?_) u v hleads
  obtain ⟨weight, harc⟩ := hab
  exact ⟨weight, (h.hasArc_iff hnet).2 (Or.inl harc)⟩

end Net

namespace Sync

open scoped List

variable {net net' : Net} {group : Group} {joins : List Step} {left working : List PlaceId}
  {u v : Node} {p q : PlaceId} {t : TransitionId} {side : Side}

/-! ### The forest of joins -/

/-- A join leads from the places that it merges to the new one. -/
theorem leads_of_joinArcs {l r : PlaceId} {transitions : List TransitionId} {places : List PlaceId}
    (h : net.Consistent) (hgains : Net.Gains transitions places (joinArcs l r t q) net net')
    (hp : p = l ∨ p = r) : net'.Leads (.place p) (.place q) := by
  have harc : ∀ {arc : Arc}, arc ∈ joinArcs l r t q → net'.Flows arc.source arc.target := fun hin =>
    ⟨_, (hgains.hasArc_iff h).2 (Or.inr hin)⟩
  have hout : net'.Flows (.transition t) (.place q) :=
    harc (List.mem_cons_of_mem _ (List.mem_cons_of_mem _ (List.mem_singleton_self _)))
  rcases hp with rfl | rfl
  · exact (harc List.mem_cons_self).leads.tail hout
  · exact (harc (List.mem_cons_of_mem _ List.mem_cons_self)).leads.tail hout

/-- Every merged place, old or new, leads to a place that is left. -/
theorem Merges.leads_left (h : Merges net working joins left net') (hnet : net.Consistent)
    (hp : p ∈ working ∨ p ∈ joins.flatMap Step.places) :
    ∃ q ∈ left, net'.Leads (.place p) (.place q) := by
  induction h generalizing p with
  | done _ =>
      rcases hp with hp | hp
      · exact ⟨p, hp, Relation.ReflTransGen.refl⟩
      · exact absurd hp List.not_mem_nil
  | @join net net₁ net' working rest merged left steps l r place t hworking hmerged hgains h ih =>
      have hnet₁ := hgains.evolves.consistent
      by_cases hlr : p = l ∨ p = r
      · -- the place is merged first, and the new one goes on
        obtain ⟨q, hq, hleads⟩ :=
          ih hnet₁ (Or.inl (hmerged.mem_iff.2 List.mem_cons_self))
        exact ⟨q, hq, (h.gains.leads hnet₁ (leads_of_joinArcs hnet hgains hlr)).trans hleads⟩
      · refine ih hnet₁ ?_
        rw [hmerged.mem_iff, List.mem_cons]
        rw [hworking.mem_iff, List.flatMap_cons, List.mem_append] at hp
        rcases hp with hp | hp | hp
        · rcases List.mem_cons.1 hp with rfl | hp
          · exact absurd (Or.inl rfl) hlr
          · rcases List.mem_cons.1 hp with rfl | hp
            · exact absurd (Or.inr rfl) hlr
            · exact Or.inl (Or.inr hp)
        · exact Or.inl (Or.inl (List.mem_singleton.1 hp))
        · exact Or.inr hp

/-- Every new place is led to by a place that was there before. -/
theorem Merges.leads_new (h : Merges net working joins left net') (hnet : net.Consistent)
    (hq : q ∈ joins.flatMap Step.places) : ∃ p ∈ working, net'.Leads (.place p) (.place q) := by
  induction h with
  | done _ => exact absurd hq List.not_mem_nil
  | @join net net₁ net' working rest merged left steps l r place t hworking hmerged hgains h ih =>
      have hnet₁ := hgains.evolves.consistent
      have hl : l ∈ working := hworking.mem_iff.2 List.mem_cons_self
      have hplace : net'.Leads (.place l) (.place place) :=
        h.gains.leads hnet₁ (leads_of_joinArcs hnet hgains (Or.inl rfl))
      rw [List.flatMap_cons, List.mem_append] at hq
      rcases hq with hq | hq
      · rw [List.mem_singleton.1 hq]
        exact ⟨l, hl, hplace⟩
      · obtain ⟨p, hp, hleads⟩ := ih hnet₁ hq
        rcases List.mem_cons.1 (hmerged.mem_iff.1 hp) with rfl | hp
        · exact ⟨l, hl, hplace.trans hleads⟩
        · refine ⟨p, hworking.mem_iff.2 ?_, hleads⟩
          exact List.mem_cons_of_mem _ (List.mem_cons_of_mem _ hp)

/-! ### The arcs of the split net -/

theorem SplitsGroup.leads_left (s : SplitsGroup net group joins left net')
    (hp : p ∈ group.places ∨ p ∈ joins.flatMap Step.places) :
    ∃ q ∈ left, net'.Leads (.place p) (.place q) := by
  obtain ⟨net₁, net₂, hkeeps, hmerges, hgains⟩ := s.split
  obtain ⟨q, hq, hleads⟩ := hmerges.leads_left hkeeps.consistent hp
  exact ⟨q, hq, hgains.leads hmerges.gains.evolves.consistent hleads⟩

theorem SplitsGroup.leads_new (s : SplitsGroup net group joins left net')
    (hq : q ∈ joins.flatMap Step.places) :
    ∃ p ∈ group.places, net'.Leads (.place p) (.place q) := by
  obtain ⟨net₁, net₂, hkeeps, hmerges, hgains⟩ := s.split
  obtain ⟨p, hp, hleads⟩ := hmerges.leads_new hkeeps.consistent hq
  exact ⟨p, hp, hgains.leads hmerges.gains.evolves.consistent hleads⟩

/-- The split net has the old nodes and those of the joins. -/
theorem SplitsGroup.contains_iff (s : SplitsGroup net group joins left net') :
    net'.contains u = true ↔ net.contains u = true ∨
      ∃ l r t q, .merged l r t q ∈ joins ∧ (u = .transition t ∨ u = .place q) := by
  obtain ⟨net₁, net₂, hkeeps, hmerges, hgains⟩ := s.split
  cases u with
  | place p =>
      rw [hgains.contains_place, hmerges.gains.contains_place, Net.contains_of_bare hkeeps.bare,
        List.mem_flatMap]
      constructor
      · rintro (hp | ⟨step, hin, hp⟩ | hp)
        · exact absurd hp List.not_mem_nil
        · obtain ⟨l, r, t, q, rfl⟩ := s.eq_merged hin
          rw [List.mem_singleton.1 hp]
          exact Or.inr ⟨l, r, t, q, hin, Or.inr rfl⟩
        · exact Or.inl hp
      · rintro (hp | ⟨l, r, t, q, hin, heq | heq⟩)
        · exact Or.inr (Or.inr hp)
        · cases heq
        · cases heq
          exact Or.inr (Or.inl ⟨_, hin, List.mem_singleton_self p⟩)
  | transition t =>
      rw [hgains.contains_transition, hmerges.gains.contains_transition,
        Net.contains_of_bare hkeeps.bare, List.mem_flatMap]
      constructor
      · rintro (ht | ⟨step, hin, ht⟩ | ht)
        · exact absurd ht List.not_mem_nil
        · obtain ⟨l, r, u, q, rfl⟩ := s.eq_merged hin
          rw [List.mem_singleton.1 ht]
          exact Or.inr ⟨l, r, u, q, hin, Or.inl rfl⟩
        · exact Or.inl ht
      · rintro (ht | ⟨l, r, u, q, hin, heq | heq⟩)
        · exact Or.inr (Or.inr ht)
        · cases heq
          exact Or.inr (Or.inl ⟨_, hin, List.mem_singleton_self t⟩)
        · cases heq

theorem SplitsGroup.flows_iff (h : net.Consistent) (s : SplitsGroup net group joins left net') :
    net'.Flows u v ↔ (net.Flows u v ∧ u ∉ group.places.map Node.place) ∨
      (∃ l r t q, .merged l r t q ∈ joins ∧
        ((u = .place l ∨ u = .place r) ∧ v = .transition t ∨ u = .transition t ∧ v = .place q)) ∨
      ∃ p ∈ left, ∃ t ∈ group.transitions, u = .place p ∧ v = .transition t := by
  constructor
  · rintro ⟨weight, harc⟩
    rcases (s.hasArc_iff h).1 harc with ⟨harc, hout⟩ | ⟨l, r, t, q, hstep, heq⟩ |
      ⟨p, hp, t, ht, heq⟩
    · exact Or.inl ⟨⟨weight, harc⟩, hout⟩
    · refine Or.inr (Or.inl ⟨l, r, t, q, hstep, ?_⟩)
      rcases heq with heq | heq | heq <;> cases heq
      · exact Or.inl ⟨Or.inl rfl, rfl⟩
      · exact Or.inl ⟨Or.inr rfl, rfl⟩
      · exact Or.inr ⟨rfl, rfl⟩
    · cases heq
      exact Or.inr (Or.inr ⟨p, hp, t, ht, rfl, rfl⟩)
  · rintro (⟨⟨weight, harc⟩, hout⟩ | ⟨l, r, t, q, hstep, heq⟩ | ⟨p, hp, t, ht, rfl, rfl⟩)
    · exact ⟨weight, (s.hasArc_iff h).2 (Or.inl ⟨harc, hout⟩)⟩
    · refine ⟨1, (s.hasArc_iff h).2 (Or.inr (Or.inl ⟨l, r, t, q, hstep, ?_⟩))⟩
      rcases heq with ⟨rfl | rfl, rfl⟩ | ⟨rfl, rfl⟩
      · exact Or.inl rfl
      · exact Or.inr (Or.inl rfl)
      · exact Or.inr (Or.inr rfl)
    · exact ⟨1, (s.hasArc_iff h).2 (Or.inr (Or.inr ⟨p, hp, t, ht, rfl⟩))⟩

/-- The nodes of a join are new. -/
theorem SplitsGroup.not_contains_join (s : SplitsGroup net group joins left net') {l r : PlaceId}
    (hstep : .merged l r t q ∈ joins) :
    ¬ net.contains (.transition t) = true ∧ ¬ net.contains (.place q) = true :=
  ⟨s.not_old_of_join hstep,
    s.fresh_place (List.mem_flatMap.2 ⟨_, hstep, List.mem_singleton_self q⟩)⟩

/-- Every place of the group and every new place feeds a transition after the split. -/
theorem SplitsGroup.exists_flows (h : net.Consistent) (s : SplitsGroup net group joins left net')
    (hp : p ∈ group.places ∨ p ∈ joins.flatMap Step.places) : ∃ v, net'.Flows (.place p) v := by
  have hmem : p ∈ left ++ joins.flatMap Step.inputs := by
    obtain ⟨net₁, net₂, -, hmerges, -⟩ := s.split
    exact hmerges.perm.mem_iff.2 (List.mem_append.2 hp)
  rcases List.mem_append.1 hmem with hleft | hin
  · obtain ⟨t, ht⟩ := List.exists_mem_of_ne_nil _ s.isGroup.transitions_ne
    exact ⟨.transition t, (s.flows_iff h).2 (Or.inr (Or.inr ⟨p, hleft, t, ht, rfl, rfl⟩))⟩
  · obtain ⟨step, hstep, hin⟩ := List.mem_flatMap.1 hin
    obtain ⟨l, r, t, q, rfl⟩ := s.eq_merged hstep
    have hlr : p = l ∨ p = r := by simpa [Step.inputs] using hin
    refine ⟨.transition t, (s.flows_iff h).2 (Or.inr (Or.inl ⟨l, r, t, q, hstep, Or.inl ⟨?_, rfl⟩⟩))⟩
    exact hlr.imp (congrArg Node.place) (congrArg Node.place)

/-! ### The border -/

/-- No arc comes to an old place, and none goes. -/
theorem SplitsGroup.flows_place_iff (h : net.Consistent)
    (s : SplitsGroup net group joins left net') (hp : net.contains (.place p) = true) :
    net'.Flows u (.place p) ↔ net.Flows u (.place p) := by
  rw [s.flows_iff h]
  constructor
  · rintro (⟨hflows, -⟩ | ⟨l, r, t, q, hstep, ⟨-, heq⟩ | ⟨-, heq⟩⟩ | ⟨_, -, t, -, -, heq⟩)
    · exact hflows
    · cases heq
    · cases heq
      exact absurd hp (s.not_contains_join hstep).2
    · cases heq
  · rintro ⟨weight, harc⟩
    refine Or.inl ⟨⟨weight, harc⟩, fun hin => ?_⟩
    obtain ⟨q, -, rfl⟩ := List.mem_map.1 hin
    exact harc.fits h

/-- An old place outside the group feeds the transitions that it fed before. -/
theorem SplitsGroup.flows_other_iff (h : net.Consistent)
    (s : SplitsGroup net group joins left net') (hp : net.contains (.place p) = true)
    (hout : p ∉ group.places) : net'.Flows (.place p) v ↔ net.Flows (.place p) v := by
  obtain ⟨hleft, hin⟩ := s.not_touched hp hout
  rw [s.flows_iff h]
  constructor
  · rintro (⟨hflows, -⟩ | ⟨l, r, t, q, hstep, ⟨hlr, -⟩ | ⟨heq, -⟩⟩ | ⟨q, hq, t, -, heq, -⟩)
    · exact hflows
    · refine absurd (List.mem_flatMap.2 ⟨_, hstep, ?_⟩) hin
      simpa [Step.inputs] using hlr
    · cases heq
    · cases heq
      exact absurd hq hleft
  · intro hflows
    refine Or.inl ⟨hflows, fun hmem => hout ?_⟩
    obtain ⟨q, hq, heq⟩ := List.mem_map.1 hmem
    exact Node.place.inj heq ▸ hq

/-- The places at the border stay the same. -/
theorem SplitsGroup.isBorder_iff (h : net.Consistent) (s : SplitsGroup net group joins left net') :
    net'.IsBorder side p ↔ net.IsBorder side p := by
  by_cases hp : net.contains (.place p) = true
  · have hp' : net'.contains (.place p) = true := s.contains_iff.2 (Or.inl hp)
    cases side with
    | target =>
        rw [Net.isBorder_target_iff, Net.isBorder_target_iff]
        simp only [hp, hp', s.flows_place_iff h hp]
    | source =>
        rw [Net.isBorder_source_iff, Net.isBorder_source_iff]
        by_cases hin : p ∈ group.places
        · obtain ⟨v, hflows'⟩ := s.exists_flows h (Or.inl hin)
          obtain ⟨t, ht⟩ := List.exists_mem_of_ne_nil _ s.isGroup.transitions_ne
          have hflows : net.Flows (.place p) (.transition t) := ⟨1, s.isGroup.hasArc h hin ht⟩
          exact ⟨fun hall => absurd hflows' (hall.2 v), fun hall => absurd hflows (hall.2 _)⟩
        · simp only [hp, hp', s.flows_other_iff h hp hin]
  · -- a new place has an arc from its join and one to what consumes from it
    refine ⟨fun hborder => ?_, fun hborder => absurd hborder.1 hp⟩
    rcases s.contains_iff.1 hborder.1 with hold | ⟨l, r, t, q, hstep, heq | heq⟩
    · exact absurd hold hp
    · cases heq
    · cases heq
      cases side with
      | target =>
          have hflows : net'.Flows (.transition t) (.place p) :=
            (s.flows_iff h).2 (Or.inr (Or.inl ⟨l, r, t, p, hstep, Or.inr ⟨rfl, rfl⟩⟩))
          exact absurd hflows ((Net.isBorder_target_iff.1 hborder).2 _)
      | source =>
          have hnew : p ∈ joins.flatMap Step.places :=
            List.mem_flatMap.2 ⟨_, hstep, List.mem_singleton_self p⟩
          obtain ⟨v, hflows⟩ := s.exists_flows h (Or.inr hnew)
          exact absurd hflows ((Net.isBorder_source_iff.1 hborder).2 v)

/-! ### Paths between old nodes -/

/-- An arc of the net is a path of the split net. -/
theorem SplitsGroup.leads_of_flows (h : net.Consistent)
    (s : SplitsGroup net group joins left net') (hflows : net.Flows u v) : net'.Leads u v := by
  by_cases hu : u ∈ group.places.map Node.place
  · obtain ⟨p, hp, rfl⟩ := List.mem_map.1 hu
    obtain ⟨q, hq, hleads⟩ := s.leads_left (Or.inl hp)
    obtain ⟨weight, harc⟩ := hflows
    cases v with
    | place q => exact absurd (harc.fits h) id
    | transition t =>
        have hweight : weight = 1 := harc.fits h
        subst hweight
        have ht := (s.isGroup.feeds p hp t).1 (h.mem_consumers_iff.2 harc)
        exact hleads.tail ((s.flows_iff h).2 (Or.inr (Or.inr ⟨q, hq, t, ht, rfl, rfl⟩)))
  · exact ((s.flows_iff h).2 (Or.inl ⟨hflows, hu⟩)).leads

theorem SplitsGroup.leads_of_leads (h : net.Consistent)
    (s : SplitsGroup net group joins left net') (hleads : net.Leads u v) : net'.Leads u v := by
  induction hleads with
  | refl => exact Relation.ReflTransGen.refl
  | tail _ hflows ih => exact ih.trans (s.leads_of_flows h hflows)

/-- A path of the split net that begins at an old node ends at a node to which the net leads, too, or
inside the forest, which it entered from the group. -/
theorem SplitsGroup.leads_tail (h : net.Consistent) (s : SplitsGroup net group joins left net')
    (hu : net.contains u = true) (hleads : net'.Leads u v) :
    (net.contains v = true → net.Leads u v) ∧
      (¬ net.contains v = true → ∃ p ∈ group.places, net.Leads u (.place p)) := by
  induction hleads with
  | refl => exact ⟨fun _ => Relation.ReflTransGen.refl, fun hnot => absurd hu hnot⟩
  | @tail v w _ hflows ih =>
      -- from a place that the split has touched one can go back to the group
      have hgroup : ∀ {q}, v = .place q → q ∈ left ∨ q ∈ joins.flatMap Step.inputs →
          ∃ p ∈ group.places, net.Leads u (.place p) := by
        rintro q rfl hq
        by_cases hold : net.contains (.place q) = true
        · rcases s.mem_places hq with hin | hnew
          · exact ⟨q, hin, ih.1 hold⟩
          · exact absurd hold (s.fresh_place hnew)
        · exact ih.2 hold
      rcases (s.flows_iff h).1 hflows with ⟨hflows, -⟩ | ⟨l, r, t, q, hstep, heq⟩ |
        ⟨q, hq, t, ht, hv, rfl⟩
      · have hv := hflows.contains_source h
        exact ⟨fun _ => (ih.1 hv).tail hflows, fun hnot => absurd (hflows.contains_target h) hnot⟩
      · obtain ⟨htnew, hqnew⟩ := s.not_contains_join hstep
        rcases heq with ⟨hv, rfl⟩ | ⟨rfl, rfl⟩
        · refine ⟨fun hold => absurd hold htnew, fun _ => ?_⟩
          have hin : ∀ {p}, p = l ∨ p = r → p ∈ joins.flatMap Step.inputs := fun hp =>
            List.mem_flatMap.2 ⟨_, hstep, by simpa [Step.inputs] using hp⟩
          rcases hv with hv | hv
          · exact hgroup hv (Or.inr (hin (Or.inl rfl)))
          · exact hgroup hv (Or.inr (hin (Or.inr rfl)))
        · exact ⟨fun hold => absurd hold hqnew, fun _ => ih.2 htnew⟩
      · obtain ⟨p, hp, hleads⟩ := hgroup hv (Or.inl hq)
        have hflows : net.Flows (.place p) (.transition t) := ⟨1, s.isGroup.hasArc h hp ht⟩
        exact ⟨fun _ => hleads.tail hflows, fun hnot => absurd (hflows.contains_target h) hnot⟩

/-- Old nodes are joined by a path of the split net exactly when they are by one of the net. -/
theorem SplitsGroup.leads_iff (h : net.Consistent) (s : SplitsGroup net group joins left net')
    (hu : net.contains u = true) (hv : net.contains v = true) : net'.Leads u v ↔ net.Leads u v :=
  ⟨fun hleads => (s.leads_tail h hu hleads).1 hv, s.leads_of_leads h⟩

/-! ### The workflow property -/

/-- Every node of a join lies on a path from the group to a place that is left. -/
theorem SplitsGroup.leads_join (h : net.Consistent) (s : SplitsGroup net group joins left net')
    {l r : PlaceId} (hstep : .merged l r t q ∈ joins) (hv : v = .transition t ∨ v = .place q) :
    (∃ p ∈ group.places, net'.Leads (.place p) v) ∧ ∃ p ∈ left, net'.Leads v (.place p) := by
  have hflows : ∀ {a b : Node},
      (a = .place l ∨ a = .place r) ∧ b = .transition t ∨ a = .transition t ∧ b = .place q →
        net'.Flows a b := fun heq =>
    (s.flows_iff h).2 (Or.inr (Or.inl ⟨l, r, t, q, hstep, heq⟩))
  have hin : net'.Flows (.place l) (.transition t) := hflows (Or.inl ⟨Or.inl rfl, rfl⟩)
  have hout : net'.Flows (.transition t) (.place q) := hflows (Or.inr ⟨rfl, rfl⟩)
  obtain ⟨p, hp, hto⟩ := s.leads_left
    (Or.inr (List.mem_flatMap.2 ⟨_, hstep, List.mem_singleton_self q⟩))
  have hl : l ∈ joins.flatMap Step.inputs := List.mem_flatMap.2 ⟨_, hstep, List.mem_cons_self⟩
  obtain ⟨first, hfirst, hfrom⟩ : ∃ first ∈ group.places, net'.Leads (.place first) (.place l) := by
    rcases s.mem_places (Or.inr hl) with hold | hnew
    · exact ⟨l, hold, Relation.ReflTransGen.refl⟩
    · exact s.leads_new hnew
  rcases hv with rfl | rfl
  · exact ⟨⟨first, hfirst, hfrom.tail hin⟩, p, hp, hto.head hout⟩
  · exact ⟨⟨first, hfirst, (hfrom.tail hin).tail hout⟩, p, hp, hto⟩

/-- Splitting a group neither makes nor breaks the workflow property. -/
theorem SplitsGroup.workflowNet_iff (h : net.Consistent)
    (s : SplitsGroup net group joins left net') : net'.WorkflowNet ↔ net.WorkflowNet := by
  unfold Net.WorkflowNet
  simp only [s.isBorder_iff h]
  refine exists_congr fun source => exists_congr fun sink => and_congr_right fun hsource =>
    and_congr_right fun hsink => ?_
  have hfirst := ((hsource source).2 rfl).1
  have hlast := ((hsink sink).2 rfl).1
  constructor
  · intro hall node hnode
    obtain ⟨hfrom, hto⟩ := hall node (s.contains_iff.2 (Or.inl hnode))
    exact ⟨(s.leads_iff h hfirst hnode).1 hfrom, (s.leads_iff h hnode hlast).1 hto⟩
  · intro hall node hnode
    rcases s.contains_iff.1 hnode with hold | ⟨l, r, t, q, hstep, hv⟩
    · exact ⟨s.leads_of_leads h (hall node hold).1, s.leads_of_leads h (hall node hold).2⟩
    · obtain ⟨⟨p, hp, hfrom⟩, p', hp', hto⟩ := s.leads_join h hstep hv
      obtain ⟨u, hu⟩ := List.exists_mem_of_ne_nil _ s.isGroup.transitions_ne
      have hgroup := (hall _ (s.isGroup.contains_place h hp)).1
      have hend := (hall _ (s.isGroup.contains_transition h hu)).2
      have hflows : net'.Flows (.place p') (.transition u) :=
        (s.flows_iff h).2 (Or.inr (Or.inr ⟨p', hp', u, hu, rfl, rfl⟩))
      exact ⟨(s.leads_of_leads h hgroup).trans hfrom,
        hto.trans ((s.leads_of_leads h hend).head hflows)⟩

end Sync
end PetriCcs
