import PetriCcs.Proofs.Synchronise

/-! # What the splitting of groups leaves alone

The arcs at a node after a split are known as lists (`SplitsGroup.arcs`): a node outside the group
keeps its list (`SplitsGroup.arcs_of_outside`).  `Net.Spares side node` says that no group over its
limit has arcs at this end of the node, which is so again after a split (`SplitsGroup.spares`).  So
the list goes through all splits unchanged (`Splits.arcs_of_spares`). -/

namespace PetriCcs
namespace Net

variable {net net' : Net}

/-- The transitions that produce into a place, each with the number of tokens, in the order of its
edges. -/
def producers (net : Net) (id : PlaceId) : List (TransitionId × Weight) :=
  ((net.incoming? (.place id)).getD []).filterMap fun e =>
    (net.edge? e).bind fun edge => edge.source.transition?.map fun t => (t, edge.weight)

theorem producers_eq (net : Net) (p : PlaceId) :
    net.producers p = (net.arcs .target (.place p)).filterMap fun arc =>
      arc.source.transition?.map fun t => (t, arc.weight) := by
  rw [producers, arcs, List.filterMap_filterMap]
  refine List.filterMap_congr fun id _ => ?_
  cases net.edge? id <;> rfl

theorem HasArc.mem_arcs (h : net.Consistent) {arc : Arc} (harc : net.HasArc arc) (side : Side) :
    arc ∈ net.arcs side (arc.endpoint side) :=
  h.mem_arcs_iff.2 ⟨harc, rfl⟩

theorem Consistent.source_of_mem_arcs (h : net.Consistent) {node : Node} {arc : Arc}
    (harc : arc ∈ net.arcs .source node) : arc.source = node :=
  (h.mem_arcs_iff.1 harc).2

theorem Consistent.target_of_mem_arcs (h : net.Consistent) {node : Node} {arc : Arc}
    (harc : arc ∈ net.arcs .target node) : arc.target = node :=
  (h.mem_arcs_iff.1 harc).2

/-- No arc ends at a node that the net does not have. -/
theorem Consistent.arcs_eq_nil (h : net.Consistent) {node : Node}
    (hnode : ¬ net.contains node = true) (side : Side) : net.arcs side node = [] := by
  refine List.eq_nil_iff_forall_not_mem.2 fun arc harc => hnode ?_
  obtain ⟨harc, hend⟩ := h.mem_arcs_iff.1 harc
  exact hend ▸ harc.contains h side

/-- No transition that consumes where an arc of the node starts is over its limit. -/
def Spares (net : Net) (side : Side) (node : Node) : Prop :=
  ∀ arc ∈ net.arcs side node, ∀ p, arc.source = .place p →
    ∀ u ∈ net.consumers p, net.WithinLimit u

/-- What leaves a transition is spared. -/
theorem Consistent.spares_outputs (h : net.Consistent) (t : TransitionId) :
    net.Spares .source (.transition t) := by
  intro arc harc p hp
  rw [h.source_of_mem_arcs harc] at hp
  cases hp

/-- What enters a place comes from transitions, so it is spared. -/
theorem Consistent.spares_producers (h : net.Consistent) (p : PlaceId) :
    net.Spares .target (.place p) := by
  intro arc harc q hq
  have hfits := (h.mem_arcs_iff.1 harc).1.fits h
  rw [hq, h.target_of_mem_arcs harc] at hfits
  exact absurd hfits (by simp [Fits])

theorem Consistent.spares_consumers (h : net.Consistent) {p : PlaceId}
    (hlimit : ∀ u ∈ net.consumers p, net.WithinLimit u) : net.Spares .source (.place p) := by
  intro arc harc q hq
  rw [h.source_of_mem_arcs harc] at hq
  cases hq
  exact hlimit

theorem spares_preset {t : TransitionId}
    (hlimit : ∀ p ∈ net.preset t, ∀ u ∈ net.consumers p, net.WithinLimit u) :
    net.Spares .target (.transition t) := by
  intro arc harc p hp
  refine hlimit p ?_
  rw [preset_eq, List.mem_filterMap]
  exact ⟨arc, harc, by rw [hp]; rfl⟩

end Net

namespace Sync

variable {net net' : Net} {group : Group} {joins steps : List Step} {left : List PlaceId}
  {u : TransitionId} {side : Side} {node : Node}

/-! ### The splitting of a group -/

/-- The arcs at a node: the old ones but for those of the group, then those of the joins, then those
from the places that are left. -/
theorem SplitsGroup.arcs (s : SplitsGroup net group joins left net') (side : Side) (node : Node) :
    net'.arcs side node =
      (net.arcs side node).filter (fun arc => arc.source ∉ group.places.map Node.place) ++
        ((joins.flatMap Step.arcs).filter (·.endpoint side = node) ++
          (connectArcs left group.transitions).filter (·.endpoint side = node)) := by
  obtain ⟨net₁, net₂, hkeeps, hmerges, hgains⟩ := s.split
  rw [hgains.arcs, hmerges.gains.arcs, hkeeps.arcs, List.append_assoc]

/-- No arc of the node starts at a place of the group. -/
def Outside (net : Net) (group : Group) (side : Side) (node : Node) : Prop :=
  ∀ arc ∈ net.arcs side node, arc.source ∉ group.places.map Node.place

/-- A group over its limit has no arcs at a node that is spared. -/
theorem IsGroup.outside_of_spares (hg : IsGroup net group) (hu : u ∈ group.transitions)
    (hlimit : ¬ net.WithinLimit u) (hspares : net.Spares side node) :
    Outside net group side node := by
  intro arc harc hmem
  obtain ⟨p, hp, heq⟩ := List.mem_map.1 hmem
  exact hlimit (hspares arc harc p heq.symm u ((hg.feeds p hp u).2 hu))

/-- An old place that is merged or left has arcs of the group. -/
theorem SplitsGroup.not_outside (h : net.Consistent) (s : SplitsGroup net group joins left net')
    {p : PlaceId} (hp : p ∈ left ∨ p ∈ joins.flatMap Step.inputs)
    (hold : net.contains (.place p) = true) : ¬ Outside net group .source (.place p) := by
  intro hout
  have hin : p ∈ group.places := (s.mem_places hp).resolve_right fun hnew => s.fresh_place hnew hold
  obtain ⟨t, ht⟩ := List.exists_mem_of_ne_nil _ s.isGroup.transitions_ne
  have harc := (s.isGroup.hasArc h hin ht).mem_arcs h .source
  exact hout _ harc (List.mem_map_of_mem hin)

/-- An arc of a join meets an old node only where it leaves a merged place. -/
theorem Merges.endpoint_old {working : List PlaceId} (h : Merges net working joins left net')
    {arc : Arc} (harc : arc ∈ joins.flatMap Step.arcs)
    (hold : net.contains (arc.endpoint side) = true) :
    side = .source ∧ ∃ p ∈ joins.flatMap Step.inputs, arc.endpoint side = .place p := by
  obtain ⟨l, r, t, q, hstep, harc⟩ := h.mem_arcs_iff.1 harc
  have htransition : ¬ net.contains (.transition t) = true :=
    h.gains.fresh_transition t (List.mem_flatMap.2 ⟨_, hstep, List.mem_singleton_self t⟩)
  have hplace : ¬ net.contains (.place q) = true :=
    h.gains.fresh_place q (List.mem_flatMap.2 ⟨_, hstep, List.mem_singleton_self q⟩)
  have hinput : ∀ p ∈ [l, r], p ∈ joins.flatMap Step.inputs := fun p hp =>
    List.mem_flatMap.2 ⟨_, hstep, hp⟩
  cases side with
  | source =>
      rcases harc with rfl | rfl | rfl
      · exact ⟨rfl, l, hinput l (by simp), rfl⟩
      · exact ⟨rfl, r, hinput r (by simp), rfl⟩
      · exact absurd hold htransition
  | target =>
      rcases harc with rfl | rfl | rfl
      · exact absurd hold htransition
      · exact absurd hold htransition
      · exact absurd hold hplace

theorem SplitsGroup.endpoint_old (s : SplitsGroup net group joins left net') {arc : Arc}
    (harc : arc ∈ joins.flatMap Step.arcs) (hold : net.contains (arc.endpoint side) = true) :
    side = .source ∧ ∃ p ∈ joins.flatMap Step.inputs, arc.endpoint side = .place p := by
  obtain ⟨net₁, net₂, hkeeps, hmerges, -⟩ := s.split
  exact hmerges.endpoint_old harc (by rwa [Net.contains_of_bare hkeeps.bare])

/-- No arc of a join ends at an old node outside the group. -/
theorem SplitsGroup.endpoint_join_ne (h : net.Consistent)
    (s : SplitsGroup net group joins left net') (hold : net.contains node = true)
    (hout : Outside net group side node) {arc : Arc} (harc : arc ∈ joins.flatMap Step.arcs) :
    arc.endpoint side ≠ node := by
  rintro rfl
  obtain ⟨rfl, p, hp, hend⟩ := s.endpoint_old harc hold
  rw [hend] at hold hout
  exact s.not_outside h (Or.inr hp) hold hout

/-- Neither does an arc from a place that is left. -/
theorem SplitsGroup.endpoint_connect_ne (h : net.Consistent)
    (s : SplitsGroup net group joins left net') (hold : net.contains node = true)
    (hout : Outside net group side node) {arc : Arc}
    (harc : arc ∈ connectArcs left group.transitions) : arc.endpoint side ≠ node := by
  rintro rfl
  obtain ⟨p, hp, t, ht, rfl⟩ := mem_connectArcs_iff.1 harc
  cases side with
  | source => exact s.not_outside h (Or.inl hp) hold hout
  | target =>
      obtain ⟨q, hq⟩ := List.exists_mem_of_ne_nil _ s.isGroup.places_ne
      have harc := (s.isGroup.hasArc h hq ht).mem_arcs h .target
      exact hout _ harc (List.mem_map_of_mem hq)

/-- An old node outside the group keeps its list of arcs. -/
theorem SplitsGroup.arcs_of_outside (h : net.Consistent)
    (s : SplitsGroup net group joins left net') (hold : net.contains node = true)
    (hout : Outside net group side node) : net'.arcs side node = net.arcs side node := by
  have hkept : (net.arcs side node).filter (fun arc => arc.source ∉ group.places.map Node.place) =
      net.arcs side node :=
    List.filter_eq_self.2 fun arc harc => decide_eq_true (hout arc harc)
  have hjoins : (joins.flatMap Step.arcs).filter (·.endpoint side = node) = [] :=
    List.filter_eq_nil_iff.2 fun arc harc heq =>
      s.endpoint_join_ne h hold hout harc (of_decide_eq_true heq)
  have hleft : (connectArcs left group.transitions).filter (·.endpoint side = node) = [] :=
    List.filter_eq_nil_iff.2 fun arc harc heq =>
      s.endpoint_connect_ne h hold hout harc (of_decide_eq_true heq)
  rw [s.arcs, hkept, hjoins, hleft, List.append_nil, List.append_nil]

/-- A node that is spared stays so. -/
theorem SplitsGroup.spares (h : net.Consistent) (s : SplitsGroup net group joins left net')
    (hu : u ∈ group.transitions) (hlimit : ¬ net.WithinLimit u)
    (hleft : left.length = group.keep net) (hold : net.contains node = true)
    (hspares : net.Spares side node) : net'.Spares side node := by
  intro arc harc p hp v hv
  rw [s.arcs_of_outside h hold (s.isGroup.outside_of_spares hu hlimit hspares)] at harc
  -- the place has the same consumers as before, and they were within their limits
  have hall := hspares arc harc p hp
  have hpold : net.contains (.place p) = true := by
    have hcontains := (h.mem_arcs_iff.1 harc).1.contains h .source
    rwa [Arc.endpoint, hp] at hcontains
  have hpout := s.isGroup.outside_of_spares hu hlimit (h.spares_consumers hall)
  rw [Net.consumers_eq, s.arcs_of_outside h hpold hpout, ← Net.consumers_eq] at hv
  exact s.withinLimit h hleft.le fun _ _ => hall v hv

/-! ### The splitting of all groups -/

/-- New nodes come after the old ones, step by step. -/
theorem Splits.grows (h : Splits net steps net') :
    net.Grows (steps.flatMap Step.transitions) (steps.flatMap Step.places) net' := by
  induction h with
  | done _ => exact Net.Grows.of_bare rfl
  | split s _ _ _ _ ih =>
      have hgrows := s.grows.trans ih
      rw [List.flatMap_append, List.flatMap_append]
      exact hgrows

/-- An old node that is spared keeps its list of arcs through all splits. -/
theorem Splits.arcs_of_spares (h : Splits net steps net') (hnet : net.Consistent)
    (hold : net.contains node = true) (hspares : net.Spares side node) :
    net'.arcs side node = net.arcs side node := by
  induction h with
  | done _ => rfl
  | split s hu hlimit hleft _ ih =>
      have hrest := ih s.evolves.consistent (s.grows.contains hold)
        (s.spares hnet hu hlimit hleft hold hspares)
      rw [hrest, s.arcs_of_outside hnet hold (s.isGroup.outside_of_spares hu hlimit hspares)]

end Sync
end PetriCcs
