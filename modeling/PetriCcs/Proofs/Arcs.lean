import PetriCcs.Proofs.Consistent

/-! # Arcs

An arc is an edge without its handle.  `net.arcs side node` lists the arcs of a node at one end in
the order of its links; the queries of a net are projections of it (`preset_eq`, `postset_eq`,
`consumers_eq`).  In a consistent net the arcs at a node are those of the net that end there
(`mem_arcs_iff`), each listed once (`nodup_arcs`), and two nodes are joined by at most one
(`HasArc.unique`). -/

namespace PetriCcs

/-- A weighted edge without its handle. -/
structure Arc where
  source : Node
  target : Node
  weight : Weight
  deriving DecidableEq

/-- The node at one end of an arc. -/
def Arc.endpoint (arc : Arc) : Side → Node
  | .source => arc.source
  | .target => arc.target

/-- An edge without its handle. -/
def Edge.arc (edge : Edge) : Arc := ⟨edge.source, edge.target, edge.weight⟩

@[simp] theorem Edge.endpoint_arc (edge : Edge) (side : Side) :
    edge.arc.endpoint side = edge.endpoint side := by
  cases side <;> rfl

namespace Net

/-- The arcs of a node at one end, in the order of its links. -/
def arcs (net : Net) (side : Side) (node : Node) : List Arc :=
  ((net.listed? side node).getD []).filterMap fun id => (net.edge? id).map Edge.arc

/-- Some edge of the net is this arc. -/
def HasArc (net : Net) (arc : Arc) : Prop := ∃ id edge, net.edge? id = some edge ∧ edge.arc = arc

variable {net : Net}

theorem preset_eq (net : Net) (t : TransitionId) :
    net.preset t = (net.arcs .target (.transition t)).filterMap (·.source.place?) := by
  rw [preset, arcs, List.filterMap_filterMap]
  refine List.filterMap_congr fun id _ => ?_
  cases net.edge? id <;> rfl

theorem postset_eq (net : Net) (t : TransitionId) :
    net.postset t = (net.arcs .source (.transition t)).filterMap fun arc =>
      arc.target.place?.map fun place => (place, arc.weight) := by
  rw [postset, arcs, List.filterMap_filterMap]
  refine List.filterMap_congr fun id _ => ?_
  cases net.edge? id <;> rfl

theorem consumers_eq (net : Net) (p : PlaceId) :
    net.consumers p = (net.arcs .source (.place p)).filterMap (·.target.transition?) := by
  rw [consumers, arcs, List.filterMap_filterMap]
  refine List.filterMap_congr fun id _ => ?_
  cases net.edge? id <;> rfl

/-! ### Arcs of a consistent net -/

/-- Every listed edge counts as an arc. -/
theorem Consistent.map_some_arcs (h : net.Consistent) {side : Side} {node : Node}
    {edges : List EdgeId} (hlisted : net.listed? side node = some edges) :
    (net.arcs side node).map some = edges.map fun id => (net.edge? id).map Edge.arc := by
  rw [arcs, hlisted, Option.getD_some]
  have hall : ∀ id ∈ edges, ∃ arc, (net.edge? id).map Edge.arc = some arc := by
    intro id hid
    obtain ⟨edge, hedge, -⟩ := h.edge_of_mem hlisted hid
    exact ⟨edge.arc, by rw [hedge]; rfl⟩
  clear hlisted
  induction edges with
  | nil => rfl
  | cons id edges ih =>
      obtain ⟨arc, harc⟩ := hall id List.mem_cons_self
      have hstep := ih fun id hid => hall id (List.mem_cons_of_mem _ hid)
      simp only [List.filterMap_cons, harc, List.map_cons, hstep]

theorem Consistent.length_arcs (h : net.Consistent) {side : Side} {node : Node}
    {edges : List EdgeId} (hlisted : net.listed? side node = some edges) :
    (net.arcs side node).length = edges.length := by
  simpa using congrArg List.length (h.map_some_arcs hlisted)

theorem Consistent.mem_arcs_iff (h : net.Consistent) {side : Side} {node : Node} {arc : Arc} :
    arc ∈ net.arcs side node ↔ net.HasArc arc ∧ arc.endpoint side = node := by
  constructor
  · intro harc
    rw [arcs, List.mem_filterMap] at harc
    obtain ⟨id, hid, harc⟩ := harc
    obtain ⟨edge, hedge, rfl⟩ := Option.map_eq_some_iff.1 harc
    cases hlisted : net.listed? side node with
    | none => simp [hlisted] at hid
    | some edges =>
        rw [hlisted, Option.getD_some] at hid
        obtain ⟨edge', hedge', hend⟩ := h.edge_of_mem hlisted hid
        rw [hedge] at hedge'
        cases hedge'
        exact ⟨⟨id, edge, hedge, rfl⟩, by rw [Edge.endpoint_arc, hend]⟩
  · rintro ⟨⟨id, edge, hedge, rfl⟩, rfl⟩
    rw [Edge.endpoint_arc]
    obtain ⟨edges, hlisted, hmem⟩ := h.listed hedge side
    rw [arcs, hlisted, Option.getD_some, List.mem_filterMap]
    exact ⟨id, hmem, by rw [hedge]; rfl⟩

theorem Consistent.hasArc_iff_mem (h : net.Consistent) {arc : Arc} :
    net.HasArc arc ↔ arc ∈ net.arcs .source arc.source := by
  rw [h.mem_arcs_iff]
  exact (and_iff_left rfl).symm

/-- Two nodes are joined by at most one arc. -/
theorem HasArc.unique (h : net.Consistent) {arc arc' : Arc} (harc : net.HasArc arc)
    (harc' : net.HasArc arc') (hsource : arc.source = arc'.source)
    (htarget : arc.target = arc'.target) : arc = arc' := by
  obtain ⟨id, edge, hedge, rfl⟩ := harc
  obtain ⟨id', edge', hedge', rfl⟩ := harc'
  obtain rfl := h.unique hedge hedge' hsource htarget
  rw [hedge] at hedge'
  cases hedge'
  rfl

theorem HasArc.fits (h : net.Consistent) {arc : Arc} (harc : net.HasArc arc) :
    Fits arc.source arc.target arc.weight := by
  obtain ⟨id, edge, hedge, rfl⟩ := harc
  exact h.fits hedge

theorem HasArc.contains (h : net.Consistent) {arc : Arc} (harc : net.HasArc arc) (side : Side) :
    net.contains (arc.endpoint side) = true := by
  obtain ⟨id, edge, hedge, rfl⟩ := harc
  rw [Edge.endpoint_arc]
  exact h.contains_endpoint hedge side

theorem Consistent.nodup_arcs (h : net.Consistent) (side : Side) (node : Node) :
    (net.arcs side node).Nodup := by
  cases hlisted : net.listed? side node with
  | none => simp [arcs, hlisted]
  | some edges =>
      rw [← List.nodup_map_iff (Option.some_injective _), h.map_some_arcs hlisted]
      refine List.Nodup.map_on ?_ (h.nodup hlisted)
      intro id hid id' hid' heq
      obtain ⟨edge, hedge, -⟩ := h.edge_of_mem hlisted hid
      obtain ⟨edge', hedge', -⟩ := h.edge_of_mem hlisted hid'
      rw [hedge, hedge'] at heq
      have harc : edge.arc = edge'.arc := Option.some.inj heq
      exact h.unique hedge hedge' (congrArg Arc.source harc) (congrArg Arc.target harc)

/-! ### Queries of a consistent net -/

theorem Consistent.mem_preset_iff (h : net.Consistent) {t : TransitionId} {p : PlaceId} :
    p ∈ net.preset t ↔ net.HasArc ⟨.place p, .transition t, 1⟩ := by
  rw [preset_eq, List.mem_filterMap]
  constructor
  · rintro ⟨⟨source, target, weight⟩, harc, hp⟩
    obtain ⟨harc, hend⟩ := h.mem_arcs_iff.1 harc
    have hfits := harc.fits h
    cases source with
    | place q =>
        have htarget : target = .transition t := hend
        cases hp
        subst htarget
        have hweight : weight = 1 := hfits
        rwa [hweight] at harc
    | transition q => cases hp
  · intro harc
    exact ⟨_, h.mem_arcs_iff.2 ⟨harc, rfl⟩, rfl⟩

theorem Consistent.mem_consumers_iff (h : net.Consistent) {t : TransitionId} {p : PlaceId} :
    t ∈ net.consumers p ↔ net.HasArc ⟨.place p, .transition t, 1⟩ := by
  rw [consumers_eq, List.mem_filterMap]
  constructor
  · rintro ⟨⟨source, target, weight⟩, harc, ht⟩
    obtain ⟨harc, hend⟩ := h.mem_arcs_iff.1 harc
    have hfits := harc.fits h
    cases target with
    | transition q =>
        have hsource : source = .place p := hend
        cases ht
        subst hsource
        have hweight : weight = 1 := hfits
        rwa [hweight] at harc
    | place q => cases ht
  · intro harc
    exact ⟨_, h.mem_arcs_iff.2 ⟨harc, rfl⟩, rfl⟩

/-- A place feeds a transition exactly when the transition consumes from it. -/
theorem Consistent.mem_preset_iff_mem_consumers (h : net.Consistent) {t : TransitionId}
    {p : PlaceId} : p ∈ net.preset t ↔ t ∈ net.consumers p :=
  h.mem_preset_iff.trans h.mem_consumers_iff.symm

theorem Consistent.exists_place_of_mem_preset (h : net.Consistent) {t : TransitionId}
    {p : PlaceId} (hp : p ∈ net.preset t) : ∃ place, net.place? p = some place :=
  Arena.contains_iff_get?.1 ((h.mem_preset_iff.1 hp).contains h .source)

theorem Consistent.exists_transition_of_mem_preset (h : net.Consistent) {t : TransitionId}
    {p : PlaceId} (hp : p ∈ net.preset t) : ∃ transition, net.transition? t = some transition :=
  Arena.contains_iff_get?.1 ((h.mem_preset_iff.1 hp).contains h .target)

theorem Consistent.mem_postset_iff (h : net.Consistent) {t : TransitionId} {p : PlaceId}
    {weight : Weight} : (p, weight) ∈ net.postset t ↔ net.HasArc ⟨.transition t, .place p, weight⟩ := by
  rw [postset_eq, List.mem_filterMap]
  constructor
  · rintro ⟨⟨source, target, w⟩, harc, hp⟩
    obtain ⟨harc, hend⟩ := h.mem_arcs_iff.1 harc
    cases target with
    | place q =>
        have hsource : source = .transition t := hend
        subst hsource
        cases hp
        exact harc
    | transition q => cases hp
  · intro harc
    exact ⟨_, h.mem_arcs_iff.2 ⟨harc, rfl⟩, rfl⟩

/-- Distinct arcs at a node have distinct images, if the node and the image determine the arc. -/
theorem Consistent.nodup_filterMap_arcs {β : Type} (h : net.Consistent) {side : Side} {node : Node}
    {f : Arc → Option β}
    (hf : ∀ a ∈ net.arcs side node, ∀ a' ∈ net.arcs side node, ∀ b, f a = some b → f a' = some b →
      a.endpoint side.other = a'.endpoint side.other) :
    ((net.arcs side node).filterMap f).Nodup := by
  rw [List.Nodup, List.pairwise_filterMap]
  refine (h.nodup_arcs side node).imp_of_mem fun {a a'} ha ha' hne b hb b' hb' => ?_
  rintro rfl
  obtain ⟨harc, hend⟩ := h.mem_arcs_iff.1 ha
  obtain ⟨harc', hend'⟩ := h.mem_arcs_iff.1 ha'
  have hother := hf a ha a' ha' b hb hb'
  cases side with
  | source => exact hne (harc.unique h harc' (hend.trans hend'.symm) hother)
  | target => exact hne (harc.unique h harc' hother (hend.trans hend'.symm))

theorem Consistent.nodup_preset (h : net.Consistent) (t : TransitionId) : (net.preset t).Nodup := by
  rw [preset_eq]
  refine h.nodup_filterMap_arcs fun a _ a' _ p hp hp' => ?_
  obtain ⟨source, target, weight⟩ := a
  obtain ⟨source', target', weight'⟩ := a'
  cases source <;> cases source' <;> simp_all [Node.place?, Arc.endpoint, Side.other]

theorem Consistent.nodup_consumers (h : net.Consistent) (p : PlaceId) :
    (net.consumers p).Nodup := by
  rw [consumers_eq]
  refine h.nodup_filterMap_arcs fun a _ a' _ t ht ht' => ?_
  obtain ⟨source, target, weight⟩ := a
  obtain ⟨source', target', weight'⟩ := a'
  cases target <;> cases target' <;> simp_all [Node.transition?, Arc.endpoint, Side.other]

/-- A transition produces into no place twice. -/
theorem Consistent.nodup_postset (h : net.Consistent) (t : TransitionId) :
    ((net.postset t).map Prod.fst).Nodup := by
  rw [postset_eq, List.map_filterMap]
  refine h.nodup_filterMap_arcs fun a _ a' _ p hp hp' => ?_
  obtain ⟨source, target, weight⟩ := a
  obtain ⟨source', target', weight'⟩ := a'
  cases target <;> cases target' <;> simp_all [Node.place?, Arc.endpoint, Side.other]

/-- Every edge that enters a transition comes from a place of its preset. -/
theorem Consistent.length_preset (h : net.Consistent) {t : TransitionId} {transition : Transition}
    (ht : net.transition? t = some transition) :
    (net.preset t).length = transition.incoming.length := by
  have hlisted : net.listed? .target (.transition t) = some transition.incoming := by
    simp [listed?, incoming?, ht]
  rw [preset_eq, ← h.length_arcs hlisted]
  refine List.filterMap_length_eq_length.2 fun arc harc => ?_
  obtain ⟨harc, hend⟩ := h.mem_arcs_iff.1 harc
  have hfits := harc.fits h
  have htarget : arc.target = .transition t := hend
  rw [htarget] at hfits
  cases hsource : arc.source with
  | place p => rfl
  | transition q => simp [hsource, Fits] at hfits

theorem Consistent.preset_eq_nil_iff (h : net.Consistent) {t : TransitionId}
    {transition : Transition} (ht : net.transition? t = some transition) :
    net.preset t = [] ↔ transition.incoming = [] := by
  rw [← List.length_eq_zero_iff, h.length_preset ht, List.length_eq_zero_iff]

/-- Every edge that leaves a place leads to one of its consumers. -/
theorem Consistent.length_consumers (h : net.Consistent) {p : PlaceId} {place : Place}
    (hp : net.place? p = some place) : (net.consumers p).length = place.outgoing.length := by
  have hlisted : net.listed? .source (.place p) = some place.outgoing := by
    simp [listed?, outgoing?, hp]
  rw [consumers_eq, ← h.length_arcs hlisted]
  refine List.filterMap_length_eq_length.2 fun arc harc => ?_
  obtain ⟨harc, hend⟩ := h.mem_arcs_iff.1 harc
  have hfits := harc.fits h
  have hsource : arc.source = .place p := hend
  rw [hsource] at hfits
  cases htarget : arc.target with
  | transition t => rfl
  | place q => simp [htarget, Fits] at hfits

end Net
end PetriCcs
