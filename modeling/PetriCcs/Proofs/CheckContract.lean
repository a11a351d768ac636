import PetriCcs.Proofs.Reachable

/-! # What the check of a net overlooks

The check finds nothing in a well-formed net, but not only there: it does not look at the tag of the
net, the sides and the weights of edges, parallel edges and the names of nodes (`Net.Unchecked`).  A net
is well-formed exactly when it passes the check and these are in order, too (`check_contract`); each of
them can fail alone (`check_overlooks`). -/

namespace PetriCcs
namespace Net

variable {net : Net}

/-- What a well-formed net keeps in order besides its links. -/
structure Unchecked (net : Net) : Prop where
  place_owner : ∀ id place, net.place? id = some place → id.owner = net.tag
  transition_owner : ∀ id transition, net.transition? id = some transition → id.owner = net.tag
  edge_owner : ∀ id edge, net.edge? id = some edge → id.owner = net.tag
  fits : ∀ id edge, net.edge? id = some edge → Fits edge.source edge.target edge.weight
  unique : ∀ id id' edge edge', net.edge? id = some edge → net.edge? id' = some edge' →
    edge.source = edge'.source → edge.target = edge'.target → id = id'
  place_names : (net.places.toList.map Place.displayName).Nodup
  transition_names : (net.transitions.toList.map Transition.displayName).Nodup

theorem Linked.contains_endpoint (h : net.Linked) {id : EdgeId} {edge : Edge}
    (hedge : net.edge? id = some edge) (side : Side) : net.contains (edge.endpoint side) = true := by
  obtain ⟨edges, hlisted, -⟩ := h.listed_once id edge hedge side
  exact (contains_iff_listed? side _).2 ⟨edges, hlisted⟩

theorem WellFormed.count_listed (h : net.WellFormed) {id : EdgeId} {edge : Edge}
    (hedge : net.edge? id = some edge) {side : Side} {node : Node} {edges : List EdgeId}
    (hlisted : net.listed? side node = some edges) :
    edges.count id = if node = edge.endpoint side then 1 else 0 := by
  cases side with
  | source => exact h.listed_outgoing id edge hedge node edges hlisted
  | target => exact h.listed_incoming id edge hedge node edges hlisted

theorem WellFormed.linked (h : net.WellFormed) : net.Linked := by
  refine ⟨fun id place hplace => (h.place_id id place hplace).1,
    fun id transition htransition => (h.transition_id id transition htransition).1,
    fun id edge hedge => (h.edge_id id edge hedge).1, fun id edge hedge side => ?_,
    fun side node edges hlisted id hid => ?_⟩
  · have hcontains : net.contains (edge.endpoint side) = true := by
      cases side with
      | source => exact (h.contains_ends id edge hedge).1
      | target => exact (h.contains_ends id edge hedge).2
    obtain ⟨edges, hlisted⟩ := (contains_iff_listed? side _).1 hcontains
    exact ⟨edges, hlisted, by rw [h.count_listed hedge hlisted, if_pos rfl]⟩
  · have hexists : ∃ edge, net.edge? id = some edge := by
      cases side with
      | source => exact h.outgoing_exists node edges hlisted id hid
      | target => exact h.incoming_exists node edges hlisted id hid
    obtain ⟨edge, hedge⟩ := hexists
    have hcount := h.count_listed hedge hlisted
    split_ifs at hcount with hnode
    · exact ⟨edge, hedge, hnode.symm⟩
    · exact absurd hid (List.count_eq_zero.1 hcount)

theorem WellFormed.unchecked (h : net.WellFormed) : net.Unchecked where
  place_owner := fun id place hplace => (h.place_id id place hplace).2
  transition_owner := fun id transition htransition => (h.transition_id id transition htransition).2
  edge_owner := fun id edge hedge => (h.edge_id id edge hedge).2
  fits := h.fits
  unique := h.unique
  place_names := h.place_names
  transition_names := h.transition_names

theorem Linked.wellFormed (h : net.Linked) (hrest : net.Unchecked) : net.WellFormed where
  place_id := fun id place hplace =>
    ⟨h.place_id id place hplace, hrest.place_owner id place hplace⟩
  transition_id := fun id transition htransition =>
    ⟨h.transition_id id transition htransition, hrest.transition_owner id transition htransition⟩
  edge_id := fun id edge hedge => ⟨h.edge_id id edge hedge, hrest.edge_owner id edge hedge⟩
  listed_outgoing := fun _ _ hedge node edges hlisted =>
    h.count_listed hedge (show net.listed? .source node = some edges from hlisted)
  listed_incoming := fun _ _ hedge node edges hlisted =>
    h.count_listed hedge (show net.listed? .target node = some edges from hlisted)
  outgoing_exists := fun node edges hlisted id hid =>
    have ⟨edge, hedge, _⟩ := h.edge_of_mem .source node edges hlisted id hid
    ⟨edge, hedge⟩
  incoming_exists := fun node edges hlisted id hid =>
    have ⟨edge, hedge, _⟩ := h.edge_of_mem .target node edges hlisted id hid
    ⟨edge, hedge⟩
  contains_ends := fun _ _ hedge =>
    ⟨h.contains_endpoint hedge .source, h.contains_endpoint hedge .target⟩
  fits := hrest.fits
  unique := hrest.unique
  place_names := hrest.place_names
  transition_names := hrest.transition_names

/-- Whatever a net holds, the check finds nothing exactly when nodes and edges are linked.  So a
well-formed net passes, and a net that passes is well-formed exactly when the rest is in order. -/
theorem check_contract (net : Net) : (net.check = .ok () ↔ net.Linked) ∧
    (net.WellFormed ↔ net.check = .ok () ∧ net.Unchecked) := by
  refine ⟨check_eq_ok_iff, ?_⟩
  rw [check_eq_ok_iff]
  exact ⟨fun h => ⟨h.linked, h.unchecked⟩, fun h => h.1.wellFormed h.2⟩

/-! ### Nets that pass and are not well-formed -/

/-- A place with two tokens and a transition that it feeds. -/
def single : Net :=
  [Change.addPlace none 2, .addLabelledTransition none (.visible "a"),
    .addEdge (.place ⟨0, 0⟩) (.transition ⟨0, 0⟩) 1].foldl
      (fun net change => (change.runOn net).2) (empty 0)

/-- An edge that consumes two tokens. -/
def heavy : Net := { single with edges := single.edges.map ({ · with weight := 2 }) }

/-- Two edges from the same place to the same transition. -/
def doubled : Net where
  tag := 0
  places := ⟨0, #[⟨⟨0, 0⟩, 1, 0, [], [⟨0, 0⟩, ⟨0, 1⟩]⟩]⟩
  transitions := ⟨0, #[⟨⟨0, 0⟩, 1, .tau, [⟨0, 0⟩, ⟨0, 1⟩], []⟩]⟩
  edges := ⟨0, #[⟨⟨0, 0⟩, .place ⟨0, 0⟩, .transition ⟨0, 0⟩, 1⟩,
    ⟨⟨0, 1⟩, .place ⟨0, 0⟩, .transition ⟨0, 0⟩, 1⟩]⟩

/-- An edge from a place to a place. -/
def level : Net where
  tag := 0
  places := ⟨0, #[⟨⟨0, 0⟩, 1, 0, [], [⟨0, 0⟩]⟩, ⟨⟨0, 1⟩, 2, 0, [⟨0, 0⟩], []⟩]⟩
  transitions := ⟨0, #[]⟩
  edges := ⟨0, #[⟨⟨0, 0⟩, .place ⟨0, 0⟩, .place ⟨0, 1⟩, 1⟩]⟩

/-- Two places of one name. -/
def namesakes : Net where
  tag := 0
  places := ⟨0, #[⟨⟨0, 0⟩, 1, 0, [], []⟩, ⟨⟨0, 1⟩, 1, 0, [], []⟩]⟩
  transitions := ⟨0, #[]⟩
  edges := ⟨0, #[]⟩

/-- A net whose handles carry the tag of another one. -/
def mistagged : Net := { single with tag := 1 }

/-- Weights, parallel edges, sides, names and tags are overlooked, each of them on its own. -/
theorem check_overlooks :
    (heavy.check = .ok () ∧ ¬ heavy.WellFormed) ∧ (doubled.check = .ok () ∧ ¬ doubled.WellFormed) ∧
      (level.check = .ok () ∧ ¬ level.WellFormed) ∧
      (namesakes.check = .ok () ∧ ¬ namesakes.WellFormed) ∧
      mistagged.check = .ok () ∧ ¬ mistagged.WellFormed := by
  refine ⟨⟨by decide +kernel, fun h => ?_⟩, ⟨by decide +kernel, fun h => ?_⟩,
    ⟨by decide +kernel, fun h => ?_⟩, ⟨by decide +kernel, fun h => ?_⟩, by decide +kernel, fun h => ?_⟩
  · have hweight : (2 : Weight) = 1 :=
      h.fits ⟨0, 0⟩ ⟨⟨0, 0⟩, .place ⟨0, 0⟩, .transition ⟨0, 0⟩, 2⟩ (by decide +kernel)
    exact absurd hweight (by decide)
  · exact absurd (h.unique ⟨0, 0⟩ ⟨0, 1⟩ _ _ rfl rfl rfl rfl) (by decide)
  · exact h.fits ⟨0, 0⟩ _ rfl
  · exact absurd h.place_names (by decide)
  · exact absurd (h.edge_id ⟨0, 0⟩ ⟨⟨0, 0⟩, .place ⟨0, 0⟩, .transition ⟨0, 0⟩, 1⟩ (by decide +kernel)).2
      (by decide)

end Net
end PetriCcs
