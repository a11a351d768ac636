import PetriCcs.Proofs.Check

/-! # The structural invariant of a net

`Net.Consistent` relates the lists of the nodes to the edges: a node lists an edge at one end exactly
when the edge ends there, every edge joins a place and a transition of the net, and an ordered pair
of nodes has at most one edge.  Names play no part in it.  The queries of a consistent net mean what
they say (`findEdge?_eq_some_iff`), and `Net.check` finds nothing in it (`Consistent.check`). -/

namespace PetriCcs

/-- An edge joins a place and a transition; it consumes one token or produces at least one. -/
def Fits : Node → Node → Weight → Prop
  | .place _, .transition _, weight => weight = 1
  | .transition _, .place _, weight => weight ≠ 0
  | _, _, _ => False

namespace Net

/-- The collections belong to the net and nodes are stored under their own handles. -/
structure Identified (net : Net) : Prop where
  places_owner : net.places.owner = net.tag
  transitions_owner : net.transitions.owner = net.tag
  edges_owner : net.edges.owner = net.tag
  place_id : ∀ {id place}, net.place? id = some place → place.id = id
  transition_id : ∀ {id transition}, net.transition? id = some transition → transition.id = id

/-- Nodes and edges refer to each other as they should. -/
structure Consistent (net : Net) : Prop where
  identified : net.Identified
  edge_id : ∀ {id edge}, net.edge? id = some edge → edge.id = id
  nodup : ∀ {side node edges}, net.listed? side node = some edges → edges.Nodup
  mem_listed : ∀ {side node edges}, net.listed? side node = some edges →
    ∀ id, id ∈ edges ↔ ∃ edge, net.edge? id = some edge ∧ edge.endpoint side = node
  contains_endpoint : ∀ {id edge}, net.edge? id = some edge →
    ∀ side, net.contains (edge.endpoint side) = true
  fits : ∀ {id edge}, net.edge? id = some edge → Fits edge.source edge.target edge.weight
  unique : ∀ {id id' edge edge'}, net.edge? id = some edge → net.edge? id' = some edge' →
    edge.source = edge'.source → edge.target = edge'.target → id = id'

variable {net net' : Net}

theorem identified_bare : net.bare.Identified ↔ net.Identified := by
  constructor
  · intro h
    refine ⟨h.places_owner, h.transitions_owner, h.edges_owner, fun {id place} hp => ?_,
      fun {id transition} ht => ?_⟩
    · have hbare := h.place_id (show net.bare.place? id = some place.bare by
        rw [place?_bare, hp]
        rfl)
      exact hbare
    · have hbare := h.transition_id (show net.bare.transition? id = some transition.bare by
        rw [transition?_bare, ht]
        rfl)
      exact hbare
  · intro h
    refine ⟨h.places_owner, h.transitions_owner, h.edges_owner, fun {id place} hp => ?_,
      fun {id transition} ht => ?_⟩
    · rw [place?_bare, Option.map_eq_some_iff] at hp
      obtain ⟨full, hfull, rfl⟩ := hp
      have hid : full.id = id := h.place_id hfull
      exact hid
    · rw [transition?_bare, Option.map_eq_some_iff] at ht
      obtain ⟨full, hfull, rfl⟩ := ht
      have hid : full.id = id := h.transition_id hfull
      exact hid

theorem Identified.of_bare (h : net.Identified) (hbare : net'.bare = net.bare) : net'.Identified :=
  identified_bare.1 (hbare ▸ identified_bare.2 h)

theorem mem_places_iff (h : net.Identified) {place : Place} :
    place ∈ net.places.toList ↔ net.place? place.id = some place := by
  rw [Arena.mem_toList_iff]
  constructor
  · rintro ⟨id, hid⟩
    rw [h.place_id hid]
    exact hid
  · exact fun hplace => ⟨_, hplace⟩

theorem mem_transitions_iff (h : net.Identified) {transition : Transition} :
    transition ∈ net.transitions.toList ↔ net.transition? transition.id = some transition := by
  rw [Arena.mem_toList_iff]
  constructor
  · rintro ⟨id, hid⟩
    rw [h.transition_id hid]
    exact hid
  · exact fun htransition => ⟨_, htransition⟩

/-- The node at an end of an edge lists it there. -/
theorem Consistent.listed (h : net.Consistent) {id : EdgeId} {edge : Edge}
    (hedge : net.edge? id = some edge) (side : Side) :
    ∃ edges, net.listed? side (edge.endpoint side) = some edges ∧ id ∈ edges := by
  obtain ⟨edges, hlisted⟩ := (contains_iff_listed? side _).1 (h.contains_endpoint hedge side)
  exact ⟨edges, hlisted, (h.mem_listed hlisted id).2 ⟨edge, hedge, rfl⟩⟩

/-- A listed edge exists and ends at the node that lists it. -/
theorem Consistent.edge_of_mem (h : net.Consistent) {side : Side} {node : Node}
    {edges : List EdgeId} (hlisted : net.listed? side node = some edges) {id : EdgeId}
    (hid : id ∈ edges) : ∃ edge, net.edge? id = some edge ∧ edge.endpoint side = node :=
  (h.mem_listed hlisted id).1 hid

theorem consistent_empty (tag : Nat) : (empty tag).Consistent where
  identified := ⟨rfl, rfl, rfl, by simp [place?, empty], by simp [transition?, empty]⟩
  edge_id := by simp [edge?, empty]
  nodup := by
    intro side node edges h
    cases side <;> cases node <;>
      simp [listed?, outgoing?, incoming?, place?, transition?, empty] at h
  mem_listed := by
    intro side node edges h
    cases side <;> cases node <;>
      simp [listed?, outgoing?, incoming?, place?, transition?, empty] at h
  contains_endpoint := by simp [edge?, empty]
  fits := by simp [edge?, empty]
  unique := by simp [edge?, empty]

/-- A cleared net is the empty one under its tag. -/
theorem Identified.clear_eq (h : net.Identified) : net.clear = empty net.tag := by
  simp only [clear, empty, Arena.clear, Arena.empty, h.places_owner, h.transitions_owner,
    h.edges_owner]

/-! ### Queries -/

/-- The edge found between two nodes is the one that joins them. -/
theorem findEdge?_eq_some_iff (h : net.Consistent) {source target : Node} {id : EdgeId} :
    net.findEdge? source target = some id ↔
      ∃ edge, net.edge? id = some edge ∧ edge.source = source ∧ edge.target = target := by
  constructor
  · intro hfind
    have hmem := List.mem_of_find?_eq_some hfind
    have htarget := List.find?_some hfind
    cases hlisted : net.outgoing? source with
    | none => simp [hlisted] at hmem
    | some edges =>
        rw [hlisted, Option.getD_some] at hmem
        obtain ⟨edge, hedge, hsource⟩ := h.edge_of_mem (show net.listed? .source _ = some _ from hlisted) hmem
        rw [hedge] at htarget
        exact ⟨edge, hedge, hsource, by simpa using htarget⟩
  · rintro ⟨edge, hedge, rfl, rfl⟩
    obtain ⟨edges, hlisted, hmem⟩ := h.listed hedge .source
    have hout : net.outgoing? edge.source = some edges := hlisted
    rw [findEdge?, hout, Option.getD_some]
    cases hfind : edges.find? fun id => (net.edge? id).any fun e => e.target = edge.target with
    | none =>
        have hnone := List.find?_eq_none.1 hfind id hmem
        simp [hedge] at hnone
    | some found =>
        obtain ⟨other, hother, hsource⟩ := h.edge_of_mem hlisted (List.mem_of_find?_eq_some hfind)
        have htarget := List.find?_some hfind
        rw [hother] at htarget
        rw [h.unique hother hedge hsource (by simpa using htarget)]

theorem findEdge?_eq_none_iff (h : net.Consistent) {source target : Node} :
    net.findEdge? source target = none ↔
      ∀ id edge, net.edge? id = some edge → edge.source = source → edge.target ≠ target := by
  rw [Option.eq_none_iff_forall_ne_some]
  constructor
  · intro hnone id edge hedge hsource htarget
    exact hnone id ((findEdge?_eq_some_iff h).2 ⟨edge, hedge, hsource, htarget⟩)
  · intro hall id hfind
    obtain ⟨edge, hedge, hsource, htarget⟩ := (findEdge?_eq_some_iff h).1 hfind
    exact hall id edge hedge hsource htarget

/-! ### The check -/

theorem Consistent.linked (h : net.Consistent) : net.Linked where
  place_id := fun _ _ => h.identified.place_id
  transition_id := fun _ _ => h.identified.transition_id
  edge_id := fun _ _ => h.edge_id
  listed_once := fun _ _ hedge side =>
    have ⟨edges, hlisted, hmem⟩ := h.listed hedge side
    ⟨edges, hlisted, List.count_eq_one_of_mem (h.nodup hlisted) hmem⟩
  edge_of_mem := fun _ _ _ hlisted _ => h.edge_of_mem hlisted

/-- Nothing is out of place in a consistent net. -/
theorem Consistent.check (h : net.Consistent) : net.check = .ok () := check_eq_ok_iff.2 h.linked

end Net
end PetriCcs
