import PetriCcs.Net.Consistency
import PetriCcs.Proofs.Links

/-! # What the check of a net looks at

`Net.Linked` says of the nodes and edges of a net, whatever they are, that each is stored under its own
handle, that both ends of an edge list it once, and that nodes list nothing else.  The check finds
nothing exactly in such nets (`check_eq_ok_iff`). -/

namespace PetriCcs

theorem bind_eq_ok_iff {α ε : Type} {x : Except ε Unit} {f : Unit → Except ε α} {a : α} :
    (x >>= f) = .ok a ↔ x = .ok () ∧ f () = .ok a := by
  cases x with
  | error error => exact ⟨fun h => (nomatch h), fun h => (nomatch h.1)⟩
  | ok => exact ⟨fun h => ⟨rfl, h⟩, And.right⟩

/-- A pass over a list refuses nothing exactly when it refuses no item. -/
theorem forM_eq_ok_iff {α ε : Type} {f : α → Except ε Unit} {items : List α} :
    items.forM f = .ok () ↔ ∀ item ∈ items, f item = .ok () := by
  induction items with
  | nil => exact iff_of_true rfl fun _ hitem => nomatch hitem
  | cons item items ih =>
      have hstep : (item :: items).forM f = (f item >>= fun _ => items.forM f) := rfl
      rw [hstep, bind_eq_ok_iff, ih, List.forall_mem_cons]

theorem ite_eq_ok_iff {ε : Type} {c : Prop} [Decidable c] {error : ε} :
    (if c then .ok () else .error error : Except ε Unit) = .ok () ↔ c := by
  by_cases hc : c <;> simp [hc]

namespace Net

variable {net : Net}

/-- Nodes and edges are stored under their own handles, both ends of an edge list it once, and a node
lists only edges that end there. -/
structure Linked (net : Net) : Prop where
  place_id : ∀ id place, net.place? id = some place → place.id = id
  transition_id : ∀ id transition, net.transition? id = some transition → transition.id = id
  edge_id : ∀ id edge, net.edge? id = some edge → edge.id = id
  listed_once : ∀ id edge, net.edge? id = some edge → ∀ side, ∃ edges,
    net.listed? side (edge.endpoint side) = some edges ∧ edges.count id = 1
  edge_of_mem : ∀ side node edges, net.listed? side node = some edges → ∀ id ∈ edges,
    ∃ edge, net.edge? id = some edge ∧ edge.endpoint side = node

/-- An edge is listed once at its own end and nowhere else. -/
theorem Linked.count_listed (h : net.Linked) {id : EdgeId} {edge : Edge}
    (hedge : net.edge? id = some edge) {side : Side} {node : Node} {edges : List EdgeId}
    (hlisted : net.listed? side node = some edges) :
    edges.count id = if node = edge.endpoint side then 1 else 0 := by
  split_ifs with hnode
  · obtain ⟨edges', hlisted', hcount⟩ := h.listed_once id edge hedge side
    rw [← hnode, hlisted] at hlisted'
    rwa [Option.some.inj hlisted']
  · refine List.count_eq_zero_of_not_mem fun hmem => hnode ?_
    obtain ⟨edge', hedge', hend⟩ := h.edge_of_mem side node edges hlisted id hmem
    rw [hedge] at hedge'
    rw [Option.some.inj hedge', hend]

theorem mem_nodes_iff {node : Node} : node ∈ net.nodes ↔ net.contains node = true := by
  cases node <;> simp [nodes, contains, Arena.mem_handles_iff]

theorem listedOnce_iff {edges : Option (List EdgeId)} {id : EdgeId} :
    listedOnce edges id = true ↔ ∃ listed, edges = some listed ∧ listed.count id = 1 := by
  cases edges <;> simp [listedOnce]

theorem checkEdge_eq_ok_iff {id : EdgeId} {edge : Edge} : net.checkEdge (id, edge) = .ok () ↔
    edge.id = id ∧ ∀ side, ∃ edges,
      net.listed? side (edge.endpoint side) = some edges ∧ edges.count id = 1 := by
  have hsides : (∀ side, ∃ edges, net.listed? side (edge.endpoint side) = some edges ∧
      edges.count id = 1) ↔ (listedOnce (net.outgoing? edge.source) id &&
        listedOnce (net.incoming? edge.target) id) = true := by
    rw [Bool.and_eq_true, listedOnce_iff, listedOnce_iff]
    exact ⟨fun h => ⟨h .source, h .target⟩, fun h side => by cases side; exacts [h.1, h.2]⟩
  rw [hsides, checkEdge]
  by_cases hid : edge.id = id
  · rw [if_neg (not_not_intro hid), ite_eq_ok_iff]
    exact ⟨fun h => ⟨hid, h⟩, And.right⟩
  · rw [if_pos hid]
    exact ⟨fun h => (nomatch h), fun h => absurd h.1 hid⟩

/-- The links of a node are in order when each listed edge ends there. -/
theorem checkLinks_eq_ok_iff {node : Node} : net.checkLinks node = .ok () ↔
    ∀ side, ∀ id ∈ (net.listed? side node).getD [],
      ∃ edge, net.edge? id = some edge ∧ edge.endpoint side = node := by
  rw [checkLinks, bind_eq_ok_iff, forM_eq_ok_iff, forM_eq_ok_iff]
  simp only [ite_eq_ok_iff, Option.any_eq_true, decide_eq_true_iff]
  exact ⟨fun h side => by cases side; exacts [h.1, h.2], fun h => ⟨h .source, h .target⟩⟩

/-- The check finds nothing in a net exactly when its nodes and edges are linked. -/
theorem check_eq_ok_iff : net.check = .ok () ↔ net.Linked := by
  rw [check, bind_eq_ok_iff, bind_eq_ok_iff, bind_eq_ok_iff]
  simp only [forM_eq_ok_iff, Prod.forall, Arena.mem_entries_iff, checkPlace, checkTransition,
    ite_eq_ok_iff, checkEdge_eq_ok_iff, checkLinks_eq_ok_iff, mem_nodes_iff]
  constructor
  · rintro ⟨hplaces, htransitions, hedges, hlinks⟩
    refine ⟨hplaces, htransitions, fun id edge hedge => (hedges id edge hedge).1,
      fun id edge hedge => (hedges id edge hedge).2, fun side node edges hlisted id hid => ?_⟩
    refine hlinks node ((contains_iff_listed? side node).2 ⟨edges, hlisted⟩) side id ?_
    rwa [hlisted, Option.getD_some]
  · intro h
    refine ⟨h.place_id, h.transition_id,
      fun id edge hedge => ⟨h.edge_id id edge hedge, h.listed_once id edge hedge⟩,
      fun node _ side id hid => ?_⟩
    cases hlisted : net.listed? side node with
    | none => simp [hlisted] at hid
    | some edges =>
        rw [hlisted, Option.getD_some] at hid
        exact h.edge_of_mem side node edges hlisted id hid

end Net
end PetriCcs
