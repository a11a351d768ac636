import PetriCcs.Proofs.SynchroniseClasses

/-! # The workflow test by counting

A net as a graph of numbers has its places first and its transitions after them (`Net.vertex`), so
that a search through it can be any that works on numbered graphs.  `FlowGraph.IsSearch` asks of a
search that it visits what the start reaches and nothing twice; then as many vertices are visited as
there are exactly when all nodes are reached (`length_visits_eq_iff`).  The workflow test looks for
vertices that are not met, which is the comparison of these counts with any such search, and both
decide the workflow property (`reachable_workflow`).  One such search is the one in breadth
(`FlowGraph.inBreadth`). -/

namespace PetriCcs

/-- A directed graph on the numbers below its order. -/
structure FlowGraph where
  order : ℕ
  arcs : List (ℕ × ℕ)

namespace FlowGraph

variable {graph : FlowGraph} {start i j : ℕ}

/-- The graph with all arcs turned round. -/
def reversed (graph : FlowGraph) : FlowGraph :=
  { graph with arcs := graph.arcs.map Prod.swap }

/-- An arc leads from one vertex to the other. -/
def Step (graph : FlowGraph) (i j : ℕ) : Prop := (i, j) ∈ graph.arcs

/-- The arcs join vertices of the graph. -/
def InRange (graph : FlowGraph) : Prop := ∀ i j, graph.Step i j → i < graph.order ∧ j < graph.order

theorem step_reversed_iff : graph.reversed.Step i j ↔ graph.Step j i := by
  simp [Step, reversed]

theorem InRange.reversed (h : graph.InRange) : graph.reversed.InRange :=
  fun i j hstep => (h j i (step_reversed_iff.1 hstep)).symm

/-- A search visits every vertex that its start reaches exactly once, and no other. -/
def IsSearch (search : FlowGraph → ℕ → List ℕ) : Prop :=
  ∀ graph start, graph.InRange → start < graph.order →
    (search graph start).Nodup ∧
      ∀ v, v ∈ search graph start ↔ Relation.ReflTransGen graph.Step start v

/-! ### Search in breadth -/

section rounds

variable {α : Type} [DecidableEq α]

/-- The vertices met from `pending`, first come first served, one vertex a round. -/
def visitRounds (next : α → List α) :
    (rounds : ℕ) → (remaining pending : List α) → List α
  | 0, _, _ => []
  | rounds + 1, remaining, pending =>
    match pending.find? remaining.contains with
    | none => []
    | some vertex =>
      vertex :: visitRounds next rounds (remaining.erase vertex) (pending ++ next vertex)

variable {next : α → List α} {rounds : ℕ} {remaining pending : List α}

theorem nodup_visitRounds (hnodup : remaining.Nodup) :
    (visitRounds next rounds remaining pending).Nodup ∧
      ∀ v ∈ visitRounds next rounds remaining pending, v ∈ remaining := by
  induction rounds generalizing remaining pending with
  | zero => exact ⟨List.nodup_nil, fun v hv => absurd hv List.not_mem_nil⟩
  | succ rounds ih =>
      rw [visitRounds]
      cases hfind : pending.find? remaining.contains with
      | none => exact ⟨List.nodup_nil, fun v hv => absurd hv List.not_mem_nil⟩
      | some x =>
          obtain ⟨hrest, hmem⟩ := @ih (remaining.erase x) (pending ++ next x) (hnodup.erase x)
          refine ⟨List.nodup_cons.2 ⟨fun hx => ?_, hrest⟩, fun v hv => ?_⟩
          · exact (hnodup.mem_erase_iff.1 (hmem x hx)).1 rfl
          · rcases List.mem_cons.1 hv with rfl | hv
            · exact (mem_of_find?_contains hfind).1
            · exact List.mem_of_mem_erase (hmem v hv)

/-- With a round for every vertex, the vertices visited are those that can be met. -/
theorem mem_visitRounds_iff {v : α} (hnodup : remaining.Nodup)
    (hrounds : remaining.length ≤ rounds) :
    v ∈ visitRounds next rounds remaining pending ↔ Met next remaining pending v := by
  induction rounds generalizing remaining pending with
  | zero =>
      rw [List.length_eq_zero_iff.1 (Nat.le_zero.1 hrounds)]
      refine ⟨fun hv => absurd hv List.not_mem_nil, fun h => ?_⟩
      obtain ⟨u, -, hu⟩ := h.exists_pending
      exact absurd hu List.not_mem_nil
  | succ rounds ih =>
      rw [visitRounds]
      cases hfind : pending.find? remaining.contains with
      | none => exact iff_of_false List.not_mem_nil (not_met_of_find?_eq_none hfind)
      | some x =>
          obtain ⟨hin, hpending⟩ := mem_of_find?_contains hfind
          have hlength : (remaining.erase x).length ≤ rounds := by
            rw [List.length_erase_of_mem hin]
            omega
          show v ∈ x :: visitRounds next rounds (remaining.erase x) (pending ++ next x) ↔ _
          rw [List.mem_cons, ih (hnodup.erase x) hlength, met_comm]
          by_cases hv : v = x
          · simp [hv, Met.pending hin hpending]
          · rw [met_erase_iff hin hpending hv]
            simp [hv]

end rounds

/-- The vertices to which the arcs that leave a vertex lead. -/
def next (graph : FlowGraph) (i : ℕ) : List ℕ :=
  graph.arcs.filterMap fun arc => if arc.1 = i then some arc.2 else none

/-- The search in breadth. -/
def inBreadth (graph : FlowGraph) (start : ℕ) : List ℕ :=
  visitRounds graph.next graph.order (List.range graph.order) [start]

theorem mem_next_iff : j ∈ graph.next i ↔ graph.Step i j := by
  simp [next, Step]

theorem isSearch_inBreadth : IsSearch inBreadth := by
  intro graph start hrange hstart
  refine ⟨(nodup_visitRounds List.nodup_range).1, fun v => ?_⟩
  rw [inBreadth, mem_visitRounds_iff List.nodup_range (by simp), met_singleton_iff _
    (List.mem_range.2 hstart)]
  · simp only [mem_next_iff]
  · exact fun u _ v hv => List.mem_range.2 (hrange u v (mem_next_iff.1 hv)).2

/-! ### Counting -/

/-- Different numbers below a bound are as many as the bound when they are all of them. -/
theorem length_eq_iff_forall_mem {visited : List ℕ} {n : ℕ} (hnodup : visited.Nodup)
    (hlt : ∀ v ∈ visited, v < n) : visited.length = n ↔ ∀ v < n, v ∈ visited := by
  have hsub : visited.toFinset ⊆ Finset.range n := fun v hv =>
    Finset.mem_range.2 (hlt v (List.mem_toFinset.1 hv))
  have hcard : visited.toFinset.card = visited.length := List.toFinset_card_of_nodup hnodup
  constructor
  · intro hlength v hv
    have heq : visited.toFinset = Finset.range n :=
      Finset.eq_of_subset_of_card_le hsub (by rw [Finset.card_range, hcard, hlength])
    rw [← List.mem_toFinset, heq]
    exact Finset.mem_range.2 hv
  · intro hall
    have heq : visited.toFinset = Finset.range n := Finset.Subset.antisymm hsub fun v hv =>
      List.mem_toFinset.2 (hall v (Finset.mem_range.1 hv))
    rw [← hcard, heq, Finset.card_range]

theorem InRange.lt_of_reaches (h : graph.InRange) (hstart : start < graph.order)
    (hreach : Relation.ReflTransGen graph.Step start i) : i < graph.order := by
  induction hreach with
  | refl => exact hstart
  | tail _ hstep _ => exact (h _ _ hstep).2

/-- A search visits as many vertices as there are exactly when its start reaches all of them. -/
theorem IsSearch.length_eq_iff {search : FlowGraph → ℕ → List ℕ} (hsearch : IsSearch search)
    (h : graph.InRange) (hstart : start < graph.order) :
    (search graph start).length = graph.order ↔
      ∀ v < graph.order, Relation.ReflTransGen graph.Step start v := by
  obtain ⟨hnodup, hmem⟩ := hsearch graph start h hstart
  rw [length_eq_iff_forall_mem hnodup fun v hv => h.lt_of_reaches hstart ((hmem v).1 hv)]
  simp only [hmem]

end FlowGraph

namespace Net

variable {net : Net} {n : ℕ} {u v : Node}

/-! ### The graph of a net -/

/-- The number of a node: places first, then transitions. -/
def vertex (net : Net) : Node → ℕ
  | .place id => id.index
  | .transition id => net.places.size + id.index

/-- The nodes of a net by number. -/
def flowGraph (net : Net) : FlowGraph where
  order := net.places.size + net.transitions.size
  arcs := net.edges.toList.map fun edge => (net.vertex edge.source, net.vertex edge.target)

/-- One source, one sink, and a search visits as many vertices as there are, from the source along
the arcs and from the sink against them. -/
def countsAsWorkflow (search : FlowGraph → ℕ → List ℕ) (net : Net) : Bool :=
  match net.onlyPlace? (·.incoming.isEmpty), net.onlyPlace? (·.outgoing.isEmpty) with
  | some source, some sink =>
    (search net.flowGraph (net.vertex (.place source))).length == net.flowGraph.order
      && (search net.flowGraph.reversed (net.vertex (.place sink))).length == net.flowGraph.order
  | _, _ => false

theorem vertex_lt (hnode : net.contains u = true) : net.vertex u < net.flowGraph.order := by
  cases u with
  | place id =>
      have hlt := (Arena.contains_iff.1 hnode).2
      exact Nat.lt_of_lt_of_le hlt (Nat.le_add_right _ _)
  | transition id =>
      have hlt := (Arena.contains_iff.1 hnode).2
      exact Nat.add_lt_add_left hlt _

/-- Nodes of a net with one number are one node. -/
theorem vertex_inj (h : net.Identified) (hu : net.contains u = true) (hv : net.contains v = true)
    (heq : net.vertex u = net.vertex v) : u = v := by
  have howner := (h.owner_of_contains hu).trans (h.owner_of_contains hv).symm
  cases u with
  | place p =>
      have hp := (Arena.contains_iff.1 hu).2
      cases v with
      | place q => exact congrArg Node.place (Handle.ext howner heq)
      | transition s =>
          simp only [vertex] at heq
          omega
  | transition t =>
      cases v with
      | place q =>
          have hq := (Arena.contains_iff.1 hv).2
          simp only [vertex] at heq
          omega
      | transition s =>
          exact congrArg Node.transition (Handle.ext howner (Nat.add_left_cancel heq))

/-- Every number below the order is the number of a node. -/
theorem exists_vertex {i : ℕ} (hi : i < net.flowGraph.order) :
    ∃ node, net.contains node = true ∧ net.vertex node = i := by
  by_cases hplace : i < net.places.size
  · exact ⟨.place (net.places.handleAt i), Arena.contains_iff.2 ⟨rfl, hplace⟩, rfl⟩
  · have hlt : i < net.places.size + net.transitions.size := hi
    refine ⟨.transition (net.transitions.handleAt (i - net.places.size)),
      Arena.contains_iff.2 ⟨rfl, ?_⟩, ?_⟩
    · show i - net.places.size < net.transitions.size
      omega
    · show net.places.size + (i - net.places.size) = i
      omega

theorem step_flowGraph_iff {i j : ℕ} : net.flowGraph.Step i j ↔
    ∃ u v, net.Flows u v ∧ net.vertex u = i ∧ net.vertex v = j := by
  simp only [FlowGraph.Step, flowGraph, List.mem_map, flows_iff, Prod.mk.injEq]
  constructor
  · rintro ⟨edge, hedge, rfl, rfl⟩
    exact ⟨edge.source, edge.target, ⟨edge, hedge, rfl, rfl⟩, rfl, rfl⟩
  · rintro ⟨u, v, ⟨edge, hedge, rfl, rfl⟩, rfl, rfl⟩
    exact ⟨edge, hedge, rfl, rfl⟩

theorem Consistent.inRange_flowGraph (h : net.Consistent) : net.flowGraph.InRange := by
  intro i j hstep
  obtain ⟨u, v, hflows, rfl, rfl⟩ := step_flowGraph_iff.1 hstep
  exact ⟨vertex_lt (hflows.contains_source h), vertex_lt (hflows.contains_target h)⟩

/-- Paths between numbers are paths between the nodes. -/
theorem reaches_vertex_iff (h : net.Identified) {graph : FlowGraph} {R : Node → Node → Prop}
    (hstep : ∀ i j, graph.Step i j ↔ ∃ u v, R u v ∧ net.vertex u = i ∧ net.vertex v = j)
    (hcontains : ∀ u v, R u v → net.contains u = true ∧ net.contains v = true)
    (hu : net.contains u = true) (hv : net.contains v = true) :
    Relation.ReflTransGen graph.Step (net.vertex u) (net.vertex v) ↔
      Relation.ReflTransGen R u v := by
  constructor
  · intro hreach
    -- every vertex on the path is the number of a node that the relation reaches
    have hall : ∀ i, Relation.ReflTransGen graph.Step (net.vertex u) i →
        ∃ w, net.contains w = true ∧ net.vertex w = i ∧ Relation.ReflTransGen R u w := by
      intro i hi
      induction hi with
      | refl => exact ⟨u, hu, rfl, Relation.ReflTransGen.refl⟩
      | tail _ hlast ih =>
          obtain ⟨w, hw, rfl, hpath⟩ := ih
          obtain ⟨a, b, hab, ha, rfl⟩ := (hstep _ _).1 hlast
          obtain ⟨hacontains, hbcontains⟩ := hcontains a b hab
          obtain rfl := vertex_inj h hacontains hw ha
          exact ⟨b, hbcontains, rfl, hpath.tail hab⟩
    obtain ⟨w, hw, heq, hpath⟩ := hall _ hreach
    rwa [← vertex_inj h hw hv heq]
  · intro hpath
    exact Relation.ReflTransGen.lift net.vertex
      (fun a b hab => (hstep _ _).2 ⟨a, b, hab, rfl, rfl⟩) _ _ hpath

/-- A search through the numbers visits all of them exactly when its start reaches all nodes. -/
theorem length_visits_eq_iff (h : net.Consistent) {search : FlowGraph → ℕ → List ℕ}
    (hsearch : FlowGraph.IsSearch search) (hu : net.contains u = true) :
    ((search net.flowGraph (net.vertex u)).length = net.flowGraph.order ↔
        ∀ node, net.contains node = true → net.Leads u node) ∧
      ((search net.flowGraph.reversed (net.vertex u)).length = net.flowGraph.order ↔
        ∀ node, net.contains node = true → net.Leads node u) := by
  have hall : ∀ {graph : FlowGraph} {R : Node → Node → Prop}, graph.order = net.flowGraph.order →
      graph.InRange →
      (∀ i j, graph.Step i j ↔ ∃ u v, R u v ∧ net.vertex u = i ∧ net.vertex v = j) →
      (∀ u v, R u v → net.contains u = true ∧ net.contains v = true) →
      ((search graph (net.vertex u)).length = net.flowGraph.order ↔
        ∀ node, net.contains node = true → Relation.ReflTransGen R u node) := by
    intro graph R horder hrange hstep hcontains
    rw [← horder, hsearch.length_eq_iff hrange (horder ▸ vertex_lt hu)]
    constructor
    · intro hreach node hnode
      exact (reaches_vertex_iff h.identified hstep hcontains hu hnode).1
        (hreach _ (horder ▸ vertex_lt hnode))
    · intro hreach i hi
      obtain ⟨node, hnode, rfl⟩ := exists_vertex (horder ▸ hi)
      exact (reaches_vertex_iff h.identified hstep hcontains hu hnode).2 (hreach node hnode)
  constructor
  · exact hall rfl h.inRange_flowGraph (fun i j => step_flowGraph_iff)
      fun u v hflows => ⟨hflows.contains_source h, hflows.contains_target h⟩
  · have hback := @hall net.flowGraph.reversed (Function.swap net.Flows) rfl
      h.inRange_flowGraph.reversed (fun i j => ?_)
      fun u v hflows => ⟨Flows.contains_target h hflows, Flows.contains_source h hflows⟩
    · rw [hback]
      exact forall₂_congr fun node _ => Relation.reflTransGen_swap
    · rw [FlowGraph.step_reversed_iff, step_flowGraph_iff]
      constructor
      · rintro ⟨u, v, hflows, rfl, rfl⟩
        exact ⟨v, u, hflows, rfl, rfl⟩
      · rintro ⟨u, v, hflows, rfl, rfl⟩
        exact ⟨v, u, hflows, rfl, rfl⟩

/-- Looking for vertices that are not met comes to the same as counting those that are visited. -/
theorem Consistent.countsAsWorkflow_eq (h : net.Consistent) {search : FlowGraph → ℕ → List ℕ}
    (hsearch : FlowGraph.IsSearch search) : net.countsAsWorkflow search = net.isWorkflow := by
  have hcontains : ∀ {side : Side} {p : PlaceId},
      net.onlyPlace? (fun place => (place.listed side).isEmpty) = some p →
        net.contains (.place p) = true :=
    fun {side} {p} honly => (((h.onlyPlace?_listed side).1 honly p).2 rfl).1
  rw [countsAsWorkflow, isWorkflow]
  cases hsource : net.onlyPlace? (·.incoming.isEmpty) with
  | none => rfl
  | some source =>
      cases hsink : net.onlyPlace? (·.outgoing.isEmpty) with
      | none => rfl
      | some sink =>
          have hfirst : net.contains (.place source) = true := @hcontains .target source hsource
          have hlast : net.contains (.place sink) = true := @hcontains .source sink hsink
          refine Bool.eq_iff_iff.2 ?_
          simp only [Bool.and_eq_true, beq_iff_eq]
          rw [(length_visits_eq_iff h hsearch hfirst).1, (length_visits_eq_iff h hsearch hlast).2,
            h.isEmpty_unreached_successors hfirst, h.isEmpty_unreached_predecessors hlast]

/-- The workflow test holds exactly when one place has no incoming arc, one has no outgoing arc, the
first leads to every node and every node leads to the second.  Counting what a search visits is the
same test, whatever the search. -/
theorem reachable_workflow (h : net.Reachable n) :
    (net.isWorkflow = true ↔ ∃ source sink,
      (∀ p, (net.contains (.place p) = true ∧ ∀ u, ¬ net.Flows u (.place p)) ↔ p = source) ∧
      (∀ p, (net.contains (.place p) = true ∧ ∀ v, ¬ net.Flows (.place p) v) ↔ p = sink) ∧
      ∀ node, net.contains node = true →
        net.Leads (.place source) node ∧ net.Leads node (.place sink)) ∧
    ∀ search, FlowGraph.IsSearch search → net.countsAsWorkflow search = net.isWorkflow := by
  refine ⟨?_, fun search hsearch => h.consistent.countsAsWorkflow_eq hsearch⟩
  rw [h.consistent.isWorkflow_iff, WorkflowNet]
  simp only [isBorder_target_iff, isBorder_source_iff]

/-- A workflow with a loop: the third transition leads from the third place back to the second. -/
def looping : Net :=
  [Change.addPlace none 1, .addPlace none 0, .addPlace none 0, .addPlace none 0,
    .addLabelledTransition none .tau, .addLabelledTransition none (.visible "a"),
    .addLabelledTransition none .tau, .addLabelledTransition none (.visible "b"),
    .addEdge (.place ⟨0, 0⟩) (.transition ⟨0, 0⟩) 1,
    .addEdge (.transition ⟨0, 0⟩) (.place ⟨0, 1⟩) 1,
    .addEdge (.place ⟨0, 1⟩) (.transition ⟨0, 1⟩) 1,
    .addEdge (.transition ⟨0, 1⟩) (.place ⟨0, 2⟩) 1,
    .addEdge (.place ⟨0, 2⟩) (.transition ⟨0, 2⟩) 1,
    .addEdge (.transition ⟨0, 2⟩) (.place ⟨0, 1⟩) 1,
    .addEdge (.place ⟨0, 2⟩) (.transition ⟨0, 3⟩) 1,
    .addEdge (.transition ⟨0, 3⟩) (.place ⟨0, 3⟩) 1].foldl
      (fun net change => (change.runOn net).2) (empty 0)

theorem looping_reachable : looping.Reachable 16 :=
  Reachable.of_changes (by decide +kernel)

theorem reachable_workflow_looping : looping.Reachable 16 ∧
    FlowGraph.IsSearch FlowGraph.inBreadth ∧
    looping.countsAsWorkflow FlowGraph.inBreadth = true ∧
    ∃ sink, ∀ node, looping.contains node = true →
      looping.Leads (.place ⟨0, 0⟩) node ∧ looping.Leads node (.place sink) := by
  obtain ⟨hiff, hcount⟩ := reachable_workflow looping_reachable
  have hclass : looping.isWorkflow = true := by decide +kernel
  obtain ⟨source, sink, hsource, -, hleads⟩ := hiff.1 hclass
  have hfirst : (⟨0, 0⟩ : PlaceId) = source := by
    refine (hsource ⟨0, 0⟩).1 ⟨by decide +kernel, fun u hflows => ?_⟩
    obtain ⟨edge, hedge, -, htarget⟩ := flows_iff.1 hflows
    have hnone : ∀ edge ∈ looping.edges.toList, edge.target ≠ .place ⟨0, 0⟩ := by decide +kernel
    exact hnone edge hedge htarget
  subst hfirst
  exact ⟨looping_reachable, FlowGraph.isSearch_inBreadth,
    (hcount _ FlowGraph.isSearch_inBreadth).trans hclass, sink, hleads⟩

end Net
end PetriCcs
