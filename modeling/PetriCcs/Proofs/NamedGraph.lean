import PetriCcs.Proofs.Reachable

/-! # The graph that a net stands for

A user of the library knows nodes by their display names: handles are reused when something is
removed, names are not.  `NamedGraph` is a net without handles: tokens and labels by name, the weight
between two names, and the neighbours of every node in the order of its links.  `Net.graph` reads it
off a net by lookups, and `Net.HasGraph` says what that means without them; a net with unique names
represents exactly one graph (`hasGraph_graph`, `HasGraph.graph_eq`). -/

namespace PetriCcs

/-- The display name of a node, with the kind of the node in place of its letter. -/
inductive NodeName where
  | place (name : NameIndex)
  | transition (name : NameIndex)
  deriving DecidableEq

/-- What a node holds besides its links: its name, and its tokens or its label. -/
inductive Content where
  | place (name : NameIndex) (tokens : Weight)
  | transition (name : NameIndex) (label : Label)

namespace Content

def name : Content → NodeName
  | .place name _ => .place name
  | .transition name _ => .transition name

def tokens? : Content → Option Weight
  | .place _ tokens => some tokens
  | .transition _ _ => none

def label? : Content → Option Label
  | .place _ _ => none
  | .transition _ label => some label

theorem eq_place_iff {content : Content} {name : NameIndex} {tokens : Weight} :
    content = .place name tokens ↔ content.name = .place name ∧ content.tokens? = some tokens := by
  cases content <;> simp [Content.name, tokens?]

theorem eq_transition_iff {content : Content} {name : NameIndex} {label : Label} :
    content = .transition name label ↔
      content.name = .transition name ∧ content.label? = some label := by
  cases content <;> simp [Content.name, label?]

end Content

/-- An arc between named nodes. -/
structure NamedArc where
  source : NodeName
  target : NodeName
  weight : Weight
  deriving DecidableEq

/-- The node at one end of an arc. -/
def NamedArc.endpoint (arc : NamedArc) : Side → NodeName
  | .source => arc.source
  | .target => arc.target

/-- A net without handles. -/
@[ext]
structure NamedGraph where
  /-- The tokens of the places. -/
  tokens : NameIndex → Option Weight
  /-- The labels of the transitions. -/
  label : NameIndex → Option Label
  /-- The weight of the arc from one node to another. -/
  weight : NodeName → NodeName → Option Weight
  /-- The opposite ends of the arcs that leave a node (`.source`) or enter it (`.target`), in the
  order of its links. -/
  neighbours : Side → NodeName → List NodeName

namespace NamedGraph

variable (graph : NamedGraph)

/-- Writes the tokens of a place, new or not. -/
def setTokens (name : NameIndex) (tokens : Weight) : NamedGraph :=
  { graph with tokens := fun a => if a = name then some tokens else graph.tokens a }

/-- Writes the label of a transition, new or not. -/
def setLabel (name : NameIndex) (label : Label) : NamedGraph :=
  { graph with label := fun a => if a = name then some label else graph.label a }

/-- Adds an arc at the end of both sequences of neighbours. -/
def addArc (arc : NamedArc) : NamedGraph :=
  { graph with
    weight := fun a b =>
      if a = arc.source ∧ b = arc.target then some arc.weight else graph.weight a b
    neighbours := fun side a =>
      graph.neighbours side a ++
        if a = arc.endpoint side then [arc.endpoint side.other] else [] }

/-- Drops the arcs that fail a test of their endpoints. -/
def keepArcs (keep : NodeName → NodeName → Bool) : NamedGraph :=
  { graph with
    weight := fun a b => if keep a b then graph.weight a b else none
    neighbours := fun side a =>
      match side with
      | .source => (graph.neighbours .source a).filter fun b => keep a b
      | .target => (graph.neighbours .target a).filter fun b => keep b a }

/-- Drops the arc from one node to another. -/
def removeArc (source target : NodeName) : NamedGraph :=
  graph.keepArcs fun a b => ¬ (a = source ∧ b = target)

/-- Drops the tokens and the label under a name. -/
def dropContent (name : NodeName) : NamedGraph :=
  { graph with
    tokens := fun a => if name = .place a then none else graph.tokens a
    label := fun a => if name = .transition a then none else graph.label a }

/-- Drops a node with its arcs. -/
def removeNode (name : NodeName) : NamedGraph :=
  (graph.keepArcs fun a b => a ≠ name ∧ b ≠ name).dropContent name

/-- The sequences of the other nodes lose the removed node and keep their order. -/
theorem neighbours_removeNode (name : NodeName) (side : Side) (a : NodeName) :
    (graph.removeNode name).neighbours side a =
      if a = name then [] else (graph.neighbours side a).filter (· ≠ name) := by
  unfold removeNode dropContent keepArcs
  by_cases ha : a = name
  · cases side <;> simp [ha]
  · cases side <;> simp [ha]

/-- The sequences of nodes that are no end of the removed arc stay as they are. -/
theorem neighbours_removeArc (source target : NodeName) (side : Side) (a : NodeName) :
    (graph.removeArc source target).neighbours side a =
      match side with
      | .source => if a = source then (graph.neighbours .source a).filter (· ≠ target)
          else graph.neighbours .source a
      | .target => if a = target then (graph.neighbours .target a).filter (· ≠ source)
          else graph.neighbours .target a := by
  unfold removeArc keepArcs
  cases side with
  | source => by_cases ha : a = source <;> simp [ha]
  | target => by_cases ha : a = target <;> simp [ha]

/-- Writes what a node holds under its name. -/
def put : Content → NamedGraph
  | .place name tokens => graph.setTokens name tokens
  | .transition name label => graph.setLabel name label

@[simp] theorem weight_put (content : Content) : (graph.put content).weight = graph.weight := by
  cases content <;> rfl

@[simp] theorem neighbours_put (content : Content) :
    (graph.put content).neighbours = graph.neighbours := by
  cases content <;> rfl

end NamedGraph

namespace Net

variable {net net' : Net} {g g' : NamedGraph}

/-! ### Names of nodes and arcs -/

/-- What the node under a handle holds. -/
def content? (net : Net) : Node → Option Content
  | .place id => (net.placeContent? id).map fun content => .place content.1 content.2
  | .transition id => (net.transitionContent? id).map fun content => .transition content.1 content.2

/-- The name of the node under a handle. -/
def name? (net : Net) (node : Node) : Option NodeName := (net.content? node).map Content.name

/-- The node with a name. -/
def named? (net : Net) (name : NodeName) : Option Node :=
  net.nodes.find? fun node => net.name? node = some name

/-- An arc of the net with the names of its endpoints. -/
def nameArc? (net : Net) (arc : Arc) : Option NamedArc := do
  let source ← net.name? arc.source
  let target ← net.name? arc.target
  return ⟨source, target, arc.weight⟩

/-- What the edge under a handle joins, by name. -/
def arcName? (net : Net) (id : EdgeId) : Option NamedArc :=
  (net.edge? id).bind fun edge => net.nameArc? edge.arc

/-- The names of the opposite ends of the arcs of a node, in the order of its links. -/
def neighboursAt (net : Net) (side : Side) (node : Node) : List NodeName :=
  (net.arcs side node).filterMap fun arc => net.name? (arc.endpoint side.other)

/-- The net without its handles. -/
def graph (net : Net) : NamedGraph where
  tokens name := ((net.named? (.place name)).bind net.content?).bind Content.tokens?
  label name := ((net.named? (.transition name)).bind net.content?).bind Content.label?
  weight a b := do
    let source ← net.named? a
    let target ← net.named? b
    let id ← net.findEdge? source target
    let edge ← net.edge? id
    return edge.weight
  neighbours side name := ((net.named? name).map (net.neighboursAt side)).getD []

/-- No two nodes share a name. -/
structure UniqueNames (net : Net) : Prop where
  eq : ∀ {n m a}, net.name? n = some a → net.name? m = some a → n = m

theorem name?_eq_some_iff {node : Node} {a : NodeName} :
    net.name? node = some a ↔ ∃ content, net.content? node = some content ∧ content.name = a := by
  rw [name?, Option.map_eq_some_iff]

theorem name?_place_iff {id : PlaceId} {a : NodeName} :
    net.name? (.place id) = some a ↔ ∃ place, net.place? id = some place ∧ a = .place place.name := by
  rw [name?, content?, placeContent?]
  cases net.place? id with
  | none => simp
  | some place => simp [Content.name, Place.content, eq_comm]

theorem name?_transition_iff {id : TransitionId} {a : NodeName} :
    net.name? (.transition id) = some a ↔
      ∃ transition, net.transition? id = some transition ∧ a = .transition transition.name := by
  rw [name?, content?, transitionContent?]
  cases net.transition? id with
  | none => simp
  | some transition => simp [Content.name, Transition.content, eq_comm]

theorem contains_iff_content? {node : Node} :
    net.contains node = true ↔ ∃ content, net.content? node = some content := by
  cases node with
  | place id =>
      rw [contains, Arena.contains_iff_get?, content?, placeContent?, place?]
      cases net.places.get? id <;> simp
  | transition id =>
      rw [contains, Arena.contains_iff_get?, content?, transitionContent?, transition?]
      cases net.transitions.get? id <;> simp

theorem contains_iff_name? {node : Node} :
    net.contains node = true ↔ ∃ a, net.name? node = some a := by
  rw [contains_iff_content?, name?]
  cases net.content? node <;> simp

theorem content?_of_bare (h : net'.bare = net.bare) (node : Node) :
    net'.content? node = net.content? node := by
  cases node with
  | place id => rw [content?, content?, placeContent?_of_bare h]
  | transition id => rw [content?, content?, transitionContent?_of_bare h]

theorem nameArc?_eq_some_iff {arc : Arc} {named : NamedArc} :
    net.nameArc? arc = some named ↔ net.name? arc.source = some named.source ∧
      net.name? arc.target = some named.target ∧ arc.weight = named.weight := by
  obtain ⟨a, b, weight⟩ := named
  rw [nameArc?]
  cases net.name? arc.source with
  | none => simp
  | some source =>
      cases net.name? arc.target with
      | none => simp
      | some target => simp

/-- The name of an arc depends on the names of its endpoints only. -/
theorem nameArc?_congr {arc arc' : Arc} (hsource : net'.name? arc'.source = net.name? arc.source)
    (htarget : net'.name? arc'.target = net.name? arc.target) (hweight : arc'.weight = arc.weight) :
    net'.nameArc? arc' = net.nameArc? arc := by
  rw [nameArc?, nameArc?, hsource, htarget, hweight]

/-- The arcs of a consistent net have names. -/
theorem HasArc.exists_name (h : net.Consistent) {arc : Arc} (harc : net.HasArc arc) (side : Side) :
    ∃ a, net.name? (arc.endpoint side) = some a :=
  contains_iff_name?.1 (harc.contains h side)

theorem arcs_eq_nil_of_name? (h : net.Consistent) {node : Node} (hnode : net.name? node = none)
    (side : Side) : net.arcs side node = [] := by
  refine List.eq_nil_iff_forall_not_mem.2 fun arc harc => ?_
  obtain ⟨hhas, hend⟩ := h.mem_arcs_iff.1 harc
  obtain ⟨a, ha⟩ := hhas.exists_name h side
  rw [hend, hnode] at ha
  cases ha

/-! ### Unique names -/

theorem UniqueNames.named?_eq_some_iff (hunique : net.UniqueNames) {node : Node} {a : NodeName} :
    net.named? a = some node ↔ net.name? node = some a := by
  constructor
  · intro hfind
    simpa using List.find?_some hfind
  · intro hnode
    cases hfind : net.named? a with
    | none =>
        have hmem := mem_nodes_iff.2 (contains_iff_name?.2 ⟨a, hnode⟩)
        have hnone := List.find?_eq_none.1 hfind node hmem
        simp [hnode] at hnone
    | some found =>
        have hfound : net.name? found = some a := by simpa using List.find?_some hfind
        rw [hunique.eq hfound hnode]

theorem UniqueNames.named?_eq_none_iff (hunique : net.UniqueNames) {a : NodeName} :
    net.named? a = none ↔ ∀ node, net.name? node ≠ some a := by
  rw [Option.eq_none_iff_forall_ne_some]
  simp only [ne_eq, hunique.named?_eq_some_iff]

/-- Distinct names in the tables tell the nodes apart. -/
theorem Named.uniqueNames {k : ℕ} (hid : net.Identified) (hnamed : net.Named k) :
    net.UniqueNames := by
  refine ⟨fun {n m a} hn hm => ?_⟩
  cases n with
  | place id =>
      obtain ⟨place, hplace, rfl⟩ := name?_place_iff.1 hn
      cases m with
      | place id' =>
          obtain ⟨place', hplace', heq⟩ := name?_place_iff.1 hm
          have hsame := List.inj_on_of_nodup_map hnamed.places.nodup
            (Arena.mem_toList_iff.2 ⟨id, hplace⟩) (Arena.mem_toList_iff.2 ⟨id', hplace'⟩)
            (NodeName.place.inj heq)
          rw [← hid.place_id hplace, ← hid.place_id hplace', hsame]
      | transition id' =>
          obtain ⟨_, -, heq⟩ := name?_transition_iff.1 hm
          cases heq
  | transition id =>
      obtain ⟨transition, htransition, rfl⟩ := name?_transition_iff.1 hn
      cases m with
      | place id' =>
          obtain ⟨_, -, heq⟩ := name?_place_iff.1 hm
          cases heq
      | transition id' =>
          obtain ⟨transition', htransition', heq⟩ := name?_transition_iff.1 hm
          have hsame := List.inj_on_of_nodup_map hnamed.transitions.nodup
            (Arena.mem_toList_iff.2 ⟨id, htransition⟩) (Arena.mem_toList_iff.2 ⟨id', htransition'⟩)
            (NodeName.transition.inj heq)
          rw [← hid.transition_id htransition, ← hid.transition_id htransition', hsame]

/-! ### Representation -/

/-- A graph holds exactly what the net holds under its names. -/
structure HasGraph (net : Net) (g : NamedGraph) : Prop where
  unique : net.UniqueNames
  tokens : ∀ a tokens, g.tokens a = some tokens ↔ ∃ n, net.content? n = some (.place a tokens)
  label : ∀ a label, g.label a = some label ↔ ∃ n, net.content? n = some (.transition a label)
  weight : ∀ a b weight, g.weight a b = some weight ↔
    ∃ arc, net.HasArc arc ∧ net.nameArc? arc = some ⟨a, b, weight⟩
  neighbours : ∀ {n a}, net.name? n = some a → ∀ side, g.neighbours side a = net.neighboursAt side n
  neighbours_unused : ∀ {a}, (∀ n, net.name? n ≠ some a) → ∀ side, g.neighbours side a = []

/-- A net represents at most one graph. -/
theorem HasGraph.unique_graph (h : net.HasGraph g) (h' : net.HasGraph g') : g = g' := by
  apply NamedGraph.ext
  · funext a
    exact Option.ext fun tokens => (h.tokens a tokens).trans (h'.tokens a tokens).symm
  · funext a
    exact Option.ext fun label => (h.label a label).trans (h'.label a label).symm
  · funext a b
    exact Option.ext fun weight => (h.weight a b weight).trans (h'.weight a b weight).symm
  · funext side a
    by_cases ha : ∃ n, net.name? n = some a
    · obtain ⟨n, hn⟩ := ha
      rw [h.neighbours hn, h'.neighbours hn]
    · have hunused : ∀ n, net.name? n ≠ some a := fun n hn => ha ⟨n, hn⟩
      rw [h.neighbours_unused hunused, h'.neighbours_unused hunused]

/-- What is read off the node with a name. -/
theorem UniqueNames.bind_named?_eq_some_iff (hunique : net.UniqueNames) {β : Type}
    {read : Content → Option β} {a : NodeName} {b : β} :
    ((net.named? a).bind net.content?).bind read = some b ↔
      ∃ n content, net.content? n = some content ∧ content.name = a ∧ read content = some b := by
  simp only [Option.bind_eq_some_iff, hunique.named?_eq_some_iff, name?_eq_some_iff]
  constructor
  · rintro ⟨content, ⟨n, ⟨content', hcontent', hname⟩, hcontent⟩, hread⟩
    rw [hcontent] at hcontent'
    cases hcontent'
    exact ⟨n, content, hcontent, hname, hread⟩
  · rintro ⟨n, content, hcontent, hname, hread⟩
    exact ⟨content, ⟨n, ⟨content, hcontent, hname⟩, hcontent⟩, hread⟩

/-- The lookups by name find what the net holds. -/
theorem hasGraph_graph (h : net.Consistent) (hunique : net.UniqueNames) :
    net.HasGraph net.graph where
  unique := hunique
  tokens a tokens := by
    refine hunique.bind_named?_eq_some_iff.trans (exists_congr fun n => ?_)
    simp only [← Content.eq_place_iff, exists_eq_right]
  label a label := by
    refine hunique.bind_named?_eq_some_iff.trans (exists_congr fun n => ?_)
    simp only [← Content.eq_transition_iff, exists_eq_right]
  weight a b weight := by
    simp only [graph, bind, pure, Option.bind_eq_some_iff, hunique.named?_eq_some_iff,
      findEdge?_eq_some_iff h, Option.some.injEq, nameArc?_eq_some_iff]
    constructor
    · rintro ⟨source, hsource, target, htarget, id, ⟨edge, hedge, rfl, rfl⟩, edge', hedge', hweight⟩
      rw [hedge] at hedge'
      cases hedge'
      exact ⟨edge.arc, ⟨id, edge, hedge, rfl⟩, hsource, htarget, hweight⟩
    · rintro ⟨_, ⟨id, edge, hedge, rfl⟩, hsource, htarget, hweight⟩
      exact ⟨_, hsource, _, htarget, id, ⟨edge, hedge, rfl, rfl⟩, edge, hedge, hweight⟩
  neighbours hn side := by
    simp only [graph, hunique.named?_eq_some_iff.2 hn, Option.map_some, Option.getD_some]
  neighbours_unused ha side := by
    simp only [graph, hunique.named?_eq_none_iff.2 ha, Option.map_none, Option.getD_none]

/-- The graph that a net represents is the one read off it. -/
theorem HasGraph.graph_eq (h : net.Consistent) (hg : net.HasGraph g) : net.graph = g :=
  (hasGraph_graph h hg.unique).unique_graph hg

end Net
end PetriCcs
