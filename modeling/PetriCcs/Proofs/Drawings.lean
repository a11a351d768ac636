import PetriCcs.Proofs.DotReading
import PetriCcs.Proofs.Rebuild

/-! # Drawings and documents

The drawing of a net numbers nodes by their positions, its document names them.  In a reachable net
names and positions tell the same nodes apart, so two reachable nets have the same drawing exactly when
they have the same document (`Net.dot_determines_document`), whatever texts their transitions are
labelled with. -/

namespace PetriCcs

/-! ### From statements to documents -/

namespace Dot

/-- The entry of a place that is drawn. -/
def Statement.placeEntry? : Statement → Option PlaceEntry
  | .place _ name tokens => some ⟨placeName name, tokens⟩
  | .transition _ _ _ => none
  | .edge _ _ _ => none

/-- The entry of a transition that is drawn. -/
def Statement.transitionEntry? : Statement → Option TransitionEntry
  | .place _ _ _ => none
  | .transition _ name label => some ⟨transitionName name, label⟩
  | .edge _ _ _ => none

/-- The ends and the weight of an edge that is drawn. -/
def Statement.edge? : Statement → Option (Spot × Spot × Weight)
  | .place _ _ _ => none
  | .transition _ _ _ => none
  | .edge source target weight => some (source, target, weight)

/-- The node at a position of the net tagged `tag`. -/
def Spot.node (tag : ℕ) : Spot → Node
  | .place index => .place ⟨tag, index⟩
  | .transition index => .transition ⟨tag, index⟩

theorem node_spot (tag : ℕ) (node : Node) : (spot node).node tag = node.retag tag := by
  cases node <;> rfl

theorem spot_retag (tag : ℕ) (node : Node) : spot (node.retag tag) = spot node := by
  cases node <;> rfl

@[simp] theorem Spot.owner_node (tag : ℕ) (spot : Spot) : (spot.node tag).owner = tag := by
  cases spot <;> rfl

@[simp] theorem Spot.retag_node (tag tag' : ℕ) (spot : Spot) :
    (spot.node tag).retag tag' = spot.node tag' := by
  cases spot <;> rfl

end Dot

namespace Document

open Dot

variable {net net' : Net}

theorem places_eq (net : Net) :
    (ofNet net).places = net.statements.filterMap Statement.placeEntry? := by
  rw [ofNet, ← net.places.map_snd_entries]
  simp [Net.statements, Statement.placeEntry?, Place.displayName, Function.comp_def]

theorem transitions_eq (net : Net) :
    (ofNet net).transitions = net.statements.filterMap Statement.transitionEntry? := by
  rw [ofNet, ← net.transitions.map_snd_entries]
  simp [Net.statements, Statement.transitionEntry?, Transition.displayName, Function.comp_def]

/-- The arcs of a document name the nodes at the positions that the drawing shows. -/
theorem arcs_eq (h : net.Consistent) : (ofNet net).arcs =
    (net.statements.filterMap Statement.edge?).map fun (source, target, weight) =>
      ⟨reference net (source.node net.tag), reference net (target.node net.tag), weight⟩ := by
  have hedges : net.statements.filterMap Statement.edge? = net.edges.toList.map fun edge =>
      (spot edge.source, spot edge.target, edge.weight) := by
    simp [Net.statements, Statement.edge?, Function.comp_def]
  rw [hedges, List.map_map, ofNet]
  refine List.map_congr_left fun edge hedge => ?_
  obtain ⟨id, hid⟩ := Arena.mem_toList_iff.1 hedge
  have hsource : edge.source.retag net.tag = edge.source :=
    Node.retag_of_owner (h.owner_endpoint hid .source)
  have htarget : edge.target.retag net.tag = edge.target :=
    Node.retag_of_owner (h.owner_endpoint hid .target)
  simp only [Function.comp_apply, node_spot, hsource, htarget]

/-- The same position has the same name in both nets. -/
theorem reference_spot (h : net.Consistent) (h' : net'.Consistent) (hnames : Net.SameNames net net')
    (spot : Spot) : reference net' (spot.node net'.tag) = reference net (spot.node net.tag) := by
  have hshown := hnames.shown?_retag h.identified h'.identified (spot.owner_node net.tag)
  rw [spot.retag_node] at hshown
  rw [reference_eq, reference_eq, hshown]

/-- Nets with the same drawing have the same document. -/
theorem ofNet_eq_of_statements (h : net.Consistent) (h' : net'.Consistent)
    (hstatements : net'.statements = net.statements) : ofNet net' = ofNet net := by
  have hplaces : (ofNet net').places = (ofNet net).places := by
    rw [places_eq, places_eq, hstatements]
  have htransitions : (ofNet net').transitions = (ofNet net).transitions := by
    rw [transitions_eq, transitions_eq, hstatements]
  have hreference := reference_spot h h' (sameNames_of_ofNet hplaces htransitions)
  have harcs : (ofNet net').arcs = (ofNet net).arcs := by
    rw [arcs_eq h, arcs_eq h', hstatements]
    simp only [hreference]
  exact Document.mk.injEq .. ▸ ⟨hplaces, htransitions, harcs⟩

/-! ### From documents to statements -/

theorem transitionTexts_of_ofNet (htransitions : (ofNet net').transitions = (ofNet net).transitions) :
    net'.transitions.toList.map (fun transition => (transition.name, transition.label.text)) =
      net.transitions.toList.map fun transition => (transition.name, transition.label.text) := by
  have hinjective : Function.Injective fun content : NameIndex × String =>
      (⟨transitionName content.1, content.2⟩ : TransitionEntry) := by
    rintro ⟨name, label⟩ ⟨name', label'⟩ heq
    obtain ⟨hname, rfl⟩ := TransitionEntry.mk.inj heq
    exact Prod.ext (Net.displayName_injective "t" hname) rfl
  refine hinjective.list_map ?_
  rw [List.map_map, List.map_map]
  exact htransitions

/-- Nets with the same document have the same drawing: names tell where the edges end. -/
theorem statements_eq_of_ofNet (h : net.Consistent) (h' : net'.Consistent)
    (hunique : net'.UniqueNames) (hdocument : ofNet net' = ofNet net) :
    net'.statements = net.statements := by
  have hplaces := placeContents_of_ofNet (congrArg places hdocument)
  have htransitions := transitionTexts_of_ofNet (congrArg transitions hdocument)
  have hedges := edges_of_ofNet h h' hunique hdocument
  have hplace := fun net : Net => net.places.map_entries Place.content
    fun position content => Statement.place position content.1 content.2
  have htransition := fun net : Net => net.transitions.map_entries
    (fun transition => (transition.name, transition.label.text))
    fun position content => Statement.transition position content.1 content.2
  have hplacesDrawn := hplace net'
  rw [hplaces, ← hplace net] at hplacesDrawn
  have htransitionsDrawn := htransition net'
  rw [htransitions, ← htransition net] at htransitionsDrawn
  have hedgesDrawn : (net'.edges.toList.map fun edge =>
      Statement.edge (spot edge.source) (spot edge.target) edge.weight) =
        net.edges.toList.map fun edge =>
          .edge (spot edge.source) (spot edge.target) edge.weight := by
    simp only [hedges, List.map_map, Function.comp_def, Edge.retag, spot_retag]
  exact congrArg₂ (· ++ ·) (congrArg₂ (· ++ ·) hplacesDrawn htransitionsDrawn) hedgesDrawn

end Document

namespace Net

variable {net net' : Net} {n n' : ℕ}

/-- The drawings of two reachable nets are the same text exactly when their documents are the same; it
is enough that the names of one of them are tracked.  A drawing is read as one statement for each
place, transition and edge, with the label of every transition whole in its own quotes. -/
theorem dot_determines_document (h : net.Reachable n) (hn : n < additionLimit)
    (h' : net'.Reachable n') : (net.dot = net'.dot ↔ Document.ofNet net = Document.ofNet net') ∧
      Dot.read .outside net.dot.toList =
        Dot.heading ++ net.statements.map Dot.Statement.pieces ++ [Dot.ending] := by
  have hnet := h.consistent
  have hnet' := h'.consistent
  have hunique := (h.named hn).uniqueNames hnet.identified
  refine ⟨?_, Dot.read_dot net⟩
  rw [Dot.dot_eq_iff]
  exact ⟨Document.ofNet_eq_of_statements hnet' hnet,
    Document.statements_eq_of_ofNet hnet' hnet hunique⟩

/-- A transition with a label that is not checked, between two places; it produces three tokens. -/
def labelled (label : String) : Net :=
  [Change.addPlace none 2, .addPlace (some 7) 0, .addLabelledTransition none (.visible label),
    .addEdge (.place ⟨0, 0⟩) (.transition ⟨0, 0⟩) 1,
    .addEdge (.transition ⟨0, 0⟩) (.place ⟨0, 1⟩) 3].foldl
      (fun net change => (change.runOn net).2) (empty 0)

/-- A label that holds the end of an attribute adds no statement, and a new line in it is drawn in
another way than a backslash and a letter. -/
theorem dot_determines_document_labelled : (labelled "\"];\n").Reachable 5 ∧ 5 < additionLimit ∧
    (labelled "\"];\\n").Reachable 5 ∧ (labelled "\"];\n").dot ≠ (labelled "\"];\\n").dot ∧
    (Dot.read .outside (labelled "\"];\n").dot.toList).length = 8 := by
  have hreachable : (labelled "\"];\n").Reachable 5 := Reachable.of_changes (by decide +kernel)
  have hreachable' : (labelled "\"];\\n").Reachable 5 := Reachable.of_changes (by decide +kernel)
  obtain ⟨hiff, hread⟩ := dot_determines_document hreachable (by decide) hreachable'
  have hdocument : Document.ofNet (labelled "\"];\n") ≠ Document.ofNet (labelled "\"];\\n") := by
    decide +kernel
  refine ⟨hreachable, by decide, hreachable', fun hdot => hdocument (hiff.1 hdot), ?_⟩
  rw [hread]
  rfl

end Net
end PetriCcs
