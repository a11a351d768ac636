import PetriCcs.Net.Basic

/-! # Net documents

A document lists the places, transitions and arcs of a net by name.  It is plain data: any text
may stand where a name or a label is due, and only building a net from it tells whether it is in
order. -/

namespace PetriCcs

structure PlaceEntry where
  id : String
  tokens : Weight
  deriving DecidableEq

structure TransitionEntry where
  id : String
  label : String
  deriving DecidableEq

structure ArcEntry where
  source : String
  target : String
  weight : Weight
  deriving DecidableEq

/-- The written form of a net. -/
structure Document where
  places : List PlaceEntry := []
  transitions : List TransitionEntry := []
  arcs : List ArcEntry := []
  deriving DecidableEq

namespace Document

/-- The display name of an endpoint; empty when the net does not have it. -/
def reference (net : Net) : Node → String
  | .place id => ((net.place? id).map Place.displayName).getD ""
  | .transition id => ((net.transition? id).map Transition.displayName).getD ""

/-- The document of a net, every list in the order of handles. -/
def ofNet (net : Net) : Document where
  places := net.places.toList.map fun place => ⟨place.displayName, place.tokens⟩
  transitions := net.transitions.toList.map fun transition =>
    ⟨transition.displayName, transition.label.text⟩
  arcs := net.edges.toList.map fun edge =>
    ⟨reference net edge.source, reference net edge.target, edge.weight⟩

end Document
end PetriCcs
