import PetriCcs.Arena
import PetriCcs.Net.Label
import PetriCcs.Net.NameTable

/-! # Place/transition nets

A net is a bipartite graph of places and transitions joined by weighted edges.  Places hold
tokens (the initial marking), transitions carry labels.  Nodes and edges live in arenas; every
node lists the handles of its incoming and outgoing edges in the order in which they came.

The type holds any contents; which contents are consistent is a matter of
`PetriCcs.Net.Consistency`.  Queries are total: a link that leads nowhere is skipped. -/

namespace PetriCcs

/-- The weight of an edge, or a number of tokens. -/
abbrev Weight := UInt64

/-- A place with its tokens and its links. -/
structure Place where
  id : PlaceId
  name : NameIndex
  tokens : Weight
  /-- Edges that come from a transition. -/
  incoming : List EdgeId := []
  /-- Edges that lead to a transition. -/
  outgoing : List EdgeId := []
  deriving DecidableEq

/-- The display name of a place, `p3`. -/
def placeName (name : NameIndex) : String := "p" ++ toString name.toNat

def Place.displayName (place : Place) : String := placeName place.name

/-- A transition with its label and its links. -/
structure Transition where
  id : TransitionId
  name : NameIndex
  label : Label
  /-- Edges that come from a place. -/
  incoming : List EdgeId := []
  /-- Edges that lead to a place. -/
  outgoing : List EdgeId := []
  deriving DecidableEq

/-- The display name of a transition, `t3`. -/
def transitionName (name : NameIndex) : String := "t" ++ toString name.toNat

def Transition.displayName (transition : Transition) : String := transitionName transition.name

def Transition.isTau (transition : Transition) : Bool := transition.label.isTau

/-- A weighted edge between two nodes. -/
structure Edge where
  id : EdgeId
  source : Node
  target : Node
  weight : Weight
  deriving DecidableEq

/-- A net with the handles that it issues tagged `tag`. -/
structure Net where
  tag : Nat
  places : Arena .place Place
  transitions : Arena .transition Transition
  edges : Arena .edge Edge
  placeNames : NameTable := .empty
  transitionNames : NameTable := .empty

namespace Net

/-- The net without nodes. -/
def empty (tag : Nat) : Net :=
  { tag, places := .empty tag, transitions := .empty tag, edges := .empty tag }

def isEmpty (net : Net) : Bool := net.places.isEmpty && net.transitions.isEmpty

/-- Drops all nodes and edges and frees all names. -/
def clear (net : Net) : Net :=
  { net with
    places := net.places.clear
    transitions := net.transitions.clear
    edges := net.edges.clear
    placeNames := .empty
    transitionNames := .empty }

/-! ### Copies -/

/-- The same net under another tag, position by position. -/
def copy (net : Net) (tag : Nat) : Net where
  tag := tag
  places := (net.places.retag tag).map fun place =>
    { place with
      id := place.id.retag tag
      incoming := place.incoming.map (·.retag tag)
      outgoing := place.outgoing.map (·.retag tag) }
  transitions := (net.transitions.retag tag).map fun transition =>
    { transition with
      id := transition.id.retag tag
      incoming := transition.incoming.map (·.retag tag)
      outgoing := transition.outgoing.map (·.retag tag) }
  edges := (net.edges.retag tag).map fun edge =>
    { edge with
      id := edge.id.retag tag
      source := edge.source.retag tag
      target := edge.target.retag tag }
  placeNames := net.placeNames
  transitionNames := net.transitionNames

/-! ### Queries -/

def place? (net : Net) (id : PlaceId) : Option Place := net.places.get? id

def transition? (net : Net) (id : TransitionId) : Option Transition := net.transitions.get? id

def edge? (net : Net) (id : EdgeId) : Option Edge := net.edges.get? id

/-- Whether a node was issued by the net and is still in range. -/
def contains (net : Net) : Node → Bool
  | .place id => net.places.contains id
  | .transition id => net.transitions.contains id

/-- The edges that leave a node; none for a foreign one. -/
def outgoing? (net : Net) : Node → Option (List EdgeId)
  | .place id => (net.place? id).map Place.outgoing
  | .transition id => (net.transition? id).map Transition.outgoing

/-- The edges that enter a node; none for a foreign one. -/
def incoming? (net : Net) : Node → Option (List EdgeId)
  | .place id => (net.place? id).map Place.incoming
  | .transition id => (net.transition? id).map Transition.incoming

/-- The first edge listed at `source` that leads to `target`. -/
def findEdge? (net : Net) (source target : Node) : Option EdgeId :=
  ((net.outgoing? source).getD []).find? fun id =>
    (net.edge? id).any fun edge => edge.target = target

/-- The places that feed a transition, in the order of its edges. -/
def preset (net : Net) (id : TransitionId) : List PlaceId :=
  ((net.incoming? (.transition id)).getD []).filterMap fun e =>
    (net.edge? e).bind fun edge => edge.source.place?

/-- The places that a transition produces into, each with the number of tokens. -/
def postset (net : Net) (id : TransitionId) : List (PlaceId × Weight) :=
  ((net.outgoing? (.transition id)).getD []).filterMap fun e =>
    (net.edge? e).bind fun edge => edge.target.place?.map fun place => (place, edge.weight)

/-- The transitions that consume from a place, in the order of its edges. -/
def consumers (net : Net) (id : PlaceId) : List TransitionId :=
  ((net.outgoing? (.place id)).getD []).filterMap fun e =>
    (net.edge? e).bind fun edge => edge.target.transition?

end Net
end PetriCcs
