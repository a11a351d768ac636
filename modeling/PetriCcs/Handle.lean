/-! # Handles of nodes and edges

A handle is a position in one collection of a net together with the tag of the net that issued
it.  The kind of collection is part of its type, so a place handle is never taken for an edge
handle; the tag tells the handles of two nets apart. -/

namespace PetriCcs

/-- What a collection of a net holds. -/
inductive Kind where
  | place
  | transition
  | edge
  deriving DecidableEq

/-- The word that stands for a kind in a message. -/
def Kind.word : Kind → String
  | .place => "place"
  | .transition => "transition"
  | .edge => "edge"

/-- A position in a collection of the net tagged `owner`. -/
@[ext]
structure Handle (kind : Kind) where
  owner : Nat
  index : Nat
  deriving DecidableEq

abbrev PlaceId := Handle .place
abbrev TransitionId := Handle .transition
abbrev EdgeId := Handle .edge

namespace Handle

variable {kind : Kind}

/-- The same position in the net tagged `owner`. -/
def retag (owner : Nat) (handle : Handle kind) : Handle kind := { handle with owner }

/-- The text of a handle in a message, `place#3`. -/
def text (handle : Handle kind) : String := kind.word ++ "#" ++ toString handle.index

end Handle

/-- An endpoint of an edge. -/
inductive Node where
  | place (id : PlaceId)
  | transition (id : TransitionId)
  deriving DecidableEq

namespace Node

/-- The place at this endpoint, if it is one. -/
def place? : Node → Option PlaceId
  | .place id => some id
  | .transition _ => none

/-- The transition at this endpoint, if it is one. -/
def transition? : Node → Option TransitionId
  | .transition id => some id
  | .place _ => none

/-- The same position in the net tagged `owner`. -/
def retag (owner : Nat) : Node → Node
  | .place id => .place (id.retag owner)
  | .transition id => .transition (id.retag owner)

/-- The text of an endpoint in a message. -/
def text : Node → String
  | .place id => id.text
  | .transition id => id.text

end Node
end PetriCcs
