import PetriCcs.Net.Basic

/-! # Consistency of a net

`Net.check` walks over a net and reports the first thing out of place: a node or edge stored under
another handle than its own, an edge that its endpoints do not list exactly once, or a node that
lists an edge which is not its own. -/

namespace PetriCcs

/-- What is out of place in a net. -/
inductive Inconsistency where
  | placeId (stored claimed : PlaceId)
  | transitionId (stored claimed : TransitionId)
  | edgeId (stored claimed : EdgeId)
  | unlisted (edge : EdgeId)
  | foreignOutgoing (node : Node) (edge : EdgeId)
  | foreignIncoming (node : Node) (edge : EdgeId)
  deriving DecidableEq

def Inconsistency.message : Inconsistency → String
  | .placeId stored claimed => "place stored at " ++ stored.text ++ " claims id " ++ claimed.text
  | .transitionId stored claimed =>
    "transition stored at " ++ stored.text ++ " claims id " ++ claimed.text
  | .edgeId stored claimed => "edge stored at " ++ stored.text ++ " claims id " ++ claimed.text
  | .unlisted edge => edge.text ++ " is missing from its endpoints' adjacency"
  | .foreignOutgoing node edge => node.text ++ " lists foreign outgoing " ++ edge.text
  | .foreignIncoming node edge => node.text ++ " lists foreign incoming " ++ edge.text

namespace Net

/-- All nodes, the places first. -/
def nodes (net : Net) : List Node :=
  net.places.handles.map .place ++ net.transitions.handles.map .transition

/-- Whether a list of edges is there and names an edge exactly once. -/
def listedOnce (edges : Option (List EdgeId)) (edge : EdgeId) : Bool :=
  edges.any fun listed => listed.count edge == 1

def checkPlace (entry : PlaceId × Place) : Except Inconsistency Unit :=
  if entry.2.id = entry.1 then .ok () else .error (.placeId entry.1 entry.2.id)

def checkTransition (entry : TransitionId × Transition) : Except Inconsistency Unit :=
  if entry.2.id = entry.1 then .ok () else .error (.transitionId entry.1 entry.2.id)

/-- An edge has its own handle, and both endpoints list it once. -/
def checkEdge (net : Net) (entry : EdgeId × Edge) : Except Inconsistency Unit :=
  if entry.2.id ≠ entry.1 then .error (.edgeId entry.1 entry.2.id)
  else if listedOnce (net.outgoing? entry.2.source) entry.1
      && listedOnce (net.incoming? entry.2.target) entry.1 then .ok ()
  else .error (.unlisted entry.1)

/-- The edges that a node lists start or end there. -/
def checkLinks (net : Net) (node : Node) : Except Inconsistency Unit := do
  ((net.outgoing? node).getD []).forM fun id =>
    if (net.edge? id).any (·.source = node) then .ok () else .error (.foreignOutgoing node id)
  ((net.incoming? node).getD []).forM fun id =>
    if (net.edge? id).any (·.target = node) then .ok () else .error (.foreignIncoming node id)

/-- The first inconsistency, in the order places, transitions, edges, links of nodes. -/
def check (net : Net) : Except Inconsistency Unit := do
  net.places.entries.forM checkPlace
  net.transitions.entries.forM checkTransition
  net.edges.entries.forM net.checkEdge
  net.nodes.forM net.checkLinks

end Net
end PetriCcs
