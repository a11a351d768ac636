import PetriCcs.Classification.Search
import PetriCcs.Net.Consistency

/-! # Workflow nets

A workflow net has one place without incoming edges, one place without outgoing edges, and every
node lies on a path from the first and on a path to the second. -/

namespace PetriCcs
namespace Net

/-- The places that satisfy a test, if there is exactly one of them. -/
def onlyPlace? (net : Net) (test : Place → Bool) : Option PlaceId :=
  match net.places.toList.filter test with
  | [place] => some place.id
  | _ => none

/-- The nodes to which the edges that leave a node lead. -/
def successors (net : Net) (node : Node) : List Node :=
  net.edges.toList.filterMap fun edge => if edge.source = node then some edge.target else none

/-- The nodes from which the edges that enter a node come. -/
def predecessors (net : Net) (node : Node) : List Node :=
  net.edges.toList.filterMap fun edge => if edge.target = node then some edge.source else none

/-- One source, one sink, all nodes met from the source along the edges and from the sink
against them. -/
def isWorkflow (net : Net) : Bool :=
  match net.onlyPlace? (·.incoming.isEmpty), net.onlyPlace? (·.outgoing.isEmpty) with
  | some source, some sink =>
    (unreached net.successors net.nodes [.place source]).isEmpty
      && (unreached net.predecessors net.nodes [.place sink]).isEmpty
  | _, _ => false

end Net
end PetriCcs
