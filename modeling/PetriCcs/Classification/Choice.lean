import PetriCcs.Net.Basic

/-! # Join and choice classes

Two classes bound the number of inputs of a transition by its label, two restrict how transitions
share their input places.  The group-choice test remembers which places it has already compared
with a place of their group and does not visit those again. -/

namespace PetriCcs
namespace Net

/-- Every transition has one input, or two when it is internal. -/
def isCcs (net : Net) : Bool :=
  net.transitions.toList.all fun transition =>
    match transition.incoming.length with
    | 1 => true
    | 2 => transition.isTau
    | _ => false

/-- Every transition has at most one input, or two when it is internal. -/
def isTwoTauSynchronisation (net : Net) : Bool :=
  net.transitions.toList.all fun transition =>
    match transition.incoming.length with
    | 0 | 1 => true
    | 2 => transition.isTau
    | _ => false

/-- A transition with several inputs shares none of them. -/
def isFreeChoice (net : Net) : Bool :=
  net.transitions.toList.all fun transition =>
    decide (transition.incoming.length ≤ 1)
      || (net.preset transition.id).all fun place =>
        (net.place? place).any fun place => place.outgoing.length == 1

/-- Whether two lists have the same members. -/
def sameMembers {α : Type} [DecidableEq α] (xs ys : List α) : Bool :=
  xs.all ys.contains && ys.all xs.contains

/-- The other places that feed a consumer of a place. -/
def rivals (net : Net) (place : PlaceId) : List PlaceId :=
  ((net.consumers place).flatMap net.preset).filter (· ≠ place)

/-- Compares each place, unless it is confirmed, with its rivals, which are confirmed by that. -/
def groupPass (net : Net) : (pending confirmed : List PlaceId) → Bool
  | [], _ => true
  | place :: pending, confirmed =>
    if confirmed.contains place then groupPass net pending confirmed
    else
      let rivals := net.rivals place
      rivals.all (fun other => sameMembers (net.consumers other) (net.consumers place))
        && groupPass net pending (place :: rivals ++ confirmed)

/-- Places that share a consumer share all of them. -/
def isGroupChoice (net : Net) : Bool := net.groupPass net.places.handles []

end Net
end PetriCcs
