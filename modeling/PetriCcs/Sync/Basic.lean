import PetriCcs.Classification.Basic
import PetriCcs.Net.Edit
import PetriCcs.Sync.Pairing

/-! # Synchronisation

A group-choice net is turned into a 2-τ-synchronisation net.  When a transition has more inputs
than its label allows, the places of its group are cut off from their consumers and merged by
binary internal joins, each of which consumes from two places and produces into a fresh one; the
places that are left feed every consumer of the group again.  Two places are left when all
consumers are internal, one otherwise.  Which places are merged is drawn from a random source.

The input net is a value and stays as it is; the output is a copy with a tag of its own. -/

namespace PetriCcs
namespace Sync

/-- One step on the way, in handles of the output net. -/
inductive Step where
  /-- Two places were joined by a transition into a fresh place. -/
  | merged (left right : PlaceId) (transition : TransitionId) (place : PlaceId)
  /-- The places left of a group were wired to all its consumers. -/
  | reconnected (places : List PlaceId) (transitions : List TransitionId)
  deriving DecidableEq

/-- A synchronised net and how it came about. -/
structure Result where
  net : Net
  steps : List Step

/-- Whether the input needed no step. -/
def Result.isUnchanged (result : Result) : Bool := result.steps.isEmpty

/-- Whether a transition has no more inputs than its label allows. -/
def withinLimit (transition : Transition) : Bool :=
  transition.incoming.length ≤ (if transition.isTau then 2 else 1)

/-- The places that feed a transition and the transitions that consume from the first of them. -/
structure Group where
  places : List PlaceId
  transitions : List TransitionId

/-- The group of a transition; none when nothing feeds it. -/
def group? (net : Net) (transition : TransitionId) : Option Group :=
  match net.preset transition with
  | [] => none
  | first :: rest => some ⟨first :: rest, net.consumers first⟩

/-- How many places of a group are left. -/
def Group.keep (net : Net) (group : Group) : Nat :=
  if group.transitions.all fun t => (net.transition? t).any Transition.isTau then 2 else 1

/-! ### Splitting a group -/

/-- Removes the edges between the places of a group and their consumers. -/
def disconnect (group : Group) : Edit Unit := do
  group.places.forM fun place => Edit.removeListed (Edit.storedOutgoing (.place place))
  group.transitions.forM fun t => Edit.removeListed (Edit.storedIncoming (.transition t))

/-- Joins two places into a fresh one. -/
def join (left right : PlaceId) : Edit (TransitionId × PlaceId) := do
  let transition ← Edit.addLabelledTransition none .tau
  let place ← Edit.addPlace none 0
  let _ ← Edit.addEdge (.place left) (.transition transition) 1
  let _ ← Edit.addEdge (.place right) (.transition transition) 1
  let _ ← Edit.addEdge (.transition transition) (.place place) 1
  return (transition, place)

/-- Writes `place` at position `first`, then moves the last place to position `second`. -/
def merge (working : List PlaceId) (first second : Nat) (place : PlaceId) : List PlaceId :=
  let working := working.set first place
  match working.getLast? with
  | none => working
  | some last => (working.set second last).dropLast

/-- Merges places of the working list pair by pair; returns the steps and the places left. -/
def mergePairs : (pairs : List (Nat × Nat)) → (working : List PlaceId) →
    Edit (List Step × List PlaceId)
  | [], working => pure ([], working)
  | (first, second) :: pairs, working =>
    match working[first]?, working[second]? with
    | some left, some right => do
      let (transition, place) ← join left right
      let (steps, working) ← mergePairs pairs (merge working first second place)
      return (.merged left right transition place :: steps, working)
    | none, _ => throw (.dangling (.position first))
    | _, none => throw (.dangling (.position second))

/-- Wires each place to each transition. -/
def connect (places : List PlaceId) (transitions : List TransitionId) : Edit Unit :=
  places.forM fun place => transitions.forM fun t => do
    let _ ← Edit.addEdge (.place place) (.transition t) 1

/-- Replaces the edges of a group by a tree of joins. -/
def splitGroup (group : Group) (pairs : List (Nat × Nat)) : Edit (List Step) := do
  disconnect group
  let (steps, working) ← mergePairs pairs group.places
  connect working group.transitions
  return steps ++ [.reconnected working group.transitions]

/-! ### Splitting all groups -/

variable {σ : Type} [RandomSource σ]

/-- Splits the group of the transition at a position, if it is over its limit. -/
def splitAt (position : Nat) : StateT σ Edit (List Step) := do
  let net ← getThe Net
  let overLimit := do
    let id ← net.transitions.handle? position
    let transition ← net.transition? id
    if withinLimit transition then none else group? net id
  match overLimit with
  | none => return []
  | some group =>
    let (pairs, source) := (Pairing.order group.places.length (group.keep net)).run (← get)
    set source
    splitGroup group pairs

/-- Splits the groups of the transitions at the listed positions, one after the other. -/
def splitAll : (positions : List Nat) → StateT σ Edit (List Step)
  | [] => return []
  | position :: positions => do
    let steps ← splitAt position
    return steps ++ (← splitAll positions)

end Sync

namespace Net

variable {σ : Type} [RandomSource σ]

/-- A 2-τ-synchronisation net that behaves like the given one, tagged `tag`, with what is left of
the random source.  A net that is one already is copied; of the others, group-choice nets are
split and the rest is refused. -/
def synchronise (net : Net) (tag : Nat) (source : σ) : Except NetError (Sync.Result × σ) :=
  if net.isTwoTauSynchronisation then .ok (⟨net.copy tag, []⟩, source)
  else if !net.isGroupChoice then .error (.structuralMismatch .synchronisable)
  else
    match ((Sync.splitAll (List.range net.transitions.size)).run source).runOn (net.copy tag) with
    | (.error error, _) => .error error
    | (.ok (steps, source), output) =>
      if output.isTwoTauSynchronisation then .ok (⟨output, steps⟩, source)
      else .error (.structuralMismatch .splittable)

end Net
end PetriCcs
