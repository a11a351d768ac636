/-! # Search in a finite graph

`unreached next vertices start` searches from the start along `next` and returns the vertices
that the search does not meet.  Every round takes one vertex out of those that remain, so there
are no more rounds than vertices, on graphs with cycles too. -/

namespace PetriCcs

variable {α : Type} [DecidableEq α]

/-- Takes out of `remaining` what can be met from `pending`, one vertex a round. -/
def searchRounds (next : α → List α) : (rounds : Nat) → (remaining pending : List α) → List α
  | 0, remaining, _ => remaining
  | rounds + 1, remaining, pending =>
    match pending.find? remaining.contains with
    | none => remaining
    | some vertex => searchRounds next rounds (remaining.erase vertex) (next vertex ++ pending)

/-- The vertices that are not met from the start. -/
def unreached (next : α → List α) (vertices start : List α) : List α :=
  searchRounds next vertices.length vertices start

end PetriCcs
