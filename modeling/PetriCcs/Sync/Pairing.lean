import PetriCcs.Random.Source

/-! # Orders of merging

A pairing order tells how a working list is merged down to the places that stay: each pair
`(first, second)` names two positions of the list as it stands when its turn comes; the merged
place goes to `first`, and `second` is filled with the last place.  The list is one shorter after
each pair, and the two positions of a pair differ. -/

namespace PetriCcs
namespace Pairing

/-- The last position of the working list at each turn; the list starts with `len` places and at
least one stays. -/
def tops (len keep : Nat) : List Nat := ((List.range len).drop (max keep 1)).reverse

/-- Reads a draw from all positions but one as a position that differs from `first`. -/
def distinct (first draw : Nat) : Nat × Nat := (first, if draw < first then draw else draw + 1)

variable {σ : Type} [RandomSource σ]

/-- Two different positions up to `top`. -/
def pair (top : Nat) : StateM σ (Nat × Nat) := do
  let first ← RandomSource.below (top + 1)
  let draw ← RandomSource.below top
  return distinct first draw

/-- The merges that bring `len` places down to `keep`. -/
def order (len keep : Nat) : StateM σ (List (Nat × Nat)) := (tops len keep).mapM pair

end Pairing
end PetriCcs
