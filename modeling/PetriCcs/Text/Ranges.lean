/-! # Ranges of code points

A class of characters beyond ASCII is a table of closed ranges of code points in increasing
order. -/

namespace PetriCcs.Text

/-- Whether a code point lies in one of the closed ranges. -/
def inRanges (ranges : List (Nat × Nat)) (point : Nat) : Bool :=
  ranges.any fun (low, high) => low ≤ point && point ≤ high

end PetriCcs.Text
