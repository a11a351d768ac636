/-! # The front of a text

Small steps that the readers of all formats share: each takes the characters that are left and
returns those after what it read. -/

namespace PetriCcs.Text

/-- The rest after a certain character. -/
def after? (expected : Char) : List Char → Option (List Char)
  | c :: rest => if c = expected then some rest else none
  | [] => none

/-- A sign, if there is one, and whether it is a minus. -/
def sign : List Char → Bool × List Char
  | '+' :: rest => (false, rest)
  | '-' :: rest => (true, rest)
  | rest => (false, rest)

end PetriCcs.Text
