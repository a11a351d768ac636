import PetriCcs.Datum
import PetriCcs.Text.Escape

/-! # Writing RON

Four spaces for each level of nesting, one item or field on a line, a comma after each of them,
records in parentheses without their names.  Strings escape what has no visible form, and both
kinds of quote. -/

namespace PetriCcs.Ron

/-- A string with its quotes. -/
def writeString (s : String) : List Char :=
  '"' :: s.toList.flatMap (Text.escapeChar ['"', '\'']) ++ ['"']

/-- The blanks that open a line at a level of nesting. -/
def indent (level : Nat) : List Char := List.replicate (4 * level) ' '

mutual

/-- A value at a level of nesting. -/
def write (level : Nat) : Datum → List Char
  | .natural n => Nat.toDigits 10 n
  | .text s => writeString s
  | .boolean true => ['t', 'r', 'u', 'e']
  | .boolean false => ['f', 'a', 'l', 's', 'e']
  | .list [] => ['[', ']']
  | .list (first :: rest) =>
    ['[', '\n'] ++ writeItems (level + 1) (first :: rest) ++ indent level ++ [']']
  | .record _ [] => ['(', ')']
  | .record _ (first :: rest) =>
    ['(', '\n'] ++ writeFields (level + 1) (first :: rest) ++ indent level ++ [')']
  | .other => ['(', ')']

/-- One line for each item. -/
def writeItems (level : Nat) : List Datum → List Char
  | [] => []
  | item :: rest => indent level ++ write level item ++ [',', '\n'] ++ writeItems level rest

/-- One line for each field. -/
def writeFields (level : Nat) : List (String × Datum) → List Char
  | [] => []
  | (key, value) :: rest =>
    indent level ++ key.toList ++ [':', ' '] ++ write level value ++ [',', '\n']
      ++ writeFields level rest

end

/-- The text of a value. -/
def print (datum : Datum) : String := String.ofList (write 0 datum)

end PetriCcs.Ron
