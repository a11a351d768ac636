import PetriCcs.Datum
import PetriCcs.Text.Escape

/-! # Writing JSON

Two spaces for each level of nesting, one item or member on a line, nothing between the brackets
of an empty list.  Only quotes, backslashes and control characters are escaped. -/

namespace PetriCcs.Json

/-- A control character without a letter of its own: four hexadecimal digits. -/
def unitEscape (c : Char) : List Char :=
  let digits := Text.hexDigits c.toNat
  ['\\', 'u'] ++ List.replicate (4 - digits.length) '0' ++ digits

/-- A character inside a string. -/
def escapeChar (c : Char) : List Char :=
  if c = '"' then ['\\', '"']
  else if c = '\\' then ['\\', '\\']
  else if c = '\n' then ['\\', 'n']
  else if c = '\t' then ['\\', 't']
  else if c = '\r' then ['\\', 'r']
  else if c = '\x08' then ['\\', 'b']
  else if c = '\x0c' then ['\\', 'f']
  else if c.toNat < 0x20 then unitEscape c
  else [c]

/-- A string with its quotes. -/
def writeString (s : String) : List Char := '"' :: s.toList.flatMap escapeChar ++ ['"']

/-- A new line at a level of nesting. -/
def newline (level : Nat) : List Char := '\n' :: List.replicate (2 * level) ' '

mutual

/-- A value at a level of nesting. -/
def write (level : Nat) : Datum → List Char
  | .natural n => Nat.toDigits 10 n
  | .text s => writeString s
  | .boolean true => ['t', 'r', 'u', 'e']
  | .boolean false => ['f', 'a', 'l', 's', 'e']
  | .list [] => ['[', ']']
  | .list (first :: rest) =>
    ['['] ++ newline (level + 1) ++ write (level + 1) first ++ writeItems (level + 1) rest
      ++ newline level ++ [']']
  | .record _ [] => ['\x7b', '\x7d']
  | .record _ ((key, first) :: rest) =>
    ['\x7b'] ++ newline (level + 1) ++ writeString key ++ [':', ' '] ++ write (level + 1) first
      ++ writeMembers (level + 1) rest ++ newline level ++ ['\x7d']
  | .other => ['n', 'u', 'l', 'l']

/-- The items after the first one. -/
def writeItems (level : Nat) : List Datum → List Char
  | [] => []
  | first :: rest => [','] ++ newline level ++ write level first ++ writeItems level rest

/-- The members after the first one. -/
def writeMembers (level : Nat) : List (String × Datum) → List Char
  | [] => []
  | (key, first) :: rest =>
    [','] ++ newline level ++ writeString key ++ [':', ' '] ++ write level first
      ++ writeMembers level rest

end

/-- The text of a value. -/
def print (datum : Datum) : String := String.ofList (write 0 datum)

end PetriCcs.Json
