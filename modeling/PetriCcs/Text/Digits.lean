/-! # Digits

Values of digits in a base up to sixteen, and numbers read from them. -/

namespace PetriCcs.Text

def isDecimalDigit (c : Char) : Bool := '0' ≤ c && c ≤ '9'

/-- The value of a hexadecimal digit of either case. -/
def hexValue? (c : Char) : Option Nat :=
  if isDecimalDigit c then some (c.toNat - '0'.toNat)
  else if 'a' ≤ c && c ≤ 'f' then some (c.toNat - 'a'.toNat + 10)
  else if 'A' ≤ c && c ≤ 'F' then some (c.toNat - 'A'.toNat + 10)
  else none

/-- The value of a digit below the base. -/
def digitValue? (base : Nat) (c : Char) : Option Nat := (hexValue? c).filter (· < base)

/-- The number that digits spell after a number already read. -/
def ofDigits? (base : Nat) : (digits : List Char) → (read : Nat) → Option Nat
  | [], read => some read
  | c :: digits, read => do ofDigits? base digits (read * base + (← digitValue? base c))

/-- The number that a nonempty run of digits spells. -/
def natural? (base : Nat) (digits : List Char) : Option Nat :=
  if digits.isEmpty then none else ofDigits? base digits 0

/-- The character with a code point, if there is one. -/
def charOfCode? (code : Nat) : Option Char :=
  if valid : code.isValidChar then some (Char.ofNatAux code valid) else none

end PetriCcs.Text
