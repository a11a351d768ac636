import PetriCcs.Datum
import PetriCcs.Text.Digits

/-! # Reading JSON

The whole text is one value, strictly by the grammar.  Strings are read in two steps: the pieces
between the quotes, then the characters, where two escapes may have to be paired.  A string whose
escapes do not pair up is well-formed but no text, and counts as `other`; so does an object with
such a key.  A number is `natural` when it is written with digits only. -/

namespace PetriCcs.Json

open Text (isDecimalDigit natural? charOfCode?)

/-! ### Strings -/

def isBlank (c : Char) : Bool := c == ' ' || c == '\n' || c == '\t' || c == '\r'

def skipBlanks (cs : List Char) : List Char := cs.dropWhile isBlank

/-- What stands in a string for itself, or as an escaped unit of sixteen bits. -/
inductive Piece where
  | char (c : Char)
  | unit (n : Nat)

/-- The character behind an escape of one letter. -/
def escaped? (c : Char) : Option Char :=
  match c with
  | '"' => some '"'
  | '\\' => some '\\'
  | '/' => some '/'
  | 'b' => some '\x08'
  | 'f' => some '\x0c'
  | 'n' => some '\n'
  | 'r' => some '\r'
  | 't' => some '\t'
  | _ => none

/-- The pieces up to the closing quote, and what follows it. -/
def pieces : List Char → Option (List Piece × List Char)
  | [] => none
  | '"' :: rest => some ([], rest)
  | '\\' :: 'u' :: a :: b :: c :: d :: rest => do
    let n ← natural? 16 [a, b, c, d]
    let (more, rest) ← pieces rest
    return (.unit n :: more, rest)
  | '\\' :: c :: rest => do
    let e ← escaped? c
    let (more, rest) ← pieces rest
    return (.char e :: more, rest)
  | c :: rest =>
    if c.toNat < 0x20 then none
    else do
      let (more, rest) ← pieces rest
      return (.char c :: more, rest)

def isHighUnit (n : Nat) : Bool := 0xD800 ≤ n && n < 0xDC00

def isLowUnit (n : Nat) : Bool := 0xDC00 ≤ n && n < 0xE000

/-- The characters of the pieces; a high unit and the low unit after it are one character. -/
def characters : List Piece → Option (List Char)
  | [] => some []
  | .char c :: rest => (characters rest).map (c :: ·)
  | .unit high :: .unit low :: rest =>
    if isHighUnit high then
      if isLowUnit low then do
        let c ← charOfCode? (0x10000 + (high - 0xD800) * 0x400 + (low - 0xDC00))
        return c :: (← characters rest)
      else none
    else do return (← charOfCode? high) :: (← characters (.unit low :: rest))
  | .unit n :: rest => do return (← charOfCode? n) :: (← characters rest)

/-- The text after an opening quote, none when its units do not pair up. -/
def string (cs : List Char) : Option (Option String × List Char) := do
  let (found, rest) ← pieces cs
  return ((characters found).map String.ofList, rest)

/-! ### Numbers -/

/-- A nonempty run of decimal digits. -/
def digits (cs : List Char) : Option (List Char × List Char) :=
  match cs.span isDecimalDigit with
  | ([], _) => none
  | found => some found

/-- The rest after an optional fraction, and whether there was one. -/
def fraction : List Char → Option (Bool × List Char)
  | '.' :: rest => do return (true, (← digits rest).2)
  | rest => some (false, rest)

/-- The rest after an optional exponent, and whether there was one. -/
def exponent : List Char → Option (Bool × List Char)
  | c :: rest =>
    if c == 'e' || c == 'E' then
      match rest with
      | s :: unsigned =>
        if s == '+' || s == '-' then do return (true, (← digits unsigned).2)
        else do return (true, (← digits rest).2)
      | [] => none
    else some (false, c :: rest)
  | [] => some (false, [])

/-- A number without its sign: no zero before other digits. -/
def unsigned (cs : List Char) : Option (Datum × List Char) := do
  let (whole, rest) ← digits cs
  if whole.head? = some '0' && whole.length ≠ 1 then none
  let (fractional, rest) ← fraction rest
  let (scaled, rest) ← exponent rest
  if fractional || scaled then return (.other, rest)
  return (((natural? 10 whole).map Datum.natural).getD .other, rest)

def number : List Char → Option (Datum × List Char)
  | '-' :: rest => do return (.other, (← unsigned rest).2)
  | cs => unsigned cs

/-! ### Values -/

/-- A record, if all its keys are texts. -/
def objectOf (members : List (Option String × Datum)) : Datum :=
  match members.mapM fun (key, value) => key.map (·, value) with
  | some fields => .record none fields
  | none => .other

mutual

/-- A value at the head of the text; every call spends one unit of fuel. -/
def value : (fuel : Nat) → List Char → Option (Datum × List Char)
  | 0, _ => none
  | fuel + 1, cs =>
    match skipBlanks cs with
    | '"' :: rest => do
      let (found, rest) ← string rest
      return ((found.map Datum.text).getD .other, rest)
    | '[' :: rest =>
      match skipBlanks rest with
      | ']' :: rest => some (.list [], rest)
      | rest => do
        let (found, rest) ← items fuel rest
        return (.list found, rest)
    | '\x7b' :: rest =>
      match skipBlanks rest with
      | '\x7d' :: rest => some (.record none [], rest)
      | rest => do
        let (found, rest) ← members fuel rest
        return (objectOf found, rest)
    | 'n' :: 'u' :: 'l' :: 'l' :: rest => some (.other, rest)
    | 't' :: 'r' :: 'u' :: 'e' :: rest => some (.boolean true, rest)
    | 'f' :: 'a' :: 'l' :: 's' :: 'e' :: rest => some (.boolean false, rest)
    | rest => number rest

/-- The items of an array up to its closing bracket. -/
def items : (fuel : Nat) → List Char → Option (List Datum × List Char)
  | 0, _ => none
  | fuel + 1, cs => do
    let (first, rest) ← value fuel cs
    match skipBlanks rest with
    | ']' :: rest => return ([first], rest)
    | ',' :: rest =>
      let (more, rest) ← items fuel rest
      return (first :: more, rest)
    | _ => none

/-- The members of an object up to its closing brace. -/
def members : (fuel : Nat) → List Char → Option (List (Option String × Datum) × List Char)
  | 0, _ => none
  | fuel + 1, cs =>
    match skipBlanks cs with
    | '"' :: rest => do
      let (key, rest) ← string rest
      match skipBlanks rest with
      | ':' :: rest =>
        let (first, rest) ← value fuel rest
        match skipBlanks rest with
        | '\x7d' :: rest => return ([(key, first)], rest)
        | ',' :: rest =>
          let (more, rest) ← members fuel rest
          return ((key, first) :: more, rest)
        | _ => none
      | _ => none
    | _ => none

end

/-- The value that a text is, with nothing but blanks around it.  No call is nested more than
twice for a character. -/
def parse? (text : String) : Option Datum :=
  let cs := text.toList
  match value (2 * cs.length + 2) cs with
  | some (found, rest) => if (skipBlanks rest).isEmpty then some found else none
  | none => none

end PetriCcs.Json
