import PetriCcs.Datum
import PetriCcs.Text.Digits
import PetriCcs.Text.Front

/-! # Keys and scalars of TOML

Strings of the four kinds, numbers, truth values, dates and times.  Every function takes the
characters that are left and returns what it read with those after it. -/

namespace PetriCcs.Toml

open Text (after? sign isDecimalDigit hexValue? natural? charOfCode?)

/-! ### Blanks and lines -/

def isBlank (c : Char) : Bool := c == ' ' || c == '\t'

def skipBlanks (cs : List Char) : List Char := cs.dropWhile isBlank

/-- A control character other than the tabulator. -/
def isControl (c : Char) : Bool := (c.toNat < 0x20 && c != '\t') || c.toNat == 0x7F

/-- The rest after the end of a line. -/
def newline? : List Char → Option (List Char)
  | '\n' :: rest => some rest
  | '\r' :: '\n' :: rest => some rest
  | _ => none

/-- The rest after a comment, if there is one; it stops before the end of its line. -/
def skipComment (cs : List Char) : Option (List Char) :=
  match cs with
  | '#' :: rest =>
    let rest := rest.dropWhile fun c => !isControl c
    if rest.isEmpty || (newline? rest).isSome then some rest else none
  | _ => some cs

/-- The rest after blanks, a comment and the end of the line or of the text. -/
def endLine (cs : List Char) : Option (List Char) := do
  let rest ← skipComment (skipBlanks cs)
  if rest.isEmpty then some [] else newline? rest

/-- The rest after blanks, comments and ends of lines; every line spends one unit of fuel. -/
def skipLinesIn : (fuel : Nat) → List Char → Option (List Char)
  | 0, cs => some cs
  | fuel + 1, cs => do
    let rest ← skipComment (skipBlanks cs)
    match newline? rest with
    | some rest => skipLinesIn fuel rest
    | none => some rest

def skipLines (cs : List Char) : Option (List Char) := skipLinesIn (cs.length + 1) cs

/-! ### Strings -/

/-- The character of an escape with the given number of hexadecimal digits. -/
def codeEscape? (count : Nat) (cs : List Char) : Option (Char × List Char) :=
  if (cs.take count).length = count then do
    let code ← natural? 16 (cs.take count)
    return (← charOfCode? code, cs.drop count)
  else none

/-- The character of an escape, after its backslash. -/
def escape? : List Char → Option (Char × List Char)
  | 'x' :: rest => codeEscape? 2 rest
  | 'u' :: rest => codeEscape? 4 rest
  | 'U' :: rest => codeEscape? 8 rest
  | 'b' :: rest => some ('\x08', rest)
  | 'e' :: rest => some ('\x1b', rest)
  | 't' :: rest => some ('\t', rest)
  | 'n' :: rest => some ('\n', rest)
  | 'f' :: rest => some ('\x0c', rest)
  | 'r' :: rest => some ('\r', rest)
  | '"' :: rest => some ('"', rest)
  | '\\' :: rest => some ('\\', rest)
  | _ => none

/-- The characters up to a closing quote on the same line; every character spends one unit of
fuel. -/
def basicBody : (fuel : Nat) → List Char → Option (List Char × List Char)
  | 0, _ => none
  | _ + 1, [] => none
  | fuel + 1, c :: rest =>
    if c = '"' then some ([], rest)
    else if isControl c then none
    else do
      let (read, rest) ← if c = '\\' then escape? rest else some (c, rest)
      let (more, rest) ← basicBody fuel rest
      return (read :: more, rest)

/-- The characters up to a closing apostrophe on the same line. -/
def literalBody (cs : List Char) : Option (List Char × List Char) :=
  match cs.span fun c => c ≠ '\'' && !isControl c with
  | (read, '\'' :: rest) => some (read, rest)
  | _ => none

/-- The rest after blanks and ends of lines; every line spends one unit of fuel. -/
def skipEmptyLines : (fuel : Nat) → List Char → List Char
  | 0, cs => cs
  | fuel + 1, cs =>
    match newline? (skipBlanks cs) with
    | some rest => skipEmptyLines fuel rest
    | none => skipBlanks cs

/-- The rest after the blanks and line ends that follow a backslash at the end of a line. -/
def skipFolded (cs : List Char) : Option (List Char) := do
  let rest ← newline? (skipBlanks cs)
  return skipEmptyLines (rest.length + 1) rest

/-- How many quotes stand at the head, five at most. -/
def quotesAhead (quote : Char) (cs : List Char) : Nat := ((cs.takeWhile (· = quote)).take 5).length

/-- The characters up to three closing quotes; two more quotes may stand before them.  Escapes are
read when `escapes` is set; every character spends one unit of fuel. -/
def multilineBody (quote : Char) (escapes : Bool) :
    (fuel : Nat) → List Char → Option (List Char × List Char)
  | 0, _ => none
  | _ + 1, [] => none
  | fuel + 1, c :: rest =>
    if c = quote && 3 ≤ quotesAhead quote (c :: rest) then
      let count := quotesAhead quote (c :: rest)
      some (List.replicate (count - 3) quote, (c :: rest).drop count)
    else if escapes && c = '\\' then
      match skipFolded rest with
      | some rest => multilineBody quote escapes fuel rest
      | none => do
        let (read, rest) ← escape? rest
        let (more, rest) ← multilineBody quote escapes fuel rest
        return (read :: more, rest)
    else if isControl c && (newline? (c :: rest)).isNone then none
    else do
      let (more, rest) ← multilineBody quote escapes fuel rest
      return (c :: more, rest)

/-- A string in three quotes: a line end right after them is dropped. -/
def multiline (quote : Char) (escapes : Bool) (cs : List Char) : Option (List Char × List Char) :=
  let rest := (newline? cs).getD cs
  multilineBody quote escapes (rest.length + 1) rest

/-- A string of any kind. -/
def string? : List Char → Option (List Char × List Char)
  | '"' :: '"' :: '"' :: rest => multiline '"' true rest
  | '\'' :: '\'' :: '\'' :: rest => multiline '\'' false rest
  | '"' :: rest => basicBody (rest.length + 1) rest
  | '\'' :: rest => literalBody rest
  | _ => none

/-! ### Keys -/

def isBareKeyChar (c : Char) : Bool := c.isAlphanum || c == '_' || c == '-'

/-- One part of a key: bare, or a string on one line. -/
def keyPart? (cs : List Char) : Option (String × List Char) :=
  let found :=
    match cs with
    | '"' :: rest => basicBody (rest.length + 1) rest
    | '\'' :: rest => literalBody rest
    | _ =>
      match cs.span isBareKeyChar with
      | ([], _) => none
      | found => some found
  found.map fun (name, rest) => (String.ofList name, rest)

/-- The parts of a dotted key; every part spends one unit of fuel. -/
def keyIn : (fuel : Nat) → List Char → Option (List String × List Char)
  | 0, _ => none
  | fuel + 1, cs => do
    let (part, rest) ← keyPart? (skipBlanks cs)
    match skipBlanks rest with
    | '.' :: rest =>
      let (more, rest) ← keyIn fuel rest
      return (part :: more, rest)
    | rest => return ([part], rest)

/-- How many parts a key may have, and how deep arrays and inline tables may nest. -/
def levelLimit : Nat := 80

/-- A dotted key. -/
def key? (cs : List Char) : Option (List String × List Char) :=
  (keyIn (cs.length + 1) cs).filter fun (path, _) => path.length ≤ levelLimit

/-! ### Numbers and dates -/

/-- Digits of a base where an underscore may stand between two of them. -/
def digitGroups? (base : Nat) (cs : List Char) : Option Nat :=
  let isDigit c := (hexValue? c).any (· < base)
  let paired := (cs.zip cs.tail).all fun (a, b) => a ≠ '_' || b ≠ '_'
  if cs.head?.any isDigit && cs.getLast?.any isDigit && paired then
    natural? base (cs.filter (· ≠ '_'))
  else none

/-- Decimal digits without a zero before others. -/
def decimal? (cs : List Char) : Option Nat :=
  if cs.head? = some '0' && cs.length ≠ 1 then none else digitGroups? 10 cs

/-- A whole number in the range of 128-bit types; negative ones other than zero are no field's
value. -/
def integer? (cs : List Char) : Option Datum :=
  let unsigned :=
    match cs with
    | '0' :: 'x' :: digits => digitGroups? 16 digits
    | '0' :: 'o' :: digits => digitGroups? 8 digits
    | '0' :: 'b' :: digits => digitGroups? 2 digits
    | _ => none
  match unsigned with
  | some n => if n < Nat.pow 2 128 then some (.natural n) else none
  | none => do
    let (negative, digits) := sign cs
    let n ← decimal? digits
    if negative && n ≠ 0 then if n ≤ Nat.pow 2 127 then some .other else none
    else if n < Nat.pow 2 128 then some (.natural n)
    else none

/-- An exponent with its mark: whether it is negative, and its size. -/
def exponent? : List Char → Option (Bool × Nat)
  | c :: rest =>
    if c = 'e' || c = 'E' then
      let (negative, digits) := sign rest
      (digitGroups? 10 digits).map (negative, ·)
    else none
  | [] => none

/-- The digits of a number with a fraction or an exponent, how many of them stand after the point,
and the exponent. -/
def decimalParts? (cs : List Char) : Option (List Char × Nat × Bool × Nat) := do
  let isDigitChar c := isDecimalDigit c || c == '_'
  let (whole, rest) := (sign cs).2.span isDigitChar
  let _ ← decimal? whole
  match rest with
  | '.' :: rest =>
    let (part, rest) := rest.span isDigitChar
    let _ ← digitGroups? 10 part
    let (negative, size) ← if rest.isEmpty then some (false, 0) else exponent? rest
    let part := part.filter (· ≠ '_')
    return (whole.filter (· ≠ '_') ++ part, part.length, negative, size)
  | rest =>
    let (negative, size) ← exponent? rest
    return (whole.filter (· ≠ '_'), 0, negative, size)

/-- Twice the largest finite double and one unit of its last place: numbers of at least half of
this size are rounded to infinity. -/
def twiceOverflow : Nat := (Nat.pow 2 54 - 1) * Nat.pow 2 971

/-- Whether a double rounds the number that digits spell, times `10 ^ shift`, to infinity.  A number
with fewer than 309 places before the point is finite, one with more of them is not. -/
def overflows (digits : List Char) (shift : Int) : Bool :=
  let digits := digits.dropWhile (· = '0')
  match natural? 10 digits with
  | none => false
  | some n =>
    let places := digits.length + shift
    if places = 309 then
      if 0 ≤ shift then twiceOverflow ≤ 2 * n * Nat.pow 10 shift.toNat
      else twiceOverflow * Nat.pow 10 (-shift).toNat ≤ 2 * n
    else 309 < places

/-- Whether characters spell a finite number with a fraction or an exponent, or one without
digits. -/
def isFloat (cs : List Char) : Bool :=
  let (_, body) := sign cs
  body = ['i', 'n', 'f'] || body = ['n', 'a', 'n'] ||
    match decimalParts? cs with
    | some (digits, part, negative, size) =>
      !overflows digits ((if negative then -(size : Int) else size) - part)
    | none => false

/-- Two digits with a value in a range. -/
def twoDigits? (low high : Nat) : List Char → Option (List Char)
  | a :: b :: rest => do
    let n ← natural? 10 [a, b]
    if low ≤ n && n ≤ high then some rest else none
  | _ => none

/-- The rest after a date of the form `1979-05-27`. -/
def date? (cs : List Char) : Option (List Char) := do
  let year ← natural? 10 (cs.take 4)
  if (cs.take 4).length ≠ 4 then none
  let rest ← after? '-' (cs.drop 4)
  let month ← natural? 10 (rest.take 2)
  let rest ← twoDigits? 1 12 rest
  let leap := year % 4 = 0 && (year % 100 ≠ 0 || year % 400 = 0)
  let days := if month = 2 then if leap then 29 else 28
    else if [4, 6, 9, 11].contains month then 30 else 31
  after? '-' rest >>= twoDigits? 1 days

/-- The rest after a time of the form `07:32:00.5`; the seconds may be missing. -/
def time? (cs : List Char) : Option (List Char) := do
  match ← twoDigits? 0 23 cs >>= after? ':' >>= twoDigits? 0 59 with
  | ':' :: rest =>
    match ← twoDigits? 0 60 rest with
    | '.' :: rest =>
      match rest.span isDecimalDigit with
      | ([], _) => none
      | (_, rest) => some rest
    | rest => some rest
  | rest => some rest

/-- The rest after an offset from universal time. -/
def offset? : List Char → Option (List Char)
  | c :: rest =>
    if c == 'Z' || c == 'z' then some rest
    else if c == '+' || c == '-' then
      twoDigits? 0 23 rest >>= after? ':' >>= twoDigits? 0 59
    else none
  | [] => none

/-- Whether characters are a date, a time, or both with an optional offset. -/
def isMoment (cs : List Char) : Bool :=
  match date? cs with
  | some [] => true
  | some (c :: rest) =>
    (c == 'T' || c == 't' || c == ' ') &&
      (time? rest).any fun rest => rest.isEmpty || offset? rest = some []
  | none => time? cs = some []

/-- The characters of a number, date or name; one blank may part a date from a time. -/
def plainRun (cs : List Char) : List Char × List Char :=
  let isPlain c := c.isAlphanum || c == '_' || c == '+' || c == '-' || c == '.' || c == ':'
  let (run, rest) := cs.span isPlain
  match rest with
  | ' ' :: d :: more =>
    if date? run = some [] && isDecimalDigit d then
      let (time, rest) := (d :: more).span isPlain
      (run ++ ' ' :: time, rest)
    else (run, rest)
  | _ => (run, rest)

/-- A scalar that is not a string. -/
def plain? (cs : List Char) : Option (Datum × List Char) :=
  let (run, rest) := plainRun cs
  if run = ['t', 'r', 'u', 'e'] then some (.boolean true, rest)
  else if run = ['f', 'a', 'l', 's', 'e'] then some (.boolean false, rest)
  else
    match integer? run with
    | some datum => some (datum, rest)
    | none => if isFloat run || isMoment run then some (.other, rest) else none

/-- A value that has no parts: a string or a plain one. -/
def scalar? (cs : List Char) : Option (Datum × List Char) :=
  if cs.head? = some '"' || cs.head? = some '\'' then
    (string? cs).map fun (found, rest) => (.text (String.ofList found), rest)
  else plain? cs

end PetriCcs.Toml
