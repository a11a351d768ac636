import PetriCcs.Text.Digits
import PetriCcs.Text.Front
import PetriCcs.Text.Identifier

/-! # The lexical parts of RON

Blanks and comments, identifiers, strings with their escapes, and numbers.  Every function takes
the characters that are left and returns what it read with those after it. -/

namespace PetriCcs.Ron

open Text (after? sign isDecimalDigit hexValue? natural? charOfCode?)

/-! ### Blanks and comments -/

/-- The blanks between tokens, the line separators and direction marks included. -/
def isBlank (c : Char) : Bool :=
  c == ' ' || ('\t' ≤ c && c ≤ '\r') || c == '\u0085' || c == '\u200e' || c == '\u200f'
    || c == '\u2028' || c == '\u2029'

/-- The rest after a block comment that is open `depth` times more than it is closed. -/
def skipBlock : (depth : Nat) → List Char → Option (List Char)
  | 0, cs => some cs
  | _ + 1, [] => none
  | depth + 1, '/' :: '*' :: cs => skipBlock (depth + 2) cs
  | depth + 1, '*' :: '/' :: cs => skipBlock depth cs
  | depth + 1, _ :: cs => skipBlock (depth + 1) cs

/-- The rest after blanks and comments; every round spends one unit of fuel. -/
def skipBlanksIn : (fuel : Nat) → List Char → Option (List Char)
  | 0, cs => some cs
  | fuel + 1, cs =>
    match cs.dropWhile isBlank with
    | '/' :: '/' :: rest => skipBlanksIn fuel (rest.dropWhile (· ≠ '\n'))
    | '/' :: '*' :: rest => skipBlock 1 rest >>= skipBlanksIn fuel
    | '/' :: _ => none
    | rest => some rest

/-- The rest after blanks and comments; fails on a comment without end and on a slash that begins
none. -/
def skipBlanks (cs : List Char) : Option (List Char) := skipBlanksIn (cs.length + 1) cs

/-! ### Identifiers -/

/-- A character that may begin an identifier. -/
def isIdentStart (c : Char) : Bool := c == '_' || Text.isIdentifierStart c

/-- A character of an identifier marked as raw. -/
def isRawIdentChar (c : Char) : Bool :=
  Text.isIdentifierPart c || c == '.' || c == '+' || c == '-'

/-- Whether a raw string, a string of bytes or a single byte begins here. -/
def startsLiteral : List Char → Bool
  | 'b' :: '"' :: _ | 'b' :: '\'' :: _ | 'b' :: 'r' :: '"' :: _ | 'b' :: 'r' :: '#' :: _
  | 'r' :: '"' :: _ | 'r' :: '#' :: '"' :: _ | 'r' :: '#' :: '#' :: _ => true
  | _ => false

/-- A plain identifier at the head, as long as it goes. -/
def word? : List Char → Option (String × List Char)
  | [] => none
  | c :: cs =>
    if isIdentStart c then
      let (name, rest) := cs.span Text.isIdentifierPart
      some (String.ofList (c :: name), rest)
    else none

/-- A plain identifier, or a raw one after its mark. -/
def name? (cs : List Char) : Option (String × List Char) :=
  if startsLiteral cs then none
  else
    match cs with
    | 'r' :: '#' :: rest =>
      match rest.span isRawIdentChar with
      | ([], _) => none
      | (name, rest) => some (String.ofList name, rest)
    | _ => word? cs

/-- The name of a field: no character may follow that only a raw identifier could have. -/
def fieldName? (cs : List Char) : Option (String × List Char) := do
  let (name, rest) ← name? cs
  if rest.head?.any isRawIdentChar then none else some (name, rest)

/-! ### Strings -/

/-- What an escape stands in; this decides which escapes of bytes are allowed. -/
inductive EscapeContext where
  /-- A text, where bytes have to encode characters. -/
  | text
  /-- A single character, where a byte has to be one of ASCII. -/
  | character
  /-- Bytes, each of which stands for itself. -/
  | bytes
  deriving DecidableEq

/-- The byte that two hexadecimal digits spell. -/
def hexByte? : List Char → Option (Nat × List Char)
  | a :: b :: rest => (natural? 16 [a, b]).map (·, rest)
  | _ => none

/-- The character whose encoding starts with the bytes read so far, where each further byte is
escaped like the first. -/
def encodedChar? : (missing : Nat) → (code : Nat) → List Char → Option (Nat × List Char)
  | 0, code, rest => some (code, rest)
  | missing + 1, code, '\\' :: 'x' :: rest => do
    let (byte, rest) ← hexByte? rest
    if byte / 64 = 2 then encodedChar? missing (code * 64 + byte % 64) rest else none
  | _ + 1, _, _ => none

/-- The character that escaped bytes encode, the shortest way. -/
def encodedEscape? (rest : List Char) : Option (Char × List Char) := do
  let (byte, rest) ← hexByte? rest
  let (missing, code, least) ←
    if byte < 0x80 then some (0, byte, 0)
    else if byte / 32 = 6 then some (1, byte % 32, 0x80)
    else if byte / 16 = 14 then some (2, byte % 16, 0x800)
    else if byte / 8 = 30 then some (3, byte % 8, 0x10000)
    else none
  let (code, rest) ← encodedChar? missing code rest
  if code < least then none
  return (← charOfCode? code, rest)

/-- What an escape of a byte stands for, after its `\x`. -/
def byteEscape? (context : EscapeContext) (rest : List Char) : Option (Char × List Char) :=
  match context with
  | .text => encodedEscape? rest
  | .character => do
    let (byte, rest) ← hexByte? rest
    if byte < 0x80 then return (Char.ofNat byte, rest) else none
  | .bytes => do
    let (byte, rest) ← hexByte? rest
    return (Char.ofNat byte, rest)

/-- A code point of one to six hexadecimal digits in braces, after `\u`. -/
def codeEscape? : List Char → Option (Char × List Char)
  | '\x7b' :: rest =>
    let digits := rest.takeWhile (· ≠ '\x7d')
    if digits.length ≤ 6 then
      match rest.drop digits.length with
      | '\x7d' :: rest => do
        let code ← natural? 16 digits
        return (← charOfCode? code, rest)
      | _ => none
    else none
  | _ => none

/-- The character of an escape, after its backslash. -/
def escape? (context : EscapeContext) : List Char → Option (Char × List Char)
  | 'x' :: rest => byteEscape? context rest
  | 'u' :: rest => codeEscape? rest
  | c :: rest =>
    match c with
    | '\'' => some ('\'', rest)
    | '"' => some ('"', rest)
    | '\\' => some ('\\', rest)
    | 'n' => some ('\n', rest)
    | 'r' => some ('\r', rest)
    | 't' => some ('\t', rest)
    | '0' => some ('\x00', rest)
    | _ => none
  | [] => none

/-- The characters up to a closing quote; every character read spends one unit of fuel. -/
def stringBody (context : EscapeContext) : (fuel : Nat) → List Char →
    Option (List Char × List Char)
  | 0, _ => none
  | _ + 1, [] => none
  | fuel + 1, c :: rest =>
    if c = '"' then some ([], rest)
    else do
      let (read, rest) ← if c = '\\' then escape? context rest else some (c, rest)
      let (more, rest) ← stringBody context fuel rest
      return (read :: more, rest)

/-- The characters of a raw string up to a quote and the closing marks. -/
def rawBody (close : List Char) : List Char → Option (List Char × List Char)
  | [] => none
  | c :: rest =>
    if close.isPrefixOf (c :: rest) then some ([], (c :: rest).drop close.length)
    else do
      let (more, rest) ← rawBody close rest
      return (c :: more, rest)

/-- A raw string, after its `r`: as many marks close it as open it. -/
def rawString? (cs : List Char) : Option (List Char × List Char) :=
  let (marks, rest) := cs.span (· = '#')
  match rest with
  | '"' :: rest => rawBody ('"' :: marks) rest
  | _ => none

/-- A string with its opening quote, or a raw string with its `r`. -/
def string? : List Char → Option (List Char × List Char)
  | '"' :: rest => stringBody .text (rest.length + 1) rest
  | 'r' :: rest => rawString? rest
  | _ => none

/-- The rest after a string of bytes. -/
def byteString? : List Char → Option (List Char)
  | 'b' :: '"' :: rest => (stringBody .bytes (rest.length + 1) rest).map (·.2)
  | 'b' :: 'r' :: rest => (rawString? rest).map (·.2)
  | _ => none

/-- Whether no closing quote follows, escapes being passed over as far as they can be read; every
escape spends one unit of fuel. -/
def lacksQuote : (fuel : Nat) → List Char → Bool
  | 0, _ => false
  | fuel + 1, cs =>
    !cs.contains '"' ||
      match cs.dropWhile fun c => c ≠ '"' && c ≠ '\\' with
      | '\\' :: rest => (escape? .bytes rest).any fun (_, rest) => lacksQuote fuel rest
      | _ => false

/-- Whether a raw string, after its `r`, begins and does not end. -/
def lacksRawQuote (cs : List Char) : Bool :=
  (cs.dropWhile (· = '#')).head? = some '"' && (rawString? cs).isNone

/-- Whether a string begins here and does not end. -/
def startsUnclosedString : List Char → Bool
  | '"' :: rest => lacksQuote (rest.length + 1) rest
  | 'r' :: rest => lacksRawQuote rest
  | _ => false

/-- Whether a string of bytes begins here and does not end. -/
def startsUnclosedBytes : List Char → Bool
  | 'b' :: '"' :: rest => lacksQuote (rest.length + 1) rest
  | 'b' :: 'r' :: rest => lacksRawQuote rest
  | _ => false

/-- The rest after a character between single quotes. -/
def character? : List Char → Option (List Char)
  | '\'' :: '\\' :: rest => do
    let (_, rest) ← escape? .character rest
    after? '\'' rest
  | '\'' :: _ :: rest => after? '\'' rest
  | _ => none

/-- The rest after a single byte: a character of ASCII, or an escape other than that of a code
point. -/
def byte? : List Char → Option (List Char)
  | 'b' :: '\'' :: '\\' :: rest =>
    if rest.head? = some 'u' then none
    else do
      let (_, rest) ← escape? .bytes rest
      after? '\'' rest
  | 'b' :: '\'' :: c :: rest => if c.toNat < 0x80 then after? '\'' rest else none
  | _ => none

/-! ### Numbers -/

/-- What a number is: a natural one in the range of a 64-bit field, or something else. -/
inductive Numeral where
  | natural (n : Nat)
  | other
  deriving DecidableEq

/-- A digit of any base, or an underscore. -/
def isWholeChar (c : Char) : Bool := (hexValue? c).isSome || c == '_'

/-- A run of digits of a base and underscores, which may not come first. -/
def digitRun? (base : Nat) (run : List Char) : Option Nat :=
  match run with
  | '_' :: _ => none
  | _ => natural? base (run.filter (· ≠ '_'))

/-- A base mark and the base it sets; ten without a mark. -/
def baseOf : List Char → Nat × List Char
  | '0' :: 'x' :: rest => (16, rest)
  | '0' :: 'o' :: rest => (8, rest)
  | '0' :: 'b' :: rest => (2, rest)
  | rest => (10, rest)

/-- The bits of a sized type of whole numbers, and whether it has negative ones. -/
def integerType? (name : String) : Option (Nat × Bool) :=
  [("u8", 8, false), ("u16", 16, false), ("u32", 32, false), ("u64", 64, false),
    ("i8", 8, true), ("i16", 16, true), ("i32", 32, true), ("i64", 64, true)].lookup name

/-- Whether a magnitude with a sign fits a sized type. -/
def fits (negative : Bool) (magnitude : Nat) (bits : Nat) (signed : Bool) : Bool :=
  if negative then if signed then magnitude ≤ Nat.pow 2 (bits - 1) else magnitude = 0
  else magnitude < Nat.pow 2 (if signed then bits - 1 else bits)

/-- The suffix of a sized type after the digits of a number without its sign.  The marks `0x` and
`0o` end the digits, so that their numbers have no suffix; the mark `0b` does not. -/
def typeSuffix? (body : List Char) : Option (String × Nat × Bool) := do
  let (name, _) ← word? (body.dropWhile isWholeChar)
  return (name, ← integerType? name)

/-- A whole number with an optional type suffix. -/
def integer? (cs : List Char) : Option (Numeral × List Char) := do
  let (negative, body) := sign cs
  let (base, digits) := baseOf body
  let (run, rest) := digits.span isWholeChar
  let magnitude ← digitRun? base run
  match typeSuffix? body with
  | some (name, bits, signed) =>
    if fits negative magnitude bits signed then
      return (if name = "u64" then .natural magnitude else .other, rest.drop name.length)
    else none
  | none =>
    if fits negative magnitude 64 false then return (.natural magnitude, rest)
    else if fits negative magnitude 64 true then return (.other, rest)
    else none

def isFloatChar (c : Char) : Bool :=
  isDecimalDigit c || c == 'e' || c == 'E' || c == '.' || c == '+' || c == '-' || c == '_'

/-- The characters of a number without its underscores, which may stand after a digit, an exponent
mark or another underscore, but not before the first of them nor right after the point. -/
def dropUnderscores? : (allowed : Bool) → List Char → Option (List Char)
  | _, [] => some []
  | allowed, c :: rest =>
    if c = '_' then if allowed then dropUnderscores? allowed rest else none
    else do
      let allowed := if c = '.' then false else allowed || (c != '+' && c != '-')
      return c :: (← dropUnderscores? allowed rest)

/-- Whether characters spell a number with optional fraction and exponent. -/
def isFloat (cs : List Char) : Bool :=
  let (_, rest) := sign cs
  let (whole, rest) := rest.span isDecimalDigit
  let (part, rest) :=
    match rest with
    | '.' :: rest => rest.span isDecimalDigit
    | rest => ([], rest)
  !(whole.isEmpty && part.isEmpty) &&
    match rest with
    | [] => true
    | c :: rest =>
      let (_, digits) := sign rest
      (c == 'e' || c == 'E') && !digits.isEmpty && digits.all isDecimalDigit

/-- The rest after a number that is not whole or too large, with an optional type suffix. -/
def float? (cs : List Char) : Option (List Char) := do
  let (run, rest) := cs.span isFloatChar
  if isFloat (← dropUnderscores? false run) then
    match word? rest with
    | some (suffix, after) => return if suffix = "f32" || suffix = "f64" then after else rest
    | none => return rest
  else none

/-- The names of numbers that have no digits. -/
def numberNames : List String := ["inf", "inff32", "inff64", "NaN", "NaNf32", "NaNf64"]

/-- The rest after a sign and the name of a number. -/
def signedName? : List Char → Option (List Char)
  | '+' :: rest | '-' :: rest => do
    let (name, rest) ← word? rest
    if numberNames.contains name then some rest else none
  | _ => none

/-- Any number: whole unless more characters belong to it when it is read otherwise.  A decimal
one without a type that is not whole or out of range is read otherwise, too. -/
def number? (cs : List Char) : Option (Numeral × List Char) :=
  let body := (sign cs).2
  let otherwise := ((signedName? cs).or (float? cs)).map (Numeral.other, ·)
  if (body.takeWhile isWholeChar).length < (body.takeWhile isFloatChar).length then otherwise
  else
    match integer? cs with
    | some found => some found
    | none => if (baseOf body).1 = 10 && (typeSuffix? body).isNone then otherwise else none

end PetriCcs.Ron
