/-! # Words of a line

A line of options is split the way a shell does it: blanks part words, single quotes keep
everything as it is, double quotes keep all but a few escapes, a backslash keeps the next
character.  Pieces that touch are one word.  No escape reaches over the end of a line: there a
backslash stands for itself, and between double quotes it leaves them unclosed. -/

namespace PetriCcs
namespace Words

/-- White space of any script. -/
def isSpace (c : Char) : Bool :=
  let n := c.toNat
  (9 ≤ n && n ≤ 13) || n == 0x20 || n == 0x85 || n == 0xA0 || n == 0x1680
    || (0x2000 ≤ n && n ≤ 0x200A) || n == 0x2028 || n == 0x2029 || n == 0x202F || n == 0x205F
    || n == 0x3000

/-- A character that a backslash can keep inside double quotes. -/
def isQuotable (c : Char) : Bool := ['$', '\x60', '"', '\\'].contains c

/-- The characters up to a closing double quote. -/
def doubleQuoted : List Char → Option (List Char × List Char)
  | [] => none
  | '"' :: rest => some ([], rest)
  | '\\' :: '\n' :: _ => none
  | '\\' :: c :: rest => do
    let (more, rest) ← doubleQuoted rest
    return (if isQuotable c then c :: more else '\\' :: c :: more, rest)
  | c :: rest => do
    let (more, rest) ← doubleQuoted rest
    return (c :: more, rest)

/-- A character of a piece without quotes. -/
def isOrdinary (c : Char) : Bool := !isSpace c && c ≠ '\'' && c ≠ '"' && c ≠ '\\'

/-- One piece of a word at the head. -/
def piece : List Char → Option (List Char × List Char)
  | '\'' :: rest =>
    match rest.span (· ≠ '\'') with
    | (found, _ :: rest) => some (found, rest)
    | (_, []) => none
  | '"' :: rest => doubleQuoted rest
  | '\\' :: '\n' :: rest => some (['\\'], '\n' :: rest)
  | '\\' :: c :: rest => some ([c], rest)
  | ['\\'] => some (['\\'], [])
  | cs => some (cs.span isOrdinary)

/-- The pieces of a word; every piece spends one unit of fuel. -/
def word : (fuel : Nat) → List Char → Option (List Char × List Char)
  | 0, _ => none
  | fuel + 1, cs => do
    let (first, rest) ← piece cs
    match rest with
    | [] => return (first, [])
    | c :: more =>
      if isSpace c then return (first, more)
      else
        let (others, rest) ← word fuel rest
        return (first ++ others, rest)

/-- The words of a line; every word spends one unit of fuel. -/
def splitIn : (fuel : Nat) → List Char → Option (List String)
  | 0, _ => none
  | fuel + 1, cs =>
    match cs.dropWhile isSpace with
    | [] => some []
    | rest => do
      let (found, rest) ← word (rest.length + 1) rest
      return String.ofList found :: (← splitIn fuel rest)

end Words

/-- The words of a line, none when a quote is not closed. -/
def words? (line : String) : Option (List String) := Words.splitIn (line.length + 1) line.toList

end PetriCcs
