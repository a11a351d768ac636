import PetriCcs.Datum
import PetriCcs.Ron.Lexical

/-! # Reading RON

The whole text is one value: numbers, strings, lists in brackets, and records in parentheses with
an optional name.  Values that no document field accepts (characters, byte strings, maps, tuples,
options, unit names) are read and count as `other`.

A list, map, record, tuple or option takes one level of nesting, and so does each of its members
but the value in an option.  A text may use 128 levels; `value` recurs on the levels that are
left. -/

namespace PetriCcs.Ron

open Text (after?)

/-- Reads something at the head of the characters that are left. -/
abbrev Read (α : Type) := List Char → Option (α × List Char)

/-! ### Extensions -/

/-- What a text may ask for in an attribute before its value. -/
inductive Extension where
  | unwrapNewtypes
  /-- What an option holds may be written without its `Some` and parentheses. -/
  | implicitSome
  /-- A record or tuple in an option shares the parentheses of its `Some`. -/
  | unwrapVariantNewtypes
  /-- Records have to be named. -/
  | explicitStructNames
  deriving DecidableEq

def Extension.ofName? : String → Option Extension
  | "unwrap_newtypes" => some .unwrapNewtypes
  | "implicit_some" => some .implicitSome
  | "unwrap_variant_newtypes" => some .unwrapVariantNewtypes
  | "explicit_struct_names" => some .explicitStructNames
  | _ => none

/-! ### Members in sequence -/

/-- A comma with the blanks around it, if there is one. -/
def comma (cs : List Char) : Option (Bool × List Char) := do
  match ← skipBlanks cs with
  | ',' :: rest => return (true, ← skipBlanks rest)
  | rest => return (false, rest)

/-- Members separated by commas up to a closing sign, which is left; one comma may stand before
it.  Every member spends one unit of fuel. -/
def membersIn {α : Type} (member : Read α) (close : Char) : (fuel : Nat) → Read (List α)
  | 0, _ => none
  | fuel + 1, cs => do
    let start ← skipBlanks cs
    if start.head? = some close then return ([], start)
    let (first, rest) ← member start
    match ← comma rest with
    | (true, rest) =>
      let (more, rest) ← membersIn member close fuel rest
      return (first :: more, rest)
    | (false, rest) => if rest.head? = some close then return ([first], rest) else none

def members {α : Type} (member : Read α) (close : Char) : Read (List α) :=
  fun cs => membersIn member close (cs.length + 1) cs

/-- Members with the sign that closes them. -/
def closed {α : Type} (member : Read α) (close : Char) : Read (List α) := fun cs => do
  let (found, rest) ← members member close cs
  return (found, ← after? close rest)

/-- A colon with the blanks around it. -/
def colon (cs : List Char) : Option (List Char) := do
  skipBlanks (← after? ':' (← skipBlanks cs))

/-- A named field, its value read by `value`. -/
def field (value : Read Datum) : Read (String × Datum) := fun cs => do
  let (key, rest) ← fieldName? cs
  let (found, rest) ← value (← colon rest)
  return ((key, found), rest)

/-- An entry of a map, its key and its value read by `value`. -/
def entry (value : Read Datum) : Read Unit := fun cs => do
  let (_, rest) ← value cs
  let (_, rest) ← value (← colon rest)
  return ((), rest)

/-! ### Records and tuples -/

/-- Whether an identifier and a colon come next, as in a record with named fields. -/
def startsField (cs : List Char) : Option Bool :=
  match name? cs with
  | some (_, rest) => (skipBlanks rest).map (·.head? = some ':')
  | none => some false

/-- What parentheses hold. -/
inductive Contents where
  | fields
  | one
  | many
  deriving DecidableEq

/-- Whether one value or more come before the sign that closes `depth` open ones and one more.
Signs inside strings, characters and comments do not count, but a comment right after a string or
character is not seen as one.  A string without end is an error; every step spends one unit of
fuel. -/
def countIn : (fuel : Nat) → (depth : Nat) → List Char → Option Contents
  | 0, _, _ => none
  | fuel + 1, depth, cs => do
    let rest ← skipBlanks cs
    let rest := (character? rest).getD rest
    if startsUnclosedString rest then none
    let rest := ((string? rest).map (·.2)).getD rest
    if startsUnclosedBytes rest then none
    let rest := (byteString? rest).getD rest
    match rest with
    | [] => none
    | c :: rest =>
      if c = '(' || c = '[' || c = '\x7b' then countIn fuel (depth + 1) rest
      else if c = ')' || c = ']' || c = '\x7d' then
        match depth with
        | 0 => return .one
        | depth + 1 => countIn fuel depth rest
      else if c = ',' && depth = 0 then
        return if (← skipBlanks rest).head? = some ')' then .one else .many
      else countIn fuel depth rest

/-- What the parentheses hold that were opened before these characters. -/
def contents (cs : List Char) : Option Contents :=
  match name? cs with
  | none => countIn (cs.length + 1) 0 cs
  | some (_, rest) => do
    match ← skipBlanks rest with
    | ':' :: _ => return .fields
    | ',' :: rest => return if (← skipBlanks rest).head? = some ')' then .one else .many
    | ')' :: _ => return .one
    | rest => countIn (rest.length + 1) 0 rest

/-! ### Values -/

/-- The readers of what is nested in a value: one level further down, and two. -/
structure Nested where
  /-- A value one level down; the flag tells that parentheses are open that it may share. -/
  value : (shared : Bool) → Read Datum
  /-- A member of the value, two levels down. -/
  member : Read Datum

/-- What follows a name or stands without one: a record when it starts with a field or is empty, a
tuple in other parentheses, nothing else. -/
def group (nested : Option Nested) (name : Option String) : Read Datum := fun cs =>
  match cs with
  | '(' :: inner => do
    let nested ← nested
    let start ← skipBlanks inner
    if start.head? = some ')' || (← startsField start) then
      let (found, rest) ← closed (field nested.member) ')' start
      return (.record name found, rest)
    else
      let (_, rest) ← closed nested.member ')' start
      return (.other, rest)
  | _ => some (.other, cs)

/-- What follows a `Some`. -/
def option (asked : List Extension) (nested : Option Nested) : Read Datum := fun cs => do
  let nested ← nested
  match ← skipBlanks cs with
  | '(' :: inner =>
    let shared := asked.contains .unwrapVariantNewtypes
    let (_, rest) ← nested.value shared (← skipBlanks inner)
    let (_, rest) ← comma rest
    return (.other, ← after? ')' rest)
  | rest =>
    if asked.contains .implicitSome then
      let (_, rest) ← nested.value false rest
      return (.other, rest)
    else none

/-- A number as a value. -/
def Numeral.datum : Numeral → Datum
  | .natural n => .natural n
  | .other => .other

/-- A value whose kind the first character tells. -/
def literal (nested : Option Nested) : Read Datum := fun cs =>
  match cs with
  | '(' :: ')' :: rest => some (.record none [], rest)
  | '(' :: _ => group nested none cs
  | '[' :: rest => do
    let (found, rest) ← closed (← nested).member ']' rest
    return (.list found, rest)
  | '\x7b' :: rest => do
    let (_, rest) ← closed (entry (← nested).member) '\x7d' rest
    return (.other, rest)
  | '"' :: _ | 'r' :: _ => do
    let (found, rest) ← string? cs
    return (.text (String.ofList found), rest)
  | 'b' :: _ => ((byte? cs).or (byteString? cs)).map (.other, ·)
  | '\'' :: _ => (character? cs).map (.other, ·)
  | _ => (number? cs).map fun (found, rest) => (found.datum, rest)

/-- The names that are values of their own or, like `Some`, begin one. -/
def keywords : List String := ["true", "false", "None", "Some"] ++ numberNames

/-- A value that shares no parentheses. -/
def plain (asked : List Extension) (nested : Option Nested) : Read Datum := fun cs =>
  match (word? cs).filter fun (name, _) => keywords.contains name with
  | some (name, rest) =>
    if name = "Some" then option asked nested rest
    else if name = "true" || name = "false" then some (.boolean (name = "true"), rest)
    else some (.other, rest)
  | none =>
    match name? cs with
    | some (name, rest) => skipBlanks rest >>= group nested (some name)
    | none => literal nested cs

/-- A value; one that shares open parentheses may be nothing, fields or several values, too, and
leaves the closing one. -/
def valueWith (asked : List Extension) (nested : Option Nested) : (shared : Bool) → Read Datum
  | false, cs => plain asked nested cs
  | true, cs =>
    if cs.head? = some ')' then some (.other, cs)
    else do
      match ← contents cs with
      | .one => plain asked nested cs
      | .fields =>
        let (_, rest) ← members (field (← nested).member) ')' cs
        return (.other, rest)
      | .many =>
        let (_, rest) ← members (← nested).member ')' cs
        return (.other, rest)

/-- A value at the head of the text, where `levels` more levels of nesting are allowed. -/
def value (asked : List Extension) : (levels : Nat) → (shared : Bool) → Read Datum
  | 0, shared => valueWith asked none shared
  | 1, shared => valueWith asked (some ⟨value asked 0, fun _ => none⟩) shared
  | levels + 2, shared =>
    valueWith asked (some ⟨value asked (levels + 1), value asked levels false⟩) shared

/-- How many levels of nesting a text may have. -/
def levelLimit : Nat := 128

/-! ### Attributes -/

/-- The rest after words that follow each other, blanks between them. -/
def expect : (words : List String) → List Char → Option (List Char)
  | [], cs => some cs
  | word :: words, cs =>
    if word.toList.isPrefixOf cs then skipBlanks (cs.drop word.length) >>= expect words else none

/-- The extensions in an attribute; each spends one unit of fuel. -/
def extensionsIn : (fuel : Nat) → Read (List Extension)
  | 0, _ => none
  | fuel + 1, cs => do
    let (name, rest) ← fieldName? cs
    let extension ← Extension.ofName? name
    match ← comma rest with
    | (true, rest) =>
      if rest.head?.any Text.isIdentifierPart then
        let (more, rest) ← extensionsIn fuel rest
        return (extension :: more, rest)
      else return ([extension], rest)
    | (false, rest) => return ([extension], rest)

/-- The extensions asked for at the head of a text; every attribute spends one unit of fuel. -/
def attributes : (fuel : Nat) → Read (List Extension)
  | 0, _ => none
  | fuel + 1, cs =>
    if cs.head? = some '#' then do
      let rest ← expect ["#", "!", "[", "enable", "("] cs
      let (asked, rest) ← extensionsIn (rest.length + 1) rest
      let (more, rest) ← attributes fuel (← expect [")", "]"] rest)
      return (asked ++ more, rest)
    else some ([], cs)

/-- A text: how it writes records, and its one value, with nothing but blanks and comments around
it. -/
def parse? (text : String) : Option (Datum.RecordForm × Datum) := do
  let cs ← skipBlanks text.toList
  let (asked, rest) ← attributes (cs.length + 1) cs
  let (found, rest) ← value asked levelLimit false rest
  if (← skipBlanks rest).isEmpty then
    some (⟨false, asked.contains .explicitStructNames⟩, found)
  else none

end PetriCcs.Ron
