import PetriCcs.Toml.Scalar

/-! # Reading TOML

A text is a sequence of lines: table headers and assignments of values to keys.  Tables are
gathered in a tree that remembers how each of them came about, since a table may be opened by one
header only, and neither headers nor dotted keys may reach into a value. -/

namespace PetriCcs.Toml

open Text (after?)

/-- How a table came about. -/
inductive Origin where
  /-- By its own header. -/
  | header
  /-- On the way to another header. -/
  | implied
  /-- By a dotted key. -/
  | dotted
  deriving DecidableEq

/-- What a key stands for. -/
inductive Item where
  | value (datum : Datum)
  | table (origin : Origin) (entries : List (String × Item))
  /-- The tables of an array, the last one first. -/
  | tables (elements : List (List (String × Item)))

/-- The entries of a table, in order. -/
abbrev Entries := List (String × Item)

namespace Entries

/-- Writes an item under a key, in place when the key is there. -/
def put (key : String) (item : Item) : Entries → Entries
  | [] => [(key, item)]
  | (other, old) :: rest =>
    if other = key then (key, item) :: rest else (other, old) :: put key item rest

/-- Adds an assignment below a dotted key, through the last table of every array.  The tables on
the way may not have headers, and the last of them has to come from a dotted key itself. -/
def assign (datum : Datum) : (path : List String) → Entries → Option Entries
  | [], _ => none
  | [key], entries =>
    match entries.lookup key with
    | none => some (entries.put key (.value datum))
    | some _ => none
  | key :: path, entries =>
    match entries.lookup key with
    | none => do return entries.put key (.table .dotted (← assign datum path []))
    | some (.table .header _) => none
    | some (.table origin inner) => do
      if origin = .implied && path.length = 1 then none
      return entries.put key (.table origin (← assign datum path inner))
    | some (.tables (last :: before)) => do
      if path.length = 1 then none
      return entries.put key (.tables ((← assign datum path last) :: before))
    | some _ => none

/-- Changes the table that a header leads to, through the last table of every array. -/
def within (change : Entries → Option Entries) : (path : List String) → Entries → Option Entries
  | [], entries => change entries
  | key :: path, entries =>
    match entries.lookup key with
    | none => do return entries.put key (.table .implied (← within change path []))
    | some (.table origin inner) => do
      return entries.put key (.table origin (← within change path inner))
    | some (.tables (last :: before)) => do
      return entries.put key (.tables ((← within change path last) :: before))
    | some _ => none

/-- Opens a table by its header. -/
def openTable (key : String) (entries : Entries) : Option Entries :=
  match entries.lookup key with
  | none => some (entries.put key (.table .header []))
  | some (.table .implied inner) => some (entries.put key (.table .header inner))
  | some _ => none

/-- Opens another table of an array. -/
def openElement (key : String) (entries : Entries) : Option Entries :=
  match entries.lookup key with
  | none => some (entries.put key (.tables [[]]))
  | some (.tables elements) => some (entries.put key (.tables ([] :: elements)))
  | some _ => none

mutual

/-- The table as a record. -/
def datum : List (String × Item) → List (String × Datum)
  | [] => []
  | (key, item) :: rest => (key, itemDatum item) :: datum rest

def itemDatum : Item → Datum
  | .value d => d
  | .table _ entries => .record none (datum entries)
  | .tables elements => .list (elementsDatum elements).reverse

def elementsDatum : List (List (String × Item)) → List Datum
  | [] => []
  | entries :: rest => .record none (datum entries) :: elementsDatum rest

end

end Entries

/-! ### Values -/

/-- Reads a value at the head of the characters that are left. -/
abbrev Read := List Char → Option (Datum × List Char)

/-- The values of an array up to its closing bracket; a comma may stand before it.  Every value
spends one unit of fuel. -/
def elements (element : Read) : (fuel : Nat) → List Char → Option (List Datum × List Char)
  | 0, _ => none
  | fuel + 1, cs => do
    match ← skipLines cs with
    | ']' :: rest => return ([], rest)
    | start =>
      let (first, rest) ← element start
      match ← skipLines rest with
      | ',' :: rest =>
        let (more, rest) ← elements element fuel rest
        return (first :: more, rest)
      | ']' :: rest => return ([first], rest)
      | _ => none

/-- The assignments of an inline table up to its closing brace, which may be on several lines; a
comma may stand before the brace.  Every assignment spends one unit of fuel. -/
def pairs (element : Read) : (fuel : Nat) → Entries → List Char → Option (Entries × List Char)
  | 0, _, _ => none
  | fuel + 1, entries, cs => do
    match ← skipLines cs with
    | '\x7d' :: rest => return (entries, rest)
    | start =>
      let (path, rest) ← key? start
      let rest ← after? '=' (← skipLines rest)
      let (found, rest) ← element (← skipLines rest)
      let entries ← entries.assign found path
      match ← skipLines rest with
      | ',' :: rest => pairs element fuel entries rest
      | '\x7d' :: rest => return (entries, rest)
      | _ => none

/-- A value at the head of the text, where `levels` more arrays and inline tables may nest. -/
def value : (levels : Nat) → Read
  | 0, cs =>
    match cs with
    | '[' :: _ | '\x7b' :: _ => none
    | _ => scalar? cs
  | levels + 1, cs =>
    match cs with
    | '[' :: rest => do
      let (found, rest) ← elements (value levels) (rest.length + 1) rest
      return (.list found, rest)
    | '\x7b' :: rest => do
      let (found, rest) ← pairs (value levels) (rest.length + 1) [] rest
      return (.record none (Entries.datum found), rest)
    | _ => scalar? cs

/-! ### Lines -/

/-- A header: the path of its table, and whether it opens an element of an array. -/
def header? (cs : List Char) : Option ((List String × Bool) × List Char) :=
  match cs with
  | '[' :: '[' :: rest => do
    let (path, rest) ← key? rest
    match rest with
    | ']' :: ']' :: rest => return ((path, true), rest)
    | _ => none
  | '[' :: rest => do
    let (path, rest) ← key? rest
    match rest with
    | ']' :: rest => return ((path, false), rest)
    | _ => none
  | _ => none

/-- Opens the table that a header names. -/
def openHeader (path : List String) (element : Bool) (root : Entries) : Option Entries :=
  match path.getLast? with
  | none => none
  | some key =>
    root.within (if element then Entries.openElement key else Entries.openTable key) path.dropLast

/-- The lines of a text, assigned below the table that the last header opened; every line spends
one unit of fuel. -/
def lines : (fuel : Nat) → (path : List String) → (root : Entries) → List Char → Option Entries
  | 0, _, _, _ => none
  | fuel + 1, path, root, cs => do
    match ← skipLines cs with
    | [] => some root
    | '[' :: rest =>
      let ((path, element), rest) ← header? ('[' :: rest)
      let root ← openHeader path element root
      lines fuel path root (← endLine rest)
    | rest =>
      let (key, rest) ← key? rest
      match rest with
      | '=' :: rest =>
        let (found, rest) ← value levelLimit (skipBlanks rest)
        let root ← root.within (Entries.assign found key) path
        lines fuel path root (← endLine rest)
      | _ => none

/-- The table that a text is; a byte order mark may stand first. -/
def parse? (text : String) : Option Datum := do
  let cs :=
    match text.toList with
    | '\ufeff' :: cs => cs
    | cs => cs
  return .record none (Entries.datum (← lines (cs.length + 1) [] [] cs))

end PetriCcs.Toml
