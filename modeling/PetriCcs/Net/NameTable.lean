/-! # Allocation of display names

A display name is a positive number, unique within the places and within the transitions of a
net.  A table keeps the names in use, and the names below the counter `next` that were given
back; names in use above the counter are jumped over when the counter reaches them.  So the
smallest free name is the smallest one given back, or the counter. -/

namespace PetriCcs

/-- The number in the display name of a node. -/
abbrev NameIndex := UInt32

/-- The names of one kind of node. -/
structure NameTable where
  /-- Names in use. -/
  used : List NameIndex := []
  /-- Names below `next` that are free. -/
  released : List NameIndex := []
  /-- The first name never reached by the counter. -/
  next : NameIndex := 1
  deriving DecidableEq

namespace NameTable

/-- The table without names. -/
def empty : NameTable := {}

def isTaken (table : NameTable) (name : NameIndex) : Bool := table.used.contains name

/-- The smallest name given back, or else the counter. -/
def firstFree (table : NameTable) : NameIndex := table.released.min?.getD table.next

/-- The hint when it is free, the first free name otherwise. -/
def resolve (table : NameTable) (hint : Option NameIndex) : NameIndex :=
  match hint with
  | some name => if table.isTaken name then table.firstFree else name
  | none => table.firstFree

/-- The first name from `name` on that is not in `used`, in at most `steps` steps. -/
def skipUsed (used : List NameIndex) : Nat → NameIndex → NameIndex
  | 0, name => name
  | steps + 1, name => if used.contains name then skipUsed used steps (name + 1) else name

/-- Takes a name into use; nothing changes when it already is.  The names in use bound the number
of steps the counter can jump ahead. -/
def claim (table : NameTable) (name : NameIndex) : NameTable :=
  if table.isTaken name then table
  else
    let used := name :: table.used
    if name < table.next then
      { table with used, released := table.released.filter (· ≠ name) }
    else if name = table.next then
      { table with used, next := skipUsed used used.length (name + 1) }
    else { table with used }

/-- Gives a name back; nothing changes when it is not in use. -/
def release (table : NameTable) (name : NameIndex) : NameTable :=
  if table.isTaken name then
    let used := table.used.filter (· ≠ name)
    if name < table.next then { table with used, released := name :: table.released }
    else { table with used }
  else table

end NameTable
end PetriCcs
