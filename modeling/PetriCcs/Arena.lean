import PetriCcs.Handle

/-! # Dense collections addressed by handles

An arena keeps its values at the positions `0, …, size - 1` and carries the tag of its owner.  A
handle with another tag is treated like one out of range.  The only removal is `swapRemove?`,
which fills the freed position with the last value and reports the handle that value had. -/

namespace PetriCcs

/-- Values at dense positions, owned by the net tagged `owner`. -/
structure Arena (kind : Kind) (α : Type) where
  owner : Nat
  items : Array α := #[]

namespace Arena

variable {kind : Kind} {α : Type}

/-- The collection of `owner` without values. -/
def empty (owner : Nat) : Arena kind α := { owner }

def size (arena : Arena kind α) : Nat := arena.items.size

def isEmpty (arena : Arena kind α) : Bool := arena.size == 0

/-- The values in order of position. -/
def toList (arena : Arena kind α) : List α := arena.items.toList

/-- The handle of a position, used or not. -/
def handleAt (arena : Arena kind α) (position : Nat) : Handle kind := ⟨arena.owner, position⟩

/-- The handle of the value at a position, if there is one. -/
def handle? (arena : Arena kind α) (position : Nat) : Option (Handle kind) :=
  if position < arena.size then some (arena.handleAt position) else none

/-- The handle that the next `push` fills. -/
def nextHandle (arena : Arena kind α) : Handle kind := arena.handleAt arena.size

/-- The handles of all values, in order. -/
def handles (arena : Arena kind α) : List (Handle kind) :=
  (List.range arena.size).map arena.handleAt

/-- All values with their handles, in order. -/
def entries (arena : Arena kind α) : List (Handle kind × α) :=
  arena.toList.zipIdx.map fun (value, position) => (arena.handleAt position, value)

/-- Whether a handle was issued by the owner and is in range. -/
def contains (arena : Arena kind α) (handle : Handle kind) : Bool :=
  handle.owner == arena.owner && decide (handle.index < arena.size)

/-- The value under a handle; none under a foreign one. -/
def get? (arena : Arena kind α) (handle : Handle kind) : Option α :=
  if handle.owner = arena.owner then arena.items[handle.index]? else none

def push (arena : Arena kind α) (value : α) : Arena kind α :=
  { arena with items := arena.items.push value }

/-- Changes the value under a handle; fails when there is none. -/
def update? (arena : Arena kind α) (handle : Handle kind) (f : α → α) : Option (Arena kind α) :=
  if arena.contains handle then
    some { arena with items := arena.items.modify handle.index f }
  else none

/-- Changes every value. -/
def map (f : α → α) (arena : Arena kind α) : Arena kind α :=
  { arena with items := arena.items.map f }

/-- What is left of an arena after a removal. -/
structure Removal (kind : Kind) (α : Type) where
  /-- The value taken out. -/
  value : α
  /-- The former handle of the value that took over the freed position, if one did. -/
  movedFrom : Option (Handle kind)
  /-- The arena without the value. -/
  rest : Arena kind α

/-- Takes out the value under a handle and moves the last value into its position. -/
def swapRemove? (arena : Arena kind α) (handle : Handle kind) : Option (Removal kind α) :=
  match arena.get? handle, arena.items.back? with
  | some value, some last =>
    let final := arena.handleAt (arena.size - 1)
    some {
      value
      movedFrom := if final = handle then none else some final
      rest := { arena with items := (arena.items.setIfInBounds handle.index last).pop } }
  | _, _ => none

/-- Drops all values. -/
def clear (arena : Arena kind α) : Arena kind α := { arena with items := #[] }

/-- Hands the collection over to another net; handles inside the values stay as they are. -/
def retag (owner : Nat) (arena : Arena kind α) : Arena kind α := { arena with owner }

end Arena
end PetriCcs
