/-! # Structured data

What a data format can say, as far as documents and configurations need it: numbers, texts, truth
values, lists, records.  A value that no field accepts is kept as `other`.  A record is read
through `record?`, which knows the names of its fields: each of them may be given once, others may
be present. -/

namespace PetriCcs

/-- A structured value. -/
inductive Datum where
  | natural (n : Nat)
  | text (s : String)
  | boolean (b : Bool)
  | list (items : List Datum)
  | record (name : Option String) (fields : List (String × Datum))
  | other

namespace Datum

/-- The value of a 64-bit number. -/
def word? : Datum → Option UInt64
  | .natural n => if n < UInt64.size then some n.toUInt64 else none
  | _ => none

def text? : Datum → Option String
  | .text s => some s
  | _ => none

def boolean? : Datum → Option Bool
  | .boolean b => some b
  | _ => none

def list? : Datum → Option (List Datum)
  | .list items => some items
  | _ => none

/-- No key is given twice. -/
def givenOnce (keys : List String) (fields : List (String × Datum)) : Bool :=
  keys.all fun key => (fields.filter (·.1 == key)).length ≤ 1

/-- How a format writes records. -/
structure RecordForm where
  /-- A list may stand for a record and gives its first fields in order. -/
  positional : Bool := false
  /-- The name of a record may not be left out. -/
  named : Bool := false

/-- Whether a record may have the given name, or none. -/
def RecordForm.accepts (form : RecordForm) (name : String) : (given : Option String) → Bool
  | some given => given == name
  | none => !form.named

/-- The fields of the record `name`: the value given for each key, if there is one. -/
def record? (form : RecordForm) (name : String) (keys : List String) :
    Datum → Option (String → Option Datum)
  | .record given fields =>
    if form.accepts name given && givenOnce keys fields then some fun key => fields.lookup key
    else none
  | .list items =>
    if form.positional && items.length ≤ keys.length then
      some fun key => (keys.zip items).lookup key
    else none
  | _ => none

/-- A list of values, each read by `item`; absent means empty. -/
def optionalList {α : Type} (item : Datum → Option α) : Option Datum → Option (List α)
  | none => some []
  | some datum => datum.list? >>= List.mapM item

end Datum
end PetriCcs
