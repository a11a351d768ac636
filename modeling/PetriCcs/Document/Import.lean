import PetriCcs.Document.Basic
import PetriCcs.Document.Error
import PetriCcs.Net.Edit
import PetriCcs.Text.Digits

/-! # Building a net from a document

An import replaces what a net holds: entries are added in the order of the document, every name
as its own hint, and arcs by looking up the names declared so far.  When an entry is refused the
net is left without nodes. -/

namespace PetriCcs

/-- A change of a net that may be refused for the sake of a document. -/
abbrev ImportEdit := ExceptT DocumentError (StateM Net)

namespace Document

/-- The number of a name: `letter` and the decimal digits of a positive number, none of them
spare. -/
def parseReference (letter : Char) (reference : String) : Except DocumentError NameIndex :=
  let number := do
    let n ← match reference.toList with
      | first :: digits => if first = letter then Text.natural? 10 digits else none
      | [] => none
    if 0 < n ∧ n < UInt32.size ∧ letter :: Nat.toDigits 10 n = reference.toList then
      some n.toUInt32
    else none
  match number with
  | some n => .ok n
  | none => .error (.badReference reference)

/-- The nodes declared so far, by reference. -/
structure Declared where
  places : List (String × PlaceId) := []
  transitions : List (String × TransitionId) := []

/-- An edit as a part of an import. -/
def lift {α : Type} (edit : Edit α) : ImportEdit α :=
  ExceptT.adapt DocumentError.net edit

/-- Adds the places in order. -/
def importPlaces : List PlaceEntry → (declared : List (String × PlaceId)) →
    ImportEdit (List (String × PlaceId))
  | [], declared => return declared
  | entry :: entries, declared => do
    let name ← liftM (parseReference 'p' entry.id)
    if (declared.lookup entry.id).isSome then throw (.duplicateReference entry.id)
    let id ← lift (Edit.addPlace (some name) entry.tokens)
    importPlaces entries ((entry.id, id) :: declared)

/-- Adds the transitions in order. -/
def importTransitions : List TransitionEntry → (declared : List (String × TransitionId)) →
    ImportEdit (List (String × TransitionId))
  | [], declared => return declared
  | entry :: entries, declared => do
    let name ← liftM (parseReference 't' entry.id)
    if (declared.lookup entry.id).isSome then throw (.duplicateReference entry.id)
    let id ← lift (Edit.addTransition (some name) entry.label)
    importTransitions entries ((entry.id, id) :: declared)

/-- The node declared under a reference. -/
def Declared.resolve (declared : Declared) (reference : String) : Except DocumentError Node :=
  match declared.places.lookup reference with
  | some id => .ok (.place id)
  | none =>
    match declared.transitions.lookup reference with
    | some id => .ok (.transition id)
    | none => .error (.unknownNode reference)

/-- Adds the arcs in order. -/
def importArcs (declared : Declared) : List ArcEntry → ImportEdit Unit
  | [] => return
  | arc :: arcs => do
    let source ← liftM (declared.resolve arc.source)
    let target ← liftM (declared.resolve arc.target)
    let _ ← lift (Edit.addEdge source target arc.weight)
    importArcs declared arcs

/-- Adds all entries to the net. -/
def populate (document : Document) : ImportEdit Unit := do
  let places ← importPlaces document.places []
  let transitions ← importTransitions document.transitions []
  importArcs ⟨places, transitions⟩ document.arcs

/-- Replaces the contents of a net; after a refusal the net is empty. -/
def importInto (document : Document) : ImportEdit Unit := do
  lift Edit.clear
  tryCatch (populate document) fun error => do
    lift Edit.clear
    throw error

/-- What an import returns, and the net it leaves behind. -/
def runOn {α : Type} (edit : ImportEdit α) (net : Net) : Except DocumentError α × Net :=
  edit.run.run net

/-- The net of a document, tagged `tag`. -/
def toNet (document : Document) (tag : Nat) : Except DocumentError Net :=
  match runOn document.importInto (.empty tag) with
  | (.ok (), net) => .ok net
  | (.error error, _) => .error error

end Document
end PetriCcs
