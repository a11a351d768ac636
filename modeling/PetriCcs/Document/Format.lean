import PetriCcs.Document.Basic
import PetriCcs.Document.Error
import PetriCcs.Json.Reader
import PetriCcs.Json.Writer
import PetriCcs.Ron.Reader
import PetriCcs.Ron.Writer

/-! # Documents as text

A document is a record of three lists of records, in JSON or in RON.  Absent lists are empty, an
absent token count is 0, an absent label is internal and an absent weight is 1; the names of nodes
and the ends of arcs have to be given. -/

namespace PetriCcs

open Datum (RecordForm)

/-- The two formats of documents. -/
inductive DocumentFormat where
  | json
  | ron
  deriving DecidableEq

namespace PlaceEntry

def ofDatum? (form : RecordForm) (datum : Datum) : Option PlaceEntry := do
  let field ← datum.record? form "PlaceEntry" ["id", "tokens"]
  return ⟨← field "id" >>= Datum.text?, ← (field "tokens").elim (some 0) Datum.word?⟩

def toDatum (entry : PlaceEntry) : Datum :=
  .record "PlaceEntry" [("id", .text entry.id), ("tokens", .natural entry.tokens.toNat)]

end PlaceEntry

namespace TransitionEntry

def ofDatum? (form : RecordForm) (datum : Datum) : Option TransitionEntry := do
  let field ← datum.record? form "TransitionEntry" ["id", "label"]
  return ⟨← field "id" >>= Datum.text?, ← (field "label").elim (some tauSymbol) Datum.text?⟩

def toDatum (entry : TransitionEntry) : Datum :=
  .record "TransitionEntry" [("id", .text entry.id), ("label", .text entry.label)]

end TransitionEntry

namespace ArcEntry

def ofDatum? (form : RecordForm) (datum : Datum) : Option ArcEntry := do
  let field ← datum.record? form "ArcEntry" ["from", "to", "weight"]
  return ⟨← field "from" >>= Datum.text?, ← field "to" >>= Datum.text?,
    ← (field "weight").elim (some 1) Datum.word?⟩

def toDatum (entry : ArcEntry) : Datum :=
  .record "ArcEntry" [("from", .text entry.source), ("to", .text entry.target),
    ("weight", .natural entry.weight.toNat)]

end ArcEntry

namespace Document

def ofDatum? (form : RecordForm) (datum : Datum) : Option Document := do
  let field ← datum.record? form "NetDocument" ["places", "transitions", "arcs"]
  return {
    places := ← Datum.optionalList (PlaceEntry.ofDatum? form) (field "places")
    transitions := ← Datum.optionalList (TransitionEntry.ofDatum? form) (field "transitions")
    arcs := ← Datum.optionalList (ArcEntry.ofDatum? form) (field "arcs") }

def toDatum (document : Document) : Datum :=
  .record "NetDocument" [("places", .list (document.places.map PlaceEntry.toDatum)),
    ("transitions", .list (document.transitions.map TransitionEntry.toDatum)),
    ("arcs", .list (document.arcs.map ArcEntry.toDatum))]

/-- Reads a document from JSON, where a list may stand for a record. -/
def ofJson (text : String) : Except DocumentError Document :=
  match Json.parse? text >>= ofDatum? ⟨true, false⟩ with
  | some document => .ok document
  | none => .error .json

/-- Reads a document from RON. -/
def ofRon (text : String) : Except DocumentError Document :=
  match Ron.parse? text >>= fun (form, datum) => ofDatum? form datum with
  | some document => .ok document
  | none => .error .ron

def toJson (document : Document) : String := Json.print document.toDatum

def toRon (document : Document) : String := Ron.print document.toDatum

/-- Reads a document in a format. -/
def parse : DocumentFormat → String → Except DocumentError Document
  | .json => ofJson
  | .ron => ofRon

/-- Writes a document in a format. -/
def print : DocumentFormat → Document → String
  | .json => toJson
  | .ron => toRon

end Document
end PetriCcs
