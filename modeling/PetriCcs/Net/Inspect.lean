import PetriCcs.Net.Basic
import PetriCcs.Text.Escape

/-! # A net laid open

One line with the contents of a collection or a net as they are stored, for diagnosis. -/

namespace PetriCcs
namespace Inspect

open Text (quoted)

/-- The name of a type of handle. -/
def handleType : Kind → String
  | .place => "PlaceId"
  | .transition => "TransitionId"
  | .edge => "EdgeId"

def handle {kind : Kind} (h : Handle kind) : String :=
  handleType kind ++ "(" ++ toString h.index ++ ",)"

/-- Items between brackets. -/
def list (items : List String) : String := "[" ++ ", ".intercalate items ++ "]"

/-- Named fields between braces after the name of their type. -/
def record (name : String) (fields : List (String × String)) : String :=
  name ++ " \x7b " ++ ", ".intercalate (fields.map fun (key, value) => key ++ ": " ++ value)
    ++ " \x7d"

def place (p : Place) : String :=
  record "Place" [("id", handle p.id), ("name", toString p.name.toNat),
    ("tokens", toString p.tokens.toNat), ("incoming", list (p.incoming.map handle)),
    ("outgoing", list (p.outgoing.map handle))]

def transition (t : Transition) : String :=
  "Transition(" ++ quoted t.displayName ++ ", " ++ quoted t.label.text ++ ")"

def node : Node → String
  | .place id => "Place(" ++ handle id ++ ")"
  | .transition id => "Transition(" ++ handle id ++ ")"

def edge (e : Edge) : String :=
  record "Edge" [("id", handle e.id), ("from", node e.source), ("to", node e.target),
    ("weight", toString e.weight.toNat)]

/-- The values of a collection, each shown by `item`. -/
def arena {kind : Kind} {α : Type} (item : α → String) (a : Arena kind α) : String :=
  list (a.toList.map item)

end Inspect

/-- The places, transitions and edges of a net. -/
def Net.inspect (net : Net) : String :=
  Inspect.record "Net" [("places", Inspect.arena Inspect.place net.places),
    ("transitions", Inspect.arena Inspect.transition net.transitions),
    ("edges", Inspect.arena Inspect.edge net.edges)]

end PetriCcs
