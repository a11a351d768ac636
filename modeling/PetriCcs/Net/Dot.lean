import PetriCcs.Net.Basic

/-! # Graph drawings

A net as a directed graph in the DOT language: one statement per place, transition and edge, each
on a line of its own.  Labels are escaped so that none can end its quotes or its line. -/

namespace PetriCcs
namespace Dot

/-- A character inside a quoted attribute. -/
def escapeChar (c : Char) : List Char :=
  if c = '"' then ['\\', '"']
  else if c = '\\' then ['\\', '\\']
  else if c = '\n' then ['\\', 'n']
  else [c]

/-- A text inside a quoted attribute. -/
def escape (text : String) : String := String.ofList (text.toList.flatMap escapeChar)

/-- The name of a node in the drawing. -/
def nodeName : Node → String
  | .place id => "place_" ++ toString id.index
  | .transition id => "trans_" ++ toString id.index

/-- The statement of a node: name, first and second line of its label, shape and colour. -/
def nodeLine (name title subtitle shape colour : String) : String :=
  "    " ++ name ++ " [label=\"" ++ title ++ "\\n" ++ subtitle ++ "\", shape=" ++ shape
    ++ ", style=filled, fillcolor=\"" ++ colour ++ "\"];"

def placeLine (id : PlaceId) (place : Place) : String :=
  nodeLine (nodeName (.place id)) place.displayName (toString place.tokens.toNat)
    "circle" "#e3f2fd"

def transitionLine (id : TransitionId) (transition : Transition) : String :=
  nodeLine (nodeName (.transition id)) transition.displayName (escape transition.label.text)
    "box" "#ffe0b2"

/-- The statement of an edge; the weight is shown when it is not 1. -/
def edgeLine (edge : Edge) : String :=
  "    " ++ nodeName edge.source ++ " -> " ++ nodeName edge.target
    ++ (if edge.weight = 1 then "" else " [label=\"" ++ toString edge.weight.toNat ++ "\"]")
    ++ ";"

/-- The lines of a drawing. -/
def lines (net : Net) : List String :=
  ["digraph PetriNet \x7b", "    rankdir=LR;", "    node [fontname=\"Helvetica\"];"]
    ++ net.places.entries.map (fun (id, place) => placeLine id place)
    ++ net.transitions.entries.map (fun (id, transition) => transitionLine id transition)
    ++ net.edges.toList.map edgeLine
    ++ ["\x7d"]

end Dot

/-- The drawing of a net, every line ended. -/
def Net.dot (net : Net) : String := String.join ((Dot.lines net).map (· ++ "\n"))

end PetriCcs
