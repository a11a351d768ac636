import PetriCcs.Ccs.Printer
import PetriCcs.Toml.Reader

/-! # Configuration

What a run of the program is told besides its input: a seed for the order of merging, the style
of the output, whether nets that need synchronisation are given one, and where to draw the
net. -/

namespace PetriCcs

structure Config where
  seed : Option UInt64 := none
  render : RenderStyle := .plain
  synchronise : Bool := true
  dotOutput : Option String := none
  deriving DecidableEq

namespace Config

/-- The style of a name. -/
def style? : String → Option RenderStyle
  | "plain" => some .plain
  | "rich" => some .rich
  | _ => none

/-- A style is written as its name, or as a table with the name for its only key and nothing under
it. -/
def style : Datum → Option RenderStyle
  | .text name => style? name
  | .record _ [(name, .record _ [])] => style? name
  | .record _ [(name, .list [])] => style? name
  | _ => none

/-- An optional value: absent is fine, present has to be readable. -/
def optional {α : Type} (read : Datum → Option α) : Option Datum → Option (Option α)
  | none => some none
  | some datum => (read datum).map some

/-- The configuration in a record; what is absent keeps its default. -/
def ofDatum? (datum : Datum) : Option Config := do
  let field ← datum.record? {} "" ["seed", "render", "synchronize", "dot_output"]
  let seed ← optional Datum.word? (field "seed")
  let render ← optional style (field "render")
  let synchronise ← optional Datum.boolean? (field "synchronize")
  let dotOutput ← optional Datum.text? (field "dot_output")
  return {
    seed
    render := render.getD .plain
    synchronise := synchronise.getD true
    dotOutput }

/-- Reads a configuration from TOML. -/
def ofToml? (text : String) : Option Config := Toml.parse? text >>= ofDatum?

end Config
end PetriCcs
