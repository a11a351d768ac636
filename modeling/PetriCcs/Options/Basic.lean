import PetriCcs.Config
import PetriCcs.Options.Words
import PetriCcs.Text.Digits
import PetriCcs.Text.Escape

/-! # Options

The options of a run: one input file, settings that take a value, and a flag.  Arguments are taken
from left to right.  The value of a setting may be attached to it or follow as an argument of its
own; in the second case it is looked at only when the next setting, flag or file comes, or at the
end, so a fault in the name of an argument is found before one in the value before it. -/

namespace PetriCcs

open Text (quoted)

/-- A setting that takes a value. -/
inductive Setting where
  | config
  | seed
  | style
  | dot
  deriving DecidableEq

/-- Why arguments are refused, or answered otherwise than by a run. -/
inductive OptionsError where
  | unknownArgument (argument : String)
  | missingValue (setting : Setting)
  | invalidStyle (value : String)
  | invalidSeed (value : String)
  | repeated (name : String)
  | unneededValue (name : String)
  | missingInput
  | help
  | version
  deriving DecidableEq

def Setting.name : Setting → String
  | .config => "config"
  | .seed => "seed"
  | .style => "style"
  | .dot => "dot"

/-- The options of a run. -/
structure Options where
  input : String
  config : String
  seed : Option UInt64
  style : Option RenderStyle
  dot : Option String
  noSync : Bool
  deriving DecidableEq

namespace Options

/-- Options as far as the arguments have been taken. -/
structure Draft where
  input : Option String := none
  config : Option String := none
  seed : Option UInt64 := none
  style : Option RenderStyle := none
  dot : Option String := none
  noSync : Bool := false
  /-- A setting without an attached value, and the argument after it once that has come. -/
  pending : Option (Setting × Option String) := none

/-- A seed: decimal digits, a plus sign before them allowed, up to the largest word. -/
def seed? (value : String) : Option UInt64 :=
  let digits :=
    match value.toList with
    | '+' :: rest => rest
    | cs => cs
  match Text.natural? 10 digits with
  | some n => if n < UInt64.size then some n.toUInt64 else none
  | none => none

namespace Draft

/-- Gives a setting its value; each is given once. -/
def assign (draft : Draft) (setting : Setting) (value : String) : Except OptionsError Draft :=
  match setting with
  | .config =>
    if draft.config.isSome then .error (.repeated setting.name)
    else .ok { draft with config := some value }
  | .seed =>
    if draft.seed.isSome then .error (.repeated setting.name)
    else
      match seed? value with
      | some seed => .ok { draft with seed := some seed }
      | none => .error (.invalidSeed value)
  | .style =>
    if draft.style.isSome then .error (.repeated setting.name)
    else
      match Config.style? value with
      | some style => .ok { draft with style := some style }
      | none => .error (.invalidStyle value)
  | .dot =>
    if draft.dot.isSome then .error (.repeated setting.name)
    else .ok { draft with dot := some value }

/-- Looks at the value of the pending setting. -/
def settle (draft : Draft) : Except OptionsError Draft :=
  match draft.pending with
  | none => .ok draft
  | some (setting, none) => .error (.missingValue setting)
  | some (setting, some value) => { draft with pending := none }.assign setting value

/-- Takes a setting with its attached value, or leaves it pending. -/
def set (draft : Draft) (setting : Setting) (attached : Option String) :
    Except OptionsError Draft := do
  let draft ← draft.settle
  match attached with
  | some value => draft.assign setting value
  | none => return { draft with pending := some (setting, none) }

/-- Takes the flag. -/
def setNoSync (draft : Draft) : Except OptionsError Draft := do
  let draft ← draft.settle
  if draft.noSync then throw (.repeated "no-sync")
  return { draft with noSync := true }

/-- Answers with something else than a run. -/
def answer (draft : Draft) (error : OptionsError) : Except OptionsError Draft := do
  let _ ← draft.settle
  throw error

/-- Takes an input file; there is room for one. -/
def setInput (draft : Draft) (argument : String) : Except OptionsError Draft := do
  if draft.input.isSome then throw (.unknownArgument argument)
  return { ← draft.settle with input := some argument }

/-- Takes an argument that is not an option: a pending value first, else the input file. -/
def setPlain (draft : Draft) (argument : String) : Except OptionsError Draft :=
  match draft.pending with
  | some (setting, none) => .ok { draft with pending := some (setting, some argument) }
  | _ => draft.setInput argument

/-- Takes a long option by its name. -/
def setLong (draft : Draft) (name : String) (attached : Option String) :
    Except OptionsError Draft :=
  let withoutValue (action : Except OptionsError Draft) : Except OptionsError Draft :=
    if attached.isSome then .error (.unneededValue name) else action
  match name with
  | "config" => draft.set .config attached
  | "seed" => draft.set .seed attached
  | "style" => draft.set .style attached
  | "dot" => draft.set .dot attached
  | "no-sync" => withoutValue draft.setNoSync
  | "help" => withoutValue (draft.answer .help)
  | "version" => withoutValue (draft.answer .version)
  | _ => .error (.unknownArgument ("--" ++ name))

/-- The value attached to a letter: what follows it, less an equals sign. -/
def attachedValue : List Char → Option String
  | [] => none
  | '=' :: rest => some (String.ofList rest)
  | rest => some (String.ofList rest)

/-- Takes the letters of a short option; all but settings may be run together. -/
def setShort (draft : Draft) : List Char → Except OptionsError Draft
  | [] => .ok draft
  | c :: rest =>
    match c with
    | 'c' => draft.set .config (attachedValue rest)
    | 's' => draft.set .seed (attachedValue rest)
    | 'h' => draft.answer .help
    | 'V' => draft.answer .version
    | _ => .error (.unknownArgument (String.ofList ['-', c]))

/-- Takes the arguments after a double dash, which are all plain. -/
def takePlain (draft : Draft) : List String → Except OptionsError Draft
  | [] => .ok draft
  | argument :: arguments => do takePlain (← draft.setInput argument) arguments

/-- Takes the arguments in order. -/
def take (draft : Draft) : List String → Except OptionsError Draft
  | [] => .ok draft
  | argument :: arguments =>
    match argument.toList with
    | ['-', '-'] => draft.takePlain arguments
    | '-' :: '-' :: long => do
      let (name, attached) := long.span (· ≠ '=')
      let attached := if attached.isEmpty then none else some (String.ofList attached.tail)
      take (← draft.setLong (String.ofList name) attached) arguments
    | '-' :: c :: short => do take (← draft.setShort (c :: short)) arguments
    | _ => do take (← draft.setPlain argument) arguments

end Draft

/-- The options that arguments spell. -/
def parse (arguments : List String) : Except OptionsError Options := do
  let draft ← (← ({} : Draft).take arguments).settle
  match draft.input with
  | none => throw .missingInput
  | some input =>
    return {
      input
      config := draft.config.getD "pn2ccs.toml"
      seed := draft.seed
      style := draft.style
      dot := draft.dot
      noSync := draft.noSync }

/-- The configuration after the options, which win over it. -/
def mergeInto (options : Options) (config : Config) : Config where
  seed := options.seed <|> config.seed
  render := options.style.getD config.render
  synchronise := config.synchronise && !options.noSync
  dotOutput := options.dot <|> config.dotOutput

end Options

/-- What the program says about arguments. -/
def OptionsError.message : OptionsError → String
  | .unknownArgument argument => "error: unexpected argument " ++ quoted argument
  | .missingValue setting => "error: a value is required for --" ++ setting.name
  | .invalidStyle value => "error: no render style " ++ quoted value ++ ", expected plain or rich"
  | .invalidSeed value => "error: no seed " ++ quoted value
  | .repeated name => "error: --" ++ name ++ " cannot be used multiple times"
  | .unneededValue name => "error: --" ++ name ++ " takes no value"
  | .missingInput => "error: a net document is required"
  | .help =>
    "Classify a Petri net and encode it as a CCS process\n\n"
      ++ "Usage: [OPTIONS] <FILE>\n\n"
      ++ "Arguments:\n  <FILE>  Net document (.json or .ron)\n\n"
      ++ "Options:\n"
      ++ "  -c, --config <FILE>  Configuration file [default: pn2ccs.toml]\n"
      ++ "  -s, --seed <seed>    Seed for the synchronisation pairing order\n"
      ++ "      --style <style>  Rendering of the CCS output [possible values: plain, rich]\n"
      ++ "      --dot <FILE>     Write the input net as a Graphviz file\n"
      ++ "      --no-sync        Refuse nets that need synchronisation\n"
      ++ "  -h, --help           Print help\n"
      ++ "  -V, --version        Print version\n"
  | .version => "pn2ccs v0.1.0\n"

end PetriCcs
