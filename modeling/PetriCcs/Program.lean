import PetriCcs.Ccs.Encoding
import PetriCcs.Document.Import
import PetriCcs.Files.Access
import PetriCcs.Net.Dot
import PetriCcs.Options.Basic
import PetriCcs.Random.ChaCha
import PetriCcs.Sync.Basic

/-! # The program

A run reads its options, its configuration and a net document, draws the net if it is asked to,
reports the classes of the net, and prints its CCS encoding, after a synchronisation where one is
needed.  The run is written over a `FileAccess`, so that it means the same on a real file system
and on a directory in memory. -/

namespace PetriCcs

open Text (quoted)

/-- Why a run ends without an encoding. -/
inductive RunError where
  | flags
  | options (error : OptionsError)
  | configUnreadable (path : String) (error : FileError)
  | configMalformed (path : String)
  /-- The file with the document cannot be read. -/
  | load (path : String) (error : DocumentError)
  /-- No net can be built from the document. -/
  | build (error : DocumentError)
  | drawing (path : String) (error : FileError)
  | synchronisationDisabled
  | notEncodable
  | net (error : NetError)

/-- The causes from the outermost to the innermost, parted by colons. -/
def RunError.message : RunError → String
  | .flags => "malformed PN2CCS_FLAGS: mismatched quotes"
  | .options error => error.message
  | .configUnreadable path error =>
    "Failed to read config file: " ++ quoted path ++ ": " ++ error.message
  | .configMalformed path => "Failed to parse config file: " ++ quoted path
  | .load path error => "Failed to load net from " ++ quoted path ++ ": " ++ error.report
  | .build error => error.report
  | .drawing path error => "Failed to write dot file " ++ quoted path ++ ": " ++ error.message
  | .synchronisationDisabled => "net needs synchronisation, which is disabled"
  | .notEncodable => "net cannot be encoded as a CCS process"
  | .net error => error.message

namespace Program

section
variable {σ : Type} [RandomSource σ]

/-- The synchronisation of a net, with the source of the seed if there is one and otherwise with a
given source. -/
def synchronisation (config : Config) (net : Net) (source : σ) : Except NetError Sync.Result :=
  match config.seed with
  | some seed => Prod.fst <$> net.synchronise (net.tag + 1) (ChaCha.Stream.ofSeed seed)
  | none => Prod.fst <$> net.synchronise (net.tag + 1) source

/-- The net to encode: the given one, or its synchronisation when it needs and is granted one. -/
def prepare (config : Config) (net : Net) (source : σ) : Except RunError Net :=
  let cls := net.classify
  if cls.twoTauSynchronisation then .ok net
  else if cls.groupChoice then
    if config.synchronise then
      match synchronisation config net source with
      | .ok result => .ok result.net
      | .error error => .error (.net error)
    else .error .synchronisationDisabled
  else .error .notEncodable

/-- The encoding of a net under a configuration. -/
def encode (config : Config) (net : Net) (source : σ) : Except RunError Encoding := do
  let prepared ← prepare config net source
  match prepared.encode with
  | .ok encoding => .ok encoding
  | .error error => .error (.net error)

/-- The lines printed for a net, and the reason why there are no more of them. -/
def report (config : Config) (net : Net) (source : σ) : String × Except RunError Unit :=
  let classes := "classes: " ++ net.classify.text ++ "\n"
  match encode config net source with
  | .ok encoding => (classes ++ encoding.render config.render ++ "\n", .ok ())
  | .error error => (classes, .error error)

end

/-- What a run leaves behind, apart from files. -/
structure Outcome where
  exit : UInt32
  stdout : String
  stderr : String

variable {m : Type → Type} [Monad m]

/-- The arguments of a run, those in the flags last. -/
def arguments (args : List String) : (flags : Option String) → Except RunError (List String)
  | none => .ok args
  | some flags =>
    match words? flags with
    | some words => .ok (args ++ words)
    | none => .error .flags

/-- The configuration in a file; the default one when there is no such file. -/
def loadConfig (files : FileAccess m) (path : String) : m (Except RunError Config) := do
  if ← files.exists? path then
    match ← files.read path with
    | .error error => return .error (.configUnreadable path error)
    | .ok text =>
      match Config.ofToml? text with
      | some config => return .ok config
      | none => return .error (.configMalformed path)
  else return .ok {}

/-- The net in a file. -/
def loadNet (files : FileAccess m) (path : String) : m (Except RunError Net) := do
  match ← files.readDocument path with
  | .error error => return .error (.load path error)
  | .ok document => return (document.toNet 0).mapError .build

/-- Draws the net when the configuration says where. -/
def draw (files : FileAccess m) (config : Config) (net : Net) : m (Except RunError Unit) := do
  match config.dotOutput with
  | none => return .ok ()
  | some path => return (← files.writeDrawing path net.dot).mapError (.drawing path)

/-- The work of a run up to its report: the configuration and the net. -/
def load (files : FileAccess m) (args : List String) (flags : Option String) :
    ExceptT RunError m (Config × Net) := do
  let args ← liftM (arguments args flags)
  let options ← liftM ((Options.parse args).mapError RunError.options)
  let config := options.mergeInto (← ExceptT.mk (loadConfig files options.config))
  let net ← ExceptT.mk (loadNet files options.input)
  ExceptT.mk (draw files config net)
  return (config, net)

/-- What is printed about an error. -/
def complaint (error : RunError) : String := "pn2ccs: " ++ error.message ++ "\n"

/-- A whole run; the source is used when there is no seed. -/
def runFrom {σ : Type} [RandomSource σ] (source : σ) (files : FileAccess m) (args : List String)
    (flags : Option String) : m Outcome := do
  match ← (load files args flags).run with
  | .error error => return ⟨1, "", complaint error⟩
  | .ok (config, net) =>
    match report config net source with
    | (stdout, .ok ()) => return ⟨0, stdout, ""⟩
    | (stdout, .error error) => return ⟨1, stdout, complaint error⟩

/-- A run that can be repeated: a number stands in for an absent seed. -/
def run (files : FileAccess m) (args : List String) (flags : Option String) (seed : UInt64) :
    m Outcome :=
  runFrom (ChaCha.Stream.ofSeed seed) files args flags

end Program
end PetriCcs
