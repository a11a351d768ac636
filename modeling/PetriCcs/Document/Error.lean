import PetriCcs.Error

/-! # Errors of documents -/

namespace PetriCcs

open Text (quoted)

/-- Why a document cannot be read, written or built. -/
inductive DocumentError where
  | json
  | ron
  | io
  | net (error : NetError)
  | badReference (reference : String)
  | duplicateReference (reference : String)
  | unknownNode (reference : String)
  deriving DecidableEq

namespace DocumentError

/-- The message; what a reader or the file system has to say goes behind the colon. -/
def message : DocumentError → String
  | .json => "json error: "
  | .ron => "ron parse error: "
  | .io => "io error: "
  | .net error => "net rejected document: " ++ error.message
  | .badReference reference =>
    "malformed node reference " ++ quoted reference ++ ", expected pN or tN"
  | .duplicateReference reference => "node " ++ quoted reference ++ " is declared twice"
  | .unknownNode reference => "arc references undeclared node " ++ quoted reference

/-- The message followed by that of the error behind it. -/
def report : DocumentError → String
  | .net error => (DocumentError.net error).message ++ ": " ++ error.message
  | error => error.message

end DocumentError
end PetriCcs
