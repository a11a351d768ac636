import PetriCcs.Error
import PetriCcs.Net.Label

/-! # Names of actions and of process constants

Both are an ASCII letter followed by letters, digits and underscores; the case of the first letter
tells them apart. -/

namespace PetriCcs

/-- A letter, a digit or an underscore of ASCII. -/
def isNameChar (c : Char) : Bool := isWordChar c || c == '_'

/-- A first character of the given class, then name characters. -/
def isName (isFirst : Char → Bool) (raw : String) : Bool :=
  match raw.toList with
  | [] => false
  | first :: rest => isFirst first && rest.all isNameChar

/-- The name of an action or of a synchronisation. -/
structure ActionName where
  text : String
  valid : isName isLowerLetter text = true
  deriving DecidableEq

/-- The name of a process constant. -/
structure ConstantName where
  text : String
  valid : isName isUpperLetter text = true
  deriving DecidableEq

def ActionName.ofString (raw : String) : Except TermError ActionName :=
  if valid : isName isLowerLetter raw = true then .ok ⟨raw, valid⟩
  else .error (.invalidActionName raw)

def ConstantName.ofString (raw : String) : Except TermError ConstantName :=
  if valid : isName isUpperLetter raw = true then .ok ⟨raw, valid⟩
  else .error (.invalidConstantName raw)

end PetriCcs
