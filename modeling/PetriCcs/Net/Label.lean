/-! # Transition labels

A transition either does an internal step or shows a visible action.  `Label.parse?` is the
checked way from text to label; a label built from any other text is representable, and the
edits that take a finished label store it as it is. -/

namespace PetriCcs

/-- The symbol of the internal action. -/
def tauSymbol : String := "τ"

/-- A lower-case letter of ASCII. -/
def isLowerLetter (c : Char) : Bool := 'a' ≤ c && c ≤ 'z'

/-- An upper-case letter of ASCII. -/
def isUpperLetter (c : Char) : Bool := 'A' ≤ c && c ≤ 'Z'

/-- A letter or digit of ASCII. -/
def isWordChar (c : Char) : Bool := isLowerLetter c || isUpperLetter c || ('0' ≤ c && c ≤ '9')

/-- What a transition does when it fires. -/
inductive Label where
  | tau
  | visible (action : String)
  deriving DecidableEq

namespace Label

/-- A visible action: a lower-case letter, then letters and digits. -/
def isVisibleAction (raw : String) : Bool :=
  match raw.toList with
  | [] => false
  | first :: rest => isLowerLetter first && rest.all isWordChar

/-- Reads the symbol of the internal action or a visible action. -/
def parse? (raw : String) : Option Label :=
  if raw = tauSymbol then some .tau
  else if isVisibleAction raw then some (.visible raw)
  else none

def isTau : Label → Bool
  | .tau => true
  | .visible _ => false

/-- The label as it is written in a document. -/
def text : Label → String
  | .tau => tauSymbol
  | .visible action => action

end Label
end PetriCcs
