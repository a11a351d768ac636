import PetriCcs.Handle
import PetriCcs.Text.Escape

/-! # Errors of nets and terms

Every refusal is a cause with the data that explains it; `message` is the one place where the
wording stands. -/

namespace PetriCcs

open Text (quoted)

/-- Why a term cannot be built. -/
inductive TermError where
  | invalidActionName (raw : String)
  | invalidConstantName (raw : String)
  | tooFewSummands (count : Nat)
  | tooFewComponents (count : Nat)
  deriving DecidableEq

def TermError.message : TermError → String
  | .invalidActionName raw =>
    quoted raw ++ " is not an action name (must start with a lowercase letter)"
  | .invalidConstantName raw =>
    quoted raw ++ " is not a process constant (must start with an uppercase letter)"
  | .tooFewSummands count => "choice needs at least two operands, got " ++ toString count
  | .tooFewComponents count =>
    "parallel composition needs at least two operands, got " ++ toString count

/-- Why an argument of an edit makes no sense in any net. -/
inductive Misuse where
  /-- The label of a new transition. -/
  | newLabel (raw : String)
  /-- The label put on an existing transition. -/
  | replacementLabel (raw : String)
  | zeroName
  | consumingWeight (weight : UInt64)
  | producingWeight
  | sameSide (source target : Node)
  | term (error : TermError)
  deriving DecidableEq

def Misuse.message : Misuse → String
  | .newLabel raw =>
    "transition label " ++ quoted raw ++
      " is neither τ nor a lowercase-starting alphanumeric action"
  | .replacementLabel raw => "invalid transition label " ++ quoted raw
  | .zeroName => "display-name indices start at 1"
  | .consumingWeight weight =>
    "place -> transition edges carry weight 1, got " ++ toString weight.toNat
  | .producingWeight => "transition -> place edges carry a positive weight"
  | .sameSide source target =>
    "edge " ++ source.text ++ " -> " ++ target.text ++ " does not join a place and a transition"
  | .term error => error.message

/-- What an operation needs the net to be. -/
inductive Requirement where
  /-- Synchronisation starts from a net of one of its two classes. -/
  | synchronisable
  /-- Splitting the groups of a group-choice net leaves binary joins only. -/
  | splittable
  /-- Encoding starts from a net with binary `τ` joins only. -/
  | encodable
  deriving DecidableEq

def Requirement.message : Requirement → String
  | .synchronisable => "synchronisation requires a group-choice or 2-τ-synchronisation net"
  | .splittable => "synchronisation requires a group-choice net"
  | .encodable => "CCS encoding requires a 2-τ-synchronisation net"

/-- A reference kept inside the library that leads nowhere. -/
inductive Dangling where
  | node (node : Node)
  | edge (edge : EdgeId)
  | position (position : Nat)
  deriving DecidableEq

def Dangling.text : Dangling → String
  | .node n => n.text
  | .edge e => e.text
  | .position i => "position " ++ toString i

/-- Why an operation on a net is refused. -/
inductive NetError where
  | invalidArgument (misuse : Misuse)
  | duplicateEdge (source target : Node)
  | unrelatedNode (node : Node)
  | unrelatedEdge (edge : EdgeId)
  | structuralMismatch (requirement : Requirement)
  /-- Not a refusal but a fault: the net is not consistent. -/
  | dangling (reference : Dangling)
  deriving DecidableEq

def NetError.message : NetError → String
  | .invalidArgument misuse => "invalid argument: " ++ misuse.message
  | .duplicateEdge source target =>
    "an edge from " ++ source.text ++ " to " ++ target.text ++ " already exists"
  | .unrelatedNode node => node.text ++ " does not belong to this net"
  | .unrelatedEdge edge => edge.text ++ " does not belong to this net"
  | .structuralMismatch requirement => requirement.message
  | .dangling reference => reference.text ++ " is referred to but leads nowhere"

end PetriCcs
