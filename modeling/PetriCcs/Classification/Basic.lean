import PetriCcs.Classification.Choice
import PetriCcs.Classification.Workflow

/-! # Classification

The structural classes of a net, all five at once. -/

namespace PetriCcs

/-- The classes that a net belongs to. -/
structure NetClass where
  ccs : Bool
  twoTauSynchronisation : Bool
  freeChoice : Bool
  groupChoice : Bool
  workflow : Bool
  deriving DecidableEq

/-- The classes of a net. -/
def Net.classify (net : Net) : NetClass where
  ccs := net.isCcs
  twoTauSynchronisation := net.isTwoTauSynchronisation
  freeChoice := net.isFreeChoice
  groupChoice := net.isGroupChoice
  workflow := net.isWorkflow

namespace NetClass

/-- The classes as bits, the first one lowest. -/
def bits (cls : NetClass) : Nat :=
  cls.ccs.toNat + 2 * cls.twoTauSynchronisation.toNat + 4 * cls.freeChoice.toNat
    + 8 * cls.groupChoice.toNat + 16 * cls.workflow.toNat

/-- The names of the classes that hold. -/
def names (cls : NetClass) : List String :=
  ([(cls.ccs, "CCS"), (cls.twoTauSynchronisation, "2-τ-synchronisation"),
    (cls.freeChoice, "free-choice"), (cls.groupChoice, "group-choice"),
    (cls.workflow, "workflow")].filter (·.1)).map (·.2)

/-- The names in a row, or a word of their absence. -/
def text (cls : NetClass) : String :=
  if cls.names.isEmpty then "unclassified" else ", ".intercalate cls.names

end NetClass
end PetriCcs
