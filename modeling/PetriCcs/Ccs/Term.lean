import PetriCcs.Ccs.Name

/-! # CCS terms

Processes are built from inaction, guards, choice between guarded processes, parallel composition,
copies of a process in parallel, restriction and constants.  The checked constructors `choice?`
and `parallel?` ask for two operands; `sum` and `compose` accept any number and write no operator
where there is nothing to join. -/

namespace PetriCcs

/-- What a guarded process does first. -/
inductive Action where
  /-- Receives on a name. -/
  | input (name : ActionName)
  /-- Sends on a name. -/
  | co (name : ActionName)
  /-- Does an internal step. -/
  | internal
  deriving DecidableEq

/-- A process term. -/
inductive Term where
  | inaction
  | guarded (action : Action) (continuation : Term)
  | choice (summands : List (Action × Term))
  | parallel (components : List Term)
  /-- `count` copies of a process in parallel. -/
  | exponent (base : Term) (count : UInt64)
  | restriction (name : ActionName) (body : Term)
  | constant (name : ConstantName)

/-- An action and the process after it. -/
abbrev Summand := Action × Term

namespace Term

/-! ### Construction -/

/-- A choice between at least two guarded processes. -/
def choice? (summands : List Summand) : Except TermError Term :=
  if summands.length < 2 then .error (.tooFewSummands summands.length)
  else .ok (.choice summands)

/-- A composition of at least two processes. -/
def parallel? (components : List Term) : Except TermError Term :=
  if components.length < 2 then .error (.tooFewComponents components.length)
  else .ok (.parallel components)

/-- The choice between any number of guarded processes. -/
def sum : List Summand → Term
  | [] => .inaction
  | [(action, continuation)] => .guarded action continuation
  | summands => .choice summands

/-- The composition of any number of processes. -/
def compose : List Term → Term
  | [] => .inaction
  | [component] => component
  | components => .parallel components

/-- `count` copies of a process, written without an exponent when there is one or none. -/
def times (base : Term) (count : UInt64) : Term :=
  if 1 < count then .exponent base count else base

/-- The components that a process contributes to a composition. -/
def components : Term → List Term
  | .inaction => []
  | .parallel components => components
  | process => [process]

/-! ### Traversal -/

mutual

/-- The term and all its subterms, each before its own subterms. -/
def subterms : Term → List Term
  | .inaction => [.inaction]
  | .guarded action continuation => .guarded action continuation :: subterms continuation
  | .choice summands => .choice summands :: subtermsOfSummands summands
  | .parallel components => .parallel components :: subtermsOfAll components
  | .exponent base count => .exponent base count :: subterms base
  | .restriction name body => .restriction name body :: subterms body
  | .constant name => [.constant name]

def subtermsOfSummands : List (Action × Term) → List Term
  | [] => []
  | (_, continuation) :: summands => subterms continuation ++ subtermsOfSummands summands

def subtermsOfAll : List Term → List Term
  | [] => []
  | component :: components => subterms component ++ subtermsOfAll components

end

/-- The actions that guard a term at its head. -/
def headActions : Term → List Action
  | .guarded action _ => [action]
  | .choice summands => summands.map (·.1)
  | _ => []

/-- All actions of a term, in the order of its subterms. -/
def actions (process : Term) : List Action := process.subterms.flatMap headActions

end Term
end PetriCcs
