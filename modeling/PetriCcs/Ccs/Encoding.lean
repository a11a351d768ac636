import PetriCcs.Ccs.Printer
import PetriCcs.Classification.Choice

/-! # The CCS encoding of a net

Every place `p` becomes a constant `X_p`, defined as the choice between the transitions that it
feeds.  A transition with one input contributes its action and the places it produces into.  A
transition with two inputs becomes a handshake on a restricted name `s_t`: the first place that it
is met at sends, the other one receives and goes on with what is produced.  A transition without
inputs becomes a constant `X_t` that starts again each time.  The initial process holds every
marked place as often as it has tokens, and all constants `X_t`. -/

namespace PetriCcs

/-- Defining equations in the order in which their names came up. -/
abbrev Definitions := List (ConstantName × Term)

/-- Gives a name its body: in place when it has one, at the end otherwise. -/
def Definitions.insert (name : ConstantName) (body : Term) : Definitions → Definitions
  | [] => [(name, body)]
  | (other, old) :: rest =>
    if other = name then (name, body) :: rest else (other, old) :: insert name body rest

/-- A process with its defining equations. -/
structure Encoding where
  /-- The constants of the places in order, then those of the transitions without inputs. -/
  definitions : Definitions
  initial : Term
  /-- The restricted names in increasing order. -/
  syncNames : List ActionName

namespace Encoding

/-- One equation a line, then the initial process. -/
def render (encoding : Encoding) (style : RenderStyle) : String :=
  String.join (encoding.definitions.map fun (name, body) =>
    (Term.constant name).render style ++ " := " ++ body.render style ++ "\n")
    ++ encoding.initial.render style

/-! ### Names -/

/-- A refused term is an invalid argument. -/
def ofTerm {α : Type} (result : Except TermError α) : Except NetError α :=
  result.mapError fun error => .invalidArgument (.term error)

def placeConstant (place : Place) : Except NetError ConstantName :=
  ofTerm (ConstantName.ofString ("X_" ++ place.displayName))

def generatorConstant (transition : Transition) : Except NetError ConstantName :=
  ofTerm (ConstantName.ofString ("X_" ++ transition.displayName))

def syncName (transition : Transition) : Except NetError ActionName :=
  ofTerm (ActionName.ofString ("s_" ++ transition.displayName))

def labelAction : Label → Except NetError Action
  | .tau => .ok .internal
  | .visible name => (ofTerm (ActionName.ofString name)).map .input

/-! ### Transitions -/

/-- What a transition contributes. -/
inductive Branch where
  /-- A constant of its own. -/
  | generator (name : ConstantName) (body : Term)
  /-- A summand of its input place. -/
  | single (summand : Summand)
  /-- A summand of its receiving place, and the name on which the other one sends. -/
  | sync (name : ActionName) (receive : Summand)

/-- The constant of a place of the net, with an exponent for a count above one. -/
def copies (net : Net) (id : PlaceId) (count : Weight) : Except NetError Term :=
  match net.place? id with
  | none => .error (.dangling (.node (.place id)))
  | some place => do return (Term.constant (← placeConstant place)).times count

/-- The composition of what a transition produces. -/
def produced (net : Net) (transition : TransitionId) : Except NetError Term := do
  let components ← (net.postset transition).mapM fun (place, weight) => copies net place weight
  return .compose components

/-- The contribution of a transition, by the number of its inputs. -/
def branch (net : Net) (transition : Transition) : Except NetError Branch := do
  let continuation ← produced net transition.id
  match transition.incoming.length with
  | 0 =>
    let name ← generatorConstant transition
    let action ← labelAction transition.label
    return .generator name
      (.guarded action (.compose (continuation.components ++ [.constant name])))
  | 1 => return .single (← labelAction transition.label, continuation)
  | 2 =>
    let name ← syncName transition
    return .sync name (.input name, continuation)
  | _ => throw (.structuralMismatch .encodable)

def Branch.generator? : Branch → Option (ConstantName × Term)
  | .generator name body => some (name, body)
  | _ => none

def Branch.syncName? : Branch → Option ActionName
  | .sync name _ => some name
  | _ => none

/-! ### Places -/

/-- The summands that the listed consumers contribute to a place, where `sending` are the
transitions that have a sender already. -/
def summands (branches : List Branch) : (consumers sending : List TransitionId) →
    Except NetError (List Summand × List TransitionId)
  | [], sending => .ok ([], sending)
  | consumer :: consumers, sending =>
    match branches[consumer.index]? with
    | none => .error (.dangling (.node (.transition consumer)))
    | some (.generator _ _) => summands branches consumers sending
    | some (.single summand) => do
      let (rest, sending) ← summands branches consumers sending
      return (summand :: rest, sending)
    | some (.sync name receive) =>
      if sending.contains consumer then do
        let (rest, sending) ← summands branches consumers sending
        return (receive :: rest, sending)
      else do
        let (rest, sending) ← summands branches consumers (consumer :: sending)
        return ((.co name, .inaction) :: rest, sending)

/-- The equations of the listed places. -/
def placeDefinitions (net : Net) (branches : List Branch) :
    (places : List Place) → (sending : List TransitionId) → Except NetError Definitions
  | [], _ => .ok []
  | place :: places, sending => do
    let (choices, sending) ← summands branches (net.consumers place.id) sending
    let name ← placeConstant place
    let rest ← placeDefinitions net branches places sending
    return (name, .sum choices) :: rest

/-- The constants of the marked places, each as often as there are tokens. -/
def marked (net : Net) : Except NetError (List Term) :=
  (net.places.toList.filter (0 < ·.tokens)).mapM fun place => do
    return (Term.constant (← placeConstant place)).times place.tokens

/-- Restricts a process to a list of names, the first outermost. -/
def restrict (names : List ActionName) (process : Term) : Term :=
  names.foldr .restriction process

end Encoding

/-- The encoding of a 2-τ-synchronisation net; others are refused. -/
def Net.encode (net : Net) : Except NetError Encoding := do
  unless net.isTwoTauSynchronisation do throw (.structuralMismatch .encodable)
  let branches ← net.transitions.toList.mapM (Encoding.branch net)
  let places ← Encoding.placeDefinitions net branches net.places.toList []
  let generators := branches.filterMap Encoding.Branch.generator?
  let marked ← Encoding.marked net
  let syncNames := (branches.filterMap Encoding.Branch.syncName?).mergeSort
    fun a b => !decide (b.text < a.text)
  return {
    definitions := (places ++ generators).foldl (fun defs (name, body) => defs.insert name body) []
    initial := Encoding.restrict syncNames
      (.compose (marked ++ generators.map fun (name, _) => .constant name))
    syncNames }

end PetriCcs
