import PetriCcs.Document.Import
import PetriCcs.Sync.Basic

/-! # Workspaces

The operations of nets as data, and several nets side by side.  A workspace numbers its nets in
the order in which they are created, by themselves, as copies or as outputs of a synchronisation;
the number of a net is its tag, so no two nets of a workspace issue the same handles. -/

namespace PetriCcs

/-- An operation on one net with its arguments. -/
inductive Change where
  | addPlace (hint : Option NameIndex) (tokens : Weight)
  | addTransition (hint : Option NameIndex) (label : String)
  | addLabelledTransition (hint : Option NameIndex) (label : Label)
  | addEdge (source target : Node) (weight : Weight)
  | removeEdge (id : EdgeId)
  | removePlace (id : PlaceId)
  | removeTransition (id : TransitionId)
  | setTokens (id : PlaceId) (tokens : Weight)
  | setLabel (id : TransitionId) (label : String)
  | clear
  | importDocument (document : Document)

/-- What an operation returns. -/
inductive Outcome where
  | done
  | place (id : PlaceId)
  | transition (id : TransitionId)
  | edge (id : EdgeId)
  | removedEdge (edge : Edge)
  | removedPlace (place : Place)
  | removedTransition (transition : Transition)

/-- Why an operation is refused. -/
inductive ChangeError where
  | net (error : NetError)
  | document (error : DocumentError)

namespace Change

/-- An operation under way. -/
abbrev Run := ExceptT ChangeError (StateM Net)

/-- An edit whose result is turned into an outcome. -/
def edit {α : Type} (action : Edit α) (outcome : α → Outcome) : Run Outcome :=
  outcome <$> ExceptT.adapt ChangeError.net action

/-- Carries an operation out. -/
def perform : Change → Run Outcome
  | .addPlace hint tokens => edit (Edit.addPlace hint tokens) .place
  | .addTransition hint label => edit (Edit.addTransition hint label) .transition
  | .addLabelledTransition hint label => edit (Edit.addLabelledTransition hint label) .transition
  | .addEdge source target weight => edit (Edit.addEdge source target weight) .edge
  | .removeEdge id => edit (Edit.removeEdge id) .removedEdge
  | .removePlace id => edit (Edit.removePlace id) .removedPlace
  | .removeTransition id => edit (Edit.removeTransition id) .removedTransition
  | .setTokens id tokens => edit (Edit.setTokens id tokens) fun _ => .done
  | .setLabel id label => edit (Edit.setLabel id label) fun _ => .done
  | .clear => edit Edit.clear fun _ => .done
  | .importDocument document => do
    ExceptT.adapt ChangeError.document document.importInto
    return .done

/-- What an operation returns from a net, and the net it leaves behind. -/
def runOn (change : Change) (net : Net) : Except ChangeError Outcome × Net :=
  change.perform.run.run net

end Change

/-- Nets by number. -/
structure Workspace where
  nets : Array Net := #[]

namespace Workspace

def net? (workspace : Workspace) (number : Nat) : Option Net := workspace.nets[number]?

/-- The number of the next net. -/
def nextNumber (workspace : Workspace) : Nat := workspace.nets.size

def push (workspace : Workspace) (net : Net) : Workspace := ⟨workspace.nets.push net⟩

/-- Appends a net without nodes. -/
def create (workspace : Workspace) : Workspace := workspace.push (.empty workspace.nextNumber)

/-- Appends a copy of a net. -/
def copy (workspace : Workspace) (net : Net) : Workspace :=
  workspace.push (net.copy workspace.nextNumber)

/-- Carries an operation out on the net with a number. -/
def change (workspace : Workspace) (number : Nat) (net : Net) (change : Change) :
    Except ChangeError Outcome × Workspace :=
  let (result, net) := change.runOn net
  (result, ⟨workspace.nets.setIfInBounds number net⟩)

/-- Appends the synchronised net, when there is one. -/
def synchronise {σ : Type} [RandomSource σ] (workspace : Workspace) (net : Net) (source : σ) :
    Except NetError Sync.Result × Workspace :=
  match net.synchronise workspace.nextNumber source with
  | .ok (result, _) => (.ok result, workspace.push result.net)
  | .error error => (.error error, workspace)

end Workspace
end PetriCcs
