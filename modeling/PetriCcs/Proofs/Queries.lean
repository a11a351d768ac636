import PetriCcs.Net.Dot
import PetriCcs.Net.Inspect
import PetriCcs.Proofs.EncodingEquivariance

/-! # What can be asked of a net

The questions that leave a net as it is, as data with their answers: what its collections hold, how
nodes are linked, its classes, its encoding and its written forms.  A translated question to a
translated net has the translated answer (`Query.answer_rename`); texts, classes and encodings show
no tags. -/

namespace PetriCcs

/-- What the collection of a kind holds. -/
def Kind.Value : Kind → Type
  | .place => Place
  | .transition => Transition
  | .edge => Edge

/-- The collection of a kind. -/
def Net.collection (net : Net) : (kind : Kind) → Arena kind kind.Value
  | .place => net.places
  | .transition => net.transitions
  | .edge => net.edges

/-- A question to a net. -/
inductive Query where
  | tag
  | isEmpty
  | owner (kind : Kind)
  | size (kind : Kind)
  | nextHandle (kind : Kind)
  | contains {kind : Kind} (id : Handle kind)
  | handle (kind : Kind) (position : ℕ)
  | handles (kind : Kind)
  | get {kind : Kind} (id : Handle kind)
  | values (kind : Kind)
  | entries (kind : Kind)
  | findEdge (source target : Node)
  | preset (transition : TransitionId)
  | postset (transition : TransitionId)
  | consumers (place : PlaceId)
  | check
  | classes
  | encoding
  | document
  | drawing
  | inspection

/-- An answer of a net. -/
inductive Answer where
  | tag (tag : ℕ)
  | truth (value : Bool)
  | size (size : ℕ)
  | handle {kind : Kind} (id : Option (Handle kind))
  | handles {kind : Kind} (ids : List (Handle kind))
  | value {kind : Kind} (value : Option kind.Value)
  | values {kind : Kind} (values : List kind.Value)
  | entries {kind : Kind} (entries : List (Handle kind × kind.Value))
  | products (products : List (PlaceId × Weight))
  | check (result : Except String Unit)
  | classes (classes : NetClass)
  | encoding (result : Except NetError Encoding)
  | document (document : Document)
  | text (text : String)

/-- What a net answers. -/
def Query.answer (net : Net) : Query → Answer
  | .tag => .tag net.tag
  | .isEmpty => .truth net.isEmpty
  | .owner kind => .tag (net.collection kind).owner
  | .size kind => .size (net.collection kind).size
  | .nextHandle kind => .handle (some (net.collection kind).nextHandle)
  | .contains id => .truth ((net.collection _).contains id)
  | .handle kind position => .handle ((net.collection kind).handle? position)
  | .handles kind => .handles (net.collection kind).handles
  | .get id => .value ((net.collection _).get? id)
  | .values kind => .values (net.collection kind).toList
  | .entries kind => .entries (net.collection kind).entries
  | .findEdge source target => .handle (net.findEdge? source target)
  | .preset transition => .handles (net.preset transition)
  | .postset transition => .products (net.postset transition)
  | .consumers place => .handles (net.consumers place)
  | .check => .check (net.check.mapError Inconsistency.message)
  | .classes => .classes net.classify
  | .encoding => .encoding net.encode
  | .document => .document (.ofNet net)
  | .drawing => .text net.dot
  | .inspection => .text net.inspect

/-! ### Translation -/

def Kind.renameValue (ρ : ℕ → ℕ) : (kind : Kind) → kind.Value → kind.Value
  | .place => Place.rename ρ
  | .transition => Transition.rename ρ
  | .edge => Edge.rename ρ

def Query.rename (ρ : ℕ → ℕ) : Query → Query
  | .contains id => .contains (id.rename ρ)
  | .get id => .get (id.rename ρ)
  | .findEdge source target => .findEdge (source.rename ρ) (target.rename ρ)
  | .preset transition => .preset (transition.rename ρ)
  | .postset transition => .postset (transition.rename ρ)
  | .consumers place => .consumers (place.rename ρ)
  | query => query

def Answer.rename (ρ : ℕ → ℕ) : Answer → Answer
  | .tag owner => .tag (ρ owner)
  | .handle id => .handle (id.map (·.rename ρ))
  | .handles ids => .handles (ids.map (·.rename ρ))
  | .value stored => .value (stored.map (Kind.renameValue ρ _))
  | .values stored => .values (stored.map (Kind.renameValue ρ _))
  | .entries stored =>
      .entries (stored.map fun entry => (entry.1.rename ρ, Kind.renameValue ρ _ entry.2))
  | .products made => .products (made.map fun entry => (entry.1.rename ρ, entry.2))
  | .encoding result => .encoding (translate (NetError.rename ρ) id result)
  | answer => answer

variable {ρ : ℕ → ℕ} {net : Net}

theorem Net.collection_rename (kind : Kind) : (net.rename ρ).collection kind =
    (net.collection kind).rename ρ (Kind.renameValue ρ kind) := by
  cases kind <;> rfl

/-! ### Written forms -/

theorem Dot.nodeName_rename (node : Node) : nodeName (node.rename ρ) = nodeName node := by
  cases node <;> rfl

theorem Dot.edgeLine_rename (edge : Edge) : edgeLine (edge.rename ρ) = edgeLine edge := by
  rw [edgeLine, edgeLine, Edge.rename, nodeName_rename, nodeName_rename]

/-- Drawings show positions. -/
theorem Net.dot_rename : (net.rename ρ).dot = net.dot := by
  have hplaces : (net.rename ρ).places.entries = _ := Arena.entries_rename
  have htransitions : (net.rename ρ).transitions.entries = _ := Arena.entries_rename
  have hedges : (net.rename ρ).edges.toList = _ := Arena.toList_rename
  have hlines : Dot.lines (net.rename ρ) = Dot.lines net := by
    rw [Dot.lines, Dot.lines, hplaces, htransitions, hedges, List.map_map, List.map_map,
      List.map_map]
    simp only [Function.comp_def, Dot.edgeLine_rename]
    rfl
  rw [dot, dot, hlines]

theorem Inspect.map_handle_rename {kind : Kind} (ids : List (Handle kind)) :
    (ids.map (·.rename ρ)).map handle = ids.map handle := by
  rw [List.map_map]
  rfl

theorem Inspect.node_rename (value : Node) : node (value.rename ρ) = node value := by
  cases value <;> rfl

theorem Inspect.place_rename (value : Place) : place (value.rename ρ) = place value := by
  simp only [place, Place.rename, map_handle_rename]
  rfl

theorem Inspect.transition_rename (value : Transition) :
    transition (value.rename ρ) = transition value := rfl

theorem Inspect.edge_rename (value : Edge) : edge (value.rename ρ) = edge value := by
  simp only [edge, Edge.rename, node_rename]
  rfl

theorem Inspect.arena_rename {kind : Kind} {α : Type} {f : α → α} {item : α → String}
    (hitem : ∀ value, item (f value) = item value) (values : Arena kind α) :
    arena item (values.rename ρ f) = arena item values := by
  rw [arena, arena, Arena.toList_rename, List.map_map]
  simp only [Function.comp_def, hitem]

theorem Net.inspect_rename : (net.rename ρ).inspect = net.inspect := by
  have hplaces : Inspect.arena Inspect.place (net.rename ρ).places = _ :=
    Inspect.arena_rename Inspect.place_rename _
  have htransitions : Inspect.arena Inspect.transition (net.rename ρ).transitions = _ :=
    Inspect.arena_rename Inspect.transition_rename _
  have hedges : Inspect.arena Inspect.edge (net.rename ρ).edges = _ :=
    Inspect.arena_rename Inspect.edge_rename _
  rw [inspect, inspect, hplaces, htransitions, hedges]

section Injective

variable (hρ : Function.Injective ρ)

include hρ

theorem Document.reference_rename (node : Node) :
    reference (net.rename ρ) (node.rename ρ) = reference net node := by
  cases node with
  | place p =>
      rw [Node.rename, reference, Net.place?_rename hρ, Option.map_map]
      rfl
  | transition t =>
      rw [Node.rename, reference, Net.transition?_rename hρ, Option.map_map]
      rfl

theorem Document.ofNet_rename : ofNet (net.rename ρ) = ofNet net := by
  have hplaces : (net.rename ρ).places.toList = _ := Arena.toList_rename
  have htransitions : (net.rename ρ).transitions.toList = _ := Arena.toList_rename
  have hedges : (net.rename ρ).edges.toList = _ := Arena.toList_rename
  rw [ofNet, ofNet, hplaces, htransitions, hedges, List.map_map, List.map_map, List.map_map]
  simp only [Function.comp_def, Edge.rename, reference_rename hρ]
  rfl

/-! ### Answers -/

/-- A consistent net answers in translated handles as it does in its own. -/
theorem Query.answer_rename (h : net.Consistent) (query : Query) :
    (query.rename ρ).answer (net.rename ρ) = (query.answer net).rename ρ := by
  cases query with
  | tag => rfl
  | isEmpty => exact congrArg Answer.truth Net.isEmpty_rename
  | owner kind => cases kind <;> rfl
  | size kind =>
      change Answer.size ((net.rename ρ).collection kind).size = _
      rw [Net.collection_rename, Arena.size_rename]
      rfl
  | nextHandle kind =>
      change Answer.handle (some ((net.rename ρ).collection kind).nextHandle) = _
      rw [Net.collection_rename, Arena.nextHandle_rename]
      rfl
  | contains id =>
      change Answer.truth (((net.rename ρ).collection _).contains (id.rename ρ)) = _
      rw [Net.collection_rename, Arena.contains_rename hρ]
      rfl
  | handle kind position =>
      change Answer.handle (((net.rename ρ).collection kind).handle? position) = _
      rw [Net.collection_rename, Arena.handle?_rename]
      rfl
  | handles kind =>
      change Answer.handles ((net.rename ρ).collection kind).handles = _
      rw [Net.collection_rename, Arena.handles_rename]
      rfl
  | get id =>
      change Answer.value (((net.rename ρ).collection _).get? (id.rename ρ)) = _
      rw [Net.collection_rename, Arena.get?_rename hρ]
      rfl
  | values kind =>
      change Answer.values ((net.rename ρ).collection kind).toList = _
      rw [Net.collection_rename, Arena.toList_rename]
      rfl
  | entries kind =>
      change Answer.entries ((net.rename ρ).collection kind).entries = _
      rw [Net.collection_rename, Arena.entries_rename]
      rfl
  | findEdge source target => exact congrArg Answer.handle (Net.findEdge?_rename hρ source target)
  | preset transition => exact congrArg Answer.handles (Net.preset_rename hρ transition)
  | postset transition => exact congrArg Answer.products (Net.postset_rename hρ transition)
  | consumers place => exact congrArg Answer.handles (Net.consumers_rename hρ place)
  | check =>
      have hcheck : (net.rename ρ).check = .ok () := by
        rw [← h.copy_eq_rename]
        exact (h.copy _).check
      change Answer.check ((net.rename ρ).check.mapError Inconsistency.message) =
        Answer.check (net.check.mapError Inconsistency.message)
      rw [hcheck, h.check]
  | classes => exact congrArg Answer.classes (h.classify_rename ρ)
  | encoding => exact congrArg Answer.encoding (Net.encode_rename hρ)
  | document => exact congrArg Answer.document (Document.ofNet_rename hρ)
  | drawing => exact congrArg Answer.text Net.dot_rename
  | inspection => exact congrArg Answer.text Net.inspect_rename

end Injective

end PetriCcs
