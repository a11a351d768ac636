import PetriCcs.Net.Edit
import PetriCcs.Proofs.Arena

/-! # Links of a net and edits of single cells

The edges that leave a node and those that enter it are treated alike: `Side` names the end of an
edge, `Net.listed?` the list of a node at one end.  `Net.bare` is a net without its links, so that
`net'.bare = net.bare` says that an edit touches nothing but links.  The edits of single cells are
described by what they do to the lookups (`updateListed_runOn`, `updateEdge_runOn`). -/

namespace PetriCcs

/-- An end of an edge. -/
inductive Side where
  | source
  | target
  deriving DecidableEq

/-- The opposite end. -/
def Side.other : Side → Side
  | .source => .target
  | .target => .source

/-- The node at one end of an edge. -/
def Edge.endpoint (edge : Edge) : Side → Node
  | .source => edge.source
  | .target => edge.target

/-- A place without its links. -/
def Place.bare (place : Place) : Place := { place with incoming := [], outgoing := [] }

/-- A transition without its links. -/
def Transition.bare (transition : Transition) : Transition :=
  { transition with incoming := [], outgoing := [] }

/-- What a place holds besides its handle and its links. -/
def Place.content (place : Place) : NameIndex × Weight := (place.name, place.tokens)

/-- What a transition holds besides its handle and its links. -/
def Transition.content (transition : Transition) : NameIndex × Label :=
  (transition.name, transition.label)

namespace Net

variable {net net' : Net}

/-- The edges that a node lists at one end: those that leave it or those that enter it. -/
def listed? (net : Net) : Side → Node → Option (List EdgeId)
  | .source => net.outgoing?
  | .target => net.incoming?

/-- A net without its links. -/
def bare (net : Net) : Net :=
  { net with
    places := net.places.map Place.bare
    transitions := net.transitions.map Transition.bare
    edges := net.edges.clear }

theorem bare_modifyPlace (f : Place → Place) (i : Nat) (h : ∀ place, (f place).bare = place.bare) :
    ({ net with places := { net.places with items := net.places.items.modify i f } } : Net).bare =
      net.bare := by
  simp only [bare]
  rw [Arena.map_modify Place.bare i h]

theorem bare_modifyTransition (f : Transition → Transition) (i : Nat)
    (h : ∀ transition, (f transition).bare = transition.bare) :
    ({ net with transitions :=
      { net.transitions with items := net.transitions.items.modify i f } } : Net).bare =
      net.bare := by
  simp only [bare]
  rw [Arena.map_modify Transition.bare i h]

theorem tag_of_bare (h : net'.bare = net.bare) : net'.tag = net.tag := by
  have htag : net'.bare.tag = net.bare.tag := by rw [h]
  exact htag

theorem contains_bare (node : Node) : net.bare.contains node = net.contains node := by
  cases node <;> simp [contains, bare, Arena.contains, Arena.map, Arena.size] <;> rfl

theorem contains_of_bare (h : net'.bare = net.bare) (node : Node) :
    net'.contains node = net.contains node := by
  rw [← contains_bare, h, contains_bare]

theorem place?_bare (id : PlaceId) : net.bare.place? id = (net.place? id).map Place.bare :=
  Arena.get?_map _

theorem transition?_bare (id : TransitionId) :
    net.bare.transition? id = (net.transition? id).map Transition.bare :=
  Arena.get?_map _

theorem place?_of_bare (h : net'.bare = net.bare) {id : PlaceId} {place : Place}
    (hid : net.place? id = some place) :
    ∃ place', net'.place? id = some place' ∧ place'.name = place.name := by
  have hbare := @place?_bare net' id
  rw [h, place?_bare, hid] at hbare
  obtain ⟨place', hplace', heq⟩ := Option.map_eq_some_iff.1 hbare.symm
  have hname : place'.bare.name = place.bare.name := by rw [heq]
  exact ⟨place', hplace', hname⟩

theorem transition?_of_bare (h : net'.bare = net.bare) {id : TransitionId}
    {transition : Transition} (hid : net.transition? id = some transition) :
    ∃ transition', net'.transition? id = some transition' ∧
      transition'.name = transition.name := by
  have hbare := @transition?_bare net' id
  rw [h, transition?_bare, hid] at hbare
  obtain ⟨transition', htransition', heq⟩ := Option.map_eq_some_iff.1 hbare.symm
  have hname : transition'.bare.name = transition.bare.name := by rw [heq]
  exact ⟨transition', htransition', hname⟩

/-- What the place under a handle holds. -/
def placeContent? (net : Net) (id : PlaceId) : Option (NameIndex × Weight) :=
  (net.place? id).map Place.content

/-- What the transition under a handle holds. -/
def transitionContent? (net : Net) (id : TransitionId) : Option (NameIndex × Label) :=
  (net.transition? id).map Transition.content

theorem placeContent?_bare (id : PlaceId) : net.bare.placeContent? id = net.placeContent? id := by
  rw [placeContent?, placeContent?, place?_bare, Option.map_map]
  rfl

theorem transitionContent?_bare (id : TransitionId) :
    net.bare.transitionContent? id = net.transitionContent? id := by
  rw [transitionContent?, transitionContent?, transition?_bare, Option.map_map]
  rfl

theorem placeContent?_of_bare (h : net'.bare = net.bare) (id : PlaceId) :
    net'.placeContent? id = net.placeContent? id := by
  rw [← placeContent?_bare, h, placeContent?_bare]

theorem transitionContent?_of_bare (h : net'.bare = net.bare) (id : TransitionId) :
    net'.transitionContent? id = net.transitionContent? id := by
  rw [← transitionContent?_bare, h, transitionContent?_bare]

/-- Two nets that differ in their links have the same places. -/
theorem handles_places_of_bare (h : net'.bare = net.bare) :
    net'.places.handles = net.places.handles := by
  have hbare : ∀ net : Net, net.bare.places.handles = net.places.handles := fun net =>
    Arena.handles_map Place.bare
  rw [← hbare, h, hbare]

/-- Two nets that differ in their links have the same transitions. -/
theorem handles_transitions_of_bare (h : net'.bare = net.bare) :
    net'.transitions.handles = net.transitions.handles := by
  have hbare : ∀ net : Net, net.bare.transitions.handles = net.transitions.handles := fun net =>
    Arena.handles_map Transition.bare
  rw [← hbare, h, hbare]

/-- The last place is the same in two nets that differ in their links. -/
theorem lastPlace_of_bare (h : net'.bare = net.bare) :
    net'.places.lastHandle = net.places.lastHandle := by
  have hlast := congrArg (fun bare => bare.places.lastHandle) h
  simpa [bare, Arena.lastHandle, Arena.handleAt, Arena.map, Arena.size] using hlast

theorem lastTransition_of_bare (h : net'.bare = net.bare) :
    net'.transitions.lastHandle = net.transitions.lastHandle := by
  have hlast := congrArg (fun bare => bare.transitions.lastHandle) h
  simpa [bare, Arena.lastHandle, Arena.handleAt, Arena.map, Arena.size] using hlast

theorem placeNames_of_bare (h : net'.bare = net.bare) : net'.placeNames = net.placeNames := by
  have htable : net'.bare.placeNames = net.bare.placeNames := by rw [h]
  exact htable

theorem transitionNames_of_bare (h : net'.bare = net.bare) :
    net'.transitionNames = net.transitionNames := by
  have htable : net'.bare.transitionNames = net.bare.transitionNames := by rw [h]
  exact htable

/-- The names of the places, in order, do not depend on the links. -/
theorem map_placeName_of_bare (h : net'.bare = net.bare) :
    net'.places.toList.map Place.name = net.places.toList.map Place.name := by
  have hnames := congrArg (fun bare => bare.places.toList.map Place.name) h
  simpa [bare, Place.bare, Function.comp_def] using hnames

theorem map_transitionName_of_bare (h : net'.bare = net.bare) :
    net'.transitions.toList.map Transition.name = net.transitions.toList.map Transition.name := by
  have hnames := congrArg (fun bare => bare.transitions.toList.map Transition.name) h
  simpa [bare, Transition.bare, Function.comp_def] using hnames

/-- A node lists its edges, whichever they are, exactly when the net has it. -/
theorem contains_iff_listed? (side : Side) (node : Node) :
    net.contains node = true ↔ ∃ edges, net.listed? side node = some edges := by
  cases node with
  | place id =>
      rw [contains, Arena.contains_iff_get?]
      cases side <;>
        simp only [listed?, outgoing?, incoming?, place?] <;> cases net.places.get? id <;> simp
  | transition id =>
      rw [contains, Arena.contains_iff_get?]
      cases side <;>
        simp only [listed?, outgoing?, incoming?, transition?] <;>
        cases net.transitions.get? id <;> simp

theorem listed?_eq_none {side : Side} {node : Node} (h : ¬ net.contains node = true) :
    net.listed? side node = none := by
  rw [contains_iff_listed? side] at h
  cases hl : net.listed? side node with
  | none => rfl
  | some edges => exact absurd ⟨edges, hl⟩ h

end Net

namespace Edit

variable {α β : Type} {net net' : Net}

/-! ### Runs -/

@[simp] theorem runOn_pure (a : α) (net : Net) : (pure a : Edit α).runOn net = (.ok a, net) := rfl

@[simp] theorem runOn_throw (error : NetError) (net : Net) :
    (throw error : Edit α).runOn net = (.error error, net) := rfl

@[simp] theorem runOn_get (net : Net) : (get : Edit Net).runOn net = (.ok net, net) := rfl

@[simp] theorem runOn_set (new net : Net) : (set new : Edit PUnit).runOn net = (.ok ⟨⟩, new) := rfl

/-- A run of two edits one after the other. -/
theorem runOn_bind (edit : Edit α) (f : α → Edit β) (net : Net) :
    (edit >>= f).runOn net =
      match edit.runOn net with
      | (.ok a, net') => (f a).runOn net'
      | (.error error, net') => (.error error, net') := by
  simp only [runOn, ExceptT.run_bind, StateT.run_bind]
  cases hedit : edit.run.run net with
  | mk result net' =>
      cases result <;> rfl

theorem runOn_bind_ok {edit : Edit α} {f : α → Edit β} {a : α}
    (h : edit.runOn net = (.ok a, net')) : (edit >>= f).runOn net = (f a).runOn net' := by
  rw [runOn_bind, h]

theorem runOn_bind_error {edit : Edit α} {f : α → Edit β} {error : NetError}
    (h : edit.runOn net = (.error error, net')) :
    (edit >>= f).runOn net = (.error error, net') := by
  rw [runOn_bind, h]

/-! ### Single cells -/

/-- Changes the list of edges of a node at one end. -/
def updateListed (side : Side) (node : Node) (f : List EdgeId → List EdgeId) : Edit Unit :=
  match side with
  | .source => updateOutgoing node f
  | .target => updateIncoming node f

/-- The edges that a node lists at one end, under a stored handle. -/
def storedListed (side : Side) (node : Node) : Edit (List EdgeId) :=
  match side with
  | .source => storedOutgoing node
  | .target => storedIncoming node

theorem updatePlace_runOn {id : PlaceId} (f : Place → Place) (h : net.places.contains id = true) :
    (updatePlace id f).runOn net = (.ok (), { net with
      places := { net.places with items := net.places.items.modify id.index f } }) := by
  rw [updatePlace, runOn_bind_ok (runOn_get net), Arena.update?_of_contains f h]
  rfl

theorem updateTransition_runOn {id : TransitionId} (f : Transition → Transition)
    (h : net.transitions.contains id = true) :
    (updateTransition id f).runOn net = (.ok (), { net with
      transitions := { net.transitions with
        items := net.transitions.items.modify id.index f } }) := by
  rw [updateTransition, runOn_bind_ok (runOn_get net), Arena.update?_of_contains f h]
  rfl

theorem storedListed_runOn {side : Side} {node : Node} {edges : List EdgeId}
    (h : net.listed? side node = some edges) :
    (storedListed side node).runOn net = (.ok edges, net) := by
  cases side with
  | source =>
      have hout : net.outgoing? node = some edges := h
      rw [storedListed, storedOutgoing, runOn_bind_ok (runOn_get net), hout]
      rfl
  | target =>
      have hin : net.incoming? node = some edges := h
      rw [storedListed, storedIncoming, runOn_bind_ok (runOn_get net), hin]
      rfl

theorem storedEdge_runOn {id : EdgeId} {edge : Edge} (h : net.edge? id = some edge) :
    (storedEdge id).runOn net = (.ok edge, net) := by
  rw [storedEdge, runOn_bind_ok (runOn_get net), h]
  rfl

/-- Changing the list of a node at one end touches no other list and nothing but links. -/
theorem updateListed_runOn (side : Side) (node : Node) (f : List EdgeId → List EdgeId)
    (h : net.contains node = true) :
    ∃ net', (updateListed side node f).runOn net = (.ok (), net') ∧ net'.bare = net.bare ∧
      net'.edges = net.edges ∧
      ∀ s m, net'.listed? s m =
        if s = side ∧ m = node then (net.listed? s m).map f else net.listed? s m := by
  cases node with
  | place id =>
      have howner := (Arena.contains_iff.1 h).1
      cases side <;>
      · refine ⟨_, updatePlace_runOn _ h, ?_, rfl, ?_⟩
        · exact Net.bare_modifyPlace _ _ fun _ => rfl
        · intro s m
          cases s <;> cases m <;>
            simp [Net.listed?, Net.outgoing?, Net.incoming?, Net.place?, Net.transition?,
              Arena.get?_modify howner, apply_ite (Option.map _), Function.comp_def]
  | transition id =>
      have howner := (Arena.contains_iff.1 h).1
      cases side <;>
      · refine ⟨_, updateTransition_runOn _ h, ?_, rfl, ?_⟩
        · exact Net.bare_modifyTransition _ _ fun _ => rfl
        · intro s m
          cases s <;> cases m <;>
            simp [Net.listed?, Net.outgoing?, Net.incoming?, Net.place?, Net.transition?,
              Arena.get?_modify howner, apply_ite (Option.map _), Function.comp_def]

/-- Changing one edge touches no other edge and no node. -/
theorem updateEdge_runOn {id : EdgeId} (f : Edge → Edge) (h : net.edges.contains id = true) :
    ∃ net', (updateEdge id f).runOn net = (.ok (), net') ∧ net'.bare = net.bare ∧
      (∀ side node, net'.listed? side node = net.listed? side node) ∧
      net'.edges.size = net.edges.size ∧
      ∀ k, net'.edge? k = if k = id then (net.edge? k).map f else net.edge? k := by
  refine ⟨{ net with edges := { net.edges with items := net.edges.items.modify id.index f } },
    ?_, rfl, ?_, by simp [Arena.size], fun k => Arena.get?_modify (Arena.contains_iff.1 h).1⟩
  · rw [updateEdge, runOn_bind_ok (runOn_get net), Arena.update?_of_contains f h]
    rfl
  · intro side node
    cases side <;> cases node <;> rfl

end Edit
end PetriCcs
