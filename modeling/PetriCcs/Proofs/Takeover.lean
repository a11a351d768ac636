import PetriCcs.Proofs.Consistent

/-! # The last element takes over a freed handle

Taking an element out of its collection moves the last one to the freed handle: `Net.TakesOver` says
what the handles mean afterwards, and `Net.renamed` how the last node is called from then on.  Once a
place or a transition is taken out, `Net.PlaceRemoved` and `Net.TransitionRemoved` describe what the net
holds besides handles and links; all nodes but the moved one still know their handles
(`Net.IdentifiedBut`). -/

namespace PetriCcs
namespace Net

/-- Once the last element stands under the freed handle, every other handle means what it did. -/
def TakesOver {η β : Type} [DecidableEq η] (last freed : η) (means means' : η → Option β) : Prop :=
  ∀ k, means' k = if k = last then none else if k = freed then means last else means k

/-- The name of a node once the last one has moved to `node`. -/
def renamed (last node n : Node) : Node := if n = last then node else n

section TakesOver

variable {η β γ : Type} [DecidableEq η] {last freed : η} {means means' : η → Option β}

theorem TakesOver.map (h : TakesOver last freed means means') (f : β → γ) :
    TakesOver last freed (fun n => (means n).map f) fun n => (means' n).map f := by
  intro n
  change (means' n).map f = _
  rw [h]
  split_ifs <;> rfl

/-- What the nodes hold after a removal is what the others held before. -/
theorem TakesOver.exists_iff (h : TakesOver last freed means means') {b : β} :
    (∃ n, means' n = some b) ↔ ∃ n, n ≠ freed ∧ means n = some b := by
  constructor
  · rintro ⟨n, hn⟩
    rw [h] at hn
    split_ifs at hn with h1 h2
    · exact ⟨last, fun heq => h1 (h2.trans heq.symm), hn⟩
    · exact ⟨n, h2, hn⟩
  · rintro ⟨n, hne, hn⟩
    by_cases hlast : n = last
    · have hfreed : freed ≠ last := fun heq => hne (hlast.trans heq.symm)
      exact ⟨freed, by rw [h, if_neg hfreed, if_pos rfl, ← hlast, hn]⟩
    · exact ⟨n, by rw [h, if_neg hlast, if_neg hne, hn]⟩

/-- What stands under a handle after a removal stood under another than the freed one. -/
theorem TakesOver.eq_renamed {last node : Node} {means means' : Node → Option β}
    (h : TakesOver last node means means') {n : Node} {b : β} (hn : means' n = some b) :
    ∃ m, m ≠ node ∧ n = renamed last node m ∧ means m = some b := by
  rw [h] at hn
  split_ifs at hn with h1 h2
  · exact ⟨last, fun heq => h1 (h2.trans heq.symm), by rw [renamed, if_pos rfl, h2], hn⟩
  · exact ⟨n, h2, by rw [renamed, if_neg h1], hn⟩

theorem TakesOver.renamed_eq {last node n : Node} {means means' : Node → Option β}
    (h : TakesOver last node means means') (hn : n ≠ node) :
    means' (renamed last node n) = means n := by
  rw [h, renamed]
  by_cases hlast : n = last
  · have hne : node ≠ last := fun heq => hn (hlast.trans heq.symm)
    rw [if_pos hlast, if_neg hne, if_pos rfl, hlast]
  · rw [if_neg hlast, if_neg hlast, if_neg hn]

end TakesOver

variable {net net' net'' : Net} {node : Node}

/-! ### Contents -/

/-- Two nets hold the same places under the same names, handles and links apart. -/
structure SamePlaces (net net' : Net) : Prop where
  table : net'.placeNames = net.placeNames
  names : net'.places.toList.map Place.name = net.places.toList.map Place.name
  content : ∀ k, net'.placeContent? k = net.placeContent? k

/-- Two nets hold the same transitions under the same names, handles and links apart. -/
structure SameTransitions (net net' : Net) : Prop where
  table : net'.transitionNames = net.transitionNames
  names : net'.transitions.toList.map Transition.name = net.transitions.toList.map Transition.name
  content : ∀ k, net'.transitionContent? k = net.transitionContent? k

/-- Two nets hold the same, handles and links apart. -/
structure SameContents (net net' : Net) : Prop where
  tag : net'.tag = net.tag
  places : SamePlaces net net'
  transitions : SameTransitions net net'

theorem SamePlaces.trans (h : SamePlaces net net') (h' : SamePlaces net' net'') :
    SamePlaces net net'' :=
  ⟨h'.table.trans h.table, h'.names.trans h.names, fun k => (h'.content k).trans (h.content k)⟩

theorem SameTransitions.trans (h : SameTransitions net net') (h' : SameTransitions net' net'') :
    SameTransitions net net'' :=
  ⟨h'.table.trans h.table, h'.names.trans h.names, fun k => (h'.content k).trans (h.content k)⟩

theorem SameContents.trans (h : SameContents net net') (h' : SameContents net' net'') :
    SameContents net net'' :=
  ⟨h'.tag.trans h.tag, h.places.trans h'.places, h.transitions.trans h'.transitions⟩

theorem SameContents.of_bare (h : net'.bare = net.bare) : SameContents net net' where
  tag := tag_of_bare h
  places := ⟨placeNames_of_bare h, map_placeName_of_bare h, placeContent?_of_bare h⟩
  transitions :=
    ⟨transitionNames_of_bare h, map_transitionName_of_bare h, transitionContent?_of_bare h⟩

/-- A place is gone: its name is given back and the last place stands under its handle. -/
structure PlaceRemoved (net net' : Net) (id : PlaceId) (name : NameIndex) : Prop where
  tag : net'.tag = net.tag
  table : net'.placeNames = net.placeNames.release name
  names : (net.places.toList.map Place.name).Perm (name :: net'.places.toList.map Place.name)
  content : TakesOver net.places.lastHandle id net.placeContent? net'.placeContent?
  transitions : SameTransitions net net'

/-- A transition is gone: its name is given back and the last one stands under its handle. -/
structure TransitionRemoved (net net' : Net) (id : TransitionId) (name : NameIndex) : Prop where
  tag : net'.tag = net.tag
  table : net'.transitionNames = net.transitionNames.release name
  names : (net.transitions.toList.map Transition.name).Perm
    (name :: net'.transitions.toList.map Transition.name)
  content : TakesOver net.transitions.lastHandle id net.transitionContent? net'.transitionContent?
  places : SamePlaces net net'

theorem PlaceRemoved.congr {id : PlaceId} {name : NameIndex} (r : PlaceRemoved net net' id name)
    (h : SameContents net' net'') : PlaceRemoved net net'' id name where
  tag := h.tag.trans r.tag
  table := h.places.table.trans r.table
  names := by rw [h.places.names]; exact r.names
  content := fun k => (h.places.content k).trans (r.content k)
  transitions := r.transitions.trans h.transitions

theorem TransitionRemoved.congr {id : TransitionId} {name : NameIndex}
    (r : TransitionRemoved net net' id name) (h : SameContents net' net'') :
    TransitionRemoved net net'' id name where
  tag := h.tag.trans r.tag
  table := h.transitions.table.trans r.table
  names := by rw [h.transitions.names]; exact r.names
  content := fun k => (h.transitions.content k).trans (r.content k)
  places := r.places.trans h.places

/-- The links of the net before do not matter. -/
theorem PlaceRemoved.of_bare {id : PlaceId} {name : NameIndex} (r : PlaceRemoved net' net'' id name)
    (h : net'.bare = net.bare) : PlaceRemoved net net'' id name where
  tag := r.tag.trans (tag_of_bare h)
  table := by rw [r.table, placeNames_of_bare h]
  names := by rw [← map_placeName_of_bare h]; exact r.names
  content := fun k => by
    rw [r.content, lastPlace_of_bare h, placeContent?_of_bare h, placeContent?_of_bare h]
  transitions := (SameContents.of_bare h).transitions.trans r.transitions

theorem TransitionRemoved.of_bare {id : TransitionId} {name : NameIndex}
    (r : TransitionRemoved net' net'' id name) (h : net'.bare = net.bare) :
    TransitionRemoved net net'' id name where
  tag := r.tag.trans (tag_of_bare h)
  table := by rw [r.table, transitionNames_of_bare h]
  names := by rw [← map_transitionName_of_bare h]; exact r.names
  content := fun k => by
    rw [r.content, lastTransition_of_bare h, transitionContent?_of_bare h,
      transitionContent?_of_bare h]
  places := (SameContents.of_bare h).places.trans r.places

/-! ### Taking a node out of its collection -/

/-- All nodes but one know their handles. -/
structure IdentifiedBut (net : Net) (node : Node) : Prop where
  places_owner : net.places.owner = net.tag
  transitions_owner : net.transitions.owner = net.tag
  edges_owner : net.edges.owner = net.tag
  place_id : ∀ {k place}, .place k ≠ node → net.place? k = some place → place.id = k
  transition_id : ∀ {k transition}, .transition k ≠ node → net.transition? k = some transition →
    transition.id = k

theorem IdentifiedBut.identified (h : net.IdentifiedBut node) (hnode : ¬ net.contains node = true) :
    net.Identified where
  places_owner := h.places_owner
  transitions_owner := h.transitions_owner
  edges_owner := h.edges_owner
  place_id := fun hk => h.place_id (fun heq => hnode (heq ▸ Arena.contains_of_get? hk)) hk
  transition_id := fun hk => h.transition_id (fun heq => hnode (heq ▸ Arena.contains_of_get? hk)) hk

/-- The net with the rest of a removal for its places. -/
def withoutPlace (net : Net) (removal : Arena.Removal .place Place) : Net :=
  { net with
    places := removal.rest
    placeNames := net.placeNames.release removal.value.name }

/-- The net with the rest of a removal for its transitions. -/
def withoutTransition (net : Net) (removal : Arena.Removal .transition Transition) : Net :=
  { net with
    transitions := removal.rest
    transitionNames := net.transitionNames.release removal.value.name }

section Places

variable {id : PlaceId} {removal : Arena.Removal .place Place}

theorem listed?_withoutPlace (hget : TakesOver net.places.lastHandle id net.place? removal.rest.get?)
    (side : Side) : TakesOver (.place net.places.lastHandle) (.place id) (net.listed? side)
      ((net.withoutPlace removal).listed? side) := by
  intro n
  cases n with
  | place k =>
      have hk : (net.withoutPlace removal).place? k = _ := hget k
      cases side <;> simp only [listed?, outgoing?, incoming?, hk, Node.place.injEq] <;>
        split_ifs <;> rfl
  | transition k => cases side <;> simp [listed?, outgoing?, incoming?] <;> rfl

theorem Identified.withoutPlace (h : net.Identified) (howner : removal.rest.owner = net.places.owner)
    (hget : TakesOver net.places.lastHandle id net.place? removal.rest.get?) :
    (net.withoutPlace removal).IdentifiedBut (.place id) where
  places_owner := howner.trans h.places_owner
  transitions_owner := h.transitions_owner
  edges_owner := h.edges_owner
  place_id := fun hk => Arena.stored_of_moved h.place_id hget fun heq => hk (heq ▸ rfl)
  transition_id := fun _ => h.transition_id

theorem placeRemoved_withoutPlace (hswap : net.places.swapRemove? id = some removal)
    (hget : TakesOver net.places.lastHandle id net.place? removal.rest.get?) :
    PlaceRemoved net (net.withoutPlace removal) id removal.value.name where
  tag := rfl
  table := rfl
  names := (Arena.toList_perm_swapRemove hswap).map Place.name
  content := hget.map Place.content
  transitions := ⟨rfl, rfl, fun _ => rfl⟩

end Places

section Transitions

variable {id : TransitionId} {removal : Arena.Removal .transition Transition}

theorem listed?_withoutTransition
    (hget : TakesOver net.transitions.lastHandle id net.transition? removal.rest.get?) (side : Side) :
    TakesOver (.transition net.transitions.lastHandle) (.transition id) (net.listed? side)
      ((net.withoutTransition removal).listed? side) := by
  intro n
  cases n with
  | place k => cases side <;> simp [listed?, outgoing?, incoming?] <;> rfl
  | transition k =>
      have hk : (net.withoutTransition removal).transition? k = _ := hget k
      cases side <;> simp only [listed?, outgoing?, incoming?, hk, Node.transition.injEq] <;>
        split_ifs <;> rfl

theorem Identified.withoutTransition (h : net.Identified)
    (howner : removal.rest.owner = net.transitions.owner)
    (hget : TakesOver net.transitions.lastHandle id net.transition? removal.rest.get?) :
    (net.withoutTransition removal).IdentifiedBut (.transition id) where
  places_owner := h.places_owner
  transitions_owner := howner.trans h.transitions_owner
  edges_owner := h.edges_owner
  place_id := fun _ => h.place_id
  transition_id := fun hk => Arena.stored_of_moved h.transition_id hget fun heq => hk (heq ▸ rfl)

theorem transitionRemoved_withoutTransition (hswap : net.transitions.swapRemove? id = some removal)
    (hget : TakesOver net.transitions.lastHandle id net.transition? removal.rest.get?) :
    TransitionRemoved net (net.withoutTransition removal) id removal.value.name where
  tag := rfl
  table := rfl
  names := (Arena.toList_perm_swapRemove hswap).map Transition.name
  content := hget.map Transition.content
  places := ⟨rfl, rfl, fun _ => rfl⟩

end Transitions

end Net
end PetriCcs
