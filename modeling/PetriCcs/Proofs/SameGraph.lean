import PetriCcs.Proofs.Import
import PetriCcs.Proofs.Copy

/-! # Nets that hold the same graph

Two nets hold the same nodes when their lists of places and of transitions agree up to handles and
links (`Net.SameNodes`), and the same graph when the same positions are also joined by arcs of the
same weight (`Net.SameGraph`).  How the edges are numbered and in which order the nodes list them
plays no part in it.  Handles of the one net are handles of the other one under its tag; a copy under
this tag is a net with the same nodes, arcs and handles, and only its links differ
(`Net.Relinked`). -/

namespace PetriCcs

open scoped List

/-- Arenas that agree in what `f` and `f'` show of their values agree in it at every position. -/
theorem Arena.map_get?_retag {kind : Kind} {α β : Type} {f f' : α → β} {arena arena' : Arena kind α}
    (h : arena'.toList.map f' = arena.toList.map f) {id : Handle kind}
    (howner : id.owner = arena.owner) :
    (arena'.get? (id.retag arena'.owner)).map f' = (arena.get? id).map f := by
  have hget := congrArg (·[id.index]?) h
  rw [Arena.get?_eq_items howner, Arena.get?_eq_items (Handle.owner_retag _ _)]
  simpa [Arena.toList, Handle.retag] using hget

/-- Values that know their handles stand in the order of the handles. -/
theorem Arena.map_toList_handles {kind : Kind} {α : Type} {arena : Arena kind α}
    {idOf : α → Handle kind} (hid : ∀ {id value}, arena.get? id = some value → idOf value = id) :
    arena.toList.map idOf = arena.handles := by
  refine List.ext_getElem? fun i => ?_
  have hget := arena.get?_handleAt i
  rw [handles, List.getElem?_map, List.getElem?_map, toList, Array.getElem?_toList, ← hget]
  cases hvalue : arena.get? (arena.handleAt i) with
  | none =>
      rw [hget, Array.getElem?_eq_none_iff] at hvalue
      simp [size, hvalue]
  | some value =>
      have hlt : i < arena.size := (contains_iff.1 (contains_of_get? hvalue)).2
      rw [List.getElem?_range hlt, Option.map_some, Option.map_some, hid hvalue]

/-- Arenas of one owner that agree in what is shown of their values agree in the handles, too. -/
theorem Arena.map_toList_pair {kind : Kind} {α β : Type} {arena arena' : Arena kind α}
    {f : α → β} {idOf : α → Handle kind} (h : arena'.toList.map f = arena.toList.map f)
    (howner : arena'.owner = arena.owner)
    (hid : ∀ {id value}, arena.get? id = some value → idOf value = id)
    (hid' : ∀ {id value}, arena'.get? id = some value → idOf value = id) :
    arena'.toList.map (fun value => (idOf value, f value)) =
      arena.toList.map fun value => (idOf value, f value) := by
  have hsize : arena'.size = arena.size := by
    simpa [toList, size] using congrArg List.length h
  have hhandles : arena'.handles = arena.handles := by
    rw [handles, handles, hsize]
    exact List.map_congr_left fun i _ => congrArg (fun owner => (⟨owner, i⟩ : Handle kind)) howner
  rw [← List.zip_map', ← List.zip_map', map_toList_handles hid, map_toList_handles hid', h, hhandles]

namespace Net

variable {net net' : Net}

/-- Two nets hold the same places and transitions at the same positions. -/
structure SameNodes (net net' : Net) : Prop where
  places : net'.places.toList.map Place.content = net.places.toList.map Place.content
  transitions : net'.transitions.toList.map Transition.content =
    net.transitions.toList.map Transition.content

theorem SameNodes.symm (h : SameNodes net net') : SameNodes net' net :=
  ⟨h.places.symm, h.transitions.symm⟩

theorem sameNodes_copy (net : Net) (tag : ℕ) : SameNodes net (net.copy tag) := by
  constructor
  · simp [Function.comp_def, Place.retag, Place.content]
  · simp [Function.comp_def, Transition.retag, Transition.content]

theorem SameNodes.placeContent?_retag (h : SameNodes net net') (hnet : net.Identified)
    (hnet' : net'.Identified) {id : PlaceId} (howner : id.owner = net.tag) :
    net'.placeContent? (id.retag net'.tag) = net.placeContent? id := by
  have hget := Arena.map_get?_retag h.places (howner.trans hnet.places_owner.symm)
  rwa [hnet'.places_owner] at hget

theorem SameNodes.transitionContent?_retag (h : SameNodes net net') (hnet : net.Identified)
    (hnet' : net'.Identified) {id : TransitionId} (howner : id.owner = net.tag) :
    net'.transitionContent? (id.retag net'.tag) = net.transitionContent? id := by
  have hget := Arena.map_get?_retag h.transitions (howner.trans hnet.transitions_owner.symm)
  rwa [hnet'.transitions_owner] at hget

theorem SameNodes.content?_retag (h : SameNodes net net') (hnet : net.Identified)
    (hnet' : net'.Identified) {node : Node} (howner : node.owner = net.tag) :
    net'.content? (node.retag net'.tag) = net.content? node := by
  cases node with
  | place id =>
      rw [Node.retag, content?, content?, h.placeContent?_retag hnet hnet' howner]
  | transition id =>
      rw [Node.retag, content?, content?, h.transitionContent?_retag hnet hnet' howner]

theorem SameNodes.contains_retag (h : SameNodes net net') (hnet : net.Identified)
    (hnet' : net'.Identified) {node : Node} (howner : node.owner = net.tag) :
    net'.contains (node.retag net'.tag) = true ↔ net.contains node = true := by
  rw [contains_iff_content?, contains_iff_content?, h.content?_retag hnet hnet' howner]

/-- Two nets show the same display names at the same positions. -/
structure SameNames (net net' : Net) : Prop where
  places : net'.places.toList.map Place.displayName = net.places.toList.map Place.displayName
  transitions : net'.transitions.toList.map Transition.displayName =
    net.transitions.toList.map Transition.displayName

theorem SameNames.shown?_retag (h : SameNames net net') (hnet : net.Identified)
    (hnet' : net'.Identified) {node : Node} (howner : node.owner = net.tag) :
    net'.shown? (node.retag net'.tag) = net.shown? node := by
  cases node with
  | place id =>
      have hget := Arena.map_get?_retag h.places (howner.trans hnet.places_owner.symm)
      rw [hnet'.places_owner] at hget
      rw [Node.retag, shown?_place, shown?_place]
      exact hget
  | transition id =>
      have hget := Arena.map_get?_retag h.transitions (howner.trans hnet.transitions_owner.symm)
      rw [hnet'.transitions_owner] at hget
      rw [Node.retag, shown?_transition, shown?_transition]
      exact hget

/-- Two nets hold the same nodes, and arcs of the same weight between them. -/
structure SameGraph (net net' : Net) : Prop extends SameNodes net net' where
  hasArc : ∀ arc : Arc, net'.HasArc (arc.retag net'.tag) ↔ net.HasArc (arc.retag net.tag)

theorem hasArc_iff_mem {arc : Arc} : net.HasArc arc ↔ arc ∈ net.edges.toList.map Edge.arc := by
  rw [List.mem_map]
  constructor
  · rintro ⟨id, edge, hedge, harc⟩
    exact ⟨edge, Arena.mem_toList_iff.2 ⟨id, hedge⟩, harc⟩
  · rintro ⟨edge, hmem, harc⟩
    obtain ⟨id, hedge⟩ := Arena.mem_toList_iff.1 hmem
    exact ⟨id, edge, hedge, harc⟩

/-- It is enough that the edges are the same in some order. -/
theorem SameNodes.sameGraph (h : SameNodes net net') (hnet : net.Consistent)
    (harcs : net'.edges.toList.map Edge.arc ~
      net.edges.toList.map fun edge => edge.arc.retag net'.tag) : SameGraph net net' where
  toSameNodes := h
  hasArc := by
    intro arc
    rw [hasArc_iff_mem, harcs.mem_iff, List.mem_map]
    constructor
    · rintro ⟨edge, hmem, heq⟩
      have harc : net.HasArc edge.arc := hasArc_iff_mem.2 (List.mem_map_of_mem hmem)
      have hback := congrArg (Arc.retag net.tag) heq
      simp only [Arc.retag, Node.retag_retag] at hback
      change edge.arc.retag net.tag = arc.retag net.tag at hback
      rwa [← hback, Arc.retag_of_owner
        (hnet.identified.owner_of_contains (harc.contains hnet .source))
        (hnet.identified.owner_of_contains (harc.contains hnet .target))]
    · intro harc
      obtain ⟨edge, hmem, heq⟩ := List.mem_map.1 (hasArc_iff_mem.1 harc)
      refine ⟨edge, hmem, ?_⟩
      rw [heq]
      simp [Arc.retag]

/-- Two nets of one tag with the same nodes and arcs; the edges may be numbered and listed in
another order. -/
structure Relinked (net net' : Net) : Prop where
  tag : net'.tag = net.tag
  places : net'.places.toList.map Place.bare = net.places.toList.map Place.bare
  transitions : net'.transitions.toList.map Transition.bare =
    net.transitions.toList.map Transition.bare
  hasArc : ∀ arc, net'.HasArc arc ↔ net.HasArc arc

theorem Relinked.symm (h : Relinked net net') : Relinked net' net :=
  ⟨h.tag.symm, h.places.symm, h.transitions.symm, fun arc => (h.hasArc arc).symm⟩

/-- A net and its copy under the tag of another net with the same graph. -/
theorem SameGraph.relinked (h : SameGraph net net') (hnet : net.Consistent)
    (hnet' : net'.Consistent) : Relinked (net.copy net'.tag) net' := by
  have hid := (hnet.copy net'.tag).identified
  have hid' := hnet'.identified
  have hnodes := (sameNodes_copy net net'.tag).symm
  refine ⟨rfl, ?_, ?_, fun arc => ?_⟩
  · have hpair := Arena.map_toList_pair (h.places.trans hnodes.places)
      (hid'.places_owner.trans hid.places_owner.symm) hid.place_id hid'.place_id
    have hbare := congrArg (List.map fun shown : PlaceId × NameIndex × Weight =>
      ({ id := shown.1, name := shown.2.1, tokens := shown.2.2 } : Place)) hpair
    rwa [List.map_map, List.map_map] at hbare
  · have hpair := Arena.map_toList_pair (h.transitions.trans hnodes.transitions)
      (hid'.transitions_owner.trans hid.transitions_owner.symm) hid.transition_id hid'.transition_id
    have hbare := congrArg (List.map fun shown : TransitionId × NameIndex × Label =>
      ({ id := shown.1, name := shown.2.1, label := shown.2.2 } : Transition)) hpair
    rwa [List.map_map, List.map_map] at hbare
  · rw [hasArc_copy_iff hnet, ← h.hasArc]
    constructor
    · intro harc
      have hsource := hid'.owner_of_contains (harc.contains hnet' .source)
      have htarget := hid'.owner_of_contains (harc.contains hnet' .target)
      refine ⟨hsource, htarget, ?_⟩
      rwa [Arc.retag_of_owner hsource htarget]
    · rintro ⟨hsource, htarget, harc⟩
      rwa [Arc.retag_of_owner hsource htarget] at harc

end Net
end PetriCcs
