import PetriCcs.Classification.Choice
import PetriCcs.Document.Basic
import PetriCcs.Proofs.Evolution

/-! # Copies of a net

A copy holds the nodes and edges of a net at the same positions under another tag.  It is consistent
when the net is (`Consistent.copy`), its arcs are the arcs of the net under the new tag
(`hasArc_copy_iff`), and its document is that of the net (`Document.ofNet_copy`).  Copying it back
gives the net again (`copy_copy`, `Consistent.copy_tag`). -/

namespace PetriCcs

/-! ### Positions under a tag -/

namespace Handle

variable {kind : Kind}

@[simp] theorem owner_retag (tag : ℕ) (id : Handle kind) : (id.retag tag).owner = tag := rfl

@[simp] theorem retag_retag (tag tag' : ℕ) (id : Handle kind) :
    (id.retag tag).retag tag' = id.retag tag' := rfl

theorem retag_of_owner {tag : ℕ} {id : Handle kind} (h : id.owner = tag) : id.retag tag = id := by
  subst h
  rfl

end Handle

namespace Node

/-- The tag of the net that issued a node. -/
def owner : Node → ℕ
  | .place id => id.owner
  | .transition id => id.owner

@[simp] theorem owner_retag (tag : ℕ) (node : Node) : (node.retag tag).owner = tag := by
  cases node <;> rfl

@[simp] theorem retag_retag (tag tag' : ℕ) (node : Node) :
    (node.retag tag).retag tag' = node.retag tag' := by
  cases node <;> rfl

theorem retag_of_owner {tag : ℕ} {node : Node} (h : node.owner = tag) : node.retag tag = node := by
  subst h
  cases node <;> rfl

end Node

/-- A place at the same position under another tag. -/
def Place.retag (tag : ℕ) (place : Place) : Place :=
  { place with
    id := place.id.retag tag
    incoming := place.incoming.map (·.retag tag)
    outgoing := place.outgoing.map (·.retag tag) }

/-- A transition at the same position under another tag. -/
def Transition.retag (tag : ℕ) (transition : Transition) : Transition :=
  { transition with
    id := transition.id.retag tag
    incoming := transition.incoming.map (·.retag tag)
    outgoing := transition.outgoing.map (·.retag tag) }

/-- An edge at the same position under another tag. -/
def Edge.retag (tag : ℕ) (edge : Edge) : Edge :=
  { edge with
    id := edge.id.retag tag
    source := edge.source.retag tag
    target := edge.target.retag tag }

/-- An arc between the same positions under another tag. -/
def Arc.retag (tag : ℕ) (arc : Arc) : Arc :=
  { arc with source := arc.source.retag tag, target := arc.target.retag tag }

@[simp] theorem Edge.endpoint_retag (tag : ℕ) (edge : Edge) (side : Side) :
    (edge.retag tag).endpoint side = (edge.endpoint side).retag tag := by
  cases side <;> rfl

@[simp] theorem Edge.arc_retag (tag : ℕ) (edge : Edge) :
    (edge.retag tag).arc = edge.arc.retag tag := rfl

@[simp] theorem Place.retag_retag (tag tag' : ℕ) (place : Place) :
    (place.retag tag).retag tag' = place.retag tag' := by
  simp [Place.retag, Function.comp_def]

@[simp] theorem Transition.retag_retag (tag tag' : ℕ) (transition : Transition) :
    (transition.retag tag).retag tag' = transition.retag tag' := by
  simp [Transition.retag, Function.comp_def]

@[simp] theorem Edge.retag_retag (tag tag' : ℕ) (edge : Edge) :
    (edge.retag tag).retag tag' = edge.retag tag' := by
  simp [Edge.retag]

theorem Arc.retag_of_owner {tag : ℕ} {arc : Arc} (hsource : arc.source.owner = tag)
    (htarget : arc.target.owner = tag) : arc.retag tag = arc := by
  rw [Arc.retag, Node.retag_of_owner hsource, Node.retag_of_owner htarget]

theorem fits_retag (tag : ℕ) (source target : Node) (weight : Weight) :
    Fits (source.retag tag) (target.retag tag) weight ↔ Fits source target weight := by
  cases source <;> cases target <;> exact Iff.rfl

namespace Net

variable {net : Net} {tag : ℕ}

/-! ### Lookups in a copy -/

theorem copy_places (net : Net) (tag : ℕ) :
    (net.copy tag).places = (net.places.retag tag).map (Place.retag tag) := rfl

theorem copy_transitions (net : Net) (tag : ℕ) :
    (net.copy tag).transitions = (net.transitions.retag tag).map (Transition.retag tag) := rfl

theorem copy_edges (net : Net) (tag : ℕ) :
    (net.copy tag).edges = (net.edges.retag tag).map (Edge.retag tag) := rfl

@[simp] theorem toList_places_copy : (net.copy tag).places.toList =
    net.places.toList.map (Place.retag tag) := by
  rw [copy_places, Arena.toList_map]
  rfl

@[simp] theorem toList_transitions_copy : (net.copy tag).transitions.toList =
    net.transitions.toList.map (Transition.retag tag) := by
  rw [copy_transitions, Arena.toList_map]
  rfl

@[simp] theorem toList_edges_copy : (net.copy tag).edges.toList =
    net.edges.toList.map (Edge.retag tag) := by
  rw [copy_edges, Arena.toList_map]
  rfl

theorem get?_retag_map {kind : Kind} {α : Type} {arena : Arena kind α} (howner : arena.owner = net.tag)
    (f : α → α) (id : Handle kind) : ((arena.retag tag).map f).get? id =
      if id.owner = tag then (arena.get? (id.retag net.tag)).map f else none := by
  rw [Arena.get?_map, Arena.get?_retag, Arena.get?, Handle.owner_retag, if_pos howner.symm]
  split <;> rfl

theorem place?_copy (h : net.Identified) (id : PlaceId) : (net.copy tag).place? id =
    if id.owner = tag then (net.place? (id.retag net.tag)).map (Place.retag tag) else none :=
  get?_retag_map h.places_owner _ id

theorem transition?_copy (h : net.Identified) (id : TransitionId) : (net.copy tag).transition? id =
    if id.owner = tag then (net.transition? (id.retag net.tag)).map (Transition.retag tag)
    else none :=
  get?_retag_map h.transitions_owner _ id

theorem edge?_copy (h : net.Identified) (id : EdgeId) : (net.copy tag).edge? id =
    if id.owner = tag then (net.edge? (id.retag net.tag)).map (Edge.retag tag) else none :=
  get?_retag_map h.edges_owner _ id

theorem listed?_copy (h : net.Identified) (side : Side) (node : Node) :
    (net.copy tag).listed? side node =
      if node.owner = tag then
        (net.listed? side (node.retag net.tag)).map (List.map (·.retag tag)) else none := by
  cases node with
  | place id =>
      cases side <;> simp only [listed?, outgoing?, incoming?, place?_copy h, Node.owner, Node.retag] <;>
        by_cases hid : id.owner = tag <;> simp [hid, Function.comp_def, Place.retag]
  | transition id =>
      cases side <;> simp only [listed?, outgoing?, incoming?, transition?_copy h, Node.owner,
        Node.retag] <;>
        by_cases hid : id.owner = tag <;> simp [hid, Function.comp_def, Transition.retag]

/-- The net issued the nodes that it has. -/
theorem Identified.owner_of_contains (h : net.Identified) {node : Node}
    (hnode : net.contains node = true) : node.owner = net.tag := by
  cases node with
  | place id => exact (Arena.contains_iff.1 hnode).1.trans h.places_owner
  | transition id => exact (Arena.contains_iff.1 hnode).1.trans h.transitions_owner

theorem Identified.owner_of_edge (h : net.Identified) {id : EdgeId} {edge : Edge}
    (hedge : net.edge? id = some edge) : id.owner = net.tag :=
  (Arena.owner_of_get? hedge).trans h.edges_owner

theorem contains_copy (h : net.Identified) (node : Node) : (net.copy tag).contains node = true ↔
    node.owner = tag ∧ net.contains (node.retag net.tag) = true := by
  rw [contains_iff_listed? .source, contains_iff_listed? .source, listed?_copy h]
  by_cases hnode : node.owner = tag
  · simp [hnode]
  · simp [hnode]

theorem edge?_copy_eq_some_iff (h : net.Identified) {id : EdgeId} {edge : Edge} :
    (net.copy tag).edge? id = some edge ↔ id.owner = tag ∧
      ∃ original, net.edge? (id.retag net.tag) = some original ∧ original.retag tag = edge := by
  rw [edge?_copy h]
  by_cases hid : id.owner = tag
  · simp [hid]
  · simp [hid]

theorem Identified.copy (h : net.Identified) (tag : ℕ) : (net.copy tag).Identified := by
  refine ⟨rfl, rfl, rfl, fun {id place} hp => ?_, fun {id transition} ht => ?_⟩
  · rw [place?_copy h] at hp
    split_ifs at hp with hid
    obtain ⟨original, horiginal, rfl⟩ := Option.map_eq_some_iff.1 hp
    change original.id.retag tag = id
    rw [h.place_id horiginal, Handle.retag_retag, Handle.retag_of_owner hid]
  · rw [transition?_copy h] at ht
    split_ifs at ht with hid
    obtain ⟨original, horiginal, rfl⟩ := Option.map_eq_some_iff.1 ht
    change original.id.retag tag = id
    rw [h.transition_id horiginal, Handle.retag_retag, Handle.retag_of_owner hid]

/-- Handles of one net that fall together under another tag are the same. -/
theorem retag_inj {kind : Kind} {id id' : Handle kind} (howner : id.owner = net.tag)
    (howner' : id'.owner = net.tag) (h : id.retag tag = id'.retag tag) : id = id' := by
  rw [← Handle.retag_of_owner howner, ← Handle.retag_of_owner howner', ← Handle.retag_retag tag, h,
    Handle.retag_retag]

theorem retag_node_inj {node node' : Node} (howner : node.owner = net.tag)
    (howner' : node'.owner = net.tag) (h : node.retag tag = node'.retag tag) : node = node' := by
  rw [← Node.retag_of_owner howner, ← Node.retag_of_owner howner', ← Node.retag_retag tag, h,
    Node.retag_retag]

theorem Consistent.owner_endpoint (h : net.Consistent) {id : EdgeId} {edge : Edge}
    (hedge : net.edge? id = some edge) (side : Side) : (edge.endpoint side).owner = net.tag :=
  h.identified.owner_of_contains (h.contains_endpoint hedge side)

/-- A copy of a consistent net is consistent. -/
theorem Consistent.copy (h : net.Consistent) (tag : ℕ) : (net.copy tag).Consistent := by
  have hid := h.identified
  refine ⟨hid.copy tag, ?_, ?_, ?_, ?_, ?_, ?_⟩
  · intro id edge' he
    obtain ⟨howner, edge, hedge, rfl⟩ := (edge?_copy_eq_some_iff hid).1 he
    change edge.id.retag tag = id
    rw [h.edge_id hedge, Handle.retag_retag, Handle.retag_of_owner howner]
  · intro side node edges' hl
    rw [listed?_copy hid] at hl
    split_ifs at hl with hnode
    obtain ⟨edges, hedges, rfl⟩ := Option.map_eq_some_iff.1 hl
    refine List.Nodup.map_on (fun k hk k' hk' heq => ?_) (h.nodup hedges)
    obtain ⟨edge, hedge, -⟩ := h.edge_of_mem hedges hk
    obtain ⟨edge', hedge', -⟩ := h.edge_of_mem hedges hk'
    exact retag_inj (hid.owner_of_edge hedge) (hid.owner_of_edge hedge') heq
  · intro side node edges' hl id
    rw [listed?_copy hid] at hl
    split_ifs at hl with hnode
    obtain ⟨edges, hedges, rfl⟩ := Option.map_eq_some_iff.1 hl
    rw [List.mem_map]
    constructor
    · rintro ⟨k, hk, rfl⟩
      obtain ⟨edge, hedge, hend⟩ := h.edge_of_mem hedges hk
      refine ⟨edge.retag tag, (edge?_copy_eq_some_iff hid).2 ⟨rfl, edge, ?_, rfl⟩, ?_⟩
      · rw [Handle.retag_retag, Handle.retag_of_owner (hid.owner_of_edge hedge), hedge]
      · rw [Edge.endpoint_retag, hend, Node.retag_retag, Node.retag_of_owner hnode]
    · rintro ⟨edge', hedge', hend⟩
      obtain ⟨howner, edge, hedge, rfl⟩ := (edge?_copy_eq_some_iff hid).1 hedge'
      refine ⟨id.retag net.tag, (h.mem_listed hedges _).2 ⟨edge, hedge, ?_⟩, ?_⟩
      · rw [← Node.retag_of_owner (h.owner_endpoint hedge side), ← hend, Edge.endpoint_retag,
          Node.retag_retag]
      · rw [Handle.retag_retag, Handle.retag_of_owner howner]
  · intro id edge' he side
    obtain ⟨howner, edge, hedge, rfl⟩ := (edge?_copy_eq_some_iff hid).1 he
    rw [contains_copy hid, Edge.endpoint_retag, Node.owner_retag, Node.retag_retag,
      Node.retag_of_owner (h.owner_endpoint hedge side)]
    exact ⟨rfl, h.contains_endpoint hedge side⟩
  · intro id edge' he
    obtain ⟨-, edge, hedge, rfl⟩ := (edge?_copy_eq_some_iff hid).1 he
    exact (fits_retag tag _ _ _).2 (h.fits hedge)
  · intro id id' edge edge' he he' hs ht
    obtain ⟨howner, old, hold, rfl⟩ := (edge?_copy_eq_some_iff hid).1 he
    obtain ⟨howner', old', hold', rfl⟩ := (edge?_copy_eq_some_iff hid).1 he'
    have hkey := h.unique hold hold'
      (retag_node_inj (h.owner_endpoint hold .source) (h.owner_endpoint hold' .source) hs)
      (retag_node_inj (h.owner_endpoint hold .target) (h.owner_endpoint hold' .target) ht)
    rw [← Handle.retag_of_owner howner, ← Handle.retag_of_owner howner',
      ← Handle.retag_retag net.tag, hkey, Handle.retag_retag]

theorem Numbered.copy {p t : ℕ} (h : net.Numbered p t) (tag : ℕ) : (net.copy tag).Numbered p t := by
  refine ⟨?_, ?_, h.places_load, h.transitions_load⟩
  · have hnames : (net.copy tag).places.toList.map Place.name = net.places.toList.map Place.name := by
      simp [Place.retag, Function.comp_def]
    rw [hnames]
    exact h.places
  · have hnames : (net.copy tag).transitions.toList.map Transition.name =
        net.transitions.toList.map Transition.name := by
      simp [Transition.retag, Function.comp_def]
    rw [hnames]
    exact h.transitions

/-! ### Arcs and queries of a copy -/

/-- The arcs of a copy are those of the net between its own nodes. -/
theorem hasArc_copy_iff (h : net.Consistent) {arc : Arc} : (net.copy tag).HasArc arc ↔
    arc.source.owner = tag ∧ arc.target.owner = tag ∧ net.HasArc (arc.retag net.tag) := by
  constructor
  · rintro ⟨id, edge', hedge', rfl⟩
    obtain ⟨-, edge, hedge, rfl⟩ := (edge?_copy_eq_some_iff h.identified).1 hedge'
    refine ⟨Node.owner_retag _ _, Node.owner_retag _ _, _, edge, hedge, ?_⟩
    have hback : (edge.retag tag).arc.retag net.tag = edge.arc.retag net.tag := by
      simp [Arc.retag]
    rw [hback]
    exact (Arc.retag_of_owner (h.owner_endpoint hedge .source) (h.owner_endpoint hedge .target)).symm
  · rintro ⟨hsource, htarget, id, edge, hedge, harc⟩
    refine ⟨id.retag tag, edge.retag tag, (edge?_copy_eq_some_iff h.identified).2
      ⟨rfl, edge, ?_, rfl⟩, ?_⟩
    · rw [Handle.retag_retag, Handle.retag_of_owner (h.identified.owner_of_edge hedge), hedge]
    · have hback : (arc.retag net.tag).retag tag = arc.retag tag := by simp [Arc.retag]
      rw [Edge.arc_retag, harc, hback, Arc.retag_of_owner hsource htarget]

/-- A copy has the arcs of the net. -/
theorem HasArc.copy (h : net.Consistent) {arc : Arc} (harc : net.HasArc arc) (tag : ℕ) :
    (net.copy tag).HasArc (arc.retag tag) := by
  refine (hasArc_copy_iff h).2 ⟨Node.owner_retag _ _, Node.owner_retag _ _, ?_⟩
  have hback : (arc.retag tag).retag net.tag = arc.retag net.tag := by
    simp [Arc.retag]
  rw [hback, Arc.retag_of_owner (h.identified.owner_of_contains (harc.contains h .source))
    (h.identified.owner_of_contains (harc.contains h .target))]
  exact harc

theorem mem_preset_copy_iff (h : net.Consistent) {t : TransitionId} {p : PlaceId} :
    p ∈ (net.copy tag).preset t ↔
      p.owner = tag ∧ t.owner = tag ∧ p.retag net.tag ∈ net.preset (t.retag net.tag) := by
  rw [(h.copy tag).mem_preset_iff, hasArc_copy_iff h, h.mem_preset_iff]
  exact Iff.rfl

theorem mem_consumers_copy_iff (h : net.Consistent) {t : TransitionId} {p : PlaceId} :
    t ∈ (net.copy tag).consumers p ↔
      p.owner = tag ∧ t.owner = tag ∧ t.retag net.tag ∈ net.consumers (p.retag net.tag) := by
  rw [(h.copy tag).mem_consumers_iff, hasArc_copy_iff h, h.mem_consumers_iff]
  exact Iff.rfl

theorem mem_postset_copy_iff (h : net.Consistent) {t : TransitionId} {p : PlaceId}
    {weight : Weight} : (p, weight) ∈ (net.copy tag).postset t ↔
      t.owner = tag ∧ p.owner = tag ∧ (p.retag net.tag, weight) ∈ net.postset (t.retag net.tag) := by
  rw [(h.copy tag).mem_postset_iff, hasArc_copy_iff h, h.mem_postset_iff]
  exact Iff.rfl

/-- The arcs at a node of a copy are those of the net, in the same order. -/
theorem Consistent.arcs_copy (h : net.Consistent) (side : Side) {node : Node}
    (hnode : node.owner = net.tag) : (net.copy tag).arcs side (node.retag tag) =
      (net.arcs side node).map (Arc.retag tag) := by
  rw [arcs, arcs, listed?_copy h.identified, if_pos (Node.owner_retag tag node), Node.retag_retag,
    Node.retag_of_owner hnode]
  cases hlisted : net.listed? side node with
  | none => rfl
  | some edges =>
      rw [Option.map_some, Option.getD_some, Option.getD_some, List.filterMap_map, List.map_filterMap]
      refine List.filterMap_congr fun id hid => ?_
      obtain ⟨edge, hedge, -⟩ := h.edge_of_mem hlisted hid
      have howner := Handle.retag_of_owner (h.identified.owner_of_edge hedge)
      rw [Function.comp_apply, edge?_copy h.identified, if_pos (Handle.owner_retag tag id),
        Handle.retag_retag, howner, hedge]
      rfl

theorem isTwoTauSynchronisation_copy (net : Net) (tag : ℕ) :
    (net.copy tag).isTwoTauSynchronisation = net.isTwoTauSynchronisation := by
  rw [isTwoTauSynchronisation, isTwoTauSynchronisation, toList_transitions_copy, List.all_map]
  congr 1
  funext transition
  simp only [Function.comp_apply, Transition.retag, List.length_map]
  rfl

/-! ### Copies of copies -/

/-- A copy of a copy is a copy. -/
theorem copy_copy (net : Net) (tag tag' : ℕ) : (net.copy tag).copy tag' = net.copy tag' := by
  have hmap : ∀ {kind : Kind} {α : Type} (arena : Arena kind α) {f g : α → α},
      (∀ value, g (f value) = g value) →
        (((arena.retag tag).map f).retag tag').map g = (arena.retag tag').map g := by
    intro kind α arena f g hfg
    simp only [Arena.map, Arena.retag, Array.map_map]
    exact congrArg _ (congrArg (Array.map · arena.items) (funext hfg))
  show Net.mk _ _ _ _ _ _ = Net.mk _ _ _ _ _ _
  congr 1
  · exact hmap net.places (Place.retag_retag tag tag')
  · exact hmap net.transitions (Transition.retag_retag tag tag')
  · exact hmap net.edges (Edge.retag_retag tag tag')

theorem Consistent.map_retag_listed (h : net.Consistent) {side : Side} {node : Node}
    {edges : List EdgeId} (hlisted : net.listed? side node = some edges) :
    edges.map (·.retag net.tag) = edges := by
  refine (List.map_congr_left fun id hid => ?_).trans (List.map_id edges)
  obtain ⟨edge, hedge, -⟩ := h.edge_of_mem hlisted hid
  exact Handle.retag_of_owner (h.identified.owner_of_edge hedge)


/-- A copy under the tag of the net is the net. -/
theorem Consistent.copy_tag (h : net.Consistent) : net.copy net.tag = net := by
  have hid := h.identified
  have hretag : ∀ {kind : Kind} {α : Type} {arena : Arena kind α} {f : α → α},
      arena.owner = net.tag → (∀ {id value}, arena.get? id = some value → f value = value) →
        (arena.retag net.tag).map f = arena := by
    intro kind α arena f howner hf
    rw [← howner]
    exact Arena.map_eq_self hf
  show Net.mk _ _ _ _ _ _ = Net.mk _ _ _ _ _ _
  congr 1
  · refine hretag hid.places_owner fun {p place} hp => ?_
    have howner : place.id.retag net.tag = place.id := by
      rw [hid.place_id hp]
      exact Handle.retag_of_owner ((Arena.owner_of_get? hp).trans hid.places_owner)
    have hplace : net.place? p = some place := hp
    show place.retag net.tag = place
    rw [Place.retag, howner,
      h.map_retag_listed (show net.listed? .target (.place p) = some place.incoming by
        simp [listed?, incoming?, hplace]),
      h.map_retag_listed (show net.listed? .source (.place p) = some place.outgoing by
        simp [listed?, outgoing?, hplace])]
  · refine hretag hid.transitions_owner fun {t transition} ht => ?_
    have howner : transition.id.retag net.tag = transition.id := by
      rw [hid.transition_id ht]
      exact Handle.retag_of_owner ((Arena.owner_of_get? ht).trans hid.transitions_owner)
    have htransition : net.transition? t = some transition := ht
    show transition.retag net.tag = transition
    rw [Transition.retag, howner,
      h.map_retag_listed (show net.listed? .target (.transition t) = some transition.incoming by
        simp [listed?, incoming?, htransition]),
      h.map_retag_listed (show net.listed? .source (.transition t) = some transition.outgoing by
        simp [listed?, outgoing?, htransition])]
  · refine hretag hid.edges_owner fun {id edge} hedge => ?_
    have hsource : edge.source.owner = net.tag := h.owner_endpoint hedge .source
    have htarget : edge.target.owner = net.tag := h.owner_endpoint hedge .target
    have howner := (h.edge_id hedge).symm ▸ hid.owner_of_edge hedge
    show edge.retag net.tag = edge
    rw [Edge.retag, Handle.retag_of_owner howner, Node.retag_of_owner hsource,
      Node.retag_of_owner htarget]

/-- What a copy has from the net, the net has from the copy. -/
theorem Consistent.copy_iff (h : net.Consistent) {P : Net → Prop}
    (hcopy : ∀ {net : Net}, net.Consistent → P net → ∀ tag, P (net.copy tag)) (tag : ℕ) :
    P (net.copy tag) ↔ P net := by
  constructor
  · intro hnet
    have hback := hcopy (h.copy tag) hnet net.tag
    rwa [copy_copy, h.copy_tag] at hback
  · exact fun hnet => hcopy h hnet tag

end Net

theorem Document.reference_copy {net : Net} (h : net.Identified) {node : Node}
    (hnode : node.owner = net.tag) (tag : ℕ) :
    reference (net.copy tag) (node.retag tag) = reference net node := by
  cases node with
  | place id =>
      have hid : id.retag net.tag = id := Handle.retag_of_owner hnode
      simp only [reference, Node.retag, Net.place?_copy h, Handle.owner_retag, if_true,
        Handle.retag_retag, hid, Option.map_map]
      rfl
  | transition id =>
      have hid : id.retag net.tag = id := Handle.retag_of_owner hnode
      simp only [reference, Node.retag, Net.transition?_copy h, Handle.owner_retag, if_true,
        Handle.retag_retag, hid, Option.map_map]
      rfl

/-- A copy has the document of the net. -/
theorem Document.ofNet_copy {net : Net} (h : net.Consistent) (tag : ℕ) :
    ofNet (net.copy tag) = ofNet net := by
  simp only [ofNet, Net.toList_places_copy, Net.toList_transitions_copy, Net.toList_edges_copy,
    List.map_map]
  refine congrArg _ (List.map_congr_left fun edge hedge => ?_)
  obtain ⟨id, hid⟩ := Arena.mem_toList_iff.1 hedge
  have hsource := reference_copy h.identified (h.owner_endpoint hid .source) tag
  have htarget := reference_copy h.identified (h.owner_endpoint hid .target) tag
  simp only [Function.comp_apply, Edge.retag]
  exact congrArg₂ (ArcEntry.mk · · edge.weight) hsource htarget

end PetriCcs
