import PetriCcs.Proofs.ImportContract
import PetriCcs.Proofs.LabelHistory
import PetriCcs.Proofs.SameGraph

/-! # Exporting a net and importing it again

The document of a net with tracked names and proper labels is well-formed (`wellFormed_ofNet`), so it
can be imported.  The new net exports the same document; because display names tell the nodes apart,
it holds the same node and the same edge at every position (`Rebuilds`, `reachable_rebuilt`).  Only
the lists of the nodes may differ: removals leave them in any order, an import in the order of the
edges (`Ordered`). -/

namespace PetriCcs

open scoped List

/-! ### The order of the links -/

namespace Net

variable {net net' : Net} {n : ℕ}

/-- A consistent net in which every node lists its edges in the order of their positions. -/
structure Ordered (net : Net) : Prop where
  consistent : net.Consistent
  increasing : ∀ {side node edges}, net.listed? side node = some edges →
    edges.Pairwise (·.index < ·.index)

theorem ordered_empty (tag : ℕ) : (empty tag).Ordered where
  consistent := consistent_empty tag
  increasing := by
    intro side node edges h
    cases side <;> cases node <;>
      simp [listed?, outgoing?, incoming?, place?, transition?, empty] at h

/-- A new node lists nothing. -/
theorem Ordered.of_newNode (h : net.Ordered) (hnet' : net'.Consistent) {new : Node}
    (hlisted : ∀ side node, net'.listed? side node =
      if node = new then some [] else net.listed? side node) : net'.Ordered where
  consistent := hnet'
  increasing := by
    intro side node edges hl
    rw [hlisted] at hl
    split_ifs at hl
    · cases hl
      exact List.Pairwise.nil
    · exact h.increasing hl

/-- A new edge comes after all others and is listed last. -/
theorem Ordered.of_edgeAdded (h : net.Ordered) (hnet' : net'.Consistent) {new : Edge}
    (a : EdgeAdded net net' new) : net'.Ordered where
  consistent := hnet'
  increasing := by
    intro side node edges hl
    rw [a.listed] at hl
    split_ifs at hl
    · obtain ⟨old, hold, rfl⟩ := Option.map_eq_some_iff.1 hl
      refine List.pairwise_append.2 ⟨h.increasing hold, List.pairwise_singleton _ _, ?_⟩
      intro id hid id' hid'
      obtain ⟨edge, hedge, -⟩ := h.consistent.edge_of_mem hold hid
      rw [List.mem_singleton.1 hid', a.id]
      exact (Arena.contains_iff.1 (Arena.contains_of_get? hedge)).2
    · exact h.increasing hl

end Net

/-- An action that keeps nets ordered. -/
def KeepsOrder {ε α : Type} (action : ExceptT ε (StateM Net) α) : Prop :=
  ∀ net : Net, net.Ordered → (action.run.run net).2.Ordered

theorem composes_ordered : Composes fun _ net net' => net.Ordered → net'.Ordered where
  refl _ h := h
  trans h h' hnet := h' (h hnet)
  mono h _ := h

namespace Edit

variable {net : Net}

theorem addPlace_keepsOrder (hint : Option NameIndex) (tokens : Weight) :
    KeepsOrder (addPlace hint tokens) := by
  intro net h
  change ((addPlace hint tokens).runOn net).2.Ordered
  by_cases hhint : hint = some 0
  · rw [hhint, addPlace_refused]
    exact h
  · rw [addPlace_runOn hhint]
    exact h.of_newNode (h.consistent.pushPlace _ _) (Net.listed?_pushPlace _ _)

theorem addTransition_keepsOrder (hint : Option NameIndex) (text : String) :
    KeepsOrder (addTransition hint text) := by
  intro net h
  change ((addTransition hint text).runOn net).2.Ordered
  rw [addTransition]
  split
  · by_cases hhint : hint = some 0
    · rw [hhint, addLabelledTransition_refused]
      exact h
    · rw [addLabelledTransition_runOn hhint]
      exact h.of_newNode (h.consistent.pushTransition _ _) (Net.listed?_pushTransition _ _)
  · exact h

theorem addEdge_keepsOrder (source target : Node) (weight : Weight) :
    KeepsOrder (addEdge source target weight) := by
  intro net h
  change ((addEdge source target weight).runOn net).2.Ordered
  by_cases hall : net.contains source = true ∧ net.contains target = true ∧
      Fits source target weight ∧ net.findEdge? source target = none
  · obtain ⟨hsource, htarget, hfits, hnew⟩ := hall
    obtain ⟨net', hrun, hadded⟩ := addEdge_runOn hsource htarget hfits hnew
    rw [hrun]
    exact h.of_edgeAdded (h.consistent.of_edgeAdded hadded (contains_newEdge hsource htarget) hfits
      hnew) hadded
  · obtain ⟨error, hrun⟩ := addEdge_refused hall
    rw [hrun]
    exact h

end Edit

namespace Document

variable {net net' : Net} {n : ℕ}

theorem populate_keepsOrder (document : Document) : KeepsOrder document.populate :=
  populate_ensures composes_ordered Edit.addPlace_keepsOrder Edit.addTransition_keepsOrder
    Edit.addEdge_keepsOrder document

/-! ### The document of a net -/

theorem isReference_of_pos (letter : Char) {name : NameIndex} (hpos : 0 < name) :
    IsReference letter (String.singleton letter ++ toString name.toNat) :=
  ⟨name.toNat, hpos, Nat.le_of_lt_succ name.toNat_lt_size, rfl⟩

/-- The names that a table tracks are positive. -/
theorem pos_of_tracks {table : NameTable} {names : List NameIndex} (h : table.Tracks names)
    {name : NameIndex} (hname : name ∈ names) : 0 < name :=
  h.sound.used_pos name (h.perm.mem_iff.2 hname)

/-- A table has as many names in use as there are nodes. -/
theorem length_le_of_tracks {table : NameTable} {names : List NameIndex} (h : table.Tracks names)
    (hload : table.load ≤ n) : names.length ≤ n := by
  rw [← h.perm.length_eq]
  exact (Nat.le_add_right _ _).trans hload

theorem length_places_le (hnamed : net.Named n) : (ofNet net).places.length ≤ n := by
  simpa [ofNet] using length_le_of_tracks hnamed.places hnamed.places_load

theorem length_transitions_le (hnamed : net.Named n) : (ofNet net).transitions.length ≤ n := by
  simpa [ofNet] using length_le_of_tracks hnamed.transitions hnamed.transitions_load

/-- The document of a net with tracked names and proper labels can be imported. -/
theorem wellFormed_ofNet (h : net.Consistent) (hnamed : net.Named n) (hproper : net.ProperLabels) :
    (ofNet net).WellFormed := by
  have hunique := hnamed.uniqueNames h.identified
  have hnet := hnamed.wellFormed h
  constructor
  · intro entry hentry
    obtain ⟨place, hplace, rfl⟩ := List.mem_map.1 hentry
    exact isReference_of_pos 'p' (pos_of_tracks hnamed.places (List.mem_map_of_mem hplace))
  · rw [placeIds, ofNet, List.map_map]
    exact hnet.place_names
  · intro entry hentry
    obtain ⟨transition, htransition, rfl⟩ := List.mem_map.1 hentry
    exact isReference_of_pos 't'
      (pos_of_tracks hnamed.transitions (List.mem_map_of_mem htransition))
  · rw [transitionIds, ofNet, List.map_map]
    exact hnet.transition_names
  · intro entry hentry
    obtain ⟨transition, htransition, rfl⟩ := List.mem_map.1 hentry
    exact Label.exists_parse?_iff.1
      ⟨transition.label, Label.parse?_eq_some_iff.2 ⟨hproper transition htransition, rfl⟩⟩
  · intro arc harc
    obtain ⟨edge, hmem, rfl⟩ := List.mem_map.1 harc
    obtain ⟨id, hedge⟩ := Arena.mem_toList_iff.1 hmem
    exact (joins_ofNet_iff hunique (shown?_endpoint h hedge .source)
      (shown?_endpoint h hedge .target)).2 (h.fits hedge)
  · rw [ofNet, List.map_map]
    refine List.Nodup.map_on (fun edge hmem edge' hmem' heq => ?_)
      (@Arena.nodup_toList _ _ net.edges Edge.id h.edge_id)
    obtain ⟨id, hedge⟩ := Arena.mem_toList_iff.1 hmem
    obtain ⟨id', hedge'⟩ := Arena.mem_toList_iff.1 hmem'
    obtain ⟨hsource, htarget⟩ := Prod.mk.inj heq
    have hid := h.unique hedge hedge'
      (hunique.of_shown? (shown?_endpoint h hedge .source)
        ((shown?_endpoint h hedge' .source).trans (congrArg some hsource.symm)))
      (hunique.of_shown? (shown?_endpoint h hedge .target)
        ((shown?_endpoint h hedge' .target).trans (congrArg some htarget.symm)))
    rw [hid, hedge'] at hedge
    exact (Option.some.inj hedge).symm

/-! ### Nets with the same document -/

/-- The entries of the nodes tell their names. -/
theorem sameNames_of_ofNet (hplaces : (ofNet net').places = (ofNet net).places)
    (htransitions : (ofNet net').transitions = (ofNet net).transitions) :
    Net.SameNames net net' := by
  constructor
  · simpa [ofNet, Function.comp_def] using congrArg (List.map PlaceEntry.id) hplaces
  · simpa [ofNet, Function.comp_def] using congrArg (List.map TransitionEntry.id) htransitions

/-- The entries of the places tell names and tokens. -/
theorem placeContents_of_ofNet (hplaces : (ofNet net').places = (ofNet net).places) :
    net'.places.toList.map Place.content = net.places.toList.map Place.content := by
  have hinjective : Function.Injective fun content : NameIndex × Weight =>
      (⟨placeName content.1, content.2⟩ : PlaceEntry) := by
    rintro ⟨name, tokens⟩ ⟨name', tokens'⟩ heq
    obtain ⟨hname, rfl⟩ := PlaceEntry.mk.inj heq
    exact Prod.ext (Net.displayName_injective "p" hname) rfl
  refine hinjective.list_map ?_
  rw [List.map_map, List.map_map]
  exact hplaces

/-- The entries of the nodes tell names, tokens and proper labels. -/
theorem sameNodes_of_ofNet (hdocument : ofNet net' = ofNet net) (hproper : net.ProperLabels)
    (hproper' : net'.ProperLabels) : Net.SameNodes net net' := by
  refine ⟨placeContents_of_ofNet (congrArg places hdocument), ?_⟩
  have hentries := congrArg (fun document => document.transitions.map fun entry =>
    (entry.id, Label.parse? entry.label)) hdocument
  have hread : ∀ {net : Net}, net.ProperLabels → (ofNet net).transitions.map
      (fun entry => (entry.id, Label.parse? entry.label)) =
        (net.transitions.toList.map Transition.content).map fun content =>
          (transitionName content.1, some content.2) := by
    intro net hproper
    rw [ofNet, List.map_map, List.map_map]
    refine List.map_congr_left fun transition htransition => ?_
    have hlabel := Label.parse?_eq_some_iff.2 ⟨hproper transition htransition, rfl⟩
    exact Prod.ext rfl hlabel
  have hinjective : Function.Injective fun content : NameIndex × Label =>
      (transitionName content.1, some content.2) := by
    rintro ⟨name, label⟩ ⟨name', label'⟩ heq
    obtain ⟨hname, hlabel⟩ := Prod.mk.inj heq
    exact Prod.ext (Net.displayName_injective "t" hname) (Option.some.inj hlabel)
  refine hinjective.list_map ?_
  rw [← hread hproper, ← hread hproper']
  exact hentries

/-- The node that an exported arc names is the same in both nets. -/
theorem endpoint_eq_retag (h : net.Consistent) (h' : net'.Consistent) (hunique : net'.UniqueNames)
    (hnames : Net.SameNames net net') {id id' : EdgeId} {edge edge' : Edge}
    (hedge : net.edge? id = some edge) (hedge' : net'.edge? id' = some edge') (side : Side)
    (hreference : reference net' (edge'.endpoint side) = reference net (edge.endpoint side)) :
    edge'.endpoint side = (edge.endpoint side).retag net'.tag := by
  have hshown := hnames.shown?_retag h.identified h'.identified (h.owner_endpoint hedge side)
  rw [shown?_endpoint h hedge side, ← hreference] at hshown
  exact hunique.of_shown? (shown?_endpoint h' hedge' side) hshown

/-- Nets with the same document have the same edge at every position. -/
theorem edges_of_ofNet (h : net.Consistent) (h' : net'.Consistent) (hunique : net'.UniqueNames)
    (hdocument : ofNet net' = ofNet net) :
    net'.edges.toList = net.edges.toList.map (Edge.retag net'.tag) := by
  have hnames := sameNames_of_ofNet (congrArg places hdocument) (congrArg transitions hdocument)
  have harcs := congrArg Document.arcs hdocument
  refine List.ext_getElem? fun i => ?_
  have harc := congrArg (·[i]?) harcs
  simp only [ofNet, List.getElem?_map] at harc
  rw [List.getElem?_map]
  cases hi : net.edges.toList[i]? with
  | none =>
      rw [hi, Option.map_none, Option.map_eq_none_iff] at harc
      rw [harc]
      rfl
  | some edge =>
      rw [hi, Option.map_some, Option.map_eq_some_iff] at harc
      obtain ⟨edge', hi', heq⟩ := harc
      obtain ⟨hsource, htarget, hweight⟩ := ArcEntry.mk.inj heq
      have hget : ∀ {net : Net} {edge : Edge}, net.edges.toList[i]? = some edge →
          net.edge? (net.edges.handleAt i) = some edge := by
        intro net edge hedge
        rwa [Net.edge?, Arena.get?_handleAt, ← Array.getElem?_toList]
      have hedge := hget hi
      have hedge' := hget hi'
      rw [hi', Option.map_some, Option.some.injEq]
      have hid : edge'.id = edge.id.retag net'.tag := by
        rw [h'.edge_id hedge', h.edge_id hedge, Arena.handleAt, h'.identified.edges_owner]
        rfl
      have hs := endpoint_eq_retag h h' hunique hnames hedge hedge' .source hsource
      have ht := endpoint_eq_retag h h' hunique hnames hedge hedge' .target htarget
      obtain ⟨_, _, _, _⟩ := edge'
      subst hid hweight
      exact congrArg₂ (Edge.mk _ · · _) hs ht

/-! ### The rebuilt net -/

/-- A net holds the same node and the same edge as another one at every position, and its nodes list
the same edges, in the order of their positions. -/
structure Rebuilds (net rebuilt : Net) : Prop where
  nodes : Net.SameNodes net rebuilt
  edges : rebuilt.edges.toList = net.edges.toList.map (Edge.retag rebuilt.tag)
  links : ∀ side node edges, net.listed? side node = some edges →
    ∃ edges', rebuilt.listed? side (node.retag rebuilt.tag) = some edges' ∧
      edges' ~ edges.map (·.retag rebuilt.tag) ∧ edges'.Pairwise (·.index < ·.index)

/-- The links follow from the edges, since both nets are consistent. -/
theorem rebuilds_of_edges (h : net.Consistent) (h' : net'.Ordered) (hnodes : Net.SameNodes net net')
    (hedges : net'.edges.toList = net.edges.toList.map (Edge.retag net'.tag)) :
    Rebuilds net net' := by
  have hid := h.identified
  have hid' := h'.consistent.identified
  have hedge : ∀ {id : EdgeId}, id.owner = net.tag →
      net'.edge? (id.retag net'.tag) = (net.edge? id).map (Edge.retag net'.tag) := by
    intro id howner
    have hget := Arena.map_get?_retag ((List.map_id _).trans hedges)
      (howner.trans hid.edges_owner.symm)
    rwa [Option.map_id, hid'.edges_owner] at hget
  refine ⟨hnodes, hedges, fun side node edges hlisted => ?_⟩
  have hcontains := (Net.contains_iff_listed? side node).2 ⟨edges, hlisted⟩
  have hnode := hid.owner_of_contains hcontains
  obtain ⟨edges', hlisted'⟩ := (Net.contains_iff_listed? side _).1
    ((hnodes.contains_retag hid hid' hnode).2 hcontains)
  refine ⟨edges', hlisted', ?_, h'.increasing hlisted'⟩
  have howner : ∀ id ∈ edges, id.owner = net.tag := fun id hmem =>
    have ⟨_, hfound, _⟩ := h.edge_of_mem hlisted hmem
    hid.owner_of_edge hfound
  have hnodup : (edges.map (·.retag net'.tag)).Nodup := (h.nodup hlisted).map_on
    fun id hmem id₁ hmem₁ heq => Net.retag_inj (howner id hmem) (howner id₁ hmem₁) heq
  refine (List.perm_ext_iff_of_nodup (h'.consistent.nodup hlisted') hnodup).2 fun id' => ?_
  rw [h'.consistent.mem_listed hlisted', List.mem_map]
  constructor
  · rintro ⟨edge', hfound', hend'⟩
    have hback : (id'.retag net.tag).retag net'.tag = id' :=
      Handle.retag_of_owner (hid'.owner_of_edge hfound')
    have hget := @hedge (id'.retag net.tag) rfl
    rw [hback, hfound'] at hget
    obtain ⟨edge, hfound, rfl⟩ := Option.map_eq_some_iff.1 hget.symm
    rw [Edge.endpoint_retag] at hend'
    exact ⟨_, (h.mem_listed hlisted _).2 ⟨edge, hfound,
      Net.retag_node_inj (h.owner_endpoint hfound side) hnode hend'⟩, hback⟩
  · rintro ⟨id, hmem, rfl⟩
    obtain ⟨edge, hfound, rfl⟩ := h.edge_of_mem hlisted hmem
    refine ⟨edge.retag net'.tag, ?_, Edge.endpoint_retag _ _ _⟩
    rw [hedge (howner id hmem), hfound]
    rfl

/-- The document of a net is imported into a net with the same nodes and edges. -/
theorem exists_rebuilt (h : net.Consistent) (hnamed : net.Named n) (hn : n < Net.additionLimit)
    (hproper : net.ProperLabels) (tag : ℕ) :
    ∃ rebuilt, (ofNet net).toNet tag = .ok rebuilt ∧ rebuilt.tag = tag ∧ Rebuilds net rebuilt := by
  have hsucceeds := populate_succeeds (ofNet net) tag ((length_places_le hnamed).trans_lt hn)
    ((length_transitions_le hnamed).trans_lt hn)
  obtain ⟨_, rebuilt, hpopulate, hholds⟩ := hsucceeds.ok (wellFormed_ofNet h hnamed hproper)
  have hpopulate' : (populate (ofNet net)).run.run (Net.empty tag) = (.ok (), rebuilt) := hpopulate
  have himport := importInto_eq (Net.consistent_empty tag).identified (ofNet net)
  have hempty : (Net.empty tag).tag = tag := rfl
  rw [hempty, hpopulate'] at himport
  have hordered : rebuilt.Ordered := by
    have hkeeps := populate_keepsOrder (ofNet net) _ (Net.ordered_empty tag)
    rwa [hpopulate'] at hkeeps
  have htag : rebuilt.tag = tag := by
    have hgrows := populate_grows (ofNet net) _ (Net.consistent_empty tag)
    rw [hpopulate'] at hgrows
    exact hgrows.tag
  have hproper' : rebuilt.ProperLabels := by
    have hlabels := importInto_allLabels (fun _ hlabel => hlabel)
      (Net.consistent_empty tag).identified (ofNet net)
    rw [himport] at hlabels
    exact Net.properLabels_iff.2 hlabels
  have hnodes := sameNodes_of_ofNet hholds.entries hproper hproper'
  refine ⟨rebuilt, ?_, htag, rebuilds_of_edges h hordered hnodes
    (edges_of_ofNet h hholds.consistent hholds.uniqueNames hholds.entries)⟩
  rw [toNet, himport]

/-- Exporting a reachable net with proper labels and importing the document rebuilds the net, under
any tag. -/
theorem reachable_rebuilt (h : net.Reachable n) (hn : n < Net.additionLimit)
    (hproper : net.ProperLabels) (tag : ℕ) :
    ∃ rebuilt, (ofNet net).toNet tag = .ok rebuilt ∧ rebuilt.tag = tag ∧ Rebuilds net rebuilt :=
  exists_rebuilt h.consistent (h.named hn) hn hproper tag

theorem reachable_rebuilt_worn : Net.worn.Reachable 10 ∧ 10 < Net.additionLimit ∧
    Net.worn.ProperLabels ∧ Net.worn.outgoing? (.place ⟨0, 1⟩) = some [⟨0, 2⟩, ⟨0, 0⟩] ∧
    ∃ rebuilt, (ofNet Net.worn).toNet 1 = .ok rebuilt ∧ rebuilt.tag = 1 ∧
      Rebuilds Net.worn rebuilt :=
  have hproper : Net.worn.ProperLabels := by decide +kernel
  ⟨Net.worn_reachable, by decide, hproper, by decide +kernel,
    reachable_rebuilt Net.worn_reachable (by decide) hproper 1⟩

end Document
end PetriCcs
