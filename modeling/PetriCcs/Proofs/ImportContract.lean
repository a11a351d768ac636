import PetriCcs.Proofs.Import

/-! # The contract of an import

`Document.WellFormed` says which documents are in order: references spell positive numbers, labels
are internal or words, arcs join declared nodes of different kinds, and nothing is declared twice.
An import goes through for exactly these, whatever the net held before, and the net then exports the
document that was imported (`reachable_import`).  The invariant of its loops is `Document.Holds`: the
net holds exactly the entries read so far. -/

namespace PetriCcs
namespace Document

variable {net net' : Net} {document : Document}

/-- The references of the declared places. -/
def placeIds (document : Document) : List String := document.places.map PlaceEntry.id

/-- The references of the declared transitions. -/
def transitionIds (document : Document) : List String := document.transitions.map TransitionEntry.id

/-- An arc joins a declared place and a declared transition; it consumes one token or produces at
least one. -/
def Joins (document : Document) (arc : ArcEntry) : Prop :=
  (arc.source ∈ document.placeIds ∧ arc.target ∈ document.transitionIds ∧ arc.weight = 1) ∨
    (arc.source ∈ document.transitionIds ∧ arc.target ∈ document.placeIds ∧ 1 ≤ arc.weight)

/-- The documents that can be imported. -/
structure WellFormed (document : Document) : Prop where
  place_refs : ∀ entry ∈ document.places, IsReference 'p' entry.id
  place_ids : document.placeIds.Nodup
  transition_refs : ∀ entry ∈ document.transitions, IsReference 't' entry.id
  transition_ids : document.transitionIds.Nodup
  labels : ∀ entry ∈ document.transitions, entry.label = tauSymbol ∨ IsWord entry.label
  arcs : ∀ arc ∈ document.arcs, document.Joins arc
  arc_ends : (document.arcs.map ArcEntry.ends).Nodup

/-- A net holds exactly the entries of a document, and its tables know no more names. -/
structure Holds (net : Net) (document : Document) : Prop where
  consistent : net.Consistent
  entries : ofNet net = document
  placeNames : net.placeNames.Tracks (net.places.toList.map Place.name)
  transitionNames : net.transitionNames.Tracks (net.transitions.toList.map Transition.name)
  placeLoad : net.placeNames.load ≤ document.places.length
  transitionLoad : net.transitionNames.load ≤ document.transitions.length

theorem holds_empty (tag : ℕ) : Holds (Net.empty tag) {} :=
  ⟨Net.consistent_empty tag, rfl, NameTable.tracks_empty, NameTable.tracks_empty, Nat.le_refl 0,
    Nat.le_refl 0⟩

theorem Holds.named (h : Holds net document) :
    net.Named (max document.places.length document.transitions.length) :=
  ⟨h.placeNames, h.transitionNames, h.placeLoad.trans (le_max_left _ _),
    h.transitionLoad.trans (le_max_right _ _)⟩

theorem Holds.uniqueNames (h : Holds net document) : net.UniqueNames :=
  h.named.uniqueNames h.consistent.identified

theorem mem_placeIds_ofNet (net : Net) (text : String) :
    text ∈ (ofNet net).placeIds ↔ ∃ id, net.shown? (.place id) = some text := by
  rw [placeIds, ofNet, List.map_map, List.mem_map]
  simp only [Arena.mem_toList_iff, Net.shown?_place, Option.map_eq_some_iff]
  constructor
  · rintro ⟨place, ⟨id, hid⟩, htext⟩
    exact ⟨id, place, hid, htext⟩
  · rintro ⟨id, place, hid, htext⟩
    exact ⟨place, ⟨id, hid⟩, htext⟩

theorem mem_transitionIds_ofNet (net : Net) (text : String) :
    text ∈ (ofNet net).transitionIds ↔ ∃ id, net.shown? (.transition id) = some text := by
  rw [transitionIds, ofNet, List.map_map, List.mem_map]
  simp only [Arena.mem_toList_iff, Net.shown?_transition, Option.map_eq_some_iff]
  constructor
  · rintro ⟨transition, ⟨id, hid⟩, htext⟩
    exact ⟨id, transition, hid, htext⟩
  · rintro ⟨id, transition, hid, htext⟩
    exact ⟨transition, ⟨id, hid⟩, htext⟩

theorem Holds.mem_placeIds_iff (h : Holds net document) (text : String) :
    text ∈ document.placeIds ↔ ∃ id, net.shown? (.place id) = some text := by
  rw [← h.entries]
  exact mem_placeIds_ofNet net text

theorem Holds.mem_transitionIds_iff (h : Holds net document) (text : String) :
    text ∈ document.transitionIds ↔ ∃ id, net.shown? (.transition id) = some text := by
  rw [← h.entries]
  exact mem_transitionIds_ofNet net text

/-! ### Places and transitions -/

theorem Holds.addPlace (h : Holds net document) (harcs : document.arcs = [])
    (hroom : document.places.length + 1 < Net.additionLimit) {name : NameIndex} (hpos : 0 < name)
    (hunused : placeName name ∉ document.placeIds) (tokens : Weight) :
    (Edit.addPlace (some name) tokens).runOn net =
      (.ok net.places.nextHandle, net.pushPlace name tokens) ∧
    Holds (net.pushPlace name tokens)
      { document with places := document.places ++ [⟨placeName name, tokens⟩] } := by
  have hhint : some name ≠ some (0 : NameIndex) := fun heq => by
    rw [Option.some.inj heq] at hpos
    exact absurd hpos (by decide)
  have hresolve : net.placeNames.resolve (some name) = name := by
    refine (h.placeNames.resolve (some name)).hinted name rfl fun hname => hunused ?_
    obtain ⟨place, hplace, rfl⟩ := List.mem_map.1 hname
    obtain ⟨id, hid⟩ := Arena.mem_toList_iff.1 hplace
    exact (h.mem_placeIds_iff _).2 ⟨id, by rw [Net.shown?_place, Net.place?, hid]; rfl⟩
  have hrun := Edit.addPlace_runOn hhint tokens net
  have hload := h.placeLoad
  have htracks := h.placeNames.claim (by unfold Net.additionLimit at hroom; omega) hhint
  rw [hresolve] at hrun htracks
  obtain ⟨hconsistent, rfl, -, htransitions, -, htransitionLoad⟩ := h
  have hedges : net.edges.toList = [] := List.map_eq_nil_iff.1 harcs
  refine ⟨hrun, hconsistent.pushPlace name tokens, ?_, ?_, htransitions, ?_, htransitionLoad⟩
  · simp [ofNet, Net.pushPlace, hedges, Place.displayName]
  · simpa [Net.pushPlace] using htracks
  · refine (NameTable.load_claim_le net.placeNames name).trans ?_
    rw [List.length_append, List.length_singleton]
    exact Nat.succ_le_succ hload

theorem Holds.addTransition (h : Holds net document) (harcs : document.arcs = [])
    (hroom : document.transitions.length + 1 < Net.additionLimit) {name : NameIndex} (hpos : 0 < name)
    (hunused : transitionName name ∉ document.transitionIds) {text : String} {label : Label}
    (hlabel : Label.parse? text = some label) :
    (Edit.addTransition (some name) text).runOn net =
      (.ok net.transitions.nextHandle, net.pushTransition name label) ∧
    Holds (net.pushTransition name label)
      { document with transitions := document.transitions ++ [⟨transitionName name, text⟩] } := by
  have hhint : some name ≠ some (0 : NameIndex) := fun heq => by
    rw [Option.some.inj heq] at hpos
    exact absurd hpos (by decide)
  have hresolve : net.transitionNames.resolve (some name) = name := by
    refine (h.transitionNames.resolve (some name)).hinted name rfl fun hname => hunused ?_
    obtain ⟨transition, htransition, rfl⟩ := List.mem_map.1 hname
    obtain ⟨id, hid⟩ := Arena.mem_toList_iff.1 htransition
    exact (h.mem_transitionIds_iff _).2
      ⟨id, by rw [Net.shown?_transition, Net.transition?, hid]; rfl⟩
  have hrun := Edit.addLabelledTransition_runOn hhint label net
  have hload := h.transitionLoad
  have htracks := h.transitionNames.claim (by unfold Net.additionLimit at hroom; omega) hhint
  rw [hresolve] at hrun htracks
  have htext := (Label.parse?_eq_some_iff.1 hlabel).2
  obtain ⟨hconsistent, rfl, hplaces, -, hplaceLoad, -⟩ := h
  have hedges : net.edges.toList = [] := List.map_eq_nil_iff.1 harcs
  refine ⟨?_, hconsistent.pushTransition name label, ?_, hplaces, ?_, hplaceLoad, ?_⟩
  · rw [Edit.addTransition, hlabel]
    exact hrun
  · simp [ofNet, Net.pushTransition, hedges, Transition.displayName, htext]
  · simpa [Net.pushTransition] using htracks
  · refine (NameTable.load_claim_le net.transitionNames name).trans ?_
    rw [List.length_append, List.length_singleton]
    exact Nat.succ_le_succ hload

/-- The loop over the places. -/
theorem declares_places : Declares 'p' PlaceEntry.id
    (fun name entry => Edit.addPlace (some name) entry.tokens) Node.place (fun _ => True)
    fun net done => Holds net { places := done } where
  shown h := h.mem_placeIds_iff
  accepted := by
    intro net done name entry h hroom hpos htext hunused _
    have hname : entry.id = placeName name := htext
    obtain ⟨hrun, hholds⟩ := h.addPlace rfl hroom hpos (hname ▸ hunused) entry.tokens
    rw [← hname] at hholds
    refine ⟨_, _, hrun, hholds, Net.shown?_eq_none_iff.2 Arena.not_contains_nextHandle, fun k => ?_⟩
    rw [Net.shown?_of_content? (Net.content?_pushPlace name entry.tokens)]
    simp only [Node.place.injEq, hname]
    rfl
  refused h := absurd trivial h

/-- The loop over the transitions, which leaves the places alone. -/
theorem declares_transitions (places : List PlaceEntry) (declared : List (String × PlaceId)) :
    Declares 't' TransitionEntry.id (fun name entry => Edit.addTransition (some name) entry.label)
      Node.transition (fun entry => entry.label = tauSymbol ∨ IsWord entry.label)
      fun net done => Holds net { places, transitions := done } ∧ Finds Node.place declared net where
  shown h := h.1.mem_transitionIds_iff
  accepted := by
    intro net done name entry h hroom hpos htext hunused haccept
    obtain ⟨label, hlabel⟩ := Label.exists_parse?_iff.2 haccept
    have hname : entry.id = transitionName name := htext
    obtain ⟨hrun, hholds⟩ := h.1.addTransition rfl hroom hpos (hname ▸ hunused) hlabel
    rw [← hname] at hholds
    have hshown := Net.shown?_of_content? (@Net.content?_pushTransition net name label)
    refine ⟨_, _, hrun, ⟨hholds, fun text id => ?_⟩,
      Net.shown?_eq_none_iff.2 Arena.not_contains_nextHandle, fun k => ?_⟩
    · rw [hshown, if_neg (by simp)]
      exact h.2 text id
    · rw [hshown]
      simp only [Node.transition.injEq, hname]
      rfl
  refused := by
    intro net name entry h
    have hlabel : Label.parse? entry.label = none :=
      Option.eq_none_iff_forall_ne_some.2 fun label hlabel =>
        h (Label.exists_parse?_iff.1 ⟨label, hlabel⟩)
    refine ⟨.invalidArgument (.newLabel entry.label), net, ?_⟩
    rw [Edit.addTransition, hlabel]
    rfl

/-! ### Arcs -/

/-- The tables of an import find every node by its display name. -/
def Resolves (declared : Declared) (net : Net) : Prop :=
  ∀ text node, declared.resolve text = .ok node ↔ net.shown? node = some text

/-- The letters keep the references of places and transitions apart. -/
theorem resolves_of_finds {declared : Declared} (hplaces : Finds Node.place declared.places net)
    (htransitions : Finds Node.transition declared.transitions net) : Resolves declared net := by
  have hdistinct : ∀ {id : PlaceId} {id' : TransitionId} {text : String},
      net.shown? (.place id) = some text → net.shown? (.transition id') ≠ some text := by
    intro id id' text hid hid'
    obtain ⟨a, ha, rfl⟩ := Net.shown?_eq_some_iff.1 hid
    obtain ⟨b, hb, heq⟩ := Net.shown?_eq_some_iff.1 hid'
    obtain ⟨place, -, rfl⟩ := Net.name?_place_iff.1 ha
    obtain ⟨transition, -, rfl⟩ := Net.name?_transition_iff.1 hb
    cases NodeName.text_injective heq
  intro text node
  unfold Declared.resolve
  cases hplace : declared.places.lookup text with
  | some id =>
      have hid := (hplaces text id).1 hplace
      cases node with
      | place id' => simp [← hplaces text id', hplace]
      | transition id' => simpa using hdistinct hid
  | none =>
      cases htransition : declared.transitions.lookup text with
      | some id =>
          cases node with
          | place id' => simp [← hplaces text id', hplace]
          | transition id' => simp [← htransitions text id', htransition]
      | none =>
          cases node with
          | place id' => simp [← hplaces text id', hplace]
          | transition id' => simp [← htransitions text id', htransition]

theorem Resolves.error_iff {declared : Declared} (h : Resolves declared net) {text : String} :
    (∃ error, declared.resolve text = .error error) ↔ ¬ ∃ node, net.shown? node = some text := by
  simp only [← h text]
  cases declared.resolve text <;> simp

/-- The endpoints of an arc in order, seen from the nodes that bear their names. -/
theorem joins_ofNet_iff (hunique : net.UniqueNames) {arc : ArcEntry} {source target : Node}
    (hsource : net.shown? source = some arc.source) (htarget : net.shown? target = some arc.target) :
    (ofNet net).Joins arc ↔ Fits source target arc.weight := by
  have hplace : ∀ {node text}, net.shown? node = some text →
      (text ∈ (ofNet net).placeIds ↔ ∃ id, node = .place id) := by
    intro node text hnode
    rw [mem_placeIds_ofNet]
    constructor
    · rintro ⟨id, hid⟩
      exact ⟨id, hunique.of_shown? hnode hid⟩
    · rintro ⟨id, rfl⟩
      exact ⟨id, hnode⟩
  have htransition : ∀ {node text}, net.shown? node = some text →
      (text ∈ (ofNet net).transitionIds ↔ ∃ id, node = .transition id) := by
    intro node text hnode
    rw [mem_transitionIds_ofNet]
    constructor
    · rintro ⟨id, hid⟩
      exact ⟨id, hunique.of_shown? hnode hid⟩
    · rintro ⟨id, rfl⟩
      exact ⟨id, hnode⟩
  have hpositive : 1 ≤ arc.weight ↔ arc.weight ≠ 0 := by
    rw [UInt64.le_iff_toNat_le, ne_eq, ← UInt64.toNat_inj]
    exact Nat.one_le_iff_ne_zero
  rw [Joins, hplace hsource, hplace htarget, htransition hsource, htransition htarget, hpositive]
  cases source <;> cases target <;> simp [Fits]

theorem Holds.joins_iff (h : Holds net document) {arc : ArcEntry} {source target : Node}
    (hsource : net.shown? source = some arc.source) (htarget : net.shown? target = some arc.target) :
    document.Joins arc ↔ Fits source target arc.weight := by
  rw [← h.entries]
  exact joins_ofNet_iff h.uniqueNames hsource htarget

/-- An exported arc names the endpoints of its edge. -/
theorem shown?_endpoint (h : net.Consistent) {id : EdgeId} {edge : Edge}
    (hedge : net.edge? id = some edge) (side : Side) :
    net.shown? (edge.endpoint side) = some (reference net (edge.endpoint side)) := by
  have hcontains := h.contains_endpoint hedge side
  cases hshown : net.shown? (edge.endpoint side) with
  | none => exact absurd hcontains (Net.shown?_eq_none_iff.1 hshown)
  | some text =>
      rw [reference_eq, hshown]
      rfl

/-- Two nodes are joined by an edge when the arcs read so far join their names. -/
theorem Holds.mem_ends_iff (h : Holds net document) {source target : Node} {s t : String}
    (hsource : net.shown? source = some s) (htarget : net.shown? target = some t) :
    (s, t) ∈ document.arcs.map ArcEntry.ends ↔
      net.findEdge? source target ≠ none := by
  rw [ne_eq, Net.findEdge?_eq_none_iff h.consistent, ← h.entries, ofNet, List.map_map, List.mem_map]
  push Not
  simp only [Arena.mem_toList_iff]
  have hend := @shown?_endpoint net h.consistent
  constructor
  · rintro ⟨edge, ⟨id, hedge⟩, heq⟩
    obtain ⟨rfl, rfl⟩ := Prod.mk.inj heq
    exact ⟨id, edge, hedge, h.uniqueNames.of_shown? (hend hedge .source) hsource,
      h.uniqueNames.of_shown? (hend hedge .target) htarget⟩
  · rintro ⟨id, edge, hedge, rfl, rfl⟩
    refine ⟨edge, ⟨id, hedge⟩, Prod.ext ?_ ?_⟩
    · exact Option.some.inj ((hend hedge .source).symm.trans hsource)
    · exact Option.some.inj ((hend hedge .target).symm.trans htarget)

/-- The display names do not depend on the links. -/
theorem shown?_of_bare (hbare : net'.bare = net.bare) (node : Node) :
    net'.shown? node = net.shown? node := by
  rw [Net.shown?, Net.shown?, Net.name?_congr (Net.content?_of_bare hbare node)]

/-- The entries of the nodes do not depend on the links either. -/
theorem ofNet_of_bare (hbare : net'.bare = net.bare) :
    (ofNet net').places = (ofNet net).places ∧
      (ofNet net').transitions = (ofNet net).transitions := by
  constructor
  · have hmap := congrArg (fun bare => bare.places.toList.map fun place =>
      (⟨place.displayName, place.tokens⟩ : PlaceEntry)) hbare
    simpa [ofNet, Net.bare, Place.bare, Place.displayName, Function.comp_def] using hmap
  · have hmap := congrArg (fun bare => bare.transitions.toList.map fun transition =>
      (⟨transition.displayName, transition.label.text⟩ : TransitionEntry)) hbare
    simpa [ofNet, Net.bare, Transition.bare, Transition.displayName, Function.comp_def] using hmap

theorem Holds.addEdge (h : Holds net document) {arc : ArcEntry} {source target : Node}
    (hsource : net.shown? source = some arc.source) (htarget : net.shown? target = some arc.target)
    (hfits : Fits source target arc.weight) (hnew : net.findEdge? source target = none) :
    ∃ id net', (Edit.addEdge source target arc.weight).runOn net = (.ok id, net') ∧
      net'.bare = net.bare ∧ Holds net' { document with arcs := document.arcs ++ [arc] } := by
  have hcontains : ∀ {node text}, net.shown? node = some text → net.contains node = true := by
    intro node text hnode
    by_contra hnot
    rw [Net.shown?_eq_none_iff.2 hnot] at hnode
    cases hnode
  obtain ⟨net', hrun, hadded⟩ :=
    Edit.addEdge_runOn (hcontains hsource) (hcontains htarget) hfits hnew
  have hbare := hadded.bare
  have hreference : ∀ node, reference net' node = reference net node := fun node => by
    rw [reference_eq, reference_eq, shown?_of_bare hbare]
  have hnamed := h.named.of_bare hbare
  have h' := h.consistent.of_edgeAdded hadded
    (Edit.contains_newEdge (hcontains hsource) (hcontains htarget)) hfits hnew
  have hplaceLoad : net'.placeNames.load ≤ document.places.length := by
    rw [Net.placeNames_of_bare hbare]
    exact h.placeLoad
  have htransitionLoad : net'.transitionNames.load ≤ document.transitions.length := by
    rw [Net.transitionNames_of_bare hbare]
    exact h.transitionLoad
  obtain ⟨-, rfl, -⟩ := h
  have hentries : ofNet net' = { ofNet net with arcs := (ofNet net).arcs ++ [arc] } := by
    obtain ⟨hplaces, htransitions⟩ := ofNet_of_bare hbare
    have hs : reference net source = arc.source := by rw [reference_eq, hsource]; rfl
    have ht : reference net target = arc.target := by rw [reference_eq, htarget]; rfl
    have harcs : (ofNet net').arcs = (ofNet net).arcs ++ [arc] := by
      simp only [ofNet, hadded.edges, Arena.toList_push, List.map_append, List.map_singleton,
        hreference, Edit.newEdge, hs, ht]
    exact congr (congr (congrArg Document.mk hplaces) htransitions) harcs
  exact ⟨_, net', hrun, hbare, h', hentries, hnamed.places, hnamed.transitions, hplaceLoad,
    htransitionLoad⟩

/-- The arcs still to come join declared nodes, and no two nodes are joined twice. -/
def ArcsInOrder (document : Document) (arcs : List ArcEntry) : Prop :=
  (∀ arc ∈ arcs, document.Joins arc) ∧ ((document.arcs ++ arcs).map ArcEntry.ends).Nodup

/-- The nodes of an arc in order are there, so an arc whose endpoints are not found is not. -/
theorem Holds.arcsInOrder_cons (h : Holds net document) {arc : ArcEntry} {arcs : List ArcEntry} :
    document.ArcsInOrder (arc :: arcs) ↔ (∃ node, net.shown? node = some arc.source) ∧
      (∃ node, net.shown? node = some arc.target) ∧
      (document.Joins arc ∧ arc.ends ∉ document.arcs.map ArcEntry.ends) ∧
      ({ document with arcs := document.arcs ++ [arc] } : Document).ArcsInOrder arcs := by
  unfold ArcsInOrder
  rw [List.forall_mem_cons, List.append_assoc, List.singleton_append]
  constructor
  · rintro ⟨⟨hjoins, hall⟩, hnodup⟩
    have hplace : ∀ {text}, text ∈ document.placeIds → ∃ node, net.shown? node = some text := by
      intro text htext
      obtain ⟨id, hid⟩ := (h.mem_placeIds_iff text).1 htext
      exact ⟨_, hid⟩
    have htransition : ∀ {text}, text ∈ document.transitionIds →
        ∃ node, net.shown? node = some text := by
      intro text htext
      obtain ⟨id, hid⟩ := (h.mem_transitionIds_iff text).1 htext
      exact ⟨_, hid⟩
    have hfresh : arc.ends ∉ document.arcs.map ArcEntry.ends := fun hmem => by
      rw [List.map_append, List.nodup_append] at hnodup
      exact hnodup.2.2 _ hmem _ (List.mem_map_of_mem List.mem_cons_self) rfl
    obtain ⟨hs, ht, -⟩ | ⟨hs, ht, -⟩ := id hjoins
    · exact ⟨hplace hs, htransition ht, ⟨hjoins, hfresh⟩, hall, hnodup⟩
    · exact ⟨htransition hs, hplace ht, ⟨hjoins, hfresh⟩, hall, hnodup⟩
  · rintro ⟨-, -, ⟨hjoins, -⟩, hall, hnodup⟩
    exact ⟨⟨hjoins, hall⟩, hnodup⟩

/-- The loop over the arcs goes through exactly when they are in order. -/
theorem importArcs_succeeds {declared : Declared} :
    ∀ (arcs : List ArcEntry) {net : Net} {document : Document}, Holds net document →
      Resolves declared net → (document.arcs.map ArcEntry.ends).Nodup →
      Succeeds (runOn (importArcs declared arcs) net) (document.ArcsInOrder arcs)
        fun _ net' => Holds net' { document with arcs := document.arcs ++ arcs }
  | [], net, document, h, _, hnodup => by
      have hall : document.ArcsInOrder [] :=
        ⟨fun arc harc => absurd harc List.not_mem_nil, by rwa [List.append_nil]⟩
      refine ⟨fun _ => ⟨(), net, rfl, ?_⟩, fun hnot => absurd hall hnot⟩
      rw [List.append_nil]
      exact h
  | arc :: arcs, net, document, h, hresolves, hnodup => by
      have hresolve : ∀ text, Succeeds (runOn (liftM (declared.resolve text) : ImportEdit Node) net)
          (∃ node, net.shown? node = some text) fun node net' =>
            net' = net ∧ net.shown? node = some text := by
        intro text
        refine succeeds_liftM ?_ hresolves.error_iff.2
        rintro ⟨node, hnode⟩
        exact ⟨node, (hresolves text node).2 hnode, rfl, hnode⟩
      refine Succeeds.congr ((hresolve arc.source).bind fun source net₁ _ hfound => ?_)
        h.arcsInOrder_cons
      obtain ⟨rfl, hsource⟩ := hfound
      refine (hresolve arc.target).bind fun target net₂ _ hfound => ?_
      obtain ⟨rfl, htarget⟩ := hfound
      have hadd : Succeeds (runOn (lift (Edit.addEdge source target arc.weight)) net₂)
          (document.Joins arc ∧ arc.ends ∉ document.arcs.map ArcEntry.ends) fun _ net' =>
            net'.bare = net₂.bare ∧ Holds net' { document with arcs := document.arcs ++ [arc] } := by
        rw [ArcEntry.ends, h.joins_iff hsource htarget, h.mem_ends_iff hsource htarget, not_not]
        refine succeeds_lift (fun hcond => h.addEdge hsource htarget hcond.1 hcond.2) fun hnot => ?_
        obtain ⟨error, hrun⟩ := Edit.addEdge_refused fun hall => hnot hall.2.2
        exact ⟨error, _, hrun⟩
      refine hadd.bind fun id net₃ hcond hadded => ?_
      obtain ⟨hbare, hholds⟩ := hadded
      have hresolves₃ : Resolves declared net₃ := fun text node => by
        rw [shown?_of_bare hbare]
        exact hresolves text node
      have hnodup₃ : ((document.arcs ++ [arc]).map ArcEntry.ends).Nodup := by
        rw [List.map_append, List.map_singleton, ← List.concat_eq_append]
        exact hnodup.concat hcond.2
      have hrest := importArcs_succeeds arcs hholds hresolves₃ hnodup₃
      rw [List.append_assoc, List.singleton_append] at hrest
      exact hrest

/-! ### The import -/

/-- A document is well-formed when the entries of each loop are in order. -/
theorem wellFormed_iff (document : Document) : document.WellFormed ↔
    InOrder 'p' PlaceEntry.id (fun _ => True) [] document.places ∧
    InOrder 't' TransitionEntry.id (fun entry => entry.label = tauSymbol ∨ IsWord entry.label) []
      document.transitions ∧
    ({ document with arcs := [] } : Document).ArcsInOrder document.arcs := by
  constructor
  · intro h
    exact ⟨⟨fun entry hentry => ⟨h.place_refs entry hentry, trivial⟩, h.place_ids⟩,
      ⟨fun entry hentry => ⟨h.transition_refs entry hentry, h.labels entry hentry⟩,
        h.transition_ids⟩, h.arcs, h.arc_ends⟩
  · rintro ⟨⟨hplaces, hplaceIds⟩, ⟨htransitions, htransitionIds⟩, harcs, hends⟩
    exact ⟨fun entry hentry => (hplaces entry hentry).1, hplaceIds,
      fun entry hentry => (htransitions entry hentry).1, htransitionIds,
      fun entry hentry => (htransitions entry hentry).2, harcs, hends⟩

/-- The empty table finds all nodes of a kind of which there are none. -/
theorem finds_nil {kind : Kind} {node : Handle kind → Node}
    (h : ∀ text, text ∈ ([] : List String) ↔ ∃ id, net.shown? (node id) = some text) :
    Finds node [] net := by
  intro text id
  constructor
  · intro hlookup
    cases hlookup
  · intro hid
    exact absurd ((h text).2 ⟨id, hid⟩) List.not_mem_nil

/-- Filling an empty net goes through exactly for the well-formed documents. -/
theorem populate_succeeds (document : Document) (tag : ℕ)
    (hplaces : document.places.length < Net.additionLimit)
    (htransitions : document.transitions.length < Net.additionLimit) :
    Succeeds (runOn document.populate (Net.empty tag)) document.WellFormed
      fun _ net => Holds net document := by
  refine Succeeds.congr ?_ document.wellFormed_iff
  have hempty := holds_empty tag
  have hloop := declareAll_succeeds declares_places document.places hempty
    (finds_nil hempty.mem_placeIds_iff) List.nodup_nil (by simpa using hplaces)
  rw [← importPlaces_eq] at hloop
  refine hloop.bind fun places net₁ _ hresult => ?_
  obtain ⟨hholds₁, hfinds₁⟩ := hresult
  have hloop₁ := declareAll_succeeds (declares_transitions document.places places)
    document.transitions ⟨hholds₁, hfinds₁⟩ (finds_nil hholds₁.mem_transitionIds_iff) List.nodup_nil
    (by simpa using htransitions)
  rw [← importTransitions_eq] at hloop₁
  refine hloop₁.bind fun transitions net₂ _ hresult => ?_
  obtain ⟨⟨hholds₂, hplaces₂⟩, htransitions₂⟩ := hresult
  exact importArcs_succeeds document.arcs hholds₂ (resolves_of_finds hplaces₂ htransitions₂)
    List.nodup_nil

/-- An import goes through exactly for the well-formed documents.  What the net held before plays no
part; afterwards it exports the document, or it is empty and all names are free. -/
theorem reachable_import {n : ℕ} (h : net.Reachable n) (document : Document)
    (hplaces : document.places.length < Net.additionLimit)
    (htransitions : document.transitions.length < Net.additionLimit) :
    runOn document.importInto net = runOn document.importInto (Net.empty net.tag) ∧
      ((∃ net', runOn document.importInto net = (.ok (), net')) ↔ document.WellFormed) ∧
      (∀ net', runOn document.importInto net = (.ok (), net') → ofNet net' = document) ∧
      ∀ error net', runOn document.importInto net = (.error error, net') →
        net' = Net.empty net.tag ∧ net'.places.isEmpty = true ∧ net'.transitions.isEmpty = true ∧
          net'.edges.isEmpty = true ∧ ∀ name, net'.placeNames.isTaken name = false ∧
            net'.transitionNames.isTaken name = false := by
  have hrun := importInto_eq h.consistent.identified document
  have hempty := importInto_eq (Net.consistent_empty net.tag).identified document
  have hsucceeds := document.populate_succeeds net.tag hplaces htransitions
  have hpopulate := populate_grows document _ (Net.consistent_empty net.tag)
  refine ⟨hrun.trans hempty.symm, ?_⟩
  rw [hrun]
  by_cases hwell : document.WellFormed
  · obtain ⟨_, net', hresult, hholds⟩ := hsucceeds.ok hwell
    have hresult' : (populate document).run.run (Net.empty net.tag) = (.ok (), net') := hresult
    rw [hresult']
    refine ⟨⟨fun _ => hwell, fun _ => ⟨net', rfl⟩⟩, fun net'' heq => ?_, fun error net'' heq => ?_⟩
    · cases heq
      exact hholds.entries
    · cases heq
  · obtain ⟨error, net', hresult⟩ := hsucceeds.error hwell
    have hresult' : (populate document).run.run (Net.empty net.tag) = (.error error, net') := hresult
    rw [hresult'] at hpopulate ⊢
    refine ⟨⟨fun hok => ?_, fun hyes => absurd hyes hwell⟩, fun net'' heq => ?_, fun _ net'' heq => ?_⟩
    · obtain ⟨net'', heq⟩ := hok
      cases heq
    · cases heq
    · have hclear := hpopulate.consistent.identified.clear_eq
      rw [hpopulate.tag] at hclear
      obtain rfl := (Prod.mk.inj heq).2
      refine ⟨hclear, ?_⟩
      rw [hclear]
      exact ⟨rfl, rfl, rfl, fun name => ⟨rfl, rfl⟩⟩

/-- A document that skips names and lists an arc in each direction. -/
def sample : Document where
  places := [⟨"p3", 2⟩, ⟨"p1", 0⟩]
  transitions := [⟨"t2", "a"⟩, ⟨"t7", tauSymbol⟩]
  arcs := [⟨"p3", "t2", 1⟩, ⟨"t2", "p1", 5⟩, ⟨"p1", "t7", 1⟩]

theorem sample_wellFormed : sample.WellFormed where
  place_refs := List.forall_mem_cons.2 ⟨⟨3, by decide, by decide, by decide⟩,
    List.forall_mem_singleton.2 ⟨1, by decide, by decide, by decide⟩⟩
  place_ids := by decide
  transition_refs := List.forall_mem_cons.2 ⟨⟨2, by decide, by decide, by decide⟩,
    List.forall_mem_singleton.2 ⟨7, by decide, by decide, by decide⟩⟩
  transition_ids := by decide
  labels := List.forall_mem_cons.2 ⟨Or.inr (Label.isVisibleAction_iff.1 (by decide)),
    List.forall_mem_singleton.2 (Or.inl rfl)⟩
  arcs := List.forall_mem_cons.2 ⟨Or.inl (by decide), List.forall_mem_cons.2 ⟨Or.inr (by decide),
    List.forall_mem_singleton.2 (Or.inl (by decide))⟩⟩
  arc_ends := by decide

theorem reachable_import_sample :
    Net.worn.Reachable 10 ∧ sample.places.length < Net.additionLimit ∧
      sample.transitions.length < Net.additionLimit ∧
      ∃ net', runOn sample.importInto Net.worn = (.ok (), net') ∧ ofNet net' = sample :=
  have h := reachable_import Net.worn_reachable sample (by decide) (by decide)
  have ⟨net', hrun⟩ := h.2.1.2 sample_wellFormed
  ⟨Net.worn_reachable, by decide, by decide, net', hrun, h.2.2.1 net' hrun⟩

end Document
end PetriCcs
