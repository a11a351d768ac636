import PetriCcs.Proofs.Hygiene

/-! # The equation system of an encoding

An encoding has one equation for each place and one for each transition without inputs, under
distinct names, and nothing else (`EquationSystem`).  The body of a place has one summand for each
edge that leaves it, in the order of its links; the body of a transition without inputs is one
action, after which stand the produced places and the transition again.  Every constant has an
equation, and all terms are shaped.  `Net.encode_equationSystem` proves that the reachable nets with
proper labels that have such a system are those of the class, and that the others are refused. -/

namespace PetriCcs

open Encoding

namespace Net

variable {net : Net} {t : TransitionId} {place : Place} {transition : Transition} {P : Term}
  {names : List ConstantName}

/-- An edge leads to a transition. -/
def LeadsTo (net : Net) (id : EdgeId) (t : TransitionId) : Prop :=
  ∃ edge, net.edge? id = some edge ∧ edge.target = .transition t

/-- An edge delivers a number of tokens to a place. -/
def Delivers (net : Net) (id : EdgeId) (entry : PlaceId × Weight) : Prop :=
  ∃ edge, net.edge? id = some edge ∧ edge.target = .place entry.1 ∧ edge.weight = entry.2

/-! ### Links -/

theorem transition?_eq_some_iff {node : Node} :
    node.transition? = some t ↔ node = .transition t := by
  cases node <;> simp [Node.transition?]

theorem place?_eq_some_iff {node : Node} {p : PlaceId} :
    node.place? = some p ↔ node = .place p := by
  cases node <;> simp [Node.place?]

/-- What the edges of a node give, one item for each, in the order of the links. -/
theorem Consistent.forall₂_links {β : Type} (h : net.Consistent) {node : Node}
    {edges : List EdgeId} (hlisted : net.outgoing? node = some edges) {f : Edge → Option β}
    (hf : ∀ edge, Fits node edge.target edge.weight → ∃ b, f edge = some b) :
    List.Forall₂ (fun id b => ∃ edge, net.edge? id = some edge ∧ f edge = some b) edges
      (edges.filterMap fun id => (net.edge? id).bind f) := by
  have hsource : net.listed? .source node = some edges := hlisted
  have hfound : ∀ id ∈ edges, ∃ b, (net.edge? id).bind f = some b := by
    intro id hid
    obtain ⟨edge, hedge, rfl⟩ := h.edge_of_mem hsource hid
    obtain ⟨b, hb⟩ := hf edge (h.fits hedge)
    exact ⟨b, Option.bind_eq_some_iff.2 ⟨edge, hedge, hb⟩⟩
  exact (forall₂_filterMap hfound).imp fun id b hb => Option.bind_eq_some_iff.1 hb

/-- Every edge that a place lists leads to one of its consumers, in the same order. -/
theorem Consistent.forall₂_consumers (h : net.Consistent) (hp : net.place? place.id = some place) :
    List.Forall₂ net.LeadsTo place.outgoing (net.consumers place.id) := by
  have hlisted : net.outgoing? (.place place.id) = some place.outgoing := by simp [outgoing?, hp]
  unfold consumers
  rw [hlisted, Option.getD_some]
  refine (h.forall₂_links hlisted fun edge hfits => ?_).imp fun id t hleads => ?_
  · cases htarget : edge.target with
    | place q => simp [htarget, Fits] at hfits
    | transition t => exact ⟨t, rfl⟩
  · obtain ⟨edge, hedge, ht⟩ := hleads
    exact ⟨edge, hedge, transition?_eq_some_iff.1 ht⟩

/-- Every edge that a transition lists delivers one entry of its postset, in the same order. -/
theorem Consistent.forall₂_postset (h : net.Consistent)
    (ht : net.transition? transition.id = some transition) :
    List.Forall₂ net.Delivers transition.outgoing (net.postset transition.id) := by
  have hlisted : net.outgoing? (.transition transition.id) = some transition.outgoing := by
    simp [outgoing?, ht]
  unfold postset
  rw [hlisted, Option.getD_some]
  refine (h.forall₂_links hlisted fun edge hfits => ?_).imp fun id entry hdelivers => ?_
  · cases htarget : edge.target with
    | place q => exact ⟨(q, edge.weight), rfl⟩
    | transition t => simp [htarget, Fits] at hfits
  · obtain ⟨edge, hedge, hentry⟩ := hdelivers
    obtain ⟨q, hq, rfl⟩ := Option.map_eq_some_iff.1 hentry
    exact ⟨edge, hedge, place?_eq_some_iff.1 hq, rfl⟩

/-! ### Shape -/

theorem Copies.shaped {entry : PlaceId × Weight} (h : net.Copies entry P)
    (hnames : ∀ place ∈ net.places.toList, placeKey place ∈ names) : P.Shaped names := by
  obtain ⟨place, hplace, hcopies⟩ := h
  exact hcopies.shaped (.constant (hnames place (Arena.mem_toList_iff.2 ⟨_, hplace⟩)))

theorem Produces.shaped (h : net.Produces t P)
    (hnames : ∀ place ∈ net.places.toList, placeKey place ∈ names) : P.Shaped names := by
  obtain ⟨components, hall, hP⟩ := h
  refine hP.shaped fun component hmem => ?_
  obtain ⟨entry, -, hcopies⟩ := exists_mem_of_forall₂_right hall hmem
  exact hcopies.shaped hnames

theorem Starts.shaped {components : List Term} (h : net.Starts components)
    (hplaces : ∀ place ∈ net.places.toList, placeKey place ∈ names)
    (hgenerators : ∀ transition ∈ net.unfed, generatorKey transition ∈ names) :
    ∀ P ∈ components, P.Shaped names := by
  obtain ⟨marked, hmarked, rfl⟩ := h
  intro P hP
  rcases List.mem_append.1 hP with hP | hP
  · obtain ⟨place, hmem, hcopies⟩ := exists_mem_of_forall₂_right hmarked hP
    exact hcopies.shaped (.constant (hplaces place (List.mem_of_mem_filter hmem)))
  · obtain ⟨transition, hmem, rfl⟩ := List.mem_map.1 hP
    exact .constant (hgenerators transition hmem)

end Net

namespace Encoding

open Net

variable {net : Net} {p : PlaceId} {t : TransitionId} {branches : List Branch}
  {equations : Definitions} {encoding : Encoding} {transition : Transition} {place : Place}
  {names : List ConstantName} {summand : Summand}

/-! ### What is claimed of an encoding -/

/-- The names with an equation. -/
def keys (encoding : Encoding) : List ConstantName := encoding.definitions.map Prod.fst

/-- The equations of an encoding are those of the places and of the transitions without inputs, each
with the body that the links of its node ask for; all terms are shaped over the defined names, and
the initial process holds the marked places and the transitions without inputs, side by side under
the restrictions. -/
structure EquationSystem (net : Net) (encoding : Encoding) : Prop where
  keys_eq : encoding.keys =
    net.places.toList.map placeKey ++ net.unfed.map generatorKey
  nodup : encoding.keys.Nodup
  place : ∀ place ∈ net.places.toList, ∃ targets summands body,
    List.Forall₂ net.LeadsTo place.outgoing targets ∧
    List.Forall₂ (Entry net place.id) targets summands ∧
    encoding.definitions.lookup (placeKey place) = some body ∧ Term.ChoiceOf summands body
  generator : ∀ transition ∈ net.unfed, ∃ action entries components continuation,
    transition.label.Shows action ∧
    List.Forall₂ net.Delivers transition.outgoing entries ∧
    List.Forall₂ net.Copies entries components ∧
    encoding.definitions.lookup (generatorKey transition) = some (.guarded action continuation) ∧
    Term.CompositionOf (components ++ [.constant (generatorKey transition)]) continuation
  shaped : ∀ definition ∈ encoding.definitions, definition.2.Shaped encoding.keys
  initial : Initial net encoding
  initial_shaped : encoding.initial.Shaped encoding.keys

/-! ### The parts of an encoding -/

theorem Entry.shaped (h : Entry net p t summand)
    (hnames : ∀ place ∈ net.places.toList, placeKey place ∈ names) :
    summand.2.Shaped names := by
  cases h with
  | single _ _ _ hP => exact hP.shaped hnames
  | send _ _ _ => exact .inaction
  | receive _ _ _ hP => exact hP.shaped hnames

theorem Written.keys_eq (hw : Written net branches equations encoding) (h : net.Consistent)
    (hwell : net.WellFormed) : encoding.keys =
      net.places.toList.map placeKey ++ net.unfed.map generatorKey := by
  rw [keys, hw.definitions, List.map_append, names_of_spells hw.spells,
    generators_names (hw.contributes h hwell), h.unfed_eq]

theorem Written.placeKey_mem (hw : Written net branches equations encoding) (h : net.Consistent)
    (hwell : net.WellFormed) (hplace : place ∈ net.places.toList) :
    placeKey place ∈ encoding.keys := by
  rw [hw.keys_eq h hwell]
  exact List.mem_append_left _ (List.mem_map_of_mem hplace)

theorem Written.generatorKey_mem (hw : Written net branches equations encoding)
    (h : net.Consistent) (hwell : net.WellFormed) (ht : transition ∈ net.unfed) :
    generatorKey transition ∈ encoding.keys := by
  rw [hw.keys_eq h hwell]
  exact List.mem_append_right _ (List.mem_map_of_mem ht)

/-- The body of a transition without inputs. -/
theorem Yields.generator_body {b : Branch} {body : ConstantName × Term}
    (h : Yields net transition b) (hbody : b.generator? = some body) :
    ∃ action components, net.preset transition.id = [] ∧ transition.label.Shows action ∧
      List.Forall₂ net.Copies (net.postset transition.id) components ∧
      body = (generatorKey transition,
        .guarded action (.compose (components ++ [.constant (generatorKey transition)]))) := by
  cases h with
  | single _ _ _ => cases hbody
  | sync _ _ _ => cases hbody
  | @generator action P hpreset hshows hP =>
      obtain ⟨components, hall, hP⟩ := hP
      rw [hP.components_eq] at hbody
      exact ⟨action, components, hpreset, hshows, hall, (Option.some.inj hbody).symm⟩

theorem Written.lookup_generator (hw : Written net branches equations encoding) (h : net.Consistent)
    (ht : transition ∈ net.unfed) : ∃ action components, transition.label.Shows action ∧
      List.Forall₂ net.Copies (net.postset transition.id) components ∧
      encoding.definitions.lookup (generatorKey transition) = some
        (.guarded action (.compose (components ++ [.constant (generatorKey transition)]))) := by
  obtain ⟨hmem, hincoming⟩ := List.mem_filter.1 ht
  have hget := (mem_transitions_iff h.identified).1 hmem
  have hpreset := (h.preset_eq_nil_iff hget).2 (List.isEmpty_iff.1 hincoming)
  obtain ⟨b, hb, hyields⟩ := exists_mem_of_forall₂_left hw.yields hmem
  obtain ⟨body, hbody⟩ : ∃ body, b.generator? = some body := by
    cases hyields with
    | generator _ _ _ => exact ⟨_, rfl⟩
    | single hone _ _ => simp [hone] at hpreset
    | sync htwo _ _ => simp [htwo] at hpreset
  obtain ⟨action, components, -, hshows, hall, rfl⟩ := hyields.generator_body hbody
  refine ⟨action, components, hshows, hall, Definitions.lookup_of_mem hw.nodup ?_⟩
  rw [hw.definitions]
  exact List.mem_append_right _ (List.mem_filterMap.2 ⟨b, hb, hbody⟩)

theorem Written.lookup_place (hw : Written net branches equations encoding) (h : net.Consistent)
    (hplace : place ∈ net.places.toList) : ∃ summands,
      List.Forall₂ (Entry net place.id) (net.consumers place.id) summands ∧
      encoding.definitions.lookup (placeKey place) = some (.sum summands) := by
  obtain ⟨equation, hequation, hspells⟩ := exists_mem_of_forall₂_left hw.spells hplace
  obtain ⟨summands, rfl, hall⟩ := hspells.entries h hw.yields
  refine ⟨summands, hall, Definitions.lookup_of_mem hw.nodup ?_⟩
  rw [hw.definitions]
  exact List.mem_append_left _ hequation

/-- The places that a transition without inputs produces into and the transition again stand side by
side. -/
theorem compositionOf_regenerated {entries : List (PlaceId × Weight)} {components : List Term}
    (hall : List.Forall₂ net.Copies entries components) (transition : Transition) :
    Term.CompositionOf (components ++ [.constant (generatorKey transition)])
      (.compose (components ++ [.constant (generatorKey transition)])) := by
  refine Term.compositionOf_compose fun P hP => ?_
  rcases List.mem_append.1 hP with hP | hP
  · exact isComponent_of_forall₂_copies hall P hP
  · rw [List.mem_singleton.1 hP]
    exact trivial

/-- All bodies are shaped over the names with an equation. -/
theorem Written.shaped (hw : Written net branches equations encoding) (h : net.Consistent)
    (hwell : net.WellFormed) {definition : ConstantName × Term}
    (hmem : definition ∈ encoding.definitions) : definition.2.Shaped encoding.keys := by
  have hplaces := fun place => @Written.placeKey_mem _ _ _ _ place hw h hwell
  rw [hw.definitions, List.mem_append] at hmem
  rcases hmem with hmem | hmem
  · obtain ⟨place, -, hspells⟩ := exists_mem_of_forall₂_right hw.spells hmem
    obtain ⟨summands, rfl, hall⟩ := hspells.entries h hw.yields
    refine (Term.choiceOf_sum summands).shaped fun summand hsummand => ?_
    obtain ⟨t, -, hentry⟩ := exists_mem_of_forall₂_right hall hsummand
    exact hentry.shaped hplaces
  · obtain ⟨b, hb, hbody⟩ := List.mem_filterMap.1 hmem
    obtain ⟨transition, ht, hyields⟩ := exists_mem_of_forall₂_right hw.yields hb
    obtain ⟨action, components, hpreset, -, hall, rfl⟩ := hyields.generator_body hbody
    refine .guarded ((compositionOf_regenerated hall transition).shaped fun P hP => ?_)
    rcases List.mem_append.1 hP with hP | hP
    · obtain ⟨entry, -, hcopies⟩ := exists_mem_of_forall₂_right hall hP
      exact hcopies.shaped hplaces
    · rw [List.mem_singleton.1 hP]
      refine .constant (hw.generatorKey_mem h hwell ?_)
      rw [h.unfed_eq]
      exact List.mem_filter.2 ⟨ht, List.isEmpty_iff.2 hpreset⟩

theorem Written.equationSystem (hw : Written net branches equations encoding)
    (h : net.Consistent) (hwell : net.WellFormed) : EquationSystem net encoding where
  keys_eq := hw.keys_eq h hwell
  nodup := hw.nodup
  place := by
    intro place hplace
    obtain ⟨summands, hall, hlookup⟩ := hw.lookup_place h hplace
    have hget := (mem_places_iff h.identified).1 hplace
    exact ⟨_, summands, _, h.forall₂_consumers hget, hall, hlookup, Term.choiceOf_sum summands⟩
  generator := by
    intro transition ht
    obtain ⟨action, components, hshows, hall, hlookup⟩ := hw.lookup_generator h ht
    have hget := (mem_transitions_iff h.identified).1 (List.mem_of_mem_filter ht)
    exact ⟨action, _, components, _, hshows, h.forall₂_postset hget, hall, hlookup,
      compositionOf_regenerated hall transition⟩
  shaped := fun definition hmem => hw.shaped h hwell hmem
  initial := hw.isInitial
  initial_shaped := by
    obtain ⟨components, process, hstarts, hprocess, hinitial⟩ := hw.isInitial
    refine hinitial.shaped (hprocess.shaped (hstarts.shaped ?_ ?_))
    · exact fun place => hw.placeKey_mem h hwell
    · exact fun transition => hw.generatorKey_mem h hwell

end Encoding

namespace Net

variable {net : Net} {n : ℕ}

/-- A net outside of the class is refused. -/
theorem encode_refused (hclass : net.isTwoTauSynchronisation = false) :
    net.encode = .error (.structuralMismatch .encodable) := by
  unfold encode
  rw [hclass]
  rfl

/-- The encoding of a reachable net with proper labels is a closed system of shaped equations, one
for each place and each transition without inputs, if the net is of the class; otherwise the net is
refused as not encodable. -/
theorem encode_equationSystem (h : net.Reachable n) (hn : n < additionLimit)
    (hproper : net.ProperLabels) :
    (net.isTwoTauSynchronisation = true →
      ∃ encoding, net.encode = .ok encoding ∧ EquationSystem net encoding) ∧
    (net.isTwoTauSynchronisation = false →
      net.encode = .error (.structuralMismatch .encodable)) := by
  refine ⟨fun hclass => ?_, encode_refused⟩
  have hnet := h.consistent
  have hwell := (h.named hn).wellFormed hnet
  obtain ⟨encoding, branches, equations, hok, hw⟩ := encode_written hnet hwell hproper hclass
  exact ⟨encoding, hok, hw.equationSystem hnet hwell⟩

theorem encode_equationSystem_handshake : handshake.Reachable 10 ∧ 10 < additionLimit ∧
    handshake.ProperLabels ∧ handshake.isTwoTauSynchronisation = true ∧
    ∃ encoding, handshake.encode = .ok encoding ∧ EquationSystem handshake encoding :=
  ⟨handshake_reachable, by decide, by decide, by decide,
    (encode_equationSystem handshake_reachable (by decide) (by decide)).1 (by decide)⟩

end Net
end PetriCcs
