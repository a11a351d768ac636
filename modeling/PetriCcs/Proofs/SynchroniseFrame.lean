import PetriCcs.Proofs.Frame
import PetriCcs.Proofs.SynchroniseClasses

/-! # What a synchronisation leaves alone

The output of a synchronisation has the nodes of the input at the same positions, with the same names,
tokens, labels and outputs, and then one transition and one place for every merged pair, under names
that the input does not use.  Groups without a transition over its limit keep their inputs in the same
order, too (`synchronise_frame`).  The lists are compared under the tag of the output
(`Consistent.arcs_copy`, `Splits.arcs_of_spares`). -/

namespace PetriCcs

/-- Whether a step merged two places. -/
def Sync.Step.isMerged : Sync.Step → Bool
  | .merged _ _ _ _ => true
  | .reconnected _ _ => false

namespace Net

variable {net net' : Net} {n tag : ℕ} {p : PlaceId} {t : TransitionId}

/-! ### Lists under another tag -/

theorem filterMap_retag {β β' : Type} {arcs : List Arc} {f : Arc → Option β} {f' : Arc → Option β'}
    {g : β → β'} (hf : ∀ arc, f' (arc.retag tag) = (f arc).map g) :
    (arcs.map (Arc.retag tag)).filterMap f' = (arcs.filterMap f).map g := by
  rw [List.filterMap_map, List.map_filterMap]
  exact List.filterMap_congr fun arc _ => hf arc

theorem place?_retag (node : Node) :
    (node.retag tag).place? = node.place?.map (Handle.retag tag) := by
  cases node <;> rfl

theorem transition?_retag (node : Node) :
    (node.retag tag).transition? = node.transition?.map (Handle.retag tag) := by
  cases node <;> rfl

/-- The arcs at a node are those of its counterpart in another net, in the same order. -/
def SameArcs (tag : ℕ) (side : Side) (node : Node) (net net' : Net) : Prop :=
  net'.arcs side (node.retag tag) = (net.arcs side node).map (Arc.retag tag)

theorem SameArcs.preset (h : SameArcs tag .target (.transition t) net net') :
    net'.preset (t.retag tag) = (net.preset t).map (Handle.retag tag) := by
  have harcs : net'.arcs .target (.transition (t.retag tag)) = _ := h
  rw [preset_eq, preset_eq, harcs]
  exact filterMap_retag fun arc => place?_retag arc.source

theorem SameArcs.consumers (h : SameArcs tag .source (.place p) net net') :
    net'.consumers (p.retag tag) = (net.consumers p).map (Handle.retag tag) := by
  have harcs : net'.arcs .source (.place (p.retag tag)) = _ := h
  rw [consumers_eq, consumers_eq, harcs]
  exact filterMap_retag fun arc => transition?_retag arc.target

theorem SameArcs.postset (h : SameArcs tag .source (.transition t) net net') :
    net'.postset (t.retag tag) = (net.postset t).map (Prod.map (Handle.retag tag) id) := by
  have harcs : net'.arcs .source (.transition (t.retag tag)) = _ := h
  rw [postset_eq, postset_eq, harcs]
  refine filterMap_retag fun arc => ?_
  rw [Arc.retag, place?_retag, Option.map_map, Option.map_map]
  rfl

theorem SameArcs.producers (h : SameArcs tag .target (.place p) net net') :
    net'.producers (p.retag tag) = (net.producers p).map (Prod.map (Handle.retag tag) id) := by
  have harcs : net'.arcs .target (.place (p.retag tag)) = _ := h
  rw [producers_eq, producers_eq, harcs]
  refine filterMap_retag fun arc => ?_
  rw [Arc.retag, transition?_retag, Option.map_map, Option.map_map]
  rfl

/-! ### Copies -/

theorem Consistent.sameArcs_copy (h : net.Consistent) (tag : ℕ) (side : Side) {node : Node}
    (hnode : net.contains node = true) : SameArcs tag side node net (net.copy tag) :=
  h.arcs_copy side (h.identified.owner_of_contains hnode)

theorem Consistent.contains_retag (h : net.Consistent) (tag : ℕ) {node : Node}
    (hnode : net.contains node = true) : (net.copy tag).contains (node.retag tag) = true := by
  rw [contains_copy h.identified, Node.retag_retag,
    Node.retag_of_owner (h.identified.owner_of_contains hnode)]
  exact ⟨Node.owner_retag tag node, hnode⟩

theorem placeContent?_copy (h : net.Identified) (tag : ℕ) (hp : p.owner = net.tag) :
    (net.copy tag).placeContent? (p.retag tag) = net.placeContent? p := by
  rw [placeContent?, placeContent?, place?_copy h, if_pos (Handle.owner_retag tag p),
    Handle.retag_retag, Handle.retag_of_owner hp, Option.map_map]
  rfl

theorem transitionContent?_copy (h : net.Identified) (tag : ℕ) (ht : t.owner = net.tag) :
    (net.copy tag).transitionContent? (t.retag tag) = net.transitionContent? t := by
  rw [transitionContent?, transitionContent?, transition?_copy h,
    if_pos (Handle.owner_retag tag t), Handle.retag_retag, Handle.retag_of_owner ht, Option.map_map]
  rfl

theorem handles_copy {kind : Kind} {α : Type} (arena : Arena kind α) (f : α → α) (tag : ℕ) :
    ((arena.retag tag).map f).handles = arena.handles.map (Handle.retag tag) := by
  rw [Arena.handles_map, Arena.handles, Arena.handles, List.map_map]
  rfl

theorem Consistent.label?_retag (h : net.Consistent) (tag : ℕ)
    (ht : net.contains (.transition t) = true) :
    (net.copy tag).label? (t.retag tag) = net.label? t := by
  rw [label?_copy h.identified, if_pos (Handle.owner_retag tag t), Handle.retag_retag,
    Handle.retag_of_owner (h.identified.owner_of_contains ht)]

/-- A transition and its counterpart are within their limits together. -/
theorem Consistent.withinLimit_retag (h : net.Consistent) (tag : ℕ)
    (ht : net.contains (.transition t) = true) :
    (net.copy tag).WithinLimit (t.retag tag) ↔ net.WithinLimit t := by
  rw [WithinLimit, WithinLimit, h.label?_retag tag ht, (h.sameArcs_copy tag .target ht).preset,
    List.length_map]

/-- The counterpart of a node that is spared is spared. -/
theorem Spares.copy (h : net.Consistent) (tag : ℕ) {side : Side} {node : Node}
    (hnode : net.contains node = true) (hspares : net.Spares side node) :
    (net.copy tag).Spares side (node.retag tag) := by
  intro arc' harc' p' hp' u' hu'
  have harcs : (net.copy tag).arcs side (node.retag tag) = _ := h.sameArcs_copy tag side hnode
  rw [harcs] at harc'
  obtain ⟨arc, harc, rfl⟩ := List.mem_map.1 harc'
  obtain ⟨source, target, weight⟩ := arc
  cases source with
  | transition v => cases hp'
  | place p =>
      cases hp'
      have hp : net.contains (.place p) = true :=
        (h.mem_arcs_iff.1 harc).1.contains h .source
      rw [(h.sameArcs_copy tag .source hp).consumers] at hu'
      obtain ⟨u, hu, rfl⟩ := List.mem_map.1 hu'
      have hcontains : net.contains (.transition u) = true :=
        (h.mem_consumers_iff.1 hu).contains h .target
      exact (h.withinLimit_retag tag hcontains).2 (hspares _ harc p rfl u hu)

/-! ### A net that was synchronised beside its input -/

/-- No transition of the choice group of a transition is over its limit. -/
def GroupWithinLimit (net : Net) (t : TransitionId) : Prop :=
  ∀ group, Sync.group? net t = some group → ∀ u ∈ group.transitions, net.WithinLimit u

/-- In the class, whatever shares an input with the transition is of its group. -/
theorem GroupWithinLimit.of_mem_preset (h : net.Consistent)
    (hclass : net.isTwoTauSynchronisation = true ∨ net.isGroupChoice = true)
    (hgroup : net.GroupWithinLimit t) : ∀ p ∈ net.preset t, ∀ u ∈ net.consumers p,
      net.WithinLimit u := by
  intro p hp u hu
  rcases hclass with htwoTau | hchoice
  · exact h.isTwoTauSynchronisation_iff.1 htwoTau u
  · have hchoice := h.groupChoice_of_isGroupChoice hchoice
    cases hpreset : net.preset t with
    | nil => simp [hpreset] at hp
    | cons first rest =>
        refine hgroup ⟨first :: rest, net.consumers first⟩ (by rw [Sync.group?, hpreset]) u ?_
        have hfirst : first ∈ net.preset t := hpreset ▸ List.mem_cons_self
        exact (hchoice t first p hfirst hp u).2 hu

/-- The output of a synchronisation, beside its input and the steps between them. -/
structure Framed (tag : ℕ) (net : Net) (steps : List Sync.Step) (net' : Net) : Prop where
  place : ∀ p, net.contains (.place p) = true →
    net'.placeContent? (p.retag tag) = net.placeContent? p ∧
      net'.producers (p.retag tag) = (net.producers p).map (Prod.map (Handle.retag tag) id)
  transition : ∀ t, net.contains (.transition t) = true →
    net'.transitionContent? (t.retag tag) = net.transitionContent? t ∧
      net'.postset (t.retag tag) = (net.postset t).map (Prod.map (Handle.retag tag) id)
  preset : ∀ t, net.contains (.transition t) = true → net.GroupWithinLimit t →
    net'.preset (t.retag tag) = (net.preset t).map (Handle.retag tag)
  consumers : ∀ t, net.GroupWithinLimit t → ∀ p ∈ net.preset t,
    net'.consumers (p.retag tag) = (net.consumers p).map (Handle.retag tag)
  /-- The places of the input come first, in their order, and then those of the merged pairs. -/
  places : net'.places.handles =
    net.places.handles.map (Handle.retag tag) ++ steps.flatMap Sync.Step.places
  transitions : net'.transitions.handles =
    net.transitions.handles.map (Handle.retag tag) ++ steps.flatMap Sync.Step.transitions
  new_places : (steps.flatMap Sync.Step.places).length = steps.countP Sync.Step.isMerged
  new_transitions : (steps.flatMap Sync.Step.transitions).length = steps.countP Sync.Step.isMerged
  place_names : ∀ p ∈ steps.flatMap Sync.Step.places, ∀ new, net'.place? p = some new →
    new.displayName ∉ net.places.toList.map Place.displayName
  transition_names : ∀ t ∈ steps.flatMap Sync.Step.transitions, ∀ new,
    net'.transition? t = some new →
      new.displayName ∉ net.transitions.toList.map Transition.displayName

/-- Nodes that only merges add, one by one, are as many as the merges. -/
theorem length_flatMap_eq_countP {β : Type} {f : Sync.Step → List β}
    (hf : ∀ step, (f step).length = if step.isMerged then 1 else 0) (steps : List Sync.Step) :
    (steps.flatMap f).length = steps.countP Sync.Step.isMerged := by
  induction steps with
  | nil => rfl
  | cons step steps ih =>
      rw [List.flatMap_cons, List.length_append, ih, hf, List.countP_cons, Nat.add_comm]

/-- A new value has the name of no old one, where the old ones keep theirs under other handles and
names differ. -/
theorem name_fresh {kind : Kind} {α β : Type} {arena arena' : Arena kind α} {name : α → String}
    {content : α → β} {handle : α → Handle kind} {id : Handle kind} {new : α}
    (hcontent : ∀ value kept, content kept = content value → name kept = name value)
    (hhandle : ∀ id value, arena'.get? id = some value → handle value = id)
    (hnames : (arena'.toList.map name).Nodup) (hnew : arena'.get? id = some new)
    (hold : ∀ id₀, arena.contains id₀ = true → id₀.retag tag ≠ id ∧
      (arena'.get? (id₀.retag tag)).map content = (arena.get? id₀).map content) :
    name new ∉ arena.toList.map name := by
  intro hmem
  obtain ⟨old, holdmem, hname⟩ := List.mem_map.1 hmem
  obtain ⟨id₀, hid₀⟩ := Arena.mem_toList_iff.1 holdmem
  obtain ⟨hne, hsame⟩ := hold id₀ (Arena.contains_of_get? hid₀)
  rw [hid₀] at hsame
  obtain ⟨kept, hkept, hheld⟩ := Option.map_eq_some_iff.1 hsame
  have heq : kept = new := List.inj_on_of_nodup_map hnames (Arena.mem_toList_iff.2 ⟨_, hkept⟩)
    (Arena.mem_toList_iff.2 ⟨_, hnew⟩) ((hcontent old kept hheld).trans hname)
  exact hne ((hhandle _ _ hkept).symm.trans (heq ▸ hhandle _ _ hnew))

/-- Splits of a copy keep the arcs at the counterpart of a node that is spared. -/
theorem Consistent.sameArcs_of_spares (h : net.Consistent) {steps : List Sync.Step}
    (hsplits : Sync.Splits (net.copy tag) steps net') {side : Side} {node : Node}
    (hnode : net.contains node = true) (hspares : net.Spares side node) :
    SameArcs tag side node net net' := by
  have hkept := hsplits.arcs_of_spares (h.copy tag) (h.contains_retag tag hnode)
    (hspares.copy h tag hnode)
  exact hkept.trans (h.sameArcs_copy tag side hnode)

/-- A net that was synchronised has the nodes of its input, which keep their positions and what
they hold, the outputs, and the inputs where no group is split.  Its other nodes come from the
merges, under new names.  The input stays as it is, like every other net of a workspace. -/
theorem synchronise_frame (h : net.Reachable n) {σ : Type} [RandomSource σ] {source rest : σ}
    {result : Sync.Result} (hrun : net.synchronise tag source = .ok (result, rest))
    (hroom : n + result.additions < additionLimit) :
    Framed tag net result.steps result.net ∧
      ∀ (workspace : Workspace) (number : ℕ), number < workspace.nextNumber →
        (workspace.synchronise net source).2.net? number = workspace.net? number := by
  have hnet := h.consistent
  have hsplits := (synchronise_splits hnet hrun).1
  have hgrows := hsplits.grows
  have hwell := ((h.synchronise hrun).named hroom).wellFormed (h.synchronise hrun).consistent
  have hplace : ∀ p, net.contains (.place p) = true →
      result.net.placeContent? (p.retag tag) = net.placeContent? p := fun p hp =>
    (hgrows.placeContent _ (hnet.contains_retag tag hp)).trans
      (placeContent?_copy hnet.identified tag (hnet.identified.owner_of_contains hp))
  have htransition : ∀ t, net.contains (.transition t) = true →
      result.net.transitionContent? (t.retag tag) = net.transitionContent? t := fun t ht =>
    (hgrows.transitionContent _ (hnet.contains_retag tag ht)).trans
      (transitionContent?_copy hnet.identified tag (hnet.identified.owner_of_contains ht))
  have hgroup : ∀ t, net.GroupWithinLimit t → ∀ p ∈ net.preset t, ∀ u ∈ net.consumers p,
      net.WithinLimit u := fun t ht => ht.of_mem_preset hnet (class_of_synchronise hrun)
  refine ⟨⟨fun p hp => ⟨hplace p hp, ?_⟩, fun t ht => ⟨htransition t ht, ?_⟩,
    fun t ht hlimit => ?_, fun t hlimit p hp => ?_, ?_, ?_,
    length_flatMap_eq_countP (fun step => by cases step <;> rfl) _,
    length_flatMap_eq_countP (fun step => by cases step <;> rfl) _,
    fun p hp new hnew => ?_, fun t ht new hnew => ?_⟩, fun workspace number hnumber => ?_⟩
  · exact (hnet.sameArcs_of_spares hsplits hp (hnet.spares_producers p)).producers
  · exact (hnet.sameArcs_of_spares hsplits ht (hnet.spares_outputs t)).postset
  · exact (hnet.sameArcs_of_spares hsplits ht (spares_preset (hgroup t hlimit))).preset
  · have hcontains := (hnet.mem_preset_iff.1 hp).contains hnet .source
    exact (hnet.sameArcs_of_spares hsplits hcontains
      (hnet.spares_consumers (hgroup t hlimit p hp))).consumers
  · exact hgrows.handles_places.trans (congrArg (· ++ _) (handles_copy net.places _ tag))
  · exact hgrows.handles_transitions.trans (congrArg (· ++ _) (handles_copy net.transitions _ tag))
  · refine name_fresh (fun value kept hheld => congrArg placeName (congrArg Prod.fst hheld))
      (fun id value hvalue => (hwell.place_id _ _ hvalue).1) hwell.place_names hnew
      fun id (hid : net.contains (.place id) = true) => ⟨?_, hplace id hid⟩
    rintro rfl
    exact hgrows.fresh_place _ hp (hnet.contains_retag tag hid)
  · refine name_fresh (fun value kept hheld => congrArg transitionName (congrArg Prod.fst hheld))
      (fun id value hvalue => (hwell.transition_id _ _ hvalue).1) hwell.transition_names hnew
      fun id (hid : net.contains (.transition id) = true) => ⟨?_, htransition id hid⟩
    rintro rfl
    exact hgrows.fresh_transition _ ht (hnet.contains_retag tag hid)
  · rw [Workspace.synchronise]
    cases net.synchronise workspace.nextNumber source with
    | error error => rfl
    | ok outcome =>
        exact Array.getElem?_push_lt hnumber |>.trans (Array.getElem?_eq_getElem hnumber).symm

/-- The fork of the workflow is alone in its group, so its input stays; the join gets another one. -/
theorem synchronise_frame_forkJoin : forkJoin.Reachable 12 ∧ ∃ result rest,
    forkJoin.synchronise 1 (WordList.mk [3, 1]) = .ok (result, rest) ∧
      12 + result.additions < additionLimit ∧ Framed 1 forkJoin result.steps result.net ∧
      result.net.preset ⟨1, 0⟩ = [⟨1, 0⟩] ∧ result.net.preset ⟨1, 1⟩ = [⟨1, 4⟩] := by
  have hchoice : forkJoin.isGroupChoice = true := by decide
  obtain ⟨result, rest, hrun, -⟩ :=
    forkJoin_reachable.consistent.synchronise_ok (Or.inr hchoice) 1 (WordList.mk [3, 1])
  have hroom : (forkJoin.synchronise 1 (WordList.mk [3, 1])).toOption.any
      (fun outcome => 12 + outcome.1.additions < additionLimit) = true := by decide +kernel
  have hsplit : (forkJoin.synchronise 1 (WordList.mk [3, 1])).toOption.any
      (fun outcome => outcome.1.net.preset ⟨1, 1⟩ = [⟨1, 4⟩]) = true := by decide +kernel
  rw [hrun, Except.toOption, Option.any_some, decide_eq_true_eq] at hroom hsplit
  have hframe := (synchronise_frame forkJoin_reachable hrun hroom).1
  refine ⟨forkJoin_reachable, result, rest, hrun, hroom, hframe, ?_, hsplit⟩
  refine (hframe.preset ⟨0, 0⟩ (by decide) fun group hgroup u hu label hlabel => ?_).trans (by decide)
  cases hgroup
  obtain rfl := List.mem_singleton.1 (show u ∈ [⟨0, 0⟩] from hu)
  cases hlabel
  decide

end Net
end PetriCcs
