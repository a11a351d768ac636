import Mathlib.Data.String.Basic
import PetriCcs.Proofs.EncodingBisimulation

/-! # Hygiene of synchronisation names

Each input arc of a net gives one summand (`spells_summands`), so an action that only one arc can
give occurs once in all definitions together.  Sending on the name of a transition belongs to the
arc from its first input place and receiving on it to the arc from the second (`Entry.of_co`,
`Entry.of_input`), and no label comes near these names.  `Hygienic` collects what follows for the
names of an encoding, and `Net.encode_hygienic` proves it for every reachable net of the class. -/

namespace PetriCcs

open Encoding

namespace Net

variable {net : Net} {p : PlaceId} {t : TransitionId}

/-- The arcs from places to transitions, by place and then as the place lists them. -/
def inputs (net : Net) : List (PlaceId × TransitionId) :=
  net.places.toList.flatMap fun place => (net.consumers place.id).map fun t => (place.id, t)

theorem mem_inputs_iff (h : net.Consistent) : (p, t) ∈ net.inputs ↔ p ∈ net.preset t := by
  rw [inputs, List.mem_flatMap]
  constructor
  · rintro ⟨place, -, hmem⟩
    obtain ⟨t', ht', heq⟩ := List.mem_map.1 hmem
    cases heq
    exact h.mem_preset_iff_mem_consumers.2 ht'
  · intro hp
    obtain ⟨place, hplace⟩ := h.exists_place_of_mem_preset hp
    obtain rfl := h.identified.place_id hplace
    exact ⟨place, Arena.mem_toList_iff.2 ⟨_, hplace⟩,
      List.mem_map_of_mem (h.mem_preset_iff_mem_consumers.1 hp)⟩

/-- No arc is listed twice. -/
theorem nodup_inputs (h : net.Consistent) (hwell : net.WellFormed) : net.inputs.Nodup := by
  rw [inputs, List.nodup_flatMap]
  constructor
  · exact fun place _ => (h.nodup_consumers place.id).map (Prod.mk_right_injective place.id)
  · refine hwell.nodup_places.pairwise_of_forall_ne fun place hplace place' hplace' hne => ?_
    rw [Function.onFun, List.disjoint_left]
    intro arc harc harc'
    obtain ⟨t, -, rfl⟩ := List.mem_map.1 harc
    obtain ⟨t', -, heq⟩ := List.mem_map.1 harc'
    have hid : place'.id = place.id := congrArg Prod.fst heq
    have hget := (mem_places_iff h.identified).1 hplace
    rw [← hid, (mem_places_iff h.identified).1 hplace'] at hget
    exact hne (Option.some.inj hget).symm

end Net

namespace Encoding

open Net

/-! ### What is claimed of an encoding -/

/-- All actions in the definitions. -/
def actions (encoding : Encoding) : List Action :=
  encoding.definitions.flatMap fun definition => definition.2.actions

/-- A constant is defined as a choice with a given summand. -/
def HasSummand (encoding : Encoding) (X : ConstantName) (summand : Summand) : Prop :=
  ∃ choices body, encoding.definitions.lookup X = some body ∧ Term.ChoiceOf choices body ∧
    summand ∈ choices

/-- A transition with two inputs is a handshake: its first input place sends on its name and stops,
the second one receives and goes on with what is produced, and this is all that its name does. -/
structure Synchronises (net : Net) (encoding : Encoding) (transition : Transition)
    (first second : Place) : Prop where
  ends : Ends net transition.id first.id second.id
  sends : encoding.HasSummand (placeKey first) (.co (syncKey transition), .inaction)
  receives : ∃ P, net.Produces transition.id P ∧
    encoding.HasSummand (placeKey second) (.input (syncKey transition), P)
  count_sends : encoding.actions.count (.co (syncKey transition)) = 1
  count_receives : encoding.actions.count (.input (syncKey transition)) = 1

/-- The restricted names are those of the transitions with two inputs, in increasing order; each of
them is one handshake, nothing else sends, no label uses them, and the initial process is the
composition of what is started under one restriction for each name, the smallest outermost. -/
structure Hygienic (net : Net) (encoding : Encoding) : Prop where
  increasing : encoding.syncNames.Pairwise fun s s' => s.text < s'.text
  mem_syncNames : ∀ s, s ∈ encoding.syncNames ↔ ∃ transition ∈ net.transitions.toList,
    (net.preset transition.id).length = 2 ∧ s = syncKey transition
  synchronises : ∀ transition ∈ net.transitions.toList, (net.preset transition.id).length = 2 →
    ∃ first ∈ net.places.toList, ∃ second ∈ net.places.toList,
      Synchronises net encoding transition first second
  sent : ∀ s, .co s ∈ encoding.actions → s ∈ encoding.syncNames
  labels : ∀ transition ∈ net.transitions.toList, ∀ text, transition.label = .visible text →
    ∀ s ∈ encoding.syncNames, s.text ≠ text
  initial : Initial net encoding
  initial_actions : encoding.initial.actions = []

/-! ### The two ends of a handshake -/

variable {net : Net} {p q p' q' : PlaceId} {t t' : TransitionId} {branches : List Branch}
  {transition : Transition} {summand : Summand} {P : Term}

theorem exists_ends (h : net.Consistent) (hlength : (net.preset t).length = 2) :
    ∃ p q, Ends net t p q := by
  obtain ⟨x, y, hpreset⟩ := List.length_eq_two.1 hlength
  have hx : x ∈ net.preset t := by
    rw [hpreset]
    exact List.mem_cons_self
  obtain ⟨q, hne, hmem⟩ := exists_other h hpreset hx
  rcases Nat.lt_or_gt_of_ne hne with hlt | hlt
  · exact ⟨q, x, fun r => (hmem r).trans or_comm, hlt⟩
  · exact ⟨x, q, hmem, hlt⟩

theorem Ends.first_mem (h : Ends net t p q) : p ∈ net.preset t := (h.mem_preset p).2 (Or.inl rfl)

theorem Ends.second_mem (h : Ends net t p q) : q ∈ net.preset t := (h.mem_preset q).2 (Or.inr rfl)

/-- The input places of a transition have one order. -/
theorem Ends.unique (h : Ends net t p q) (h' : Ends net t p' q') : p' = p ∧ q' = q := by
  have hlt := h.lt
  have hlt' := h'.lt
  rcases (h.mem_preset p').1 h'.first_mem with rfl | rfl <;>
    rcases (h.mem_preset q').1 h'.second_mem with rfl | rfl
  · omega
  · exact ⟨rfl, rfl⟩
  · omega
  · omega

theorem Ends.length_preset (h : Ends net t p q) (hnet : net.Consistent) :
    (net.preset t).length = 2 := by
  have hne : p ≠ q := fun heq => Nat.lt_irrefl _ (heq ▸ h.lt)
  have hperm : (net.preset t).Perm [p, q] := by
    rw [List.perm_ext_iff_of_nodup (hnet.nodup_preset t) (by simpa using hne)]
    exact fun r => (h.mem_preset r).trans List.mem_pair.symm
  exact hperm.length_eq

theorem Ends.preset_ne_singleton (h : Ends net t p q) (r : PlaceId) : net.preset t ≠ [r] := by
  intro hpreset
  have hp := h.first_mem
  have hq := h.second_mem
  rw [hpreset, List.mem_singleton] at hp hq
  have hlt := h.lt
  rw [hp, hq] at hlt
  omega

/-- The only input place of a transition does its action and goes on with what is produced. -/
theorem Entry.eq_single (hentry : Entry net p t summand)
    (ht : net.transition? t = some transition) (hpreset : net.preset t = [p]) :
    ∃ a P, transition.label.Shows a ∧ net.Produces t P ∧ summand = (a, P) := by
  cases hentry with
  | single ht' _ ha hP =>
      rw [ht] at ht'
      cases ht'
      exact ⟨_, _, ha, hP, rfl⟩
  | send _ _ hends => exact absurd hpreset (hends.preset_ne_singleton p)
  | receive _ _ hends _ => exact absurd hpreset (hends.preset_ne_singleton p)

/-- The first input place of a handshake sends. -/
theorem Entry.eq_send (hentry : Entry net p t summand) (ht : net.transition? t = some transition)
    (hends : Ends net t p q) : summand = (.co (syncKey transition), .inaction) := by
  cases hentry with
  | single _ hpreset _ _ => exact absurd hpreset (hends.preset_ne_singleton p)
  | send ht' _ _ =>
      rw [ht] at ht'
      cases ht'
      rfl
  | receive _ _ hends' _ =>
      have hlt := hends.lt
      rw [(hends.unique hends').2] at hlt
      omega

/-- The second input place of a handshake receives and goes on with what is produced. -/
theorem Entry.eq_receive (hentry : Entry net q t summand)
    (ht : net.transition? t = some transition) (hends : Ends net t p q) :
    ∃ P, net.Produces t P ∧ summand = (.input (syncKey transition), P) := by
  cases hentry with
  | single _ hpreset _ _ => exact absurd hpreset (hends.preset_ne_singleton q)
  | send _ _ hends' =>
      have hlt := hends.lt
      rw [(hends.unique hends').1] at hlt
      omega
  | receive ht' _ _ hP =>
      rw [ht] at ht'
      cases ht'
      exact ⟨_, hP, rfl⟩

theorem transition_of_syncKey (h : net.Consistent) (hwell : net.WellFormed)
    {transition' : Transition} (ht : net.transition? t = some transition)
    (ht' : net.transition? t' = some transition')
    (heq : syncKey transition' = syncKey transition) : t' = t := by
  have hsame := hwell.syncKey_injOn (Arena.mem_toList_iff.2 ⟨t', ht'⟩)
    (Arena.mem_toList_iff.2 ⟨t, ht⟩) heq
  rw [← h.identified.transition_id ht, ← h.identified.transition_id ht', hsame]

/-- Only the arc from the first input place sends on the name of a transition. -/
theorem Entry.of_co (h : net.Consistent) (hwell : net.WellFormed)
    (ht : net.transition? t = some transition) (hends : Ends net t p q)
    (hentry : Entry net p' t' (.co (syncKey transition), P)) : p' = p ∧ t' = t := by
  generalize hs : syncKey transition = s at hentry
  cases hentry with
  | single _ _ ha _ => exact absurd ha not_shows_co
  | send ht' _ hends' =>
      obtain rfl := transition_of_syncKey h hwell ht ht' hs.symm
      exact ⟨(hends.unique hends').1, rfl⟩

/-- Only the arc from the second input place receives on the name of a transition. -/
theorem Entry.of_input (h : net.Consistent) (hwell : net.WellFormed) (hproper : net.ProperLabels)
    (ht : net.transition? t = some transition) (hends : Ends net t p q)
    (hentry : Entry net p' t' (.input (syncKey transition), P)) : p' = q ∧ t' = t := by
  generalize hs : syncKey transition = s at hentry
  cases hentry with
  | single ht' _ ha _ =>
      exact absurd hs.symm
        (syncKey_ne_of_shows (hproper _ (Arena.mem_toList_iff.2 ⟨t', ht'⟩)) ha transition)
  | receive ht' _ hends' _ =>
      obtain rfl := transition_of_syncKey h hwell ht ht' hs.symm
      exact ⟨(hends.unique hends').2, rfl⟩

/-! ### The actions of the definitions -/

theorem Entry.actions_eq_nil (hentry : Entry net p t summand) : summand.2.actions = [] := by
  cases hentry with
  | single _ _ _ hP => exact hP.actions_eq_nil
  | send _ _ _ => rfl
  | receive _ _ _ hP => exact hP.actions_eq_nil

/-- The summands of a place, one for each arc from it. -/
theorem Spells.entries (h : net.Consistent)
    (hbranches : List.Forall₂ (Yields net) net.transitions.toList branches) {place : Place}
    {equation : ConstantName × Term} (hspells : Spells net branches place equation) :
    ∃ choices, equation = (placeKey place, Term.sum choices) ∧
      List.Forall₂ (Entry net place.id) (net.consumers place.id) choices := by
  obtain ⟨choices, rfl, hturns⟩ := hspells
  have hmem := (List.forall₂_and_left (net.consumers place.id) choices).2
    ⟨fun t ht => h.mem_preset_iff_mem_consumers.2 ht, hturns⟩
  exact ⟨choices, rfl, hmem.imp fun t summand hturn => turn_entry h hbranches hturn.1 hturn.2⟩

/-- The equations of the places have one action for each arc. -/
theorem spells_summands (h : net.Consistent)
    (hbranches : List.Forall₂ (Yields net) net.transitions.toList branches)
    {places : List Place} {equations : Definitions}
    (hplaces : List.Forall₂ (Spells net branches) places equations) :
    ∃ summands : List Summand,
      List.Forall₂ (fun arc => Entry net arc.1 arc.2)
        (places.flatMap fun place => (net.consumers place.id).map fun t => (place.id, t))
        summands ∧
      (equations.flatMap fun equation => equation.2.actions) = summands.map Prod.fst := by
  induction hplaces with
  | nil => exact ⟨[], List.Forall₂.nil, rfl⟩
  | @cons place equation places equations hspells _ ih =>
      obtain ⟨choices, rfl, hchoices⟩ := hspells.entries h hbranches
      obtain ⟨summands, hsummands, hactions⟩ := ih
      have hhead : List.Forall₂ (fun arc => Entry net arc.1 arc.2)
          ((net.consumers place.id).map fun t => (place.id, t)) choices :=
        List.forall₂_map_left_iff.2 hchoices
      refine ⟨choices ++ summands, List.rel_append hhead hsummands, ?_⟩
      have hnone : ∀ summand ∈ choices, summand.2.actions = [] := fun summand hmem => by
        obtain ⟨t, -, hentry⟩ := exists_mem_of_forall₂_right hchoices hmem
        exact hentry.actions_eq_nil
      rw [List.flatMap_cons, hactions, Term.actions_sum_eq_map hnone, List.map_append]

theorem actions_components (P : Term) : P.components.flatMap Term.actions = P.actions := by
  cases P with
  | inaction => rfl
  | parallel Ps => exact (Term.actions_parallel Ps).symm
  | guarded _ _ | choice _ | exponent _ _ | restriction _ _ | constant _ =>
      exact List.flatMap_singleton _ _

/-- The equations of the transitions without inputs have the actions of their labels. -/
theorem shows_of_mem_generators
    (hbranches : List.Forall₂ (Yields net) net.transitions.toList branches) {a : Action}
    (ha : a ∈ (branches.filterMap Branch.generator?).flatMap fun equation => equation.2.actions) :
    ∃ transition ∈ net.transitions.toList, transition.label.Shows a := by
  obtain ⟨equation, hequation, hmem⟩ := List.mem_flatMap.1 ha
  obtain ⟨b, hb, heq⟩ := List.mem_filterMap.1 hequation
  obtain ⟨transition, ht, hyields⟩ := exists_mem_of_forall₂_right hbranches hb
  cases hyields with
  | single _ _ _ => cases heq
  | sync _ _ _ => cases heq
  | generator _ hshows hP =>
      cases heq
      rw [Term.actions_guarded, Term.actions_compose, List.flatMap_append, actions_components,
        hP.actions_eq_nil] at hmem
      rw [List.mem_singleton.1 hmem]
      exact ⟨transition, ht, hshows⟩

/-! ### Occurrences -/

variable {equations : Definitions} {encoding : Encoding}

/-- An action that belongs to one arc and to no label occurs once. -/
theorem Written.count_eq_one (hw : Written net branches equations encoding) (h : net.Consistent)
    (hwell : net.WellFormed) {a : Action} (hp : p ∈ net.preset t)
    (hlabels : ∀ transition ∈ net.transitions.toList, ¬ transition.label.Shows a)
    (hiff : ∀ {p' t' a' P}, Entry net p' t' (a', P) → (a' = a ↔ (p', t') = (p, t))) :
    encoding.actions.count a = 1 := by
  obtain ⟨summands, hentries, hactions⟩ := spells_summands h hw.yields hw.spells
  have hgenerators : a ∉ (branches.filterMap Branch.generator?).flatMap fun equation =>
      equation.2.actions := fun hmem => by
    obtain ⟨transition, ht, hshows⟩ := shows_of_mem_generators hw.yields hmem
    exact hlabels transition ht hshows
  have hrelated : List.Forall₂ (fun arc a' => ∃ P, Entry net arc.1 arc.2 (a', P)) net.inputs
      (summands.map Prod.fst) :=
    List.forall₂_map_right_iff.2 (hentries.imp fun arc summand hentry => ⟨summand.2, hentry⟩)
  calc encoding.actions.count a
      = (summands.map Prod.fst).count a := by
        rw [actions, hw.definitions, List.flatMap_append, List.count_append, hactions,
          List.count_eq_zero_of_not_mem hgenerators, add_zero]
    _ = net.inputs.count (p, t) := count_of_forall₂ hrelated fun ⟨P, hentry⟩ => hiff hentry
    _ = 1 := List.count_eq_one_of_mem (nodup_inputs h hwell) ((mem_inputs_iff h).2 hp)

/-- An input place of a transition has its summand. -/
theorem Written.hasSummand (hw : Written net branches equations encoding) (h : net.Consistent)
    {place : Place} (hplace : place ∈ net.places.toList) (hp : place.id ∈ net.preset t) :
    ∃ summand, Entry net place.id t summand ∧ encoding.HasSummand (placeKey place) summand := by
  obtain ⟨equation, hequation, hspells⟩ := exists_mem_of_forall₂_left hw.spells hplace
  obtain ⟨choices, rfl, hchoices⟩ := hspells.entries h hw.yields
  obtain ⟨summand, hmem, hentry⟩ :=
    exists_mem_of_forall₂_left hchoices (h.mem_preset_iff_mem_consumers.1 hp)
  refine ⟨summand, hentry, choices, _, Definitions.lookup_of_mem hw.nodup ?_,
    Term.choiceOf_sum choices, hmem⟩
  rw [hw.definitions]
  exact List.mem_append_left _ hequation

theorem Written.synchronises (hw : Written net branches equations encoding) (h : net.Consistent)
    (hwell : net.WellFormed) (hproper : net.ProperLabels)
    (ht : net.transition? transition.id = some transition) {first second : Place}
    (hfirst : first ∈ net.places.toList) (hsecond : second ∈ net.places.toList)
    (hends : Ends net transition.id first.id second.id) :
    Synchronises net encoding transition first second where
  ends := hends
  sends := by
    obtain ⟨summand, hentry, hmem⟩ := hw.hasSummand h hfirst hends.first_mem
    rwa [hentry.eq_send ht hends] at hmem
  receives := by
    obtain ⟨summand, hentry, hmem⟩ := hw.hasSummand h hsecond hends.second_mem
    obtain ⟨P, hP, rfl⟩ := hentry.eq_receive ht hends
    exact ⟨P, hP, hmem⟩
  count_sends := by
    refine hw.count_eq_one h hwell hends.first_mem (fun _ _ => not_shows_co)
      fun {p' t' a' P} hentry => ⟨?_, fun heq => ?_⟩
    · rintro rfl
      obtain ⟨rfl, rfl⟩ := hentry.of_co h hwell ht hends
      rfl
    · cases heq
      exact congrArg Prod.fst (hentry.eq_send ht hends)
  count_receives := by
    refine hw.count_eq_one h hwell hends.second_mem
      (fun other hother hshows => syncKey_ne_of_shows (hproper other hother) hshows transition rfl)
      fun {p' t' a' P} hentry => ⟨?_, fun heq => ?_⟩
    · rintro rfl
      obtain ⟨rfl, rfl⟩ := hentry.of_input h hwell hproper ht hends
      rfl
    · cases heq
      obtain ⟨P', -, hsummand⟩ := hentry.eq_receive ht hends
      exact congrArg Prod.fst hsummand

/-- What is sent is a synchronisation name. -/
theorem Written.sent (hw : Written net branches equations encoding) (h : net.Consistent)
    (hwell : net.WellFormed) {s : ActionName} (hs : .co s ∈ encoding.actions) :
    s ∈ encoding.syncNames := by
  obtain ⟨summands, hentries, hactions⟩ := spells_summands h hw.yields hw.spells
  rw [actions, hw.definitions, List.flatMap_append, hactions, List.mem_append] at hs
  rcases hs with hs | hs
  · obtain ⟨⟨a, P⟩, hsummand, rfl⟩ := List.mem_map.1 hs
    obtain ⟨arc, -, hentry⟩ := exists_mem_of_forall₂_right hentries hsummand
    cases hentry with
    | single _ _ ha _ => exact absurd ha not_shows_co
    | @send transition q ht _ hends =>
        refine (hw.mem_syncNames h hwell).2
          ⟨transition, Arena.mem_toList_iff.2 ⟨_, ht⟩, ?_, rfl⟩
        rw [h.identified.transition_id ht]
        exact hends.length_preset h
  · obtain ⟨transition, -, hshows⟩ := shows_of_mem_generators hw.yields hs
    exact absurd hshows not_shows_co

/-- The restricted names are in strictly increasing order. -/
theorem Written.increasing (hw : Written net branches equations encoding) (h : net.Consistent)
    (hwell : net.WellFormed) : encoding.syncNames.Pairwise fun s s' => s.text < s'.text := by
  have hnodup : encoding.syncNames.Nodup := by
    rw [hw.syncNames, (List.mergeSort_perm _ _).nodup_iff,
      syncNames_names (hw.contributes h hwell)]
    exact (hwell.nodup_transitions.filter _).map_on fun transition ht transition' ht' =>
      hwell.syncKey_injOn (List.mem_of_mem_filter ht) (List.mem_of_mem_filter ht')
  have hsorted : encoding.syncNames.Pairwise fun s s' => ¬ s'.text < s.text := by
    rw [hw.syncNames]
    refine (List.pairwise_mergeSort (fun a b c hab hbc => ?_) (fun a b => ?_) _).imp
      fun hle => by simpa using hle
    · simp only [Bool.not_eq_true', decide_eq_false_iff_not, not_lt] at hab hbc ⊢
      exact hab.trans hbc
    · simp only [Bool.or_eq_true, Bool.not_eq_true', decide_eq_false_iff_not, not_lt]
      exact le_total a.text b.text
  exact (hsorted.and hnodup).imp fun ⟨hle, hne⟩ =>
    lt_of_le_of_ne (not_lt.1 hle) (ActionName.text_injective.ne hne)

/-- No label of a net is one of the restricted names. -/
theorem Written.text_ne_label (hw : Written net branches equations encoding) (h : net.Consistent)
    (hwell : net.WellFormed) (hproper : transition.label.Proper) {text : String}
    (hlabel : transition.label = .visible text) {s : ActionName} (hs : s ∈ encoding.syncNames) :
    s.text ≠ text := by
  rintro rfl
  obtain ⟨other, -, -, rfl⟩ := (hw.mem_syncNames h hwell).1 hs
  rw [hlabel] at hproper
  exact syncKey_ne_of_shows hproper (.visible (syncKey other)) other rfl

theorem Written.hygienic (hw : Written net branches equations encoding) (h : net.Consistent)
    (hwell : net.WellFormed) (hproper : net.ProperLabels) : Hygienic net encoding where
  increasing := hw.increasing h hwell
  mem_syncNames := fun s => hw.mem_syncNames h hwell
  synchronises := by
    intro transition hmem hlength
    have ht := (mem_transitions_iff h.identified).1 hmem
    obtain ⟨p, q, hends⟩ := exists_ends h hlength
    obtain ⟨first, hfirst⟩ := h.exists_place_of_mem_preset hends.first_mem
    obtain ⟨second, hsecond⟩ := h.exists_place_of_mem_preset hends.second_mem
    obtain rfl := h.identified.place_id hfirst
    obtain rfl := h.identified.place_id hsecond
    have hfirst' := Arena.mem_toList_iff.2 ⟨_, hfirst⟩
    have hsecond' := Arena.mem_toList_iff.2 ⟨_, hsecond⟩
    exact ⟨first, hfirst', second, hsecond',
      hw.synchronises h hwell hproper ht hfirst' hsecond' hends⟩
  sent := fun s => hw.sent h hwell
  labels := fun transition ht text hlabel s =>
    hw.text_ne_label h hwell (hproper transition ht) hlabel
  initial := hw.isInitial
  initial_actions := by
    rw [hw.initial, Term.actions_restrict]
    exact Term.actions_compose_eq_nil fun P => actions_of_mem_startTerms

end Encoding

namespace Net

variable {net : Net} {n : ℕ}

/-- The synchronisation names of every reachable net of the class with proper labels are
hygienic. -/
theorem encode_hygienic (h : net.Reachable n) (hn : n < additionLimit)
    (hproper : net.ProperLabels) (hclass : net.isTwoTauSynchronisation = true) :
    ∃ encoding, net.encode = .ok encoding ∧ Hygienic net encoding := by
  have hnet := h.consistent
  have hwell := (h.named hn).wellFormed hnet
  obtain ⟨encoding, branches, equations, hok, hw⟩ := encode_written hnet hwell hproper hclass
  exact ⟨encoding, hok, hw.hygienic hnet hwell hproper⟩

theorem encode_hygienic_handshake : handshake.Reachable 10 ∧ 10 < additionLimit ∧
    handshake.ProperLabels ∧ handshake.isTwoTauSynchronisation = true ∧
    ∃ encoding, handshake.encode = .ok encoding ∧ Hygienic handshake encoding :=
  ⟨handshake_reachable, by decide, by decide, by decide,
    encode_hygienic handshake_reachable (by decide) (by decide) (by decide)⟩

end Net
end PetriCcs
