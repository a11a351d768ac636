import PetriCcs.Proofs.Equations

/-! # What the encoder returns

A well-formed net of the 2-τ-synchronisation class with proper labels is encoded (`encode_ok`), and
the encoding describes it (`Encoding.Describes`): the constant of a place does what the transitions
that it feeds ask of it (`Feeds`), a transition without inputs does its action again and again
(`Regenerates`), the initial process is a soup of the stored marking and of these transitions, and
the restricted names are those of the handshakes. -/

namespace PetriCcs

open Encoding

namespace Net

/-- The constants of the transitions without inputs. -/
def generators (net : Net) : Multiset ConstantName :=
  (net.transitions.toList.filter fun transition => (net.preset transition.id).isEmpty).map
    generatorKey

end Net

namespace Encoding

open Net

variable {net : Net} {p q : PlaceId} {t : TransitionId} {branches : List Branch}
  {defs : Definitions} {transition : Transition} {place : Place}

/-- What the constant of a place does for the transitions that it feeds, with the constants of the
process after it. -/
inductive Feeds (net : Net) (p : PlaceId) : Action → Multiset ConstantName → Prop where
  | single {t : TransitionId} {label : Label} {a : Action} (hlabel : net.label? t = some label)
      (hpreset : net.preset t = [p]) (ha : label.Shows a) :
      Feeds net p a (net.bag (net.produces t))
  | send {t : TransitionId} {transition : Transition} {q : PlaceId}
      (ht : net.transition? t = some transition) (hlabel : net.label? t = some .tau)
      (hpreset : ∀ r, r ∈ net.preset t ↔ r = p ∨ r = q) (hlt : p.index < q.index) :
      Feeds net p (.co (syncKey transition)) 0
  | receive {t : TransitionId} {transition : Transition} {q : PlaceId}
      (ht : net.transition? t = some transition) (hlabel : net.label? t = some .tau)
      (hpreset : ∀ r, r ∈ net.preset t ↔ r = p ∨ r = q) (hlt : q.index < p.index) :
      Feeds net p (.input (syncKey transition)) (net.bag (net.produces t))

/-- What the constant of a transition without inputs does. -/
inductive Regenerates (net : Net) (transition : Transition) :
    Action → Multiset ConstantName → Prop where
  | again {a : Action} (ha : transition.label.Shows a) :
      Regenerates net transition a
        (net.bag (net.produces transition.id) + {generatorKey transition})

/-- A constant does what is listed and nothing else. -/
structure Behaves (defs : Definitions) (X : ConstantName)
    (does : Action → Multiset ConstantName → Prop) : Prop where
  sound : ∀ {a P}, Term.Step defs (.constant X) a P → ∃ K, does a K ∧ Soup [P] K
  complete : ∀ {a K}, does a K → ∃ P, Term.Step defs (.constant X) a P ∧ Soup [P] K

/-- The constants of an encoding behave as the nodes of a net, and it starts with the stored
marking. -/
structure Describes (net : Net) (encoding : Encoding) : Prop where
  place : ∀ {p place}, net.place? p = some place →
    Behaves encoding.definitions (placeKey place) (Feeds net p)
  generator : ∀ {t transition}, net.transition? t = some transition → net.preset t = [] →
    Behaves encoding.definitions (generatorKey transition) (Regenerates net transition)
  initial : ∃ P, encoding.initial = restrict encoding.syncNames P ∧
    Soup [P] (net.bag net.tokens + net.generators)
  syncNames : ∀ {s}, s ∈ encoding.syncNames ↔ ∃ t transition,
    net.transition? t = some transition ∧ (net.preset t).length = 2 ∧ s = syncKey transition

/-! ### Constants of places -/

/-- An input place of a transition with two inputs stands with one other place. -/
theorem exists_other (h : net.Consistent) {x y : PlaceId} (hpreset : net.preset t = [x, y])
    (hp : p ∈ net.preset t) :
    ∃ q, q.index ≠ p.index ∧ ∀ r, r ∈ net.preset t ↔ r = p ∨ r = q := by
  have hindex : ∀ {r}, r ∈ net.preset t → r.owner = net.tag := fun hr =>
    h.identified.owner_of_contains ((h.mem_preset_iff.1 hr).contains h .source)
  have hnodup := h.nodup_preset t
  have hne : ∀ {r r'}, r ∈ net.preset t → r' ∈ net.preset t → r ≠ r' → r.index ≠ r'.index :=
    fun hr hr' hne heq => hne (Handle.ext ((hindex hr).trans (hindex hr').symm) heq)
  rw [hpreset] at hp hnodup hne ⊢
  have hxy : x ≠ y := by simpa using hnodup
  rcases List.mem_pair.1 hp with rfl | rfl
  · exact ⟨y, hne (by simp) (by simp) hxy.symm, fun r => List.mem_pair⟩
  · exact ⟨x, hne (by simp) (by simp) hxy, fun r => List.mem_pair.trans or_comm⟩

/-- The branch of a transition with two different inputs. -/
theorem Contributes.eq_sync {b : Branch} (hb : Contributes net transition b)
    (hp : p ∈ net.preset transition.id) (hq : q ∈ net.preset transition.id) (hne : p ≠ q) :
    ∃ P, b = .sync (syncKey transition) (.input (syncKey transition), P) ∧
      Soup [P] (net.bag (net.produces transition.id)) := by
  cases hb with
  | generator hpreset _ _ =>
      rw [hpreset] at hp
      exact absurd hp List.not_mem_nil
  | single hpreset _ _ =>
      rw [hpreset, List.mem_singleton] at hp hq
      exact absurd (hp.trans hq.symm) hne
  | sync _ _ hP => exact ⟨_, rfl, hP⟩

/-- A transition takes from exactly two places, `p` before `q`. -/
structure Ends (net : Net) (t : TransitionId) (p q : PlaceId) : Prop where
  mem_preset : ∀ r, r ∈ net.preset t ↔ r = p ∨ r = q
  lt : p.index < q.index

/-- The summand that a transition adds to the equation of one of its input places. -/
inductive Entry (net : Net) (p : PlaceId) (t : TransitionId) : Summand → Prop where
  | single {transition : Transition} {a : Action} {P : Term}
      (ht : net.transition? t = some transition) (hpreset : net.preset t = [p])
      (ha : transition.label.Shows a) (hP : net.Produces t P) : Entry net p t (a, P)
  | send {transition : Transition} {q : PlaceId} (ht : net.transition? t = some transition)
      (htau : transition.label = .tau) (hends : Ends net t p q) :
      Entry net p t (.co (syncKey transition), .inaction)
  | receive {transition : Transition} {q : PlaceId} {P : Term}
      (ht : net.transition? t = some transition) (htau : transition.label = .tau)
      (hends : Ends net t q p) (hP : net.Produces t P) :
      Entry net p t (.input (syncKey transition), P)

theorem turn_entry (h : net.Consistent)
    (hbranches : List.Forall₂ (Yields net) net.transitions.toList branches)
    (hp : p ∈ net.preset t) {summand : Summand}
    (hturn : Turn branches (SentBefore net p t) t summand) : Entry net p t summand := by
  obtain ⟨transition, ht⟩ := h.exists_transition_of_mem_preset hp
  obtain ⟨b, hb, hyields⟩ := branch_at hbranches ht
  have hadds := (turn_iff hb).1 hturn
  obtain rfl := h.identified.transition_id ht
  cases hyields with
  | generator _ _ _ => exact absurd hadds id
  | single hpreset ha hP =>
      cases hadds
      rw [hpreset, List.mem_singleton] at hp
      exact Entry.single ht (hp ▸ hpreset) ha hP
  | sync hpreset htau hP =>
      obtain ⟨q, hne, hmem⟩ := exists_other h hpreset hp
      rcases hadds with ⟨⟨r, hr, hlt⟩, rfl⟩ | ⟨hsent, rfl⟩
      · rcases (hmem r).1 hr with rfl | rfl
        · exact absurd hlt (Nat.lt_irrefl _)
        · exact Entry.receive ht htau ⟨fun r => (hmem r).trans or_comm, hlt⟩ hP
      · have hle : ¬ q.index < p.index := fun hlt => hsent ⟨q, (hmem q).2 (Or.inr rfl), hlt⟩
        exact Entry.send ht htau ⟨hmem, by omega⟩

theorem Entry.feeds (h : net.Consistent) (hwell : net.WellFormed) {a : Action} {P : Term}
    (hentry : Entry net p t (a, P)) : ∃ K, Feeds net p a K ∧ Soup [P] K := by
  cases hentry with
  | single ht hpreset ha hP =>
      exact ⟨_, Feeds.single (label?_eq_some ht) hpreset ha, hP.soup h hwell⟩
  | send ht htau hends =>
      have hlabel := label?_eq_some ht
      rw [htau] at hlabel
      exact ⟨_, Feeds.send ht hlabel hends.mem_preset hends.lt, Soup.nil.inaction⟩
  | receive ht htau hends hP =>
      have hlabel := label?_eq_some ht
      rw [htau] at hlabel
      have hmem := fun r => (hends.mem_preset r).trans or_comm
      exact ⟨_, Feeds.receive ht hlabel hmem hends.lt, hP.soup h hwell⟩

theorem turn_complete (h : net.Consistent)
    (hbranches : List.Forall₂ (Contributes net) net.transitions.toList branches)
    {a : Action} {K : Multiset ConstantName} (hfeeds : Feeds net p a K) :
    ∃ t P, p ∈ net.preset t ∧ Turn branches (SentBefore net p t) t (a, P) ∧ Soup [P] K := by
  cases hfeeds with
  | @single t label _ hlabel hpreset ha =>
      obtain ⟨transition, ht, rfl⟩ := Option.map_eq_some_iff.1 hlabel
      obtain ⟨b, hb, hcontributes⟩ := branch_at hbranches ht
      obtain rfl := h.identified.transition_id ht
      have hp : p ∈ net.preset transition.id := by
        rw [hpreset]
        exact List.mem_singleton_self p
      cases hcontributes with
      | generator hnone _ _ => simp [hnone] at hpreset
      | single _ ha' hP =>
          cases shows_unique ha ha'
          exact ⟨_, _, hp, (turn_iff hb).2 rfl, hP⟩
      | sync htwo _ _ => simp [htwo] at hpreset
  | @send t transition q ht _ hmem hlt =>
      obtain ⟨b, hb, hcontributes⟩ := branch_at hbranches ht
      obtain rfl := h.identified.transition_id ht
      have hp := (hmem p).2 (Or.inl rfl)
      obtain ⟨P, rfl, -⟩ := hcontributes.eq_sync hp ((hmem q).2 (Or.inr rfl))
        fun heq => Nat.lt_irrefl _ (heq ▸ hlt)
      refine ⟨_, .inaction, hp, (turn_iff hb).2 (Or.inr ⟨?_, rfl⟩), Soup.nil.inaction⟩
      rintro ⟨r, hr, hlt'⟩
      rcases (hmem r).1 hr with rfl | rfl <;> omega
  | @receive t transition q ht _ hmem hlt =>
      obtain ⟨b, hb, hcontributes⟩ := branch_at hbranches ht
      obtain rfl := h.identified.transition_id ht
      have hp := (hmem p).2 (Or.inl rfl)
      have hq := (hmem q).2 (Or.inr rfl)
      obtain ⟨P, rfl, hP⟩ := hcontributes.eq_sync hp hq fun heq => Nat.lt_irrefl _ (heq ▸ hlt)
      exact ⟨_, P, hp, (turn_iff hb).2 (Or.inl ⟨⟨q, hq, hlt⟩, rfl⟩), hP⟩

/-- The constant of a place with its equation. -/
theorem Defines.behaves (h : net.Consistent) (hwell : net.WellFormed)
    (hbranches : List.Forall₂ (Yields net) net.transitions.toList branches)
    (hnodup : (defs.map Prod.fst).Nodup) {equation : ConstantName × Term}
    (hdefines : Defines net branches place equation) (hmem : equation ∈ defs) :
    Behaves defs (placeKey place) (Feeds net place.id) := by
  obtain ⟨choices, rfl, hchoices⟩ := hdefines
  have hstep : ∀ {a P}, Term.Step defs (.constant (placeKey place)) a P ↔ (a, P) ∈ choices :=
    (Definitions.step_constant_iff hnodup hmem).trans Term.step_sum_iff
  constructor
  · intro a P hP
    obtain ⟨t, ht, hturn⟩ := (hchoices _).1 (hstep.1 hP)
    exact (turn_entry h hbranches (h.mem_preset_iff_mem_consumers.2 ht) hturn).feeds h hwell
  · intro a K hfeeds
    obtain ⟨t, P, hp, hturn, hP⟩ :=
      turn_complete h (hbranches.imp fun _ _ hb => hb.contributes h hwell) hfeeds
    exact ⟨P, hstep.2 ((hchoices _).2 ⟨t, h.mem_preset_iff_mem_consumers.1 hp, hturn⟩), hP⟩

/-! ### Constants of transitions -/

/-- The transitions with an equation of their own are those without inputs. -/
theorem generators_names
    (hbranches : List.Forall₂ (Contributes net) net.transitions.toList branches) :
    (branches.filterMap Branch.generator?).map Prod.fst =
      (net.transitions.toList.filter fun transition => (net.preset transition.id).isEmpty).map
        generatorKey := by
  rw [List.map_filterMap]
  refine filterMap_of_forall₂ hbranches fun transition b hb => ?_
  cases hb with
  | generator hpreset _ _ => simp [hpreset, Branch.generator?]
  | single hpreset _ _ => simp [hpreset, Branch.generator?]
  | sync hpreset _ _ => simp [hpreset, Branch.generator?]

/-- The transitions with a handshake are those with two inputs. -/
theorem syncNames_names
    (hbranches : List.Forall₂ (Contributes net) net.transitions.toList branches) :
    branches.filterMap Branch.syncName? =
      (net.transitions.toList.filter fun transition => (net.preset transition.id).length = 2).map
        syncKey := by
  refine filterMap_of_forall₂ hbranches fun transition b hb => ?_
  cases hb with
  | generator hpreset _ _ => simp [hpreset, Branch.syncName?]
  | single hpreset _ _ => simp [hpreset, Branch.syncName?]
  | sync hpreset _ _ => simp [hpreset, Branch.syncName?]

theorem mem_syncNames
    (hbranches : List.Forall₂ (Contributes net) net.transitions.toList branches)
    {s : ActionName} : s ∈ branches.filterMap Branch.syncName? ↔
      ∃ transition ∈ net.transitions.toList, (net.preset transition.id).length = 2 ∧
        s = syncKey transition := by
  rw [syncNames_names hbranches, List.mem_map]
  simp only [List.mem_filter, decide_eq_true_eq, and_assoc, @eq_comm _ s]

/-- The constant of a transition without inputs with its equation. -/
theorem generator_behaves (h : net.Consistent)
    (hbranches : List.Forall₂ (Contributes net) net.transitions.toList branches)
    (hnodup : (defs.map Prod.fst).Nodup)
    (hdefs : ∀ equation ∈ branches.filterMap Branch.generator?, equation ∈ defs)
    (ht : net.transition? t = some transition) (hpreset : net.preset t = []) :
    Behaves defs (generatorKey transition) (Regenerates net transition) := by
  obtain ⟨b, hb, hcontributes⟩ := branch_at hbranches ht
  obtain rfl := h.identified.transition_id ht
  cases hcontributes with
  | single hone _ _ => simp [hone] at hpreset
  | sync htwo _ _ => simp [htwo] at hpreset
  | @generator a P _ ha hP =>
      have hmem := hdefs _ (List.mem_filterMap.2 ⟨_, List.mem_of_getElem? hb, rfl⟩)
      have hstep : ∀ {a' P'}, Term.Step defs (.constant (generatorKey transition)) a' P' ↔
          (a', P') ∈ [(a, P)] :=
        (Definitions.step_constant_iff hnodup hmem).trans (@Term.step_sum_iff _ _ _ [(a, P)])
      constructor
      · intro a' P' hP'
        cases List.mem_singleton.1 (hstep.1 hP')
        exact ⟨_, Regenerates.again ha, hP⟩
      · rintro a' K ⟨ha'⟩
        cases shows_unique ha ha'
        exact ⟨P, hstep.2 (List.mem_singleton_self _), hP⟩

/-! ### The encoding -/

theorem names_of_spells {places : List Place} (h : List.Forall₂ (Spells net branches) places defs) :
    defs.map Prod.fst = places.map placeKey := by
  induction h with
  | nil => rfl
  | cons hhead _ ih =>
      obtain ⟨choices, rfl, -⟩ := hhead
      rw [List.map_cons, List.map_cons, ih]

/-- No two equations have the same name. -/
theorem nodup_names (hwell : net.WellFormed) {equations : Definitions}
    (hbranches : List.Forall₂ (Contributes net) net.transitions.toList branches)
    (hplaces : List.Forall₂ (Spells net branches) net.places.toList equations) :
    ((equations ++ branches.filterMap Branch.generator?).map Prod.fst).Nodup := by
  rw [List.map_append, names_of_spells hplaces, generators_names hbranches, List.nodup_append]
  refine ⟨hwell.nodup_places.map_on fun place hp place' hp' => hwell.placeKey_injOn hp hp',
    (hwell.nodup_transitions.filter _).map_on fun transition ht transition' ht' =>
      hwell.generatorKey_injOn (List.mem_of_mem_filter ht) (List.mem_of_mem_filter ht'), ?_⟩
  intro X hX X' hX'
  obtain ⟨place, -, rfl⟩ := List.mem_map.1 hX
  obtain ⟨transition, -, rfl⟩ := List.mem_map.1 hX'
  exact placeKey_ne_generatorKey place transition

/-- The parts of an encoding: the branches of the transitions and the equations of the places. -/
structure Written (net : Net) (branches : List Branch) (equations : Definitions)
    (encoding : Encoding) : Prop where
  yields : List.Forall₂ (Yields net) net.transitions.toList branches
  spells : List.Forall₂ (Spells net branches) net.places.toList equations
  definitions : encoding.definitions = equations ++ branches.filterMap Branch.generator?
  nodup : (encoding.definitions.map Prod.fst).Nodup
  syncNames : encoding.syncNames = (branches.filterMap Branch.syncName?).mergeSort
    fun a b => !decide (b.text < a.text)
  initial : encoding.initial = restrict encoding.syncNames (.compose net.startTerms)

variable {equations : Definitions} {encoding : Encoding}

theorem Written.contributes (hw : Written net branches equations encoding) (h : net.Consistent)
    (hwell : net.WellFormed) :
    List.Forall₂ (Contributes net) net.transitions.toList branches :=
  hw.yields.imp fun _ _ hb => hb.contributes h hwell

theorem Written.isInitial (hw : Written net branches equations encoding) :
    Initial net encoding := by
  have hstarts := net.starts_startTerms
  refine ⟨net.startTerms, _, hstarts, Term.compositionOf_compose hstarts.isComponent, ?_⟩
  rw [hw.initial]
  exact Term.restrictionOf_restrict _ _

/-- The restricted names are those of the transitions with two inputs. -/
theorem Written.mem_syncNames (hw : Written net branches equations encoding)
    (h : net.Consistent) (hwell : net.WellFormed) {s : ActionName} : s ∈ encoding.syncNames ↔
      ∃ transition ∈ net.transitions.toList, (net.preset transition.id).length = 2 ∧
        s = syncKey transition := by
  rw [hw.syncNames, List.mem_mergeSort, Encoding.mem_syncNames (hw.contributes h hwell)]

theorem Written.describes (hw : Written net branches equations encoding) (h : net.Consistent)
    (hwell : net.WellFormed) : Describes net encoding := by
  have hbranches := hw.contributes h hwell
  refine ⟨fun {p place} hp => ?_, fun ht hpreset => ?_, ⟨_, hw.initial, ?_⟩, fun {s} => ?_⟩
  · obtain ⟨equation, hmem, hspells⟩ := exists_mem_of_forall₂_left hw.spells
      (Arena.mem_toList_iff.2 ⟨p, hp⟩)
    have hbehaves := hspells.defines.behaves h hwell hw.yields hw.nodup
      (hw.definitions ▸ List.mem_append_left _ hmem)
    rwa [h.identified.place_id hp] at hbehaves
  · exact generator_behaves h hbranches hw.nodup
      (fun _ hmem => hw.definitions ▸ List.mem_append_right _ hmem) ht hpreset
  · have hsoup := (marked_soup h).append (Soup.constants (net.unfed.map generatorKey))
    rw [List.map_map, h.unfed_eq] at hsoup
    rw [startTerms, h.unfed_eq]
    exact hsoup.compose_singleton
  · rw [hw.mem_syncNames h hwell]
    constructor
    · rintro ⟨transition, hmem, hlength, rfl⟩
      exact ⟨transition.id, transition, (mem_transitions_iff h.identified).1 hmem, hlength, rfl⟩
    · rintro ⟨t, transition, ht, hlength, rfl⟩
      obtain rfl := h.identified.transition_id ht
      exact ⟨transition, Arena.mem_toList_iff.2 ⟨_, ht⟩, hlength, rfl⟩

end Encoding

namespace Net

variable {net : Net}

/-- The encoding from its parts. -/
theorem encode_eq {branches : List Branch} {equations : Definitions} {Ps : List Term}
    (hclass : net.isTwoTauSynchronisation = true)
    (hok : net.transitions.toList.mapM (branch net) = .ok branches)
    (hequations : placeDefinitions net branches net.places.toList [] = .ok equations)
    (hPs : marked net = .ok Ps)
    (hnodup : ((equations ++ branches.filterMap Branch.generator?).map Prod.fst).Nodup) :
    let names := (branches.filterMap Branch.syncName?).mergeSort
      fun a b => !decide (b.text < a.text)
    net.encode = .ok {
      definitions := equations ++ branches.filterMap Branch.generator?
      initial := restrict names (.compose
        (Ps ++ ((branches.filterMap Branch.generator?).map Prod.fst).map .constant))
      syncNames := names } := by
  intro names
  have hdefs := Definitions.foldl_insert (show (([] ++ (equations ++
    branches.filterMap Branch.generator?)).map Prod.fst).Nodup from hnodup)
  rw [List.nil_append] at hdefs
  unfold encode
  rw [hclass, hok]
  change (placeDefinitions net branches net.places.toList [] >>= _) = _
  rw [hequations]
  change (marked net >>= _) = _
  rw [hPs]
  change Except.ok _ = _
  rw [hdefs, List.map_map]
  rfl

/-- A well-formed net of the class with proper labels is encoded, part by part. -/
theorem encode_written (h : net.Consistent) (hwell : net.WellFormed) (hproper : net.ProperLabels)
    (hclass : net.isTwoTauSynchronisation = true) :
    ∃ encoding branches equations, net.encode = .ok encoding ∧
      Written net branches equations encoding := by
  obtain ⟨branches, hok, hyields⟩ := branches_ok h hproper hclass
  obtain ⟨equations, hequations, hspells⟩ := @placeDefinitions_ok net h branches hyields
    net.places.toList [] [] rfl (by simp)
  have hbranches := hyields.imp fun _ _ hb => hb.contributes h hwell
  have hnodup := nodup_names hwell hbranches hspells
  refine ⟨_, branches, equations, encode_eq hclass hok hequations (marked_eq net) hnodup,
    hyields, hspells, rfl, hnodup, rfl, ?_⟩
  rw [startTerms, h.unfed_eq, generators_names hbranches, List.map_map]
  rfl

theorem encode_ok (h : net.Consistent) (hwell : net.WellFormed) (hproper : net.ProperLabels)
    (hclass : net.isTwoTauSynchronisation = true) :
    ∃ encoding, net.encode = .ok encoding ∧ Describes net encoding := by
  obtain ⟨encoding, branches, equations, hok, hw⟩ := encode_written h hwell hproper hclass
  exact ⟨encoding, hok, hw.describes h hwell⟩

end Net
end PetriCcs
