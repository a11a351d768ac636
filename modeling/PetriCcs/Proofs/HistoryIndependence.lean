import PetriCcs.Proofs.ChoiceClasses
import PetriCcs.Proofs.EncodingEquivariance
import PetriCcs.Proofs.EquationSystem
import PetriCcs.Proofs.Rearrangement
import PetriCcs.Proofs.SameGraph
import PetriCcs.Proofs.Workflow

/-! # Independence of the history of a net

Histories that end in the same graph may number the edges differently and leave the lists of the
nodes in another order.  The classes do not depend on this (`Relinked.classify`): each is decided by
which nodes the arcs join.  The encoding of the one net is that of the other up to the order of
summands and of components (`Written.rearranged`), for the lists only say in which order the summands
of a place and the products of a transition come; which input place of a handshake sends is fixed by
the order of the places (`Relinked.entry`).  Both hold for nets of any tags that hold the same graph
(`Net.reachable_sameGraph`). -/

namespace PetriCcs

open Encoding
open scoped List

/-- Lists that agree under a map agree in what does not depend on the rest. -/
theorem map_filter_of_map_eq {α β : Type} {l l' : List α} {g : α → α} (h : l'.map g = l.map g)
    {f : α → β} {p : α → Bool} (hf : ∀ a, f (g a) = f a) (hp : ∀ a, p (g a) = p a) :
    (l'.filter p).map f = (l.filter p).map f := by
  have hshown : ∀ l : List α, (l.filter p).map f = ((l.map g).filter p).map f := by
    intro l
    rw [List.filter_map, List.map_map]
    exact (congrArg₂ List.map (funext hf) (List.filter_congr fun a _ => hp a)).symm
  rw [hshown, h, ← hshown]

namespace Net

variable {net net' : Net} {p q : PlaceId} {t : TransitionId} {place : Place}
  {transition : Transition}

section Relinked

variable (hr : Relinked net net') (h : net.Consistent) (h' : net'.Consistent)
include hr h h'

/-! ### Queries -/

theorem Relinked.exists_place (hplace : net.place? p = some place) :
    ∃ place', net'.place? p = some place' ∧ placeKey place' = placeKey place := by
  have hmem := List.mem_map_of_mem (f := Place.bare) (Arena.mem_toList_iff.2 ⟨p, hplace⟩)
  rw [← hr.places, List.mem_map] at hmem
  obtain ⟨place', hmem', hbare⟩ := hmem
  obtain ⟨hid, -⟩ := Place.mk.inj hbare
  rw [h.identified.place_id hplace] at hid
  have hkey := congrArg placeKey hbare
  exact ⟨place', hid ▸ (mem_places_iff h'.identified).1 hmem', hkey⟩

theorem Relinked.exists_transition (ht : net.transition? t = some transition) :
    ∃ transition', net'.transition? t = some transition' ∧ transition'.label = transition.label ∧
      generatorKey transition' = generatorKey transition ∧
      syncKey transition' = syncKey transition := by
  have hmem := List.mem_map_of_mem (f := Transition.bare) (Arena.mem_toList_iff.2 ⟨t, ht⟩)
  rw [← hr.transitions, List.mem_map] at hmem
  obtain ⟨transition', hmem', hbare⟩ := hmem
  obtain ⟨hid, -, hlabel, -⟩ := Transition.mk.inj hbare
  rw [h.identified.transition_id ht] at hid
  have hkey := congrArg generatorKey hbare
  have hname := congrArg syncKey hbare
  exact ⟨transition', hid ▸ (mem_transitions_iff h'.identified).1 hmem', hlabel, hkey, hname⟩

theorem Relinked.contains {node : Node} (hnode : net.contains node = true) :
    net'.contains node = true := by
  cases node with
  | place p =>
      obtain ⟨place, hplace⟩ := Arena.contains_iff_get?.1 hnode
      obtain ⟨place', hplace', -⟩ := hr.exists_place h h' hplace
      exact Arena.contains_of_get? hplace'
  | transition t =>
      obtain ⟨transition, ht⟩ := Arena.contains_iff_get?.1 hnode
      obtain ⟨transition', ht', -⟩ := hr.exists_transition h h' ht
      exact Arena.contains_of_get? ht'

theorem Relinked.label? {label : Label} (hlabel : net.label? t = some label) :
    net'.label? t = some label := by
  obtain ⟨transition, ht, rfl⟩ := Option.map_eq_some_iff.1 hlabel
  obtain ⟨transition', ht', hlabel, -⟩ := hr.exists_transition h h' ht
  rw [label?_eq_some ht', hlabel]

theorem Relinked.preset_perm (t : TransitionId) : net.preset t ~ net'.preset t :=
  (List.perm_ext_iff_of_nodup (h.nodup_preset t) (h'.nodup_preset t)).2 fun p => by
    rw [h.mem_preset_iff, h'.mem_preset_iff, hr.hasArc]

theorem Relinked.consumers_perm (p : PlaceId) : net.consumers p ~ net'.consumers p :=
  (List.perm_ext_iff_of_nodup (h.nodup_consumers p) (h'.nodup_consumers p)).2 fun t => by
    rw [h.mem_consumers_iff, h'.mem_consumers_iff, hr.hasArc]

theorem Relinked.postset_perm (t : TransitionId) : net.postset t ~ net'.postset t :=
  (List.perm_ext_iff_of_nodup (h.nodup_postset t).of_map (h'.nodup_postset t).of_map).2
    fun (p, weight) => by rw [h.mem_postset_iff, h'.mem_postset_iff, hr.hasArc]

theorem Relinked.exists_unfed (hunfed : transition ∈ net.unfed) : ∃ transition' ∈ net'.unfed,
    transition'.id = transition.id ∧ transition'.label = transition.label ∧
      generatorKey transition' = generatorKey transition := by
  rw [h.unfed_eq, List.mem_filter] at hunfed
  obtain ⟨hmem, hpreset⟩ := hunfed
  obtain ⟨transition', ht', hlabel, hkey, -⟩ :=
    hr.exists_transition h h' ((mem_transitions_iff h.identified).1 hmem)
  have hid := h'.identified.transition_id ht'
  refine ⟨transition', ?_, hid, hlabel, hkey⟩
  rw [h'.unfed_eq, List.mem_filter, hid, ← (hr.preset_perm h h' transition.id).isEmpty_eq]
  exact ⟨Arena.mem_toList_iff.2 ⟨_, ht'⟩, hpreset⟩

/-! ### Classes -/

theorem Relinked.isTwoTauSynchronisation (hclass : net.isTwoTauSynchronisation = true) :
    net'.isTwoTauSynchronisation = true := by
  refine h'.isTwoTauSynchronisation_iff.2 fun t label hlabel => ?_
  rw [← (hr.preset_perm h h' t).length_eq]
  exact h.isTwoTauSynchronisation_iff.1 hclass t label (hr.symm.label? h' h hlabel)

theorem Relinked.fed (hfed : net.Fed) : net'.Fed := by
  intro t ht hpreset
  refine hfed t (hr.symm.contains h' h ht) ?_
  have hperm := hr.preset_perm h h' t
  rw [hpreset] at hperm
  exact hperm.eq_nil

theorem Relinked.freeChoice (hfree : net.FreeChoice) : net'.FreeChoice := by
  intro t p q hp hq hne u hu
  have hpreset := hr.preset_perm h h' t
  exact hfree t p q (hpreset.mem_iff.2 hp) (hpreset.mem_iff.2 hq) hne u
    ((hr.consumers_perm h h' p).mem_iff.2 hu)

theorem Relinked.groupChoice (hchoice : net.GroupChoice) : net'.GroupChoice := by
  intro t p q hp hq u
  have hpreset := hr.preset_perm h h' t
  rw [← (hr.consumers_perm h h' p).mem_iff, ← (hr.consumers_perm h h' q).mem_iff]
  exact hchoice t p q (hpreset.mem_iff.2 hp) (hpreset.mem_iff.2 hq) u

omit h h' in
theorem Relinked.leads_eq : net'.Leads = net.Leads := by
  have hflows : net'.Flows = net.Flows := by
    funext u v
    exact propext (exists_congr fun weight => hr.hasArc _)
  rw [Leads, Leads, hflows]

theorem Relinked.isBorder_iff {side : Side} : net'.IsBorder side p ↔ net.IsBorder side p := by
  refine and_congr ⟨hr.symm.contains h' h, hr.contains h h'⟩ ?_
  exact forall_congr' fun arc => imp_congr_left (hr.hasArc arc)

theorem Relinked.workflowNet (hnet : net.WorkflowNet) : net'.WorkflowNet := by
  obtain ⟨source, sink, hsource, hsink, hall⟩ := hnet
  refine ⟨source, sink, fun p => (hr.isBorder_iff h h').trans (hsource p),
    fun p => (hr.isBorder_iff h h').trans (hsink p), fun node hnode => ?_⟩
  rw [hr.leads_eq]
  exact hall node (hr.symm.contains h' h hnode)

/-- The classes depend on the nodes and the arcs only. -/
theorem Relinked.classify : net'.classify = net.classify := by
  have htwoTau : net'.isTwoTauSynchronisation = net.isTwoTauSynchronisation :=
    Bool.eq_iff_iff.2
      ⟨hr.symm.isTwoTauSynchronisation h' h, hr.isTwoTauSynchronisation h h'⟩
  have hccs : net'.isCcs = net.isCcs := by
    rw [Bool.eq_iff_iff, h.isCcs_iff, h'.isCcs_iff, htwoTau]
    exact and_congr_right' ⟨hr.symm.fed h' h, hr.fed h h'⟩
  have hfree : net'.isFreeChoice = net.isFreeChoice := by
    rw [Bool.eq_iff_iff, h.isFreeChoice_iff, h'.isFreeChoice_iff]
    exact ⟨hr.symm.freeChoice h' h, hr.freeChoice h h'⟩
  have hgroup : net'.isGroupChoice = net.isGroupChoice := by
    rw [Bool.eq_iff_iff, h.isGroupChoice_iff, h'.isGroupChoice_iff]
    exact ⟨hr.symm.groupChoice h' h, hr.groupChoice h h'⟩
  have hworkflow : net'.isWorkflow = net.isWorkflow := by
    rw [Bool.eq_iff_iff, h.isWorkflow_iff, h'.isWorkflow_iff]
    exact ⟨hr.symm.workflowNet h' h, hr.workflowNet h h'⟩
  rw [Net.classify, Net.classify, htwoTau, hccs, hfree, hgroup, hworkflow]

/-! ### Names -/

omit h h' in
theorem Relinked.map_placeKey :
    net'.places.toList.map placeKey = net.places.toList.map placeKey := by
  have hkeys := congrArg (List.map placeKey) hr.places
  rwa [List.map_map, List.map_map] at hkeys

/-- What is written of the transitions that are chosen by the number of their inputs. -/
theorem Relinked.map_filter_preset {β : Type} {f : Transition → β}
    (hf : ∀ transition : Transition, f transition.bare = f transition)
    (test : List PlaceId → Bool) (htest : ∀ {l l' : List PlaceId}, l ~ l' → test l = test l') :
    (net'.transitions.toList.filter fun transition => test (net'.preset transition.id)).map f =
      (net.transitions.toList.filter fun transition => test (net.preset transition.id)).map f := by
  have hsame : (fun transition : Transition => test (net'.preset transition.id)) =
      fun transition => test (net.preset transition.id) := by
    funext transition
    exact htest (hr.preset_perm h h' _).symm
  rw [hsame]
  exact map_filter_of_map_eq hr.transitions hf fun _ => rfl

theorem Relinked.startTerms_eq : net'.startTerms = net.startTerms := by
  rw [startTerms, startTerms, markedTerms, markedTerms, h.unfed_eq, h'.unfed_eq]
  congr 1
  · exact map_filter_of_map_eq hr.places (fun _ => rfl) fun _ => rfl
  · exact hr.map_filter_preset h h' (fun _ => rfl) List.isEmpty List.Perm.isEmpty_eq

/-! ### Bodies -/

/-- The places that a transition produces into stand side by side in both nets, in the orders of the
two lists. -/
theorem Relinked.copies_perm {components components' : List Term}
    (hall : List.Forall₂ net.Copies (net.postset t) components)
    (hall' : List.Forall₂ net'.Copies (net'.postset t) components') :
    components ~ components' := by
  have hcopies : ∀ {entry P P'}, net.Copies entry P → net'.Copies entry P' → P = P' := by
    rintro entry _ _ ⟨place, hplace, hcopies⟩ ⟨place', hplace', hcopies'⟩
    obtain ⟨other, hother, hkey⟩ := hr.exists_place h h' hplace
    rw [hplace'] at hother
    obtain rfl := Option.some.inj hother
    rw [hcopies.eq_times, hcopies'.eq_times, hkey]
  obtain ⟨arranged, hperm, hsame⟩ :=
    exists_perm_forall₂ (hr.postset_perm h h' t) hall hall' hcopies
  rw [List.forall₂_eq_eq_eq] at hsame
  rwa [hsame] at hperm

theorem Relinked.produces {P P' : Term} (hP : net.Produces t P) (hP' : net'.Produces t P') :
    Term.Rearranged P P' := by
  obtain ⟨components, hall, hP⟩ := hP
  obtain ⟨components', hall', hP'⟩ := hP'
  rw [hP.eq_compose, hP'.eq_compose]
  exact .compose (hr.copies_perm h h' hall hall')

theorem Relinked.ends (hends : Ends net t p q) : Ends net' t p q :=
  ⟨fun r => (hr.preset_perm h h' t).mem_iff.symm.trans (hends.mem_preset r), hends.lt⟩

/-- A transition adds the same summand to a place in both nets, up to the order of what it
produces. -/
theorem Relinked.entry {x x' : Summand} (hentry : Entry net p t x) (hentry' : Entry net' p t x') :
    Term.RearrangedSummand x x' := by
  cases hentry with
  | single ht hpreset hshows hP =>
      obtain ⟨transition', ht', hlabel, -⟩ := hr.exists_transition h h' ht
      have hpreset' := hr.preset_perm h h' t
      rw [hpreset, List.singleton_perm] at hpreset'
      obtain ⟨a, P', hshows', hP', rfl⟩ := hentry'.eq_single ht' hpreset'.symm
      rw [hlabel] at hshows'
      obtain rfl := shows_unique hshows hshows'
      exact ⟨hr.produces h h' hP hP'⟩
  | send ht _ hends =>
      obtain ⟨transition', ht', -, -, hkey⟩ := hr.exists_transition h h' ht
      rw [hentry'.eq_send ht' (hr.ends h h' hends), hkey]
      exact ⟨.inaction⟩
  | receive ht _ hends hP =>
      obtain ⟨transition', ht', -, -, hkey⟩ := hr.exists_transition h h' ht
      obtain ⟨P', hP', rfl⟩ := hentry'.eq_receive ht' (hr.ends h h' hends)
      rw [hkey]
      exact ⟨hr.produces h h' hP hP'⟩

end Relinked

end Net

/-! ### Encodings -/

namespace Encoding

open Net

variable {encoding encoding' : Encoding} {X : ConstantName}

/-- The equation of a constant has a summand that begins with an action. -/
def Offers (encoding : Encoding) (X : ConstantName) (a : Action) : Prop :=
  ∃ body, encoding.definitions.lookup X = some body ∧ a ∈ body.headActions

/-- Two encodings that differ in the order of summands and of components only. -/
structure Rearranged (encoding encoding' : Encoding) : Prop where
  keys : encoding'.keys = encoding.keys
  syncNames : encoding'.syncNames = encoding.syncNames
  initial : encoding'.initial = encoding.initial
  body : ∀ X ∈ encoding.keys, ∃ body body', encoding.definitions.lookup X = some body ∧
    encoding'.definitions.lookup X = some body' ∧ Term.Rearranged body body'

theorem mem_keys_of_lookup {body : Term} (h : encoding.definitions.lookup X = some body) :
    X ∈ encoding.keys := by
  obtain ⟨before, after, hdefs, -⟩ := List.lookup_eq_some_iff.1 h
  rw [keys, hdefs]
  simp

/-- Constants begin with the same actions, so the same places send and receive. -/
theorem Rearranged.offers_iff (h : encoding.Rearranged encoding') {a : Action} :
    encoding.Offers X a ↔ encoding'.Offers X a := by
  constructor
  · rintro ⟨body, hlookup, ha⟩
    obtain ⟨_, body', hbody, hlookup', hsame⟩ := h.body X (mem_keys_of_lookup hlookup)
    rw [hlookup] at hbody
    cases hbody
    exact ⟨body', hlookup', hsame.headActions_perm.mem_iff.1 ha⟩
  · rintro ⟨body', hlookup', ha⟩
    have hX := mem_keys_of_lookup hlookup'
    rw [h.keys] at hX
    obtain ⟨body, _, hlookup, hbody', hsame⟩ := h.body X hX
    rw [hlookup'] at hbody'
    cases hbody'
    exact ⟨body, hlookup, hsame.headActions_perm.mem_iff.2 ha⟩

section Written

variable {net net' : Net} {branches branches' : List Branch} {equations equations' : Definitions}
  (hr : Relinked net net') (h : net.Consistent) (h' : net'.Consistent)
  (hw : Written net branches equations encoding) (hw' : Written net' branches' equations' encoding')
include hr h h' hw hw'

/-- The body of a place has a summand for each consumer. -/
theorem Written.rearranged_place {place : Place} (hmem : place ∈ net.places.toList) :
    ∃ body body', encoding.definitions.lookup (placeKey place) = some body ∧
      encoding'.definitions.lookup (placeKey place) = some body' ∧ Term.Rearranged body body' := by
  obtain ⟨place', hplace', hkey⟩ := hr.exists_place h h' ((mem_places_iff h.identified).1 hmem)
  have hid := h'.identified.place_id hplace'
  obtain ⟨summands, hall, hlookup⟩ := hw.lookup_place h hmem
  obtain ⟨summands', hall', hlookup'⟩ := hw'.lookup_place h' (Arena.mem_toList_iff.2 ⟨_, hplace'⟩)
  rw [hid] at hall'
  rw [hkey] at hlookup'
  obtain ⟨arranged, hperm, hsame⟩ :=
    exists_perm_forall₂ (hr.consumers_perm h h' place.id) hall hall' (hr.entry h h')
  exact ⟨_, _, hlookup, hlookup', .sum hperm hsame⟩

/-- The body of a transition without inputs has a component for each place that it produces into. -/
theorem Written.rearranged_generator {transition : Transition} (hmem : transition ∈ net.unfed) :
    ∃ body body', encoding.definitions.lookup (generatorKey transition) = some body ∧
      encoding'.definitions.lookup (generatorKey transition) = some body' ∧
      Term.Rearranged body body' := by
  obtain ⟨transition', hmem', hid, hlabel, hkey⟩ := hr.exists_unfed h h' hmem
  obtain ⟨a, components, hshows, hall, hlookup⟩ := hw.lookup_generator h hmem
  obtain ⟨a', components', hshows', hall', hlookup'⟩ := hw'.lookup_generator h' hmem'
  rw [hlabel] at hshows'
  rw [hid] at hall'
  rw [hkey] at hlookup'
  obtain rfl := shows_unique hshows hshows'
  have hperm := hr.copies_perm h h' hall hall'
  exact ⟨_, _, hlookup, hlookup', .guarded (.compose (hperm.append_right _))⟩

/-- The encodings of a net and of the same net with other links. -/
theorem Written.rearranged (hwell : net.WellFormed) (hwell' : net'.WellFormed) :
    encoding.Rearranged encoding' := by
  have hkeys : encoding'.keys = encoding.keys := by
    rw [hw.keys_eq h hwell, hw'.keys_eq h' hwell', hr.map_placeKey, h.unfed_eq, h'.unfed_eq]
    congr 1
    exact hr.map_filter_preset h h' (fun _ => rfl) List.isEmpty List.Perm.isEmpty_eq
  have hsync : encoding'.syncNames = encoding.syncNames := by
    rw [hw.syncNames, hw'.syncNames, syncNames_names (hw.contributes h hwell),
      syncNames_names (hw'.contributes h' hwell')]
    congr 1
    exact hr.map_filter_preset h h' (fun _ => rfl) (fun l => decide (l.length = 2))
      fun hperm => by rw [hperm.length_eq]
  refine ⟨hkeys, hsync, ?_, fun X hX => ?_⟩
  · rw [hw.initial, hw'.initial, hsync, hr.startTerms_eq h h']
  · rw [hw.keys_eq h hwell, List.mem_append, List.mem_map, List.mem_map] at hX
    rcases hX with ⟨place, hmem, rfl⟩ | ⟨transition, hmem, rfl⟩
    · exact Written.rearranged_place hr h h' hw hw' hmem
    · exact Written.rearranged_generator hr h h' hw hw' hmem

end Written

end Encoding

namespace Net

variable {net net' : Net} {n n' : ℕ}

theorem SameNodes.properLabels (h : SameNodes net net') (hproper : net.ProperLabels) :
    net'.ProperLabels := by
  intro transition' hmem'
  have hmem := List.mem_map_of_mem (f := Transition.content) hmem'
  rw [h.transitions, List.mem_map] at hmem
  obtain ⟨transition, hmem, hcontent⟩ := hmem
  obtain ⟨-, hlabel⟩ := Prod.mk.inj hcontent
  exact hlabel ▸ hproper transition hmem

theorem SameGraph.classify (hsame : SameGraph net net') (h : net.Consistent)
    (h' : net'.Consistent) : net'.classify = net.classify :=
  ((hsame.relinked h h').classify (h.copy _) h').trans (h.classify_copy _)

/-- Nets that hold the same graph are refused both, or their encodings are rearrangements of each
other. -/
theorem SameGraph.encode (hsame : SameGraph net net') (h : net.Reachable n) (h' : net'.Reachable n')
    (hn : n < additionLimit) (hn' : n' < additionLimit) (hproper : net.ProperLabels) :
    (net.encode = .error (.structuralMismatch .encodable) ∧
      net'.encode = .error (.structuralMismatch .encodable)) ∨
    ∃ encoding encoding', net.encode = .ok encoding ∧ net'.encode = .ok encoding' ∧
      encoding.Rearranged encoding' := by
  have hnet := h.consistent
  have hnet' := h'.consistent
  have htwoTau : net'.isTwoTauSynchronisation = net.isTwoTauSynchronisation :=
    congrArg NetClass.twoTauSynchronisation (hsame.classify hnet hnet')
  cases hclass : net.isTwoTauSynchronisation with
  | false => exact Or.inl ⟨encode_refused hclass, encode_refused (htwoTau.trans hclass)⟩
  | true =>
      -- the copy of the one net has the handles of the other
      have hcopy := h.copy net'.tag
      have hr := hsame.relinked hnet hnet'
      have hwell := (hcopy.named hn).wellFormed hcopy.consistent
      have hwell' := (h'.named hn').wellFormed hnet'
      have hproper' := (sameNodes_copy net net'.tag).properLabels hproper
      obtain ⟨encoding, branches, equations, hok, hw⟩ := encode_written hcopy.consistent hwell
        hproper' ((isTwoTauSynchronisation_copy net _).trans hclass)
      obtain ⟨encoding', branches', equations', hok', hw'⟩ := encode_written hnet' hwell'
        (hsame.properLabels hproper) (htwoTau.trans hclass)
      exact Or.inr ⟨encoding, encoding', (hnet.encode_copy _).1 hok, hok',
        Written.rearranged hr hcopy.consistent hnet' hw hw' hwell hwell'⟩

/-- However two reachable nets with proper labels were built, they are classified alike if they hold
the same graph; either both are refused by the encoder, or the encodings have the same names in the
same order, the same restrictions and the same initial process, and the bodies differ only in the
order of summands and components, with the same senders and receivers. -/
theorem reachable_sameGraph (h : net.Reachable n) (h' : net'.Reachable n')
    (hn : n < additionLimit) (hn' : n' < additionLimit) (hproper : net.ProperLabels)
    (hsame : SameGraph net net') :
    net'.classify = net.classify ∧
    ((net.encode = .error (.structuralMismatch .encodable) ∧
        net'.encode = .error (.structuralMismatch .encodable)) ∨
      ∃ encoding encoding', net.encode = .ok encoding ∧ net'.encode = .ok encoding' ∧
        encoding.Rearranged encoding' ∧
        ∀ X a, encoding.Offers X a ↔ encoding'.Offers X a) := by
  refine ⟨hsame.classify h.consistent h'.consistent, ?_⟩
  refine (hsame.encode h h' hn hn' hproper).imp_right ?_
  rintro ⟨encoding, encoding', hok, hok', hrearranged⟩
  exact ⟨encoding, encoding', hok, hok', hrearranged, fun X a => hrearranged.offers_iff⟩

/-- A handshake and a choice, made in the order of the names. -/
def direct : List Change :=
  [.addPlace none 1, .addPlace none 1, .addPlace none 0,
    .addLabelledTransition none .tau, .addLabelledTransition none (.visible "a"),
    .addEdge (.place ⟨0, 0⟩) (.transition ⟨0, 0⟩) 1,
    .addEdge (.place ⟨0, 1⟩) (.transition ⟨0, 0⟩) 1,
    .addEdge (.transition ⟨0, 0⟩) (.place ⟨0, 2⟩) 2,
    .addEdge (.transition ⟨0, 0⟩) (.place ⟨0, 0⟩) 1,
    .addEdge (.place ⟨0, 0⟩) (.transition ⟨0, 1⟩) 1,
    .addEdge (.transition ⟨0, 1⟩) (.place ⟨0, 2⟩) 1]

/-- The same graph by a detour: the first place is made last and moves up when another one goes. -/
def detour : List Change :=
  [.addPlace (some 9) 4, .addPlace (some 2) 1, .addPlace (some 3) 0, .addPlace (some 1) 1,
    .addLabelledTransition none .tau, .addLabelledTransition none (.visible "a"),
    .addEdge (.place ⟨1, 0⟩) (.transition ⟨1, 1⟩) 1,
    .addEdge (.place ⟨1, 3⟩) (.transition ⟨1, 1⟩) 1,
    .addEdge (.transition ⟨1, 1⟩) (.place ⟨1, 2⟩) 1,
    .addEdge (.place ⟨1, 1⟩) (.transition ⟨1, 0⟩) 1,
    .addEdge (.place ⟨1, 3⟩) (.transition ⟨1, 0⟩) 1,
    .addEdge (.transition ⟨1, 0⟩) (.place ⟨1, 3⟩) 1,
    .addEdge (.transition ⟨1, 0⟩) (.place ⟨1, 2⟩) 2,
    .removePlace ⟨1, 0⟩]

def straight : Net := direct.foldl (fun net change => (change.runOn net).2) (empty 0)

def detoured : Net := detour.foldl (fun net change => (change.runOn net).2) (empty 1)

theorem straight_reachable : straight.Reachable 11 :=
  Reachable.of_changes (by decide +kernel)

theorem detoured_reachable : detoured.Reachable 13 :=
  Reachable.of_changes (by decide +kernel)

theorem sameGraph_detoured : SameGraph straight detoured :=
  SameNodes.sameGraph ⟨by decide +kernel, by decide +kernel⟩ straight_reachable.consistent
    (by decide +kernel)

/-- The first place lists its consumers in different orders. -/
theorem reachable_sameGraph_detoured : straight.Reachable 11 ∧ detoured.Reachable 13 ∧
    11 < additionLimit ∧ 13 < additionLimit ∧ straight.ProperLabels ∧
    SameGraph straight detoured ∧
    straight.consumers ⟨0, 0⟩ = [⟨0, 0⟩, ⟨0, 1⟩] ∧ detoured.consumers ⟨1, 0⟩ = [⟨1, 1⟩, ⟨1, 0⟩] ∧
    ∃ encoding encoding', straight.encode = .ok encoding ∧ detoured.encode = .ok encoding' ∧
      encoding.Rearranged encoding' := by
  have hproper : straight.ProperLabels := by decide +kernel
  have hn : 11 < additionLimit := by decide
  have hn' : 13 < additionLimit := by decide
  refine ⟨straight_reachable, detoured_reachable, hn, hn', hproper, sameGraph_detoured,
    by decide +kernel, by decide +kernel, ?_⟩
  obtain ⟨-, ⟨hrefused, -⟩ | ⟨encoding, encoding', hok, hok', hrearranged, -⟩⟩ :=
    reachable_sameGraph straight_reachable detoured_reachable hn hn' hproper sameGraph_detoured
  · obtain ⟨encoding, hok, -⟩ := encode_ok straight_reachable.consistent
      ((straight_reachable.named hn).wellFormed straight_reachable.consistent) hproper
      (by decide +kernel)
    rw [hrefused] at hok
    cases hok
  · exact ⟨encoding, encoding', hok, hok', hrearranged⟩

end Net
end PetriCcs
