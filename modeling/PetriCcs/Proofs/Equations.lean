import PetriCcs.Proofs.Bags
import PetriCcs.Proofs.GroupSplit

/-! # The equations of an encoding

Each transition contributes one branch (`Yields`, and up to the order of its processes
`Contributes`): an equation of its own, a summand of its input place, or a handshake whose sender is
the input place at the smaller position (`Turn`).  From this follow the equations of the places,
with one summand for each consumer in order (`placeDefinitions_ok`), and that a proper net is never
refused. -/

namespace PetriCcs
namespace Encoding

open Net

variable {net : Net} {p : PlaceId} {t : TransitionId}

/-! ### Branches -/

/-- The branch of a transition, by its inputs; the processes in it are soups of what is
produced. -/
inductive Contributes (net : Net) (transition : Transition) : Branch → Prop where
  | generator {a : Action} {P : Term} (hpreset : net.preset transition.id = [])
      (ha : transition.label.Shows a)
      (hP : Soup [P] (net.bag (net.produces transition.id) + {generatorKey transition})) :
      Contributes net transition (.generator (generatorKey transition) (.guarded a P))
  | single {a : Action} {P : Term} {p : PlaceId} (hpreset : net.preset transition.id = [p])
      (ha : transition.label.Shows a) (hP : Soup [P] (net.bag (net.produces transition.id))) :
      Contributes net transition (.single (a, P))
  | sync {P : Term} {p q : PlaceId} (hpreset : net.preset transition.id = [p, q])
      (hlabel : transition.label = .tau) (hP : Soup [P] (net.bag (net.produces transition.id))) :
      Contributes net transition
        (.sync (syncKey transition) (.input (syncKey transition), P))

/-- The branch of a transition, term by term. -/
inductive Yields (net : Net) (transition : Transition) : Branch → Prop where
  | generator {a : Action} {P : Term} (hpreset : net.preset transition.id = [])
      (ha : transition.label.Shows a) (hP : net.Produces transition.id P) :
      Yields net transition (.generator (generatorKey transition)
        (.guarded a (.compose (P.components ++ [.constant (generatorKey transition)]))))
  | single {a : Action} {P : Term} {p : PlaceId} (hpreset : net.preset transition.id = [p])
      (ha : transition.label.Shows a) (hP : net.Produces transition.id P) :
      Yields net transition (.single (a, P))
  | sync {P : Term} {p q : PlaceId} (hpreset : net.preset transition.id = [p, q])
      (hlabel : transition.label = .tau) (hP : net.Produces transition.id P) :
      Yields net transition (.sync (syncKey transition) (.input (syncKey transition), P))

theorem Yields.contributes (h : net.Consistent) (hwell : net.WellFormed) {transition : Transition}
    {b : Branch} (hb : Yields net transition b) : Contributes net transition b := by
  cases hb with
  | generator hpreset ha hP =>
      refine Contributes.generator hpreset ha ?_
      exact ((hP.soup h hwell).components_of_singleton.append
        (Soup.constant_singleton _)).compose_singleton
  | single hpreset ha hP => exact Contributes.single hpreset ha (hP.soup h hwell)
  | sync hpreset hlabel hP => exact Contributes.sync hpreset hlabel (hP.soup h hwell)

theorem branch_ok (h : net.Consistent) (hproper : net.ProperLabels)
    (hclass : net.isTwoTauSynchronisation = true) {transition : Transition}
    (ht : net.transition? t = some transition) :
    ∃ b, branch net transition = .ok b ∧ Yields net transition b := by
  have hid : transition.id = t := h.identified.transition_id ht
  have hlabel := label?_eq_some ht
  have hlimit := h.isTwoTauSynchronisation_iff.1 hclass t
  obtain ⟨P, hok, hP⟩ := produced_ok h transition.id
  obtain ⟨a, haction, ha⟩ := labelAction_eq (hproper _ (Arena.mem_toList_iff.2 ⟨t, ht⟩))
  have hlength := h.length_preset ht
  rw [← hid] at hlength hlimit
  rcases hpreset : net.preset transition.id with _ | ⟨p, _ | ⟨q, _ | ⟨r, others⟩⟩⟩
  · rw [hpreset] at hlength
    refine ⟨_, ?_, Yields.generator hpreset ha hP⟩
    rw [branch, hok, ← hlength, generatorConstant_eq, haction]
    rfl
  · rw [hpreset] at hlength
    refine ⟨_, ?_, Yields.single hpreset ha hP⟩
    rw [branch, hok, ← hlength, haction]
    rfl
  · have htau : transition.label = .tau := hlimit.eq_tau (hid ▸ hlabel) (by simp [hpreset])
    rw [hpreset] at hlength
    refine ⟨_, ?_, Yields.sync hpreset htau hP⟩
    rw [branch, hok, ← hlength, syncName_eq]
    rfl
  · have hle := hlimit.length_le_two (hid ▸ hlabel)
    rw [hpreset] at hle
    simp at hle

/-- Every transition has its branch, at the same position. -/
theorem branches_ok (h : net.Consistent) (hproper : net.ProperLabels)
    (hclass : net.isTwoTauSynchronisation = true) :
    ∃ branches, net.transitions.toList.mapM (branch net) = .ok branches ∧
      List.Forall₂ (Yields net) net.transitions.toList branches :=
  exists_mapM_eq_ok fun _ hmem =>
    branch_ok h hproper hclass ((mem_transitions_iff h.identified).1 hmem)

/-- The branch of a transition stands at its position. -/
theorem branch_at {R : Transition → Branch → Prop} {branches : List Branch}
    (hbranches : List.Forall₂ R net.transitions.toList branches)
    {transition : Transition} (ht : net.transition? t = some transition) :
    ∃ b, branches[t.index]? = some b ∧ R transition b := by
  have hitem : net.transitions.toList[t.index]? = some transition := by
    rw [Arena.toList, Array.getElem?_toList, ← Arena.get?_eq_items (Arena.owner_of_get? ht)]
    exact ht
  obtain ⟨hlt, hget⟩ := List.getElem?_eq_some_iff.1 hitem
  have hlt' : t.index < branches.length := hbranches.length_eq ▸ hlt
  refine ⟨branches[t.index], List.getElem?_eq_getElem hlt', ?_⟩
  have hboth := hbranches.get hlt hlt'
  rwa [List.get_eq_getElem, List.get_eq_getElem, hget] at hboth

/-! ### Summands -/

/-- The summand of a branch at one of its input places, where `sent` says that it has a sender
already. -/
def Branch.Adds (sent : Prop) (summand : Summand) : Branch → Prop
  | .generator _ _ => False
  | .single own => summand = own
  | .sync name receive => sent ∧ summand = receive ∨ ¬ sent ∧ summand = (.co name, .inaction)

/-- The summand of a transition at one of its input places. -/
def Turn (branches : List Branch) (sent : Prop) (t : TransitionId) (summand : Summand) : Prop :=
  ∃ b, branches[t.index]? = some b ∧ b.Adds sent summand

/-- Whether a transition is a handshake. -/
def IsSync (branches : List Branch) (t : TransitionId) : Prop :=
  ∃ name receive, branches[t.index]? = some (.sync name receive)

theorem turn_iff {branches : List Branch} {b : Branch} (hb : branches[t.index]? = some b)
    {sent : Prop} {summand : Summand} : Turn branches sent t summand ↔ b.Adds sent summand := by
  constructor
  · rintro ⟨b', hb', hadds⟩
    rw [hb] at hb'
    cases hb'
    exact hadds
  · exact fun hadds => ⟨b, hb, hadds⟩

/-- Only a handshake asks for a sender. -/
theorem turn_congr {branches : List Branch} {sent sent' : Prop} {summand : Summand}
    (hsent : IsSync branches t → (sent ↔ sent')) :
    Turn branches sent t summand ↔ Turn branches sent' t summand := by
  refine exists_congr fun b => and_congr_right fun hb => ?_
  cases b with
  | generator name body => exact Iff.rfl
  | single own => exact Iff.rfl
  | sync name receive =>
      have hiff := hsent ⟨name, receive, hb⟩
      exact or_congr (and_congr_left' hiff) (and_congr_left' (not_congr hiff))

theorem Turn.unique {branches : List Branch} {sent : Prop} {summand summand' : Summand}
    (h : Turn branches sent t summand) (h' : Turn branches sent t summand') :
    summand = summand' := by
  obtain ⟨b, hb, hadds⟩ := h
  have hadds' := (turn_iff hb).1 h'
  cases b with
  | generator name body => exact absurd hadds id
  | single own => exact Eq.trans hadds hadds'.symm
  | sync name receive =>
      rcases hadds with ⟨hsent, rfl⟩ | ⟨hsent, rfl⟩
      · exact (hadds'.resolve_right fun h => h.1 hsent).2.symm
      · exact (hadds'.resolve_left fun h => hsent h.1).2.symm

/-- What one consumer adds to the summands of a place: its own one, and perhaps itself to the
handshakes `sending₁` that have a sender after it. -/
theorem summands_step {branches : List Branch} {consumers sending sending₁ : List TransitionId}
    {own : Summand} (hnot : t ∉ consumers) (hown : Turn branches (t ∈ sending) t own)
    (hsending₁ : ∀ t', t' ∈ sending₁ ↔ t' ∈ sending ∨ t' = t ∧ IsSync branches t)
    (hrest : ∃ choices sending', summands branches consumers sending₁ = .ok (choices, sending') ∧
      List.Forall₂ (fun t' => Turn branches (t' ∈ sending₁) t') consumers choices ∧
      ∀ t', t' ∈ sending' ↔ t' ∈ sending₁ ∨ t' ∈ consumers ∧ IsSync branches t') :
    ∃ choices sending', summands branches consumers sending₁ = .ok (choices, sending') ∧
      List.Forall₂ (fun t' => Turn branches (t' ∈ sending) t') (t :: consumers)
        (own :: choices) ∧
      ∀ t', t' ∈ sending' ↔ t' ∈ sending ∨ t' ∈ t :: consumers ∧ IsSync branches t' := by
  obtain ⟨choices, sending', hok, hchoices, hsending'⟩ := hrest
  refine ⟨choices, sending', hok, List.Forall₂.cons hown ?_, fun t' => ?_⟩
  · have hmem := (List.forall₂_and_left consumers choices).2 ⟨fun t' ht' => ht', hchoices⟩
    refine hmem.imp fun t' summand ⟨ht', hturn⟩ => (turn_congr fun _ => ?_).1 hturn
    -- the later consumers are other transitions, so what they find is unchanged
    rw [hsending₁]
    exact or_iff_left fun h => hnot (h.1 ▸ ht')
  · rw [hsending', hsending₁, List.mem_cons, or_assoc, or_and_right]
    refine or_congr_right (or_congr_left (and_congr_right fun ht' => ?_))
    rw [ht']

/-- The summands of a place, one for each consumer in order, and which handshakes have a sender
after it. -/
theorem summands_ok {branches : List Branch} : ∀ {consumers sending : List TransitionId},
    consumers.Nodup →
    (∀ t ∈ consumers, ∃ b, branches[t.index]? = some b ∧ b.generator? = none) →
    ∃ choices sending', summands branches consumers sending = .ok (choices, sending') ∧
      List.Forall₂ (fun t => Turn branches (t ∈ sending) t) consumers choices ∧
      ∀ t, t ∈ sending' ↔ t ∈ sending ∨ t ∈ consumers ∧ IsSync branches t
  | [], sending, _, _ => ⟨[], sending, rfl, List.Forall₂.nil, by simp⟩
  | t :: consumers, sending, hnodup, hfound => by
      obtain ⟨hnot, hnodup⟩ := List.nodup_cons.1 hnodup
      obtain ⟨⟨b, hb, hgenerator⟩, hfound⟩ := List.forall_mem_cons.1 hfound
      have hsync : IsSync branches t ↔ ∃ name receive, b = .sync name receive := by
        rw [IsSync, hb]
        simp only [Option.some.injEq]
      unfold summands
      rw [hb]
      cases b with
      | generator name body => cases hgenerator
      | single own =>
          have hno : ¬ IsSync branches t := by simp [hsync]
          obtain ⟨choices, sending', hok, hspec⟩ := summands_step hnot ((turn_iff hb).2 rfl)
            (fun t' => (or_iff_left fun h => hno h.2).symm) (summands_ok hnodup hfound)
          refine ⟨own :: choices, sending', ?_, hspec⟩
          change (summands branches consumers sending >>= _) = _
          rw [hok]
          rfl
      | sync name receive =>
          have hyes : IsSync branches t := hsync.2 ⟨name, receive, rfl⟩
          by_cases hsent : t ∈ sending
          · obtain ⟨choices, sending', hok, hspec⟩ := summands_step hnot
              ((turn_iff hb).2 (Or.inl ⟨hsent, rfl⟩))
              (fun t' => (or_iff_left_of_imp fun h => h.1 ▸ hsent).symm)
              (summands_ok hnodup hfound)
            refine ⟨receive :: choices, sending', ?_, hspec⟩
            simp only [List.contains_eq_mem, hsent, decide_true, if_true]
            rw [hok]
            rfl
          · obtain ⟨choices, sending', hok, hspec⟩ := summands_step hnot
              ((turn_iff hb).2 (Or.inr ⟨hsent, rfl⟩))
              (fun t' => by
                rw [List.mem_cons, or_comm]
                exact or_congr_right ⟨fun h => ⟨h, hyes⟩, fun h => h.1⟩)
              (summands_ok hnodup hfound)
            refine ⟨(.co name, .inaction) :: choices, sending', ?_, hspec⟩
            simp only [List.contains_eq_mem, hsent, decide_false, if_false, Bool.false_eq_true]
            rw [hok]
            rfl

/-! ### Places -/

theorem index_of_places (h : net.Identified) {i : ℕ} {place : Place}
    (hi : net.places.toList[i]? = some place) : place.id.index = i := by
  have hget : net.place? (net.places.handleAt i) = some place := by
    rw [place?, Arena.get?_handleAt, ← Array.getElem?_toList]
    exact hi
  rw [h.place_id hget]
  rfl

/-- The places before a place are those at smaller positions. -/
theorem mem_before_iff (h : net.Identified) {before places : List Place}
    (hsplit : net.places.toList = before ++ places) {place : Place}
    (hplace : net.place? p = some place) : place ∈ before ↔ p.index < before.length := by
  have hid := h.place_id hplace
  have hitem : net.places.toList[p.index]? = some place := by
    rw [Arena.toList, Array.getElem?_toList, ← Arena.get?_eq_items (Arena.owner_of_get? hplace)]
    exact hplace
  constructor
  · intro hmem
    obtain ⟨i, hi⟩ := List.mem_iff_getElem?.1 hmem
    obtain ⟨hlt, -⟩ := List.getElem?_eq_some_iff.1 hi
    have hi' : net.places.toList[i]? = some place := by
      rw [hsplit, List.getElem?_append_left hlt, hi]
    rw [← hid, index_of_places h hi']
    exact hlt
  · intro hlt
    rw [hsplit, List.getElem?_append_left hlt] at hitem
    exact List.mem_of_getElem? hitem

/-- Whether some input place of a transition stands before a place. -/
def SentBefore (net : Net) (p : PlaceId) (t : TransitionId) : Prop :=
  ∃ q ∈ net.preset t, q.index < p.index

/-- The equation of a place: the choice between the turns of its consumers. -/
def Defines (net : Net) (branches : List Branch) (place : Place)
    (equation : ConstantName × Term) : Prop :=
  ∃ choices, equation = (placeKey place, Term.sum choices) ∧ ∀ summand, summand ∈ choices ↔
    ∃ t ∈ net.consumers place.id, Turn branches (SentBefore net place.id t) t summand

/-- The equation of a place, with the turn of each consumer in order. -/
def Spells (net : Net) (branches : List Branch) (place : Place)
    (equation : ConstantName × Term) : Prop :=
  ∃ choices, equation = (placeKey place, Term.sum choices) ∧
    List.Forall₂ (fun t => Turn branches (SentBefore net place.id t) t) (net.consumers place.id)
      choices

theorem Spells.defines {branches : List Branch} {place : Place} {equation : ConstantName × Term}
    (h : Spells net branches place equation) : Defines net branches place equation := by
  obtain ⟨choices, rfl, hchoices⟩ := h
  refine ⟨choices, rfl, fun summand => ⟨exists_mem_of_forall₂_right hchoices, ?_⟩⟩
  rintro ⟨t, ht, hturn⟩
  obtain ⟨summand', hmem, hturn'⟩ := exists_mem_of_forall₂_left hchoices ht
  rwa [hturn.unique hturn']

/-- A consumer of a place is no transition without inputs. -/
theorem branch_of_mem_consumers (h : net.Consistent) {branches : List Branch}
    (hbranches : List.Forall₂ (Yields net) net.transitions.toList branches)
    (ht : t ∈ net.consumers p) : ∃ b, branches[t.index]? = some b ∧ b.generator? = none := by
  have hp := h.mem_preset_iff_mem_consumers.2 ht
  obtain ⟨transition, htransition⟩ := h.exists_transition_of_mem_preset hp
  obtain ⟨b, hb, hyields⟩ := branch_at hbranches htransition
  refine ⟨b, hb, ?_⟩
  cases hyields with
  | generator hpreset _ _ =>
      rw [h.identified.transition_id htransition] at hpreset
      rw [hpreset] at hp
      exact absurd hp List.not_mem_nil
  | single _ _ _ => rfl
  | sync _ _ _ => rfl

/-- Every place has its equation, in the order of the places. -/
theorem placeDefinitions_ok (h : net.Consistent) {branches : List Branch}
    (hbranches : List.Forall₂ (Yields net) net.transitions.toList branches) :
    ∀ {places before : List Place} {sending : List TransitionId},
      net.places.toList = before ++ places →
      (∀ t, t ∈ sending ↔ (∃ place ∈ before, t ∈ net.consumers place.id) ∧ IsSync branches t) →
      ∃ defs, placeDefinitions net branches places sending = .ok defs ∧
        List.Forall₂ (Spells net branches) places defs
  | [], _, _, _, _ => ⟨[], rfl, List.Forall₂.nil⟩
  | place :: places, before, sending, hsplit, hsending => by
      obtain ⟨choices, sending', hok, hchoices, hsending'⟩ :=
        @summands_ok branches _ sending (h.nodup_consumers place.id) fun t ht =>
          branch_of_mem_consumers h hbranches ht
      have hsplit' : net.places.toList = (before ++ [place]) ++ places := by
        rw [hsplit, List.append_assoc]
        rfl
      obtain ⟨defs, hdefs, hforall⟩ := placeDefinitions_ok h hbranches hsplit' (fun t => by
        rw [hsending', hsending, ← or_and_right]
        simp only [List.mem_append, List.mem_singleton, or_and_right, exists_or, exists_eq_left])
      refine ⟨(placeKey place, Term.sum choices) :: defs, ?_, List.Forall₂.cons
        ⟨choices, rfl, hchoices.imp fun t summand => (turn_congr fun hsync => ?_).1⟩ hforall⟩
      · rw [placeDefinitions, hok]
        change (placeConstant place >>= _) = _
        rw [placeConstant_eq]
        change (placeDefinitions net branches places sending' >>= _) = _
        rw [hdefs]
        rfl
      · -- a sender was met exactly when it stands at a smaller position
        have hposition : place.id.index = before.length :=
          index_of_places h.identified (by simp [hsplit])
        rw [hsending, and_iff_left hsync, SentBefore, hposition]
        constructor
        · rintro ⟨other, hother, ht⟩
          have hmem : other ∈ net.places.toList := hsplit ▸ List.mem_append_left _ hother
          have hother' := (mem_places_iff h.identified).1 hmem
          exact ⟨other.id, h.mem_preset_iff_mem_consumers.2 ht,
            (mem_before_iff h.identified hsplit hother').1 hother⟩
        · rintro ⟨q, hq, hlt⟩
          obtain ⟨other, hother⟩ := h.exists_place_of_mem_preset hq
          refine ⟨other, (mem_before_iff h.identified hsplit hother).2 hlt, ?_⟩
          rw [h.identified.place_id hother]
          exact h.mem_preset_iff_mem_consumers.1 hq

/-! ### Equations under distinct names -/

end Encoding

namespace Definitions

variable {defs pairs : Definitions} {name : ConstantName} {body : Term}

theorem insert_of_not_mem : ∀ {defs : Definitions}, name ∉ defs.map Prod.fst →
    defs.insert name body = defs ++ [(name, body)]
  | [], _ => rfl
  | (other, old) :: rest, h => by
      obtain ⟨hne, hrest⟩ := List.ne_and_not_mem_of_not_mem_cons h
      rw [Definitions.insert, if_neg (Ne.symm hne), insert_of_not_mem hrest]
      rfl

/-- Under distinct names nothing is replaced. -/
theorem foldl_insert : ∀ {pairs defs : Definitions}, ((defs ++ pairs).map Prod.fst).Nodup →
    pairs.foldl (fun defs (name, body) => defs.insert name body) defs = defs ++ pairs
  | [], defs, _ => (List.append_nil defs).symm
  | (name, body) :: pairs, defs, h => by
      have hfresh : name ∉ defs.map Prod.fst := by
        rw [List.map_append, List.nodup_append] at h
        exact fun hmem => h.2.2 name hmem name List.mem_cons_self rfl
      have hassoc : defs ++ (name, body) :: pairs = (defs ++ [(name, body)]) ++ pairs := by
        rw [List.append_assoc]
        rfl
      rw [hassoc] at h ⊢
      rw [← foldl_insert h, ← insert_of_not_mem hfresh]
      rfl

theorem lookup_of_mem : ∀ {defs : Definitions}, (defs.map Prod.fst).Nodup →
    (name, body) ∈ defs → defs.lookup name = some body
  | (other, old) :: rest, hnodup, hmem => by
      obtain ⟨hnot, hnodup⟩ := List.nodup_cons.1 hnodup
      rcases List.mem_cons.1 hmem with heq | hmem
      · cases heq
        exact List.lookup_cons_self
      · have hne : name ≠ other := fun heq =>
          hnot (List.mem_map.2 ⟨_, hmem, heq⟩)
        rw [List.lookup_cons, beq_false_of_ne hne]
        exact lookup_of_mem hnodup hmem

/-- A constant does what its equation does. -/
theorem step_constant_iff (hnodup : (defs.map Prod.fst).Nodup) (hmem : (name, body) ∈ defs)
    {a : Action} {P : Term} :
    Term.Step defs (.constant name) a P ↔ Term.Step defs body a P := by
  have hlookup := lookup_of_mem hnodup hmem
  constructor
  · intro h
    cases h with
    | constant hbody h =>
        rw [hlookup] at hbody
        cases hbody
        exact h
  · exact Term.Step.constant hlookup

end Definitions
end PetriCcs
