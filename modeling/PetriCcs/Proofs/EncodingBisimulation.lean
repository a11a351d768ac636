import PetriCcs.Proofs.Bisimulation
import PetriCcs.Proofs.Encoding

/-! # Encoding preserves behaviour

A net and the initial process of its encoding are strongly bisimilar (`encode_bisimilar`).  A process
represents a marking when it is the restriction of a soup of the bag of the marking and the constants
of the transitions without inputs.  A firing takes the constants of the input places out of the soup
and puts the bag of what is produced in (`bag_none`, `bag_one`, `bag_two`); in the other direction
the restricted names leave only whole handshakes (`Encoding.Represents.back`). -/

namespace PetriCcs

open Encoding

namespace Net

variable {net : Net} {m m' : Marking} {t : TransitionId} {p q : PlaceId} {place place' : Place}

/-- A transition fires and shows the action of its label. -/
def ActionStep (net : Net) (m : Marking) (a : Action) (m' : Marking) : Prop :=
  ∃ label, label.Shows a ∧ net.Step m label m'

/-! ### Firing in bags -/

theorem bag_after (net : Net) (t : TransitionId) (m : Marking) :
    net.bag (net.after t m) = net.bag (net.remaining t m) + net.bag (net.produces t) :=
  bag_add _ _

theorem bag_none (hpreset : net.preset t = []) : net.bag m = net.bag (net.remaining t m) := by
  refine bag_congr fun place _ => ?_
  rw [remaining, hpreset, if_neg List.not_mem_nil]

theorem bag_one (h : net.Consistent) (hwell : net.WellFormed) (hp : net.place? p = some place)
    (hm : 0 < m p) (hpreset : net.preset t = [p]) :
    net.bag m = {placeKey place} + net.bag (net.remaining t m) := by
  rw [bag_take h hwell hp hm]
  refine congrArg _ (bag_congr fun other _ => ?_)
  simp only [remaining, hpreset, List.mem_singleton]

theorem bag_two (h : net.Consistent) (hwell : net.WellFormed) (hp : net.place? p = some place)
    (hq : net.place? q = some place') (hmp : 0 < m p) (hmq : 0 < m q) (hne : q ≠ p)
    (hpreset : ∀ r, r ∈ net.preset t ↔ r = p ∨ r = q) :
    net.bag m = {placeKey place} + ({placeKey place'} + net.bag (net.remaining t m)) := by
  rw [bag_take h hwell hp hmp]
  have hmq' : 0 < if q = p then m q - 1 else m q := by rwa [if_neg hne]
  rw [bag_take h hwell hq hmq']
  refine congrArg _ (congrArg _ (bag_congr fun other _ => ?_))
  simp only [remaining, hpreset]
  by_cases hother : other.id = p
  · have hother' : other.id ≠ q := fun heq => hne (heq.symm.trans hother)
    rw [if_neg hother', if_pos hother, if_pos (Or.inl hother)]
  · by_cases hother' : other.id = q
    · rw [if_pos hother', if_neg hother, if_pos (Or.inr hother')]
    · rw [if_neg hother', if_neg hother, if_neg (not_or.2 ⟨hother, hother'⟩)]

end Net

/-! ### Processes that represent a marking -/

namespace Encoding

open Net

variable {net : Net} {encoding : Encoding} {m m' : Marking} {a : Action} {P Q T : Term}
  {t : TransitionId} {transition : Transition} {p q : PlaceId}

/-- Restrictions around the constants of the marked places and of the transitions without inputs. -/
def Represents (net : Net) (encoding : Encoding) (m : Marking) (T : Term) : Prop :=
  ∃ P, T = restrict encoding.syncNames P ∧ Soup [P] (net.bag m + net.generators)

/-- An action that the restrictions let through. -/
def Free (encoding : Encoding) (a : Action) : Prop :=
  ∀ s ∈ encoding.syncNames, a ≠ .input s ∧ a ≠ .co s

theorem free_internal (encoding : Encoding) : encoding.Free .internal := fun _ _ => by simp

theorem Describes.free_of_shows (hdesc : Describes net encoding) {label : Label}
    (hproper : label.Proper) (ha : label.Shows a) : encoding.Free a := by
  intro s hs
  obtain ⟨t, transition, -, -, rfl⟩ := hdesc.syncNames.1 hs
  constructor
  · rintro rfl
    exact syncKey_ne_of_shows hproper ha transition rfl
  · rintro rfl
    exact not_shows_co ha

/-- The name of a handshake is restricted. -/
theorem Describes.mem_syncNames_of_two (h : net.Consistent) (hdesc : Describes net encoding)
    (ht : net.transition? t = some transition) (hmem : ∀ r, r ∈ net.preset t ↔ r = p ∨ r = q)
    (hne : p.index ≠ q.index) : syncKey transition ∈ encoding.syncNames := by
  have hpq : p ≠ q := fun heq => hne (congrArg Handle.index heq)
  have hperm := (List.perm_ext_iff_of_nodup (h.nodup_preset t)
    (List.nodup_cons.2 ⟨by simpa using hpq, List.nodup_singleton q⟩)).2
      fun r => (hmem r).trans List.mem_pair.symm
  exact hdesc.syncNames.2 ⟨t, transition, ht, hperm.length_eq, rfl⟩

theorem mem_generators_iff (h : net.Identified) {X : ConstantName} :
    X ∈ net.generators ↔ ∃ t transition, net.transition? t = some transition ∧
      net.preset t = [] ∧ X = generatorKey transition := by
  rw [generators, Multiset.mem_coe, List.mem_map]
  constructor
  · rintro ⟨transition, hmem, rfl⟩
    obtain ⟨hmem, hpreset⟩ := List.mem_filter.1 hmem
    exact ⟨transition.id, transition, (mem_transitions_iff h).1 hmem,
      List.isEmpty_iff.1 hpreset, rfl⟩
  · rintro ⟨t, transition, ht, hpreset, rfl⟩
    obtain rfl := h.transition_id ht
    exact ⟨transition, List.mem_filter.2 ⟨Arena.mem_toList_iff.2 ⟨_, ht⟩,
      List.isEmpty_iff.2 hpreset⟩, rfl⟩

section Steps

variable {X Y : ConstantName} {N K K' : Multiset ConstantName} {s : ActionName} {Q' : Term}

/-- A constant moves; the restricted process represents the marking after it. -/
theorem represents_alone (hsoup : Soup [P] (net.bag m + net.generators))
    (hM : net.bag m + net.generators = {X} + N)
    (hX : Term.Step encoding.definitions (.constant X) a Q) (hQ : Soup [Q] K)
    (hfree : encoding.Free a) (hbag : N + K = net.bag m' + net.generators) :
    ∃ T', Term.Step encoding.definitions (restrict encoding.syncNames P) a T' ∧
      Represents net encoding m' T' := by
  obtain ⟨_, ⟨P', hP', rfl⟩, hsoup'⟩ := hsoup.offers_singleton.alone hM hX
  refine ⟨_, (Term.step_restrict_iff _).2 ⟨P', rfl, hP', hfree⟩, P', rfl, ?_⟩
  rw [← hbag]
  exact hsoup' K hQ

/-- Two constants shake hands; the restricted process represents the marking after it. -/
theorem represents_handshake (hsoup : Soup [P] (net.bag m + net.generators))
    (hM : net.bag m + net.generators = {X} + ({Y} + N))
    (hX : Term.Step encoding.definitions (.constant X) (.co s) Q)
    (hY : Term.Step encoding.definitions (.constant Y) (.input s) Q') (hQ : Soup [Q] K)
    (hQ' : Soup [Q'] K') (hbag : N + K + K' = net.bag m' + net.generators) :
    ∃ T', Term.Step encoding.definitions (restrict encoding.syncNames P) .internal T' ∧
      Represents net encoding m' T' := by
  obtain ⟨_, ⟨P', hP', rfl⟩, hsoup'⟩ := hsoup.offers_singleton.handshake hM hX hY
  refine ⟨_, (Term.step_restrict_iff _).2 ⟨P', rfl, hP', encoding.free_internal⟩, P', rfl, ?_⟩
  rw [← hbag]
  exact hsoup' K K' hQ hQ'

end Steps

/-- A transition with two inputs fires as a handshake. -/
theorem represents_sync (h : net.Consistent) (hwell : net.WellFormed)
    (hdesc : Describes net encoding) (hsoup : Soup [P] (net.bag m + net.generators))
    (ht : net.transition? t = some transition) (hlabel : net.label? t = some .tau)
    (hm : ∀ p ∈ net.preset t, 0 < m p) (hpreset : ∀ r, r ∈ net.preset t ↔ r = p ∨ r = q)
    (hlt : p.index < q.index) :
    ∃ T', Term.Step encoding.definitions (restrict encoding.syncNames P) .internal T' ∧
      Represents net encoding (net.after t m) T' := by
  have hp := (hpreset p).2 (Or.inl rfl)
  have hq := (hpreset q).2 (Or.inr rfl)
  obtain ⟨place, hplace⟩ := h.exists_place_of_mem_preset hp
  obtain ⟨place', hplace'⟩ := h.exists_place_of_mem_preset hq
  obtain ⟨Q, hQ, hQsoup⟩ := (hdesc.place hplace).complete (Feeds.send ht hlabel hpreset hlt)
  obtain ⟨Q', hQ', hQsoup'⟩ := (hdesc.place hplace').complete
    (Feeds.receive ht hlabel (fun r => (hpreset r).trans or_comm) hlt)
  have hne : q ≠ p := fun heq => Nat.lt_irrefl _ (heq ▸ hlt)
  have hbag := bag_two h hwell hplace hplace' (hm p hp) (hm q hq) hne hpreset
  refine represents_handshake (N := net.bag (net.remaining t m) + net.generators) hsoup
    (by rw [hbag]; abel) hQ hQ' hQsoup hQsoup' ?_
  rw [bag_after]
  abel

/-- A firing is a step of every process that represents the marking. -/
theorem Represents.forth (h : net.Consistent) (hwell : net.WellFormed)
    (hproper : net.ProperLabels) (hclass : net.isTwoTauSynchronisation = true)
    (hdesc : Describes net encoding) (hT : Represents net encoding m T)
    (hstep : net.ActionStep m a m') :
    ∃ T', Term.Step encoding.definitions T a T' ∧ Represents net encoding m' T' := by
  obtain ⟨P, rfl, hsoup⟩ := hT
  obtain ⟨label, ha, t, hlabel, hfires⟩ := hstep
  obtain ⟨transition, ht, rfl⟩ := Option.map_eq_some_iff.1 hlabel
  have hfree := hdesc.free_of_shows (hproper _ (Arena.mem_toList_iff.2 ⟨t, ht⟩)) ha
  have hlimit := h.isTwoTauSynchronisation_iff.1 hclass t
  obtain rfl := hfires.eq_after
  rcases hpreset : net.preset t with _ | ⟨p, _ | ⟨q, _ | ⟨r, others⟩⟩⟩
  · -- the constant of the transition moves and comes back
    obtain ⟨G, hG⟩ := Multiset.exists_cons_of_mem
      ((mem_generators_iff h.identified).2 ⟨t, transition, ht, hpreset, rfl⟩)
    rw [← Multiset.singleton_add] at hG
    obtain ⟨Q, hQ, hQsoup⟩ := (hdesc.generator ht hpreset).complete (Regenerates.again ha)
    refine represents_alone (N := net.bag m + G) hsoup (by rw [hG]; abel) hQ hQsoup hfree ?_
    rw [bag_after, ← bag_none hpreset, hG, h.identified.transition_id ht]
    abel
  · have hp : p ∈ net.preset t := hpreset ▸ List.mem_singleton_self p
    obtain ⟨place, hplace⟩ := h.exists_place_of_mem_preset hp
    obtain ⟨Q, hQ, hQsoup⟩ := (hdesc.place hplace).complete (Feeds.single hlabel hpreset ha)
    have hbag := bag_one h hwell hplace (hfires.1 p hp) hpreset
    refine represents_alone (N := net.bag (net.remaining t m) + net.generators) hsoup
      (by rw [hbag]; abel) hQ hQsoup hfree ?_
    rw [bag_after]
    abel
  · have htau := hlimit.eq_tau hlabel (by simp [hpreset])
    rw [htau] at ha hlabel
    cases ha
    obtain ⟨q, hne, hmem⟩ := exists_other h hpreset (show p ∈ net.preset t by simp [hpreset])
    -- the place at the smaller position sends
    rcases Nat.lt_or_gt_of_ne hne with hlt | hlt
    · exact represents_sync h hwell hdesc hsoup ht hlabel hfires.1
        (fun r => (hmem r).trans or_comm) hlt
    · exact represents_sync h hwell hdesc hsoup ht hlabel hfires.1 hmem hlt
  · have hle := hlimit.length_le_two hlabel
    simp [hpreset] at hle

/-! ### Steps of a process that represents a marking -/

section Back

variable {X : ConstantName} {s : ActionName}

/-- A constant in the soup is that of a marked place or of a transition without inputs. -/
theorem mem_soup_cases (h : net.Consistent) (hX : X ∈ net.bag m + net.generators) :
    (∃ p place, net.place? p = some place ∧ 0 < m p ∧ X = placeKey place) ∨
      ∃ t transition, net.transition? t = some transition ∧ net.preset t = [] ∧
        X = generatorKey transition :=
  (Multiset.mem_add.1 hX).imp (exists_place_of_mem_bag h) (mem_generators_iff h.identified).1

/-- Whoever sends is a marked place that is the first input of a transition with two. -/
theorem sender_of_co (h : net.Consistent) (hdesc : Describes net encoding)
    (hX : X ∈ net.bag m + net.generators)
    (hstep : Term.Step encoding.definitions (.constant X) (.co s) Q) :
    ∃ p place q t transition, net.place? p = some place ∧ 0 < m p ∧ X = placeKey place ∧
      net.transition? t = some transition ∧ net.label? t = some .tau ∧
      (∀ r, r ∈ net.preset t ↔ r = p ∨ r = q) ∧ p.index < q.index ∧ s = syncKey transition ∧
      Soup [Q] 0 := by
  rcases mem_soup_cases h hX with ⟨p, place, hplace, hm, rfl⟩ | ⟨t, transition, ht, hpreset, rfl⟩
  · obtain ⟨K, hfeeds, hQ⟩ := (hdesc.place hplace).sound hstep
    cases hfeeds with
    | single _ _ ha => exact absurd ha not_shows_co
    | send ht hlabel hmem hlt =>
        exact ⟨p, place, _, _, _, hplace, hm, rfl, ht, hlabel, hmem, hlt, rfl, hQ⟩
  · obtain ⟨K, ⟨ha⟩, hQ⟩ := (hdesc.generator ht hpreset).sound hstep
    exact absurd ha not_shows_co

/-- Whoever receives on the name of a synchronisation is a marked place that is the second input of
its transition. -/
theorem receiver_of_input (h : net.Consistent) (hproper : net.ProperLabels)
    (hdesc : Describes net encoding) (hX : X ∈ net.bag m + net.generators)
    (hstep : Term.Step encoding.definitions (.constant X) (.input (syncKey transition)) Q) :
    ∃ p place q t transition', net.place? p = some place ∧ 0 < m p ∧ X = placeKey place ∧
      net.transition? t = some transition' ∧ (∀ r, r ∈ net.preset t ↔ r = p ∨ r = q) ∧
      q.index < p.index ∧ syncKey transition = syncKey transition' ∧
      Soup [Q] (net.bag (net.produces t)) := by
  -- a label would be an action on a name with an underscore
  have hlabel : ∀ {t : TransitionId} {other : Transition}, net.transition? t = some other →
      ¬ other.label.Shows (.input (syncKey transition)) := fun ht ha =>
    syncKey_ne_of_shows (hproper _ (Arena.mem_toList_iff.2 ⟨_, ht⟩)) ha transition rfl
  rcases mem_soup_cases h hX with ⟨p, place, hplace, hm, rfl⟩ | ⟨t, other, ht, hpreset, rfl⟩
  · obtain ⟨K, hfeeds, hQ⟩ := (hdesc.place hplace).sound hstep
    generalize ha : Action.input (syncKey transition) = a at hfeeds
    cases hfeeds with
    | single hl _ hshows =>
        obtain ⟨other, ht, rfl⟩ := Option.map_eq_some_iff.1 hl
        exact absurd (ha ▸ hshows) (hlabel ht)
    | send _ _ _ _ => cases ha
    | receive ht _ hmem hlt =>
        exact ⟨p, place, _, _, _, hplace, hm, rfl, ht, hmem, hlt, Action.input.inj ha, hQ⟩
  · obtain ⟨K, hregenerates, hQ⟩ := (hdesc.generator ht hpreset).sound hstep
    cases hregenerates with
    | again hshows => exact absurd hshows (hlabel ht)

theorem mem_of_eq_add {M N : Multiset ConstantName} (h : M = {X} + N) : X ∈ M := by
  rw [h]
  exact Multiset.mem_add.2 (Or.inl (Multiset.mem_singleton_self X))

/-- A constant that moves alone fires a transition with at most one input: half a handshake is stopped
by the restriction. -/
theorem fires_of_alone (h : net.Consistent) (hwell : net.WellFormed)
    (hdesc : Describes net encoding) (hfree : encoding.Free a) {N : Multiset ConstantName}
    (hM : net.bag m + net.generators = {X} + N)
    (hX : Term.Step encoding.definitions (.constant X) a Q) :
    ∃ m' K, net.ActionStep m a m' ∧ Soup [Q] K ∧ N + K = net.bag m' + net.generators := by
  rcases Soup.add_split hM with ⟨N', hN', rfl⟩ | ⟨N', hN', rfl⟩
  · obtain ⟨p, place, hplace, hm, rfl⟩ := exists_place_of_mem_bag h (mem_of_eq_add hN')
    obtain ⟨K, hfeeds, hQ⟩ := (hdesc.place hplace).sound hX
    cases hfeeds with
    | @single t label _ hlabel hpreset ha =>
        have henabled : ∀ r ∈ net.preset t, 0 < m r := by
          intro r hr
          rw [hpreset, List.mem_singleton] at hr
          exact hr ▸ hm
        refine ⟨net.after t m, _, ⟨label, ha, t, hlabel, fires_after henabled⟩, hQ, ?_⟩
        rw [bag_one h hwell hplace hm hpreset] at hN'
        rw [← add_left_cancel hN', bag_after, add_right_comm]
    | send ht _ hmem hlt =>
        exact absurd rfl (hfree _ (hdesc.mem_syncNames_of_two h ht hmem hlt.ne)).2
    | receive ht _ hmem hlt =>
        exact absurd rfl (hfree _ (hdesc.mem_syncNames_of_two h ht hmem hlt.ne')).1
  · obtain ⟨t, transition, ht, hpreset, rfl⟩ :=
      (mem_generators_iff h.identified).1 (mem_of_eq_add hN')
    obtain ⟨K, ⟨ha⟩, hQ⟩ := (hdesc.generator ht hpreset).sound hX
    have henabled : ∀ r ∈ net.preset t, 0 < m r := by simp [hpreset]
    refine ⟨net.after t m, _, ⟨_, ha, t, label?_eq_some ht, fires_after henabled⟩, hQ, ?_⟩
    rw [bag_after, ← bag_none hpreset, hN', h.identified.transition_id ht]
    abel

/-- Two constants that shake hands fire the transition between their places. -/
theorem fires_of_handshake (h : net.Consistent) (hwell : net.WellFormed)
    (hproper : net.ProperLabels) (hdesc : Describes net encoding) {Y : ConstantName} {Q' : Term}
    {N : Multiset ConstantName} (hM : net.bag m + net.generators = {X} + ({Y} + N))
    (hX : Term.Step encoding.definitions (.constant X) (.co s) Q)
    (hY : Term.Step encoding.definitions (.constant Y) (.input s) Q') :
    ∃ m' K K', net.ActionStep m .internal m' ∧ Soup [Q] K ∧ Soup [Q'] K' ∧
      N + K + K' = net.bag m' + net.generators := by
  obtain ⟨p, place, q, t, transition, hplace, hmp, rfl, ht, hlabel, hmem, hlt, rfl, hQ⟩ :=
    sender_of_co h hdesc (mem_of_eq_add hM) hX
  rw [add_left_comm] at hM
  obtain ⟨q', place', p', t', transition', hplace', hmq, rfl, ht', hmem', hlt', hs, hQ'⟩ :=
    receiver_of_input h hproper hdesc (mem_of_eq_add hM) hY
  -- both are inputs of the same transition
  obtain rfl := hwell.syncKey_injOn (Arena.mem_toList_iff.2 ⟨t, ht⟩)
    (Arena.mem_toList_iff.2 ⟨t', ht'⟩) hs
  obtain rfl := (h.identified.transition_id ht).symm.trans (h.identified.transition_id ht')
  have hq : q' = q := by
    rcases (hmem q').1 ((hmem' q').2 (Or.inl rfl)) with rfl | rfl
    · rcases (hmem p').1 ((hmem' p').2 (Or.inr rfl)) with rfl | rfl <;> omega
    · rfl
  subst hq
  have hne : q' ≠ p := fun heq => Nat.lt_irrefl _ (heq ▸ hlt)
  have henabled : ∀ r ∈ net.preset t, 0 < m r := by
    intro r hr
    rcases (hmem r).1 hr with rfl | rfl
    · exact hmp
    · exact hmq
  refine ⟨net.after t m, _, _, ⟨.tau, Label.Shows.tau, t, hlabel, fires_after henabled⟩, hQ, hQ', ?_⟩
  rw [bag_two h hwell hplace hplace' hmp hmq hne hmem, add_left_comm, add_assoc, add_assoc] at hM
  rw [← add_left_cancel (add_left_cancel hM), add_zero, bag_after, add_right_comm]

/-- Every step of a process that represents a marking is a firing. -/
theorem Represents.back (h : net.Consistent) (hwell : net.WellFormed)
    (hproper : net.ProperLabels) (hdesc : Describes net encoding)
    (hT : Represents net encoding m T) {T' : Term}
    (hstep : Term.Step encoding.definitions T a T') :
    ∃ m', net.ActionStep m a m' ∧ Represents net encoding m' T' := by
  obtain ⟨P, rfl, hsoup⟩ := hT
  obtain ⟨P', rfl, hP, hfree⟩ := (Term.step_restrict_iff _).1 hstep
  cases Soup.step_cases hP hsoup with
  | alone N hM hX hP' =>
      obtain ⟨m', K, hfires, hQ, hbag⟩ := fires_of_alone h hwell hdesc hfree hM hX
      refine ⟨m', hfires, P', rfl, ?_⟩
      rw [← hbag]
      exact hP' K hQ
  | handshake N ha hM hX hY hP' =>
      subst ha
      obtain ⟨m', K, K', hfires, hQ, hQ', hbag⟩ :=
        fires_of_handshake h hwell hproper hdesc hM hX hY
      refine ⟨m', hfires, P', rfl, ?_⟩
      rw [← hbag]
      exact hP' K K' hQ hQ'

end Back

end Encoding

namespace Net

variable {net : Net} {n : ℕ}

/-- A reachable net of the 2-τ-synchronisation class with proper labels is encoded, and the process
does what the net does from its stored marking. -/
theorem encode_bisimilar (h : net.Reachable n) (hn : n < additionLimit)
    (hproper : net.ProperLabels) (hclass : net.isTwoTauSynchronisation = true) :
    ∃ encoding, net.encode = .ok encoding ∧
      Bisimilar net.ActionStep (Term.Step encoding.definitions) net.tokens encoding.initial := by
  have hnet := h.consistent
  have hwell := (h.named hn).wellFormed hnet
  obtain ⟨encoding, hok, hdesc⟩ := encode_ok hnet hwell hproper hclass
  refine ⟨encoding, hok, Represents net encoding, ⟨?_, ?_⟩, hdesc.initial⟩
  · exact fun hT hstep => hT.forth hnet hwell hproper hclass hdesc hstep
  · exact fun hT hstep => hT.back hnet hwell hproper hdesc hstep

/-- A handshake of two places that gives two tokens back to the first, a transition that takes one
away, and one that gives the second place tokens from nothing. -/
def handshake : Net :=
  [Change.addPlace none 2, .addPlace none 0, .addLabelledTransition none .tau,
    .addLabelledTransition none (.visible "a"), .addLabelledTransition none (.visible "b"),
    .addEdge (.place ⟨0, 0⟩) (.transition ⟨0, 0⟩) 1,
    .addEdge (.place ⟨0, 1⟩) (.transition ⟨0, 0⟩) 1,
    .addEdge (.transition ⟨0, 0⟩) (.place ⟨0, 0⟩) 2,
    .addEdge (.place ⟨0, 0⟩) (.transition ⟨0, 1⟩) 1,
    .addEdge (.transition ⟨0, 2⟩) (.place ⟨0, 1⟩) 1].foldl
      (fun net change => (change.runOn net).2) (empty 0)

theorem handshake_reachable : handshake.Reachable 10 :=
  Reachable.of_changes (by decide +kernel)

theorem encode_bisimilar_handshake : handshake.Reachable 10 ∧ 10 < additionLimit ∧
    handshake.ProperLabels ∧ handshake.isTwoTauSynchronisation = true ∧
    ∃ encoding, handshake.encode = .ok encoding ∧
      Bisimilar handshake.ActionStep (Term.Step encoding.definitions) handshake.tokens
        encoding.initial :=
  ⟨handshake_reachable, by decide, by decide, by decide,
    encode_bisimilar handshake_reachable (by decide) (by decide) (by decide)⟩

end Net
end PetriCcs
