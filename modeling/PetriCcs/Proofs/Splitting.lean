import PetriCcs.Proofs.Gains
import PetriCcs.Proofs.GroupChoice
import PetriCcs.Proofs.Pairing

/-! # Splitting a group

In a net with the group-choice property the places of a group feed exactly its transitions
(`isGroup_of_group?`).  Splitting the group cuts these arcs (`disconnect_runOn`), merges the places
by joins (`Merges`) and feeds the transitions from the places that are left (`connect_gains`).
`SplitsGroup` puts the three together; the edit never fails (`splitGroup_runOn`). -/

namespace PetriCcs
namespace Sync

open scoped List

variable {net net' : Net} {group : Group}

/-- Places that feed the same transitions, which nothing else feeds. -/
structure IsGroup (net : Net) (group : Group) : Prop where
  places_ne : group.places ≠ []
  transitions_ne : group.transitions ≠ []
  places_nodup : group.places.Nodup
  transitions_nodup : group.transitions.Nodup
  feeds : ∀ p ∈ group.places, ∀ t, t ∈ net.consumers p ↔ t ∈ group.transitions
  fed : ∀ t ∈ group.transitions, ∀ p, p ∈ net.preset t ↔ p ∈ group.places

theorem IsGroup.hasArc (h : net.Consistent) (hg : IsGroup net group) {p : PlaceId}
    {t : TransitionId} (hp : p ∈ group.places) (ht : t ∈ group.transitions) :
    net.HasArc ⟨.place p, .transition t, 1⟩ :=
  h.mem_consumers_iff.1 ((hg.feeds p hp t).2 ht)

theorem IsGroup.contains_place (h : net.Consistent) (hg : IsGroup net group) {p : PlaceId}
    (hp : p ∈ group.places) : net.contains (.place p) = true := by
  obtain ⟨t, ht⟩ := List.exists_mem_of_ne_nil _ hg.transitions_ne
  exact (hg.hasArc h hp ht).contains h .source

theorem IsGroup.contains_transition (h : net.Consistent) (hg : IsGroup net group)
    {t : TransitionId} (ht : t ∈ group.transitions) : net.contains (.transition t) = true := by
  obtain ⟨p, hp⟩ := List.exists_mem_of_ne_nil _ hg.places_ne
  exact (hg.hasArc h hp ht).contains h .target

/-- The group of a transition is one in a net with the group-choice property. -/
theorem isGroup_of_group? (h : net.Consistent) (hchoice : net.GroupChoice) {t : TransitionId}
    (hgroup : group? net t = some group) :
    IsGroup net group ∧ t ∈ group.transitions ∧ group.places = net.preset t := by
  rw [group?] at hgroup
  cases hpreset : net.preset t with
  | nil =>
      rw [hpreset] at hgroup
      cases hgroup
  | cons first rest =>
      rw [hpreset] at hgroup
      cases hgroup
      have hfirst : first ∈ net.preset t := by
        rw [hpreset]
        exact List.mem_cons_self
      have ht : t ∈ net.consumers first := h.mem_preset_iff_mem_consumers.1 hfirst
      refine ⟨⟨List.cons_ne_nil _ _, List.ne_nil_of_mem ht, hpreset ▸ h.nodup_preset t,
        h.nodup_consumers first, fun p hp u => ?_, fun u hu p => ?_⟩, ht, rfl⟩
      · exact hchoice t p first (hpreset ▸ hp) hfirst u
      · have hfirstu : first ∈ net.preset u := h.mem_preset_iff_mem_consumers.2 hu
        rw [← hpreset]
        constructor
        · intro hp
          have htp := (hchoice u p first hp hfirstu t).2 ht
          exact h.mem_preset_iff_mem_consumers.2 htp
        · intro hp
          have hup := (hchoice t p first hp hfirst u).2 hu
          exact h.mem_preset_iff_mem_consumers.2 hup

/-! ### Cutting the arcs -/

/-- Removing the edges that several nodes list at one end. -/
theorem forM_removeListed_runOn {α : Type} (side : Side) (f : α → Node) :
    ∀ (xs : List α) (net : Net), net.Consistent → (∀ x ∈ xs, net.contains (f x) = true) →
      ∃ net', (xs.forM fun x => Edit.removeListed (Edit.storedListed side (f x))).runOn net =
        (.ok (), net') ∧ Net.Keeps (fun arc => arc.endpoint side ∉ xs.map f) net net'
  | [], net, h, _ => ⟨net, rfl, Net.Keeps.refl h (by simp)⟩
  | x :: xs, net, h, hcontains => by
      obtain ⟨net₁, hrun₁, hkeeps₁, -⟩ :=
        Edit.removeListed_runOn h side (hcontains x List.mem_cons_self)
      obtain ⟨net₂, hrun₂, hkeeps₂⟩ := forM_removeListed_runOn side f xs net₁ hkeeps₁.consistent
        fun y hy => by
          rw [Net.contains_of_bare hkeeps₁.bare]
          exact hcontains y (List.mem_cons_of_mem _ hy)
      refine ⟨net₂, (Edit.runOn_bind_ok hrun₁).trans hrun₂,
        (hkeeps₁.trans hkeeps₂).congr fun arc => ?_⟩
      by_cases hx : arc.endpoint side = f x
      · simp [hx]
      · simp [hx]

/-- Disconnecting a group removes the arcs that leave its places. -/
theorem disconnect_runOn (h : net.Consistent) (hg : IsGroup net group) :
    ∃ net', (disconnect group).runOn net = (.ok (), net') ∧
      Net.Keeps (fun arc => arc.source ∉ group.places.map Node.place) net net' := by
  obtain ⟨net₁, hrun₁, hkeeps₁⟩ := forM_removeListed_runOn .source Node.place group.places net h
    fun p hp => hg.contains_place h hp
  obtain ⟨net₂, hrun₂, hkeeps₂⟩ := forM_removeListed_runOn .target Node.transition
    group.transitions net₁ hkeeps₁.consistent fun t ht => by
      rw [Net.contains_of_bare hkeeps₁.bare]
      exact hg.contains_transition h ht
  refine ⟨net₂, (Edit.runOn_bind_ok hrun₁).trans hrun₂,
    (hkeeps₁.trans hkeeps₂).congr_arcs h fun arc harc => ?_⟩
  -- an arc into the group comes from one of its places, so the second loop finds nothing
  obtain ⟨source, target, weight⟩ := arc
  by_cases htarget : target ∈ group.transitions.map Node.transition
  · obtain ⟨t, ht, rfl⟩ := List.mem_map.1 htarget
    have hfits := harc.fits h
    cases source with
    | transition u => exact absurd hfits (by simp [Fits])
    | place p =>
        have hweight : weight = 1 := hfits
        subst hweight
        have hp := (hg.fed t ht p).1 (h.mem_preset_iff.2 harc)
        simp [Arc.endpoint, ht, hp]
  · simp [Arc.endpoint, htarget]

theorem hasArc_detached_iff {net₁ : Net} (h : net.Consistent)
    (hkeeps : net.Keeps (fun arc => arc.source ∉ group.places.map Node.place) net₁) {arc : Arc} :
    net₁.HasArc arc ↔ net.HasArc arc ∧ arc.source ∉ group.places.map Node.place := by
  rw [hkeeps.hasArc_iff h, decide_eq_true_eq]

/-! ### Feeding the transitions again -/

/-- The arcs from each of the places to each of the transitions. -/
def connectArcs (places : List PlaceId) (transitions : List TransitionId) : List Arc :=
  places.flatMap fun p => transitions.map fun t => ⟨.place p, .transition t, 1⟩

theorem mem_connectArcs_iff {places : List PlaceId} {transitions : List TransitionId} {arc : Arc} :
    arc ∈ connectArcs places transitions ↔
      ∃ p ∈ places, ∃ t ∈ transitions, arc = ⟨.place p, .transition t, 1⟩ := by
  simp only [connectArcs, List.mem_flatMap, List.mem_map]
  constructor
  · rintro ⟨p, hp, t, ht, rfl⟩
    exact ⟨p, hp, t, ht, rfl⟩
  · rintro ⟨p, hp, t, ht, rfl⟩
    exact ⟨p, hp, t, ht, rfl⟩

/-- Wiring one place to transitions that it does not feed yet. -/
theorem connectPlace_gains {p : PlaceId} :
    ∀ (transitions : List TransitionId) (net : Net), net.Consistent →
      net.contains (.place p) = true → transitions.Nodup →
      (∀ t ∈ transitions, net.contains (.transition t) = true) →
      (∀ t ∈ transitions, ∀ arc, net.HasArc arc → arc.source = .place p →
        arc.target ≠ .transition t) →
      ∃ net', (transitions.forM fun t => do
          let _ ← Edit.addEdge (.place p) (.transition t) 1).runOn net = (.ok (), net') ∧
        Net.Gains [] [] (transitions.map fun t => ⟨.place p, .transition t, 1⟩) net net'
  | [], net, h, _, _, _, _ => ⟨net, rfl, Net.Gains.refl h⟩
  | t :: transitions, net, h, hp, hnodup, hcontains, hnew => by
      obtain ⟨ht, hnodup⟩ := List.nodup_cons.1 hnodup
      obtain ⟨id, net₁, hrun₁, hg₁⟩ := Edit.addEdge_gains h hp (hcontains t List.mem_cons_self)
        (show Fits (.place p) (.transition t) 1 from rfl) (hnew t List.mem_cons_self)
      obtain ⟨net₂, hrun₂, hg₂⟩ := connectPlace_gains transitions net₁ hg₁.evolves.consistent
        (hg₁.contains hp) hnodup
        (fun u hu => hg₁.contains (hcontains u (List.mem_cons_of_mem _ hu)))
        fun u hu arc harc hsource htarget => by
          rcases (hg₁.hasArc_iff h).1 harc with harc | harc
          · exact hnew u (List.mem_cons_of_mem _ hu) arc harc hsource htarget
          · obtain rfl := List.mem_singleton.1 harc
            exact ht (Node.transition.inj htarget ▸ hu)
      have hstep : (do let _ ← Edit.addEdge (.place p) (.transition t) 1 : Edit Unit).runOn net =
          (.ok (), net₁) := Edit.runOn_bind_ok hrun₁
      exact ⟨net₂, (Edit.runOn_bind_ok hstep).trans hrun₂, hg₁.trans hg₂⟩

/-- Wiring places to transitions that none of them feeds yet. -/
theorem connect_gains {transitions : List TransitionId} (hnodup : transitions.Nodup) :
    ∀ (places : List PlaceId) (net : Net), net.Consistent → places.Nodup →
      (∀ p ∈ places, net.contains (.place p) = true) →
      (∀ t ∈ transitions, net.contains (.transition t) = true) →
      (∀ p ∈ places, ∀ t ∈ transitions, ∀ arc, net.HasArc arc → arc.source = .place p →
        arc.target ≠ .transition t) →
      ∃ net', (connect places transitions).runOn net = (.ok (), net') ∧
        Net.Gains [] [] (connectArcs places transitions) net net'
  | [], net, h, _, _, _, _ => ⟨net, rfl, Net.Gains.refl h⟩
  | p :: places, net, h, hplaces, hcontains, htransitions, hnew => by
      obtain ⟨hp, hplaces⟩ := List.nodup_cons.1 hplaces
      obtain ⟨net₁, hrun₁, hg₁⟩ := connectPlace_gains transitions net h
        (hcontains p List.mem_cons_self) hnodup htransitions (hnew p List.mem_cons_self)
      obtain ⟨net₂, hrun₂, hg₂⟩ := connect_gains hnodup places net₁ hg₁.evolves.consistent hplaces
        (fun q hq => hg₁.contains (hcontains q (List.mem_cons_of_mem _ hq)))
        (fun t ht => hg₁.contains (htransitions t ht))
        fun q hq t ht arc harc hsource htarget => by
          rcases (hg₁.hasArc_iff h).1 harc with harc | harc
          · exact hnew q (List.mem_cons_of_mem _ hq) t ht arc harc hsource htarget
          · obtain ⟨u, -, rfl⟩ := List.mem_map.1 harc
            exact hp (Node.place.inj hsource ▸ hq)
      exact ⟨net₂, (Edit.runOn_bind_ok hrun₁).trans hrun₂, hg₁.trans hg₂⟩

/-! ### Merging the places -/

/-- The transitions that a step adds. -/
def Step.transitions : Step → List TransitionId
  | .merged _ _ t _ => [t]
  | .reconnected _ _ => []

/-- The places that a step adds. -/
def Step.places : Step → List PlaceId
  | .merged _ _ _ p => [p]
  | .reconnected _ _ => []

/-- The places that a step merges. -/
def Step.inputs : Step → List PlaceId
  | .merged left right _ _ => [left, right]
  | .reconnected _ _ => []

/-- The arcs that a step adds. -/
def Step.arcs : Step → List Arc
  | .merged left right t p => joinArcs left right t p
  | .reconnected places transitions => connectArcs places transitions

/-- How many elements a step adds. -/
def Step.additions (step : Step) : ℕ :=
  step.transitions.length + step.places.length + step.arcs.length

/-- A merge takes two places out of a list and puts one in. -/
theorem merge_perm {working : List PlaceId} {first second : ℕ} {left right place : PlaceId}
    (hleft : working[first]? = some left) (hright : working[second]? = some right)
    (hne : first ≠ second) (hplace : place ∉ working) :
    ∃ rest, working ~ left :: right :: rest ∧ merge working first second place ~ place :: rest := by
  obtain ⟨hfirst, hleft'⟩ := List.getElem?_eq_some_iff.1 hleft
  have hright' : (working.set first place)[second]? = some right := by
    rw [List.getElem?_set_ne hne, hright]
  obtain ⟨last, hlast⟩ : ∃ last, (working.set first place).getLast? = some last := by
    refine Option.ne_none_iff_exists'.1 fun hnone => ?_
    rw [List.getLast?_eq_none_iff, List.set_eq_nil_iff] at hnone
    rw [hnone] at hfirst
    exact absurd hfirst (Nat.not_lt_zero _)
  have hmerge : merge working first second place =
      ((working.set first place).set second last).dropLast := by
    rw [merge, hlast]
  have hset : working.set first place ~ right :: merge working first second place := by
    rw [hmerge]
    exact perm_cons_set_dropLast hright' hlast
  have hworking : working ~ left :: working.eraseIdx first := by
    rw [← hleft']
    exact (List.getElem_cons_eraseIdx_perm hfirst).symm
  have hplaced := (List.set_perm_cons_eraseIdx hfirst place).symm.trans hset
  have hrightmem : right ∈ working := List.mem_of_getElem? hright
  have hmem : right ∈ working.eraseIdx first := by
    have hin := hplaced.mem_iff.2 List.mem_cons_self
    rcases List.mem_cons.1 hin with rfl | hin
    · exact absurd hrightmem hplace
    · exact hin
  have herase := List.perm_cons_erase hmem
  refine ⟨(working.eraseIdx first).erase right, hworking.trans (herase.cons left), ?_⟩
  have hswap : right :: place :: (working.eraseIdx first).erase right ~
      right :: merge working first second place :=
    (List.Perm.swap _ _ _).trans ((herase.symm.cons place).trans hplaced)
  exact hswap.cons_inv.symm

/-- The places of a working list are different places of the net. -/
structure Available (net : Net) (working : List PlaceId) : Prop where
  consistent : net.Consistent
  nodup : working.Nodup
  contains : ∀ p ∈ working, net.contains (.place p) = true

section Join

variable {net₁ : Net} {working merged rest : List PlaceId} {left right place : PlaceId}
  {t : TransitionId}

/-- The place of a join is new. -/
theorem Available.place_not_mem (hw : Available net working)
    (hg : Net.Gains [t] [place] (joinArcs left right t place) net net₁) : place ∉ working :=
  fun hmem => hg.fresh_place place (List.mem_singleton_self place) (hw.contains place hmem)

/-- After a join the list has the place of the join for the two merged ones. -/
theorem Available.of_join (hw : Available net working)
    (hg : Net.Gains [t] [place] (joinArcs left right t place) net net₁)
    (hworking : working ~ left :: right :: rest) (hmerged : merged ~ place :: rest) :
    Available net₁ merged := by
  have hsub : ∀ p ∈ rest, p ∈ working := fun p hp =>
    hworking.mem_iff.2 (List.mem_cons_of_mem _ (List.mem_cons_of_mem _ hp))
  refine ⟨hg.evolves.consistent, ?_, fun p hp => ?_⟩
  · rw [hmerged.nodup_iff, List.nodup_cons]
    exact ⟨fun hmem => hw.place_not_mem hg (hsub place hmem),
      (hworking.nodup_iff.1 hw.nodup).tail.tail⟩
  · rcases List.mem_cons.1 (hmerged.mem_iff.1 hp) with rfl | hp
    · exact (hg.contains_place p).2 (Or.inl (List.mem_singleton_self p))
    · exact hg.contains (hw.contains p (hsub p hp))

/-- Two places of the list can be joined. -/
theorem Available.join_runOn (hw : Available net working) {first second : ℕ}
    (hfirst : first < working.length) (hsecond : second < working.length) (hne : first ≠ second) :
    ∃ left right t place rest net₁, working[first]? = some left ∧ working[second]? = some right ∧
      (join left right).runOn net = (.ok (t, place), net₁) ∧
      Net.Gains [t] [place] (joinArcs left right t place) net net₁ ∧
      working ~ left :: right :: rest ∧ merge working first second place ~ place :: rest := by
  have hleft : working[first]? = some working[first] := List.getElem?_eq_getElem hfirst
  have hright : working[second]? = some working[second] := List.getElem?_eq_getElem hsecond
  have hlr : working[first] ≠ working[second] := fun heq =>
    hne ((List.getElem?_inj hfirst hw.nodup).1 (by rw [hleft, hright, heq]))
  obtain ⟨t, place, net₁, hrun, hg⟩ := join_gains hw.consistent
    (hw.contains _ (List.mem_of_getElem? hleft)) (hw.contains _ (List.mem_of_getElem? hright)) hlr
  obtain ⟨rest, hworking, hmerged⟩ := merge_perm hleft hright hne (hw.place_not_mem hg)
  exact ⟨_, _, t, place, rest, net₁, hleft, hright, hrun, hg, hworking, hmerged⟩

end Join

/-- Places of a working list are merged one pair after the other. -/
inductive Merges : Net → List PlaceId → List Step → List PlaceId → Net → Prop where
  | done {net : Net} {working : List PlaceId} (h : net.Consistent) :
      Merges net working [] working net
  | join {net net₁ net' : Net} {working rest merged places : List PlaceId} {steps : List Step}
      {left right place : PlaceId} {t : TransitionId} (hworking : working ~ left :: right :: rest)
      (hmerged : merged ~ place :: rest)
      (hgains : Net.Gains [t] [place] (joinArcs left right t place) net net₁)
      (h : Merges net₁ merged steps places net') :
      Merges net working (.merged left right t place :: steps) places net'

theorem Merges.gains {working left : List PlaceId} {joins : List Step}
    (h : Merges net working joins left net') :
    Net.Gains (joins.flatMap Step.transitions) (joins.flatMap Step.places)
      (joins.flatMap Step.arcs) net net' := by
  induction h with
  | done h => exact Net.Gains.refl h
  | join _ _ hgains _ ih => exact hgains.trans ih

/-- A place is merged at most once, and the places that are left are not merged. -/
theorem Merges.perm {working left : List PlaceId} {joins : List Step}
    (h : Merges net working joins left net') :
    left ++ joins.flatMap Step.inputs ~ working ++ joins.flatMap Step.places := by
  induction h with
  | done h => exact List.Perm.refl _
  | @join net net₁ net' working rest merged places steps left right place t hworking hmerged _ _ ih =>
      simp only [List.flatMap_cons, Step.inputs, Step.places]
      calc
        places ++ ([left, right] ++ steps.flatMap Step.inputs)
          ~ [left, right] ++ (places ++ steps.flatMap Step.inputs) := by
            rw [← List.append_assoc, ← List.append_assoc]
            exact List.perm_append_comm.append_right _
        _ ~ [left, right] ++ (merged ++ steps.flatMap Step.places) := ih.append_left _
        _ ~ [left, right] ++ (place :: rest ++ steps.flatMap Step.places) :=
            (hmerged.append_right _).append_left _
        _ ~ left :: right :: rest ++ ([place] ++ steps.flatMap Step.places) := by
            simp only [List.cons_append, List.nil_append]
            exact (List.perm_middle.symm.cons right).cons left
        _ ~ working ++ ([place] ++ steps.flatMap Step.places) := hworking.symm.append_right _

/-- The joins of a run of merges are merges. -/
theorem Merges.eq_merged {working left : List PlaceId} {joins : List Step}
    (h : Merges net working joins left net') :
    ∀ step ∈ joins, ∃ l r t p, step = .merged l r t p := by
  induction h with
  | done h => exact fun step hstep => absurd hstep List.not_mem_nil
  | join _ _ _ _ ih =>
      intro step hstep
      rcases List.mem_cons.1 hstep with rfl | hstep
      · exact ⟨_, _, _, _, rfl⟩
      · exact ih step hstep

/-- The places that are left are available. -/
theorem Merges.available {working left : List PlaceId} {joins : List Step}
    (h : Merges net working joins left net') (hw : Available net working) :
    Available net' left := by
  induction h with
  | done _ => exact hw
  | join hworking hmerged hgains _ ih => exact ih (hw.of_join hgains hworking hmerged)

/-- Merging along a pairing order never fails and leaves the places that stay. -/
theorem mergePairs_runOn {stay : ℕ} :
    ∀ (pairs : List (ℕ × ℕ)) (working : List PlaceId) (net : Net),
      Pairing.Shrinks stay working.length pairs → Available net working →
      ∃ joins left net', (mergePairs pairs working).runOn net = (.ok (joins, left), net') ∧
        Merges net working joins left net' ∧ left.length = stay
  | [], working, net, hpairs, hw => by
      refine ⟨[], working, net, rfl, Merges.done hw.consistent, ?_⟩
      generalize working.length = len at hpairs ⊢
      cases hpairs
      rfl
  | (first, second) :: pairs, working, net, hpairs, hw => by
      obtain ⟨top, htop, hfirst, hsecond, hne, hrest⟩ := hpairs.of_cons
      obtain ⟨left, right, t, place, rest, net₁, hleft, hright, hrun₁, hg₁, hworking, hmerged⟩ :=
        hw.join_runOn (by omega : first < working.length) (by omega : second < working.length) hne
      have hlength : (merge working first second place).length = top := by
        have hl := hworking.length_eq
        have hm := hmerged.length_eq
        simp only [List.length_cons] at hl hm
        omega
      obtain ⟨joins, places, net₂, hrun₂, hmerges, hstay⟩ := mergePairs_runOn pairs
        (merge working first second place) net₁ (hlength ▸ hrest)
        (hw.of_join hg₁ hworking hmerged)
      refine ⟨.merged left right t place :: joins, places, net₂, ?_,
        Merges.join hworking hmerged hg₁ hmerges, hstay⟩
      rw [mergePairs, hleft, hright]
      simp only
      rw [Edit.runOn_bind_ok hrun₁, Edit.runOn_bind_ok hrun₂]
      rfl

end Sync
end PetriCcs
