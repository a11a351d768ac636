import Mathlib.Algebra.BigOperators.Group.Finset.Piecewise
import PetriCcs.Proofs.NetGame
import PetriCcs.Proofs.SynchroniseContract

/-! # Synchronisation preserves behaviour

While a group is merged, its transitions take from the places of the working list; `Game.regroup` is
the game of the net with these presets.  Every join is a merge of that game (`regroup_merges`), so
splitting a group keeps the behaviour up to internal steps (`SplitsGroup.weaklyBisimilar`), and so
does a whole synchronisation (`synchronise_weaklyBisimilar`).  Joins alone cannot go on forever:
each of them leaves one token less (`total_of_fires_join`). -/

namespace PetriCcs

open scoped List

namespace Sync

variable {net net' net₁ : Net} {ts : List TransitionId} {working merged rest : List PlaceId}
  {left right place : PlaceId} {t : TransitionId}

/-- The working list of a group: places of the net that feed nothing at the moment. -/
structure Working (net : Net) (ts : List TransitionId) (working : List PlaceId) : Prop where
  consistent : net.Consistent
  transitions : ∀ u ∈ ts, net.contains (.transition u) = true
  nodup : working.Nodup
  places : ∀ p ∈ working, net.contains (.place p) = true
  idle : ∀ p ∈ working, ∀ u, p ∉ net.preset u

theorem Working.available (hw : Working net ts working) : Available net working :=
  ⟨hw.consistent, hw.nodup, hw.places⟩

/-! ### The net after a join -/

theorem mem_preset_of_join (h : net.Consistent)
    (hg : Net.Gains [t] [place] (joinArcs left right t place) net net₁) {u : TransitionId}
    {p : PlaceId} :
    p ∈ net₁.preset u ↔ p ∈ net.preset u ∨ (u = t ∧ (p = left ∨ p = right)) := by
  rw [hg.evolves.consistent.mem_preset_iff, hg.hasArc_iff h, h.mem_preset_iff]
  refine or_congr Iff.rfl ?_
  simp only [joinArcs, List.mem_cons, Arc.mk.injEq, Node.place.injEq, Node.transition.injEq,
    reduceCtorEq, false_and, and_true, List.not_mem_nil, or_false]
  tauto

theorem mem_postset_of_join (h : net.Consistent)
    (hg : Net.Gains [t] [place] (joinArcs left right t place) net net₁) {u : TransitionId}
    {p : PlaceId} {weight : Weight} : (p, weight) ∈ net₁.postset u ↔
      (p, weight) ∈ net.postset u ∨ (u = t ∧ p = place ∧ weight = 1) := by
  rw [hg.evolves.consistent.mem_postset_iff, hg.hasArc_iff h, h.mem_postset_iff]
  refine or_congr Iff.rfl ?_
  simp only [joinArcs, List.mem_cons, Arc.mk.injEq, Node.place.injEq, Node.transition.injEq,
    reduceCtorEq, false_and, List.not_mem_nil, or_false, false_or]

/-- The join produces one token into its place. -/
theorem produces_of_join (h : net.Consistent)
    (hg : Net.Gains [t] [place] (joinArcs left right t place) net net₁) (p : PlaceId) :
    net₁.produces t p = if p = place then 1 else 0 := by
  refine Net.produces_of_postset hg.evolves.consistent (fun q weight => ?_) p
  have hold : (q, weight) ∉ net.postset t := fun hmem =>
    hg.fresh_transition t (List.mem_singleton_self t)
      ((h.mem_postset_iff.1 hmem).contains h .source)
  rw [mem_postset_of_join h hg]
  simp [hold]

/-- The place of a join is new and feeds nothing. -/
theorem place_not_mem_preset (h : net.Consistent)
    (hg : Net.Gains [t] [place] (joinArcs left right t place) net net₁) (u : TransitionId) :
    place ∉ net.preset u :=
  fun hmem => hg.fresh_place place (List.mem_singleton_self place)
    ((h.mem_preset_iff.1 hmem).contains h .source)

theorem Working.left_ne_right (hw : Working net ts working)
    (hworking : working ~ left :: right :: rest) : left ≠ right ∧ left ∉ rest ∧ right ∉ rest := by
  have hnodup := hworking.nodup_iff.1 hw.nodup
  rw [List.nodup_cons, List.nodup_cons, List.mem_cons, not_or] at hnodup
  exact ⟨hnodup.1.1, hnodup.1.2, hnodup.2.1⟩

/-- The two merged places are out of the list. -/
theorem Working.not_mem_merged (hw : Working net ts working)
    (hg : Net.Gains [t] [place] (joinArcs left right t place) net net₁)
    (hworking : working ~ left :: right :: rest) (hmerged : merged ~ place :: rest) :
    left ∉ merged ∧ right ∉ merged := by
  obtain ⟨-, hleft, hright⟩ := hw.left_ne_right hworking
  have hplace := hw.available.place_not_mem hg
  rw [hworking.mem_iff, List.mem_cons, List.mem_cons, not_or, not_or] at hplace
  simp only [hmerged.mem_iff, List.mem_cons, not_or]
  exact ⟨⟨Ne.symm hplace.1, hleft⟩, Ne.symm hplace.2.1, hright⟩

/-- The other places of the list are the same. -/
theorem mem_merged_iff (hworking : working ~ left :: right :: rest) (hmerged : merged ~ place :: rest)
    {p : PlaceId} (hleft : p ≠ left) (hright : p ≠ right) (hplace : p ≠ place) :
    p ∈ merged ↔ p ∈ working := by
  rw [hmerged.mem_iff, hworking.mem_iff]
  simp [hleft, hright, hplace]

/-- A join of two places of the working list is a merge of the game. -/
theorem regroup_merges (hw : Working net ts working)
    (hg : Net.Gains [t] [place] (joinArcs left right t place) net net₁)
    (hworking : working ~ left :: right :: rest) (hmerged : merged ~ place :: rest) :
    Game.Merges (net.game.regroup ts working) (net₁.game.regroup ts merged) (· ∈ ts) left right place
      t := by
  have h := hw.consistent
  have hleft : left ∈ working := hworking.mem_iff.2 List.mem_cons_self
  have hright : right ∈ working := hworking.mem_iff.2 (List.mem_cons_of_mem _ List.mem_cons_self)
  have hplace : place ∉ working := hw.available.place_not_mem hg
  have hplaceMerged : place ∈ merged := hmerged.mem_iff.2 List.mem_cons_self
  have hplaceIdle := place_not_mem_preset h hg
  have ht : ¬ net.contains (.transition t) = true :=
    hg.fresh_transition t (List.mem_singleton_self t)
  have hpreset : ∀ {u p}, u ≠ t → (p ∈ net₁.preset u ↔ p ∈ net.preset u) := by
    intro u p hu
    rw [mem_preset_of_join h hg]
    simp [hu]
  obtain ⟨hleftMerged, hrightMerged⟩ := hw.not_mem_merged hg hworking hmerged
  constructor
  case left_ne_right => exact (hw.left_ne_right hworking).1
  case place_ne_left => exact fun heq => hplace (heq ▸ hleft)
  case place_ne_right => exact fun heq => hplace (heq ▸ hright)
  case label_new =>
    cases hlabel : net.label? t with
    | none => exact hlabel
    | some label => exact absurd (Net.contains_transition_iff.2 ⟨label, hlabel⟩) ht
  case label =>
    intro u
    have hlabel := hg.label u
    simp only [List.mem_singleton] at hlabel
    exact hlabel
  case takes_place =>
    intro u
    simp [Game.regroup, Net.game, hplace, hplaceIdle]
  case gives_place =>
    exact fun u => Net.produces_of_not_contains h
      (hg.fresh_place place (List.mem_singleton_self place))
  case takes_group =>
    intro u hu
    simp [Game.regroup, hu, hleft, hright]
  case takes_other =>
    intro u hu
    simp [Game.regroup, Net.game, hu, hw.idle left hleft u, hw.idle right hright u]
  case takes_place_group =>
    intro u hu
    simp [Game.regroup, hu, hplaceMerged]
  case takes_place_other =>
    intro u hut hu
    simp [Game.regroup, Net.game, hu, hpreset hut, hplaceIdle]
  case takes_merged =>
    intro u hut
    simp [Game.regroup, Net.game, hpreset hut, hw.idle left hleft u, hw.idle right hright u,
      hleftMerged, hrightMerged]
  case takes_rest =>
    intro u p hut h1 h2 h3
    simp [Game.regroup, Net.game, hpreset hut, mem_merged_iff hworking hmerged h1 h2 h3]
  case gives_rest =>
    intro u hut
    refine funext fun p => Net.produces_congr h hg.evolves.consistent fun weight => ?_
    rw [mem_postset_of_join h hg]
    simp [hut]
  case takes_new =>
    intro p
    have htnot : t ∉ ts := fun hin => ht (hw.transitions t hin)
    have hold : p ∉ net.preset t := fun hin => ht ((h.mem_preset_iff.1 hin).contains h .target)
    simp [Game.regroup, Net.game, htnot, mem_preset_of_join h hg, hold]
  case gives_new => exact produces_of_join h hg

/-- The working list stays one. -/
theorem Working.of_join (hw : Working net ts working)
    (hg : Net.Gains [t] [place] (joinArcs left right t place) net net₁)
    (hworking : working ~ left :: right :: rest) (hmerged : merged ~ place :: rest) :
    Working net₁ ts merged := by
  have havailable := hw.available.of_join hg hworking hmerged
  obtain ⟨hleftMerged, hrightMerged⟩ := hw.not_mem_merged hg hworking hmerged
  refine ⟨hg.evolves.consistent, fun u hu => hg.contains (hw.transitions u hu), havailable.nodup,
    havailable.contains, fun p hp u hmem => ?_⟩
  rcases (mem_preset_of_join hw.consistent hg).1 hmem with hmem | ⟨-, rfl | rfl⟩
  · rcases List.mem_cons.1 (hmerged.mem_iff.1 hp) with rfl | hrest
    · exact place_not_mem_preset hw.consistent hg u hmem
    · exact hw.idle p (hworking.mem_iff.2 (List.mem_cons_of_mem _ (List.mem_cons_of_mem _ hrest))) u
        hmem
  · exact hleftMerged hp
  · exact hrightMerged hp

/-- Merging a working list keeps the behaviour of the regrouped net. -/
theorem Merges.weaklyBisimilar {joins : List Step} {places : List PlaceId}
    (h : Merges net working joins places net') (hw : Working net ts working) :
    WeaklyBisimilar (net.game.regroup ts working).Step (net'.game.regroup ts places).Step .tau
      net.tokens net'.tokens := by
  induction h with
  | done _ => exact WeaklyBisimilar.refl _
  | @join net net₁ net' working rest merged places steps left right place t hworking hmerged hg _ ih =>
      have hmerge := regroup_merges hw hg hworking hmerged
      have hplace : net.tokens place = 0 :=
        Net.tokens_of_not_contains (hg.fresh_place place (List.mem_singleton_self place))
      have hplace₁ : net₁.tokens place = 0 := (hg.tokens place).trans hplace
      refine WeaklyBisimilar.trans ⟨_, hmerge.weakBisimulation, ?_⟩
        (ih (hw.of_join hg hworking hmerged))
      exact ⟨by rw [hg.tokens, hplace₁]; rfl, by rw [hg.tokens, hplace₁]; rfl, hplace,
        fun p _ _ _ => (hg.tokens p).symm⟩

/-! ### Groups and nets -/

variable {group : Group} {joins steps : List Step} {leftOver : List PlaceId}

/-- The places of a detached group are the first working list. -/
theorem working_detached (h : net.Consistent) (hgroup : IsGroup net group)
    (hkeeps : net.Keeps (fun arc => arc.source ∉ group.places.map Node.place) net₁) :
    Working net₁ group.transitions group.places := by
  refine ⟨hkeeps.consistent, fun u hu => ?_, hgroup.places_nodup,
    (hgroup.available h hkeeps).contains, fun p hp u hmem => ?_⟩
  · rw [Net.contains_of_bare hkeeps.bare]
    exact hgroup.contains_transition h hu
  · have harc := (hasArc_detached_iff h hkeeps).1 (hkeeps.consistent.mem_preset_iff.1 hmem)
    exact harc.2 (List.mem_map_of_mem hp)

/-- Before the joins the group takes from its places. -/
theorem regroup_detached (h : net.Consistent) (hgroup : IsGroup net group)
    (hkeeps : net.Keeps (fun arc => arc.source ∉ group.places.map Node.place) net₁) :
    net₁.game.regroup group.transitions group.places = net.game := by
  simp only [Game.regroup, Net.game, Game.mk.injEq]
  refine ⟨funext (Net.label?_of_bare hkeeps.bare), funext fun u => funext fun p => ?_,
    funext fun u => funext fun p => Net.produces_congr h hkeeps.consistent fun weight => ?_⟩
  · by_cases hu : u ∈ group.transitions
    · simp only [hu, if_true, hgroup.fed u hu p]
    · have hsame : p ∈ net₁.preset u ↔ p ∈ net.preset u := by
        rw [hkeeps.consistent.mem_preset_iff, hasArc_detached_iff h hkeeps, h.mem_preset_iff]
        refine and_iff_left_of_imp fun hfeeds hin => hu ?_
        obtain ⟨q, hq, heq⟩ := List.mem_map.1 hin
        cases heq
        exact (hgroup.feeds p hq u).1 (h.mem_consumers_iff.2 hfeeds)
      simp only [hu, if_false, hsame]
  · rw [hkeeps.consistent.mem_postset_iff, hasArc_detached_iff h hkeeps, h.mem_postset_iff]
    simp

/-- After the joins the group takes from the places that are left, as in the net after the split. -/
theorem regroup_connected {net₂ : Net} (h₂ : net₂.Consistent)
    (hgains : Net.Gains [] [] (connectArcs leftOver group.transitions) net₂ net')
    (hpreset : ∀ {u}, u ∈ group.transitions → ∀ p, p ∈ net'.preset u ↔ p ∈ leftOver) :
    net₂.game.regroup group.transitions leftOver = net'.game := by
  have h' := hgains.evolves.consistent
  simp only [Game.regroup, Net.game, Game.mk.injEq]
  refine ⟨funext fun u => ?_, funext fun u => funext fun p => ?_,
    funext fun u => funext fun p => Net.produces_congr h' h₂ fun weight => ?_⟩
  · rw [hgains.label]
    simp
  · by_cases hu : u ∈ group.transitions
    · simp only [hu, if_true, hpreset hu]
    · have hsame : p ∈ net'.preset u ↔ p ∈ net₂.preset u := by
        rw [h'.mem_preset_iff, hgains.hasArc_iff h₂, h₂.mem_preset_iff, mem_connectArcs_iff]
        refine or_iff_left fun hin => hu ?_
        obtain ⟨q, -, v, hv, heq⟩ := hin
        cases heq
        exact hv
      simp only [hu, if_false, hsame]
  · rw [h'.mem_postset_iff, hgains.hasArc_iff h₂, h₂.mem_postset_iff, mem_connectArcs_iff]
    refine (or_iff_left fun hin => ?_).symm
    obtain ⟨q, -, v, -, heq⟩ := hin
    cases heq

/-- Splitting a group keeps the behaviour up to internal steps. -/
theorem SplitsGroup.weaklyBisimilar (h : net.Consistent)
    (s : SplitsGroup net group joins leftOver net') :
    WeaklyBisimilar net.Step net'.Step .tau net.tokens net'.tokens := by
  obtain ⟨net₁, net₂, hkeeps, hmerges, hgains⟩ := s.split
  have hmiddle := hmerges.weaklyBisimilar (working_detached h s.isGroup hkeeps)
  have htokens : net₁.tokens = net.tokens := funext (Net.tokens_of_bare hkeeps.bare)
  have htokens' : net'.tokens = net₂.tokens := funext hgains.tokens
  rw [regroup_detached h s.isGroup hkeeps, htokens, ← htokens',
    regroup_connected hmerges.gains.evolves.consistent hgains (s.preset_group h)] at hmiddle
  rw [Net.step_eq_game, Net.step_eq_game]
  exact hmiddle

/-- So does splitting groups one after the other. -/
theorem Splits.weaklyBisimilar (h : Splits net steps net') (hnet : net.Consistent) :
    WeaklyBisimilar net.Step net'.Step .tau net.tokens net'.tokens := by
  induction h with
  | done _ => exact WeaklyBisimilar.refl _
  | split s _ _ _ _ ih => exact (s.weaklyBisimilar hnet).trans (ih s.evolves.consistent)

/-! ### Joins alone -/

/-- The transitions that the steps have added. -/
def Result.joinTransitions (result : Result) : List TransitionId := result.steps.flatMap Step.transitions

end Sync

namespace Net

variable {net : Net} {left right place : PlaceId} {t : TransitionId} {m m' : Marking}

/-- A finite firing sequence. -/
inductive Run (net : Net) : Marking → List TransitionId → Marking → Prop where
  | nil (m : Marking) : Run net m [] m
  | cons {m m₁ m' : Marking} {t : TransitionId} {ts : List TransitionId} (h : net.Fires m t m₁)
      (hrest : Run net m₁ ts m') : Run net m (t :: ts) m'

/-- The tokens on the places of a net. -/
def total (net : Net) (m : Marking) : ℕ := ∑ p ∈ net.places.handles.toFinset, m p

/-- A join takes two tokens and gives one. -/
theorem total_of_fires_join (h : net.Consistent) (hjoin : net.IsJoin left right t place)
    (hfires : net.Fires m t m') : net.total m' + 1 = net.total m := by
  have hpreset := hjoin.preset
  have hleft := (h.mem_preset_iff.1 ((hpreset left).2 (Or.inl rfl))).contains h .source
  have hright := (h.mem_preset_iff.1 ((hpreset right).2 (Or.inr rfl))).contains h .source
  have hplace := (h.mem_postset_iff.1 ((hjoin.postset place 1).2 ⟨rfl, rfl⟩)).contains h .target
  have hmem : ∀ {p}, net.contains (.place p) = true → p ∈ net.places.handles.toFinset := fun hp =>
    List.mem_toFinset.2 (Arena.mem_handles_iff.2 hp)
  have hbalance : ∀ p, m' p + ((if p = left then 1 else 0) + if p = right then 1 else 0) =
      m p + if p = place then 1 else 0 := by
    intro p
    have hne := hjoin.ne
    obtain ⟨henabled, hm'⟩ := hfires
    rw [hm' p, produces_of_postset h hjoin.postset p]
    by_cases hpl : p = left
    · have hpos := henabled p ((hpreset p).2 (Or.inl hpl))
      have hpr : p ≠ right := hpl ▸ hne
      rw [if_pos ((hpreset p).2 (Or.inl hpl)), if_pos hpl, if_neg hpr]
      omega
    by_cases hpr : p = right
    · have hpos := henabled p ((hpreset p).2 (Or.inr hpr))
      rw [if_pos ((hpreset p).2 (Or.inr hpr)), if_neg hpl, if_pos hpr]
      omega
    · rw [if_neg fun hin => ((hpreset p).1 hin).elim hpl hpr, if_neg hpl, if_neg hpr]
      omega
  have hsum := Finset.sum_congr (Eq.refl net.places.handles.toFinset) fun p _ => hbalance p
  simp only [Finset.sum_add_distrib, Finset.sum_ite_eq', hmem hleft, hmem hright, hmem hplace,
    if_true] at hsum
  simp only [total]
  omega

/-- A firing sequence of joins is no longer than there are tokens. -/
theorem Run.length_le (h : net.Consistent) {ts : List TransitionId} (hrun : net.Run m ts m')
    (hjoins : ∀ t ∈ ts, ∃ left right place, net.IsJoin left right t place) :
    ts.length ≤ net.total m := by
  induction hrun with
  | nil m => exact Nat.zero_le _
  | @cons m m₁ m' t ts hfires _ ih =>
      obtain ⟨left, right, place, hjoin⟩ := hjoins t List.mem_cons_self
      have hstep := total_of_fires_join h hjoin hfires
      have hrest := ih fun u hu => hjoins u (List.mem_cons_of_mem _ hu)
      rw [List.length_cons]
      omega

/-- Synchronising a reachable group-choice net returns a net that is weakly bisimilar to it, and
from no marking can its new joins fire more often than there are tokens. -/
theorem synchronise_weaklyBisimilar {n : ℕ} {σ : Type} [RandomSource σ] (h : net.Reachable n)
    (hclass : net.isGroupChoice = true) (tag : ℕ) (source : σ) :
    ∃ result rest, net.synchronise tag source = .ok (result, rest) ∧
      WeaklyBisimilar net.Step result.net.Step .tau net.tokens result.net.tokens ∧
      ∀ m ts m', result.net.Run m ts m' → (∀ t ∈ ts, t ∈ result.joinTransitions) →
        ts.length ≤ result.net.total m := by
  have hnet := h.consistent
  obtain ⟨result, rest, hrun, -⟩ := hnet.synchronise_ok (Or.inr hclass) tag source
  have hsplits := (synchronise_splits hnet hrun).1
  have hcopy := hnet.copy tag
  refine ⟨result, rest, hrun, (bisimilar_copy hnet tag).weak.trans (hsplits.weaklyBisimilar hcopy),
    fun m ts m' hseq hjoins => hseq.length_le hsplits.evolves.consistent fun t ht => ?_⟩
  obtain ⟨step, hstep, htstep⟩ := List.mem_flatMap.1 (hjoins t ht)
  cases step with
  | merged left right u place =>
      obtain rfl := List.mem_singleton.1 htstep
      exact ⟨left, right, place, hsplits.isJoin hcopy hstep⟩
  | reconnected places transitions => exact absurd htstep List.not_mem_nil

theorem synchronise_weaklyBisimilar_rendezvous : rendezvous.Reachable 5 ∧
    rendezvous.isGroupChoice = true ∧
    ∃ result rest, rendezvous.synchronise 1 (WordList.mk [3, 1]) = .ok (result, rest) ∧
      WeaklyBisimilar rendezvous.Step result.net.Step .tau rendezvous.tokens result.net.tokens := by
  obtain ⟨result, rest, hrun, hbisimilar, -⟩ :=
    synchronise_weaklyBisimilar rendezvous_reachable rendezvous_isGroupChoice 1 (WordList.mk [3, 1])
  exact ⟨rendezvous_reachable, rendezvous_isGroupChoice, result, rest, hrun, hbisimilar⟩

end Net
end PetriCcs
