import PetriCcs.Proofs.Frame

/-! # What a block of steps says about the nets around it

The joins of a block merge places of the group and of earlier joins (`SplitsGroup.inputs_earlier`),
each of them once (`SplitsGroup.perm`), and there are as many as places go (`SplitsGroup.length`).
`Net.Joins` describes a join as the queries list it: so it stands in the net after the split
(`SplitsGroup.joins`) and in every net that further splits lead to (`SplitsGroup.joins_last`), and so
do the inputs of the transitions of the group (`SplitsGroup.preset_last`). -/

namespace PetriCcs

/-- An internal transition that takes from two places, in this order, and alone produces into a
third, which is empty. -/
structure Net.Joins (net : Net) (left right : PlaceId) (t : TransitionId) (place : PlaceId) :
    Prop where
  label : net.label? t = some .tau
  preset : net.preset t = [left, right]
  postset : net.postset t = [(place, 1)]
  contains : net.contains (.place place) = true
  tokens : net.tokens place = 0
  producers : net.producers place = [(t, 1)]

namespace Sync

open scoped List

variable {net net₁ net' : Net} {group : Group} {joins steps : List Step}
  {left working : List PlaceId} {l r p : PlaceId} {t u : TransitionId}

/-! ### Merged places -/

/-- A join merges places of the working list or of earlier joins. -/
theorem Merges.inputs_earlier (h : Merges net working joins left net') :
    ∀ {before after : List Step}, joins = before ++ .merged l r t p :: after →
      ∀ q ∈ [l, r], q ∈ working ∨ q ∈ before.flatMap Step.places := by
  induction h with
  | done _ => intro before after heq; simp at heq
  | @join net net₁ net' working rest merged places steps left' right' place t' hworking hmerged _ _ ih =>
      intro before after heq q hq
      cases before with
      | nil =>
          cases heq
          refine Or.inl (hworking.mem_iff.2 ?_)
          rcases List.mem_cons.1 hq with rfl | hq
          · exact List.mem_cons_self
          · rw [List.mem_singleton.1 hq]
            exact List.mem_cons_of_mem _ List.mem_cons_self
      | cons first before =>
          obtain ⟨rfl, htail⟩ := List.cons.inj heq
          rw [List.flatMap_cons, List.mem_append]
          rcases ih htail q hq with hmem | hmem
          · -- what is on the list now was there before or is the place of the first join
            rcases List.mem_cons.1 (hmerged.mem_iff.1 hmem) with rfl | hrest
            · exact Or.inr (Or.inl (List.mem_singleton_self q))
            · refine Or.inl (hworking.mem_iff.2 ?_)
              exact List.mem_cons_of_mem _ (List.mem_cons_of_mem _ hrest)
          · exact Or.inr (Or.inr hmem)

/-- Each join makes the list one shorter. -/
theorem Merges.length (h : Merges net working joins left net') :
    joins.length + left.length = working.length := by
  induction h with
  | done _ => exact Nat.zero_add _
  | join hworking hmerged _ _ ih =>
      have hbefore := hworking.length_eq
      have hafter := hmerged.length_eq
      simp only [List.length_cons] at hbefore hafter ⊢
      omega

theorem SplitsGroup.inputs_earlier (s : SplitsGroup net group joins left net')
    {before after : List Step} (hjoins : joins = before ++ .merged l r t p :: after) :
    ∀ q ∈ [l, r], q ∈ group.places ∨ q ∈ before.flatMap Step.places := by
  obtain ⟨net₁, net₂, -, hmerges, -⟩ := s.split
  exact hmerges.inputs_earlier hjoins

theorem SplitsGroup.length (s : SplitsGroup net group joins left net') :
    joins.length + left.length = group.places.length := by
  obtain ⟨net₁, net₂, -, hmerges, -⟩ := s.split
  exact hmerges.length

/-- The places that are left and those that are merged are the places of the group and of the joins. -/
theorem SplitsGroup.perm (s : SplitsGroup net group joins left net') :
    left ++ joins.flatMap Step.inputs ~ group.places ++ joins.flatMap Step.places := by
  obtain ⟨net₁, net₂, -, hmerges, -⟩ := s.split
  exact hmerges.perm

/-! ### The arcs of a join -/

/-- Joins add no arcs to old nodes but at places that they merge. -/
theorem Merges.arcs_old (h : Merges net working joins left net') (side : Side) {node : Node}
    (hold : net.contains node = true) (hplace : side = .source → ∀ q, node ≠ .place q) :
    net'.arcs side node = net.arcs side node := by
  have hnone : (joins.flatMap Step.arcs).filter (·.endpoint side = node) = [] := by
    refine List.filter_eq_nil_iff.2 fun arc harc heq => ?_
    obtain rfl : arc.endpoint side = node := of_decide_eq_true heq
    obtain ⟨hside, q, -, hend⟩ := h.endpoint_old harc hold
    exact hplace hside q hend
  rw [h.gains.arcs, hnone, List.append_nil]

/-- The arcs of a join and into its place, in order. -/
structure JoinArcs (net : Net) (l r : PlaceId) (t : TransitionId) (p : PlaceId) : Prop where
  into_join : net.arcs .target (.transition t) =
    [⟨.place l, .transition t, 1⟩, ⟨.place r, .transition t, 1⟩]
  from_join : net.arcs .source (.transition t) = [⟨.transition t, .place p, 1⟩]
  into_place : net.arcs .target (.place p) = [⟨.transition t, .place p, 1⟩]

/-- The first join of a list has its arcs. -/
theorem joinArcs_of_gains (h : net.Consistent)
    (hgains : Net.Gains [t] [p] (joinArcs l r t p) net net₁) : JoinArcs net₁ l r t p := by
  have ht := hgains.fresh_transition t (List.mem_singleton_self t)
  have hp := hgains.fresh_place p (List.mem_singleton_self p)
  constructor
  · rw [hgains.arcs, h.arcs_eq_nil ht]
    simp [joinArcs, Arc.endpoint]
  · rw [hgains.arcs, h.arcs_eq_nil ht]
    simp [joinArcs, Arc.endpoint]
  · rw [hgains.arcs, h.arcs_eq_nil hp]
    simp [joinArcs, Arc.endpoint]

/-- All joins have their arcs in the end. -/
theorem Merges.arcs_join (h : Merges net working joins left net') (hnet : net.Consistent)
    (hstep : .merged l r t p ∈ joins) : JoinArcs net' l r t p := by
  induction h with
  | done _ => exact absurd hstep List.not_mem_nil
  | join _ _ hgains hrest ih =>
      rcases List.mem_cons.1 hstep with heq | hstep
      · cases heq
        obtain ⟨hinto, hfrom, hplace⟩ := joinArcs_of_gains hnet hgains
        have ht := (hgains.contains_transition t).2 (Or.inl (List.mem_singleton_self t))
        have hp := (hgains.contains_place p).2 (Or.inl (List.mem_singleton_self p))
        have hinto' := hrest.arcs_old .target ht fun hside => nomatch hside
        have hfrom' := hrest.arcs_old .source ht fun _ q heq => nomatch heq
        have hplace' := hrest.arcs_old .target hp fun hside => nomatch hside
        exact ⟨hinto'.trans hinto, hfrom'.trans hfrom, hplace'.trans hplace⟩
      · exact ih hgains.evolves.consistent hstep

/-- Arcs from places to transitions, seen from one of the transitions. -/
theorem filter_connectArcs {places : List PlaceId} {transitions : List TransitionId}
    (hnodup : transitions.Nodup) (u : TransitionId) :
    (connectArcs places transitions).filter (·.endpoint .target = .transition u) =
      if u ∈ transitions then places.map fun p => ⟨.place p, .transition u, 1⟩ else [] := by
  have hplace : ∀ p : PlaceId, (transitions.map fun v => (⟨.place p, .transition v, 1⟩ : Arc)).filter
      (·.endpoint .target = .transition u) =
        if u ∈ transitions then [⟨.place p, .transition u, 1⟩] else [] := by
    intro p
    rw [List.filter_map]
    have htest : ((fun arc : Arc => decide (arc.endpoint .target = .transition u)) ∘
        fun v : TransitionId => (⟨.place p, .transition v, 1⟩ : Arc)) = fun v => decide (v = u) := by
      funext v
      simp [Arc.endpoint]
    rw [htest, List.filter_eq, hnodup.count]
    split_ifs <;> rfl
  rw [connectArcs, List.filter_flatMap]
  simp only [hplace]
  split_ifs with hu
  · exact List.map_eq_flatMap.symm
  · exact List.flatMap_eq_nil_iff.2 fun _ _ => rfl

/-! ### After the split of a group -/

/-- Joins have their arcs after the split: wiring the places that are left adds none to them. -/
theorem SplitsGroup.arcs_join (h : net.Consistent) (s : SplitsGroup net group joins left net')
    (hstep : .merged l r t p ∈ joins) : JoinArcs net' l r t p := by
  have ht : t ∉ group.transitions := fun hin =>
    s.not_old_of_join hstep (s.isGroup.contains_transition h hin)
  have hnodup := s.isGroup.transitions_nodup
  obtain ⟨net₁, net₂, hkeeps, hmerges, hgains⟩ := s.split
  obtain ⟨hinto, hfrom, hplace⟩ := hmerges.arcs_join hkeeps.consistent hstep
  refine ⟨?_, ?_, ?_⟩
  · rw [hgains.arcs, hinto, filter_connectArcs hnodup, if_neg ht, List.append_nil]
  · rw [hgains.arcs, hfrom, List.filter_eq_nil_iff.2, List.append_nil]
    intro arc harc heq
    obtain ⟨q, -, u, -, rfl⟩ := mem_connectArcs_iff.1 harc
    exact nomatch of_decide_eq_true heq
  · rw [hgains.arcs, hplace, List.filter_eq_nil_iff.2, List.append_nil]
    intro arc harc heq
    obtain ⟨q, -, u, -, rfl⟩ := mem_connectArcs_iff.1 harc
    exact nomatch of_decide_eq_true heq

/-- The transitions of the group are fed by the places that are left, in their order. -/
theorem SplitsGroup.preset_eq_left (h : net.Consistent) (s : SplitsGroup net group joins left net')
    (hu : u ∈ group.transitions) : net'.preset u = left := by
  have hold := s.isGroup.contains_transition h hu
  have hcut : (net.arcs .target (.transition u)).filter
      (fun arc => arc.source ∉ group.places.map Node.place) = [] := by
    refine List.filter_eq_nil_iff.2 fun arc harc hkept => of_decide_eq_true hkept ?_
    obtain ⟨source, target, weight⟩ := arc
    obtain ⟨harc, rfl⟩ := h.mem_arcs_iff.1 harc
    cases source with
    | transition v => exact absurd (harc.fits h) (by simp [Fits])
    | place q =>
        have hweight : weight = 1 := harc.fits h
        subst hweight
        exact List.mem_map_of_mem ((s.isGroup.fed u hu q).1 (h.mem_preset_iff.2 harc))
  have hjoins : (joins.flatMap Step.arcs).filter (·.endpoint .target = .transition u) = [] := by
    refine List.filter_eq_nil_iff.2 fun arc harc heq => ?_
    have hend : arc.endpoint .target = .transition u := of_decide_eq_true heq
    obtain ⟨hside, -⟩ := s.endpoint_old harc (hend ▸ hold)
    cases hside
  rw [Net.preset_eq, s.arcs, hcut, hjoins, filter_connectArcs s.isGroup.transitions_nodup,
    if_pos hu, List.nil_append, List.nil_append, List.filterMap_map]
  exact List.filterMap_some

theorem SplitsGroup.tokens (s : SplitsGroup net group joins left net') (q : PlaceId) :
    net'.tokens q = net.tokens q := by
  obtain ⟨net₁, net₂, hkeeps, hmerges, hgains⟩ := s.split
  rw [hgains.tokens, hmerges.gains.tokens, Net.tokens_of_bare hkeeps.bare]

/-! ### After the splits that follow -/

theorem Splits.tokens (h : Splits net steps net') (q : PlaceId) : net'.tokens q = net.tokens q := by
  induction h with
  | done _ => rfl
  | split s _ _ _ _ ih => exact ih.trans (s.tokens q)

/-- A join of the group stands in the net at the end as it was made. -/
theorem SplitsGroup.joins_last (h : net.Consistent) (s : SplitsGroup net group joins left net₁)
    (hrest : Splits net₁ steps net') (hstep : .merged l r t p ∈ joins) : net'.Joins l r t p := by
  have hnet₁ := s.evolves.consistent
  have hjoin := s.isJoin h hstep
  have ht : net₁.contains (.transition t) = true :=
    (s.grows.contains_transition t).2
      (Or.inl (List.mem_flatMap.2 ⟨_, hstep, List.mem_singleton_self t⟩))
  have hp : net₁.contains (.place p) = true :=
    (s.grows.contains_place p).2 (Or.inl (List.mem_flatMap.2 ⟨_, hstep, List.mem_singleton_self p⟩))
  have hnew : ¬ net.contains (.place p) = true :=
    s.fresh_place (List.mem_flatMap.2 ⟨_, hstep, List.mem_singleton_self p⟩)
  obtain ⟨hinto, hfrom, hplace⟩ := s.arcs_join h hstep
  -- the merged places feed nothing but the join, which is within its limit
  have hspares : net₁.Spares .target (.transition t) := by
    refine Net.spares_preset fun q hq u hu => ?_
    have hu : u = t := by
      rcases (hjoin.preset q).1 hq with rfl | rfl
      · exact (hjoin.left_feeds u).1 hu
      · exact (hjoin.right_feeds u).1 hu
    exact hu ▸ hjoin.withinLimit hnet₁
  refine ⟨(hrest.isJoin_of_isJoin hnet₁ hjoin).label, ?_, ?_, hrest.grows.contains hp, ?_, ?_⟩
  · rw [Net.preset_eq, hrest.arcs_of_spares hnet₁ ht hspares, hinto]
    rfl
  · rw [Net.postset_eq, hrest.arcs_of_spares hnet₁ ht (hnet₁.spares_outputs t), hfrom]
    rfl
  · rw [hrest.tokens, s.tokens, Net.tokens_of_not_contains hnew]
  · rw [Net.producers_eq, hrest.arcs_of_spares hnet₁ hp (hnet₁.spares_producers p), hplace]
    rfl

/-- The transitions of the group keep the places that are left as inputs. -/
theorem SplitsGroup.preset_last (h : net.Consistent) (s : SplitsGroup net group joins left net₁)
    (hleft : left.length = group.keep net) (hrest : Splits net₁ steps net')
    (hu : u ∈ group.transitions) : net'.preset u = left := by
  have hnet₁ := s.evolves.consistent
  have hold : net₁.contains (.transition u) = true :=
    s.grows.contains (s.isGroup.contains_transition h hu)
  have hpreset := s.preset_eq_left h hu
  have hspares : net₁.Spares .target (.transition u) := by
    refine Net.spares_preset fun q hq v hv => ?_
    have hv := (s.consumers_left h (hpreset ▸ hq) v).1 hv
    exact s.withinLimit h hleft.le fun _ hnot => absurd hv hnot
  rw [Net.preset_eq, hrest.arcs_of_spares hnet₁ hold hspares, ← Net.preset_eq, hpreset]

end Sync
end PetriCcs
