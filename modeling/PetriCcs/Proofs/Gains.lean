import PetriCcs.Proofs.Evolution
import PetriCcs.Sync.Basic

/-! # Growing a net by internal transitions

`Net.Grows transitions places` describes a net that has grown by nodes: the old ones keep their
handles and what they hold, and the new ones come after them.  In `Net.Gains transitions places arcs`
the new transitions are internal, the new places are empty, and new arcs stand at the end of the
lists of their endpoints.  The edits from which joins are made are such steps (`join_gains`,
`connect_gains`). -/

namespace PetriCcs
namespace Net

variable {net net' net'' : Net}

/-- The label of a transition of the net. -/
def label? (net : Net) (t : TransitionId) : Option Label := (net.transition? t).map Transition.label

/-- The tokens in a place; none in a place that the net does not have. -/
def tokens (net : Net) (p : PlaceId) : ℕ := ((net.place? p).map (·.tokens.toNat)).getD 0

theorem label?_eq_some {t : TransitionId} {transition : Transition}
    (ht : net.transition? t = some transition) : net.label? t = some transition.label := by
  rw [label?, ht]
  rfl

theorem contains_transition_iff {t : TransitionId} :
    net.contains (.transition t) = true ↔ ∃ label, net.label? t = some label := by
  rw [contains, Arena.contains_iff_get?, label?, transition?]
  cases net.transitions.get? t <;> simp

/-- The label of a transition is part of what it holds. -/
theorem label?_eq_map (net : Net) (t : TransitionId) :
    net.label? t = (net.transitionContent? t).map Prod.snd := by
  rw [label?, transitionContent?, Option.map_map]
  rfl

theorem label?_of_content {t : TransitionId}
    (h : net'.transitionContent? t = net.transitionContent? t) : net'.label? t = net.label? t := by
  rw [label?_eq_map, label?_eq_map, h]

theorem label?_of_bare (h : net'.bare = net.bare) (t : TransitionId) :
    net'.label? t = net.label? t :=
  label?_of_content (transitionContent?_of_bare h t)

/-- The tokens in a place are part of what it holds. -/
theorem tokens_eq_map (net : Net) (p : PlaceId) :
    net.tokens p = ((net.placeContent? p).map (·.2.toNat)).getD 0 := by
  rw [tokens, placeContent?, Option.map_map]
  rfl

theorem tokens_of_bare (h : net'.bare = net.bare) (p : PlaceId) : net'.tokens p = net.tokens p := by
  rw [tokens_eq_map, tokens_eq_map, placeContent?_of_bare h]

theorem tokens_of_not_contains {p : PlaceId} (h : ¬ net.contains (.place p) = true) :
    net.tokens p = 0 := by
  have hnone : net.place? p = none := Arena.get?_eq_none_iff.2 h
  rw [tokens, hnone]
  rfl

variable {transitions transitions' : List TransitionId} {places places' : List PlaceId}
  {arcs arcs' : List Arc}

/-- Growth by nodes after the old ones, which keep what they hold. -/
structure Grows (transitions : List TransitionId) (places : List PlaceId) (net net' : Net) :
    Prop where
  handles_transitions : net'.transitions.handles = net.transitions.handles ++ transitions
  handles_places : net'.places.handles = net.places.handles ++ places
  placeContent : ∀ p, net.contains (.place p) = true → net'.placeContent? p = net.placeContent? p
  transitionContent : ∀ t, net.contains (.transition t) = true →
    net'.transitionContent? t = net.transitionContent? t

theorem Grows.of_bare (h : net'.bare = net.bare) : Grows [] [] net net' where
  handles_transitions := by rw [handles_transitions_of_bare h, List.append_nil]
  handles_places := by rw [handles_places_of_bare h, List.append_nil]
  placeContent := fun p _ => placeContent?_of_bare h p
  transitionContent := fun t _ => transitionContent?_of_bare h t

theorem Grows.contains_place (h : Grows transitions places net net') (p : PlaceId) :
    net'.contains (.place p) = true ↔ p ∈ places ∨ net.contains (.place p) = true := by
  have hmem : ∀ net : Net, net.contains (.place p) = true ↔ p ∈ net.places.handles :=
    fun _ => Arena.mem_handles_iff.symm
  rw [hmem, hmem, h.handles_places, List.mem_append, or_comm]

theorem Grows.contains_transition (h : Grows transitions places net net') (t : TransitionId) :
    net'.contains (.transition t) = true ↔
      t ∈ transitions ∨ net.contains (.transition t) = true := by
  have hmem : ∀ net : Net, net.contains (.transition t) = true ↔ t ∈ net.transitions.handles :=
    fun _ => Arena.mem_handles_iff.symm
  rw [hmem, hmem, h.handles_transitions, List.mem_append, or_comm]

theorem Grows.contains (h : Grows transitions places net net') {node : Node}
    (hnode : net.contains node = true) : net'.contains node = true := by
  cases node with
  | place p => exact (h.contains_place p).2 (Or.inr hnode)
  | transition t => exact (h.contains_transition t).2 (Or.inr hnode)

theorem Grows.nodup_append_places (h : Grows transitions places net net') :
    (net.places.handles ++ places).Nodup :=
  h.handles_places ▸ Arena.nodup_handles net'.places

theorem Grows.nodup_append_transitions (h : Grows transitions places net net') :
    (net.transitions.handles ++ transitions).Nodup :=
  h.handles_transitions ▸ Arena.nodup_handles net'.transitions

theorem Grows.nodup_places (h : Grows transitions places net net') : places.Nodup :=
  h.nodup_append_places.of_append_right

theorem Grows.nodup_transitions (h : Grows transitions places net net') : transitions.Nodup :=
  h.nodup_append_transitions.of_append_right

theorem Grows.fresh_place (h : Grows transitions places net net') (p : PlaceId)
    (hp : p ∈ places) : ¬ net.contains (.place p) = true := fun hold =>
  (List.nodup_append.1 h.nodup_append_places).2.2 p (Arena.mem_handles_iff.2 hold) p hp rfl

theorem Grows.fresh_transition (h : Grows transitions places net net') (t : TransitionId)
    (ht : t ∈ transitions) : ¬ net.contains (.transition t) = true := fun hold =>
  (List.nodup_append.1 h.nodup_append_transitions).2.2 t (Arena.mem_handles_iff.2 hold) t ht rfl

theorem Grows.trans (h : Grows transitions places net net')
    (h' : Grows transitions' places' net' net'') :
    Grows (transitions ++ transitions') (places ++ places') net net'' where
  handles_transitions := by
    rw [h'.handles_transitions, h.handles_transitions, List.append_assoc]
  handles_places := by
    rw [h'.handles_places, h.handles_places, List.append_assoc]
  placeContent := fun p hp => (h'.placeContent p (h.contains hp)).trans (h.placeContent p hp)
  transitionContent := fun t ht =>
    (h'.transitionContent t (h.contains ht)).trans (h.transitionContent t ht)

/-- Growth by internal transitions, empty places and arcs at the end of the lists. -/
structure Gains (transitions : List TransitionId) (places : List PlaceId) (arcs : List Arc)
    (net net' : Net) : Prop extends Grows transitions places net net' where
  claims : Claims places.length transitions.length net net'
  label : ∀ t, net'.label? t = if t ∈ transitions then some .tau else net.label? t
  tokens : ∀ p, net'.tokens p = net.tokens p
  arcs : ∀ side node,
    net'.arcs side node = net.arcs side node ++ arcs.filter (·.endpoint side = node)

theorem Gains.evolves (h : Gains transitions places arcs net net') :
    Evolves (transitions.length + places.length + arcs.length) net net' :=
  h.claims.evolves (by omega) (by omega)

theorem Gains.refl (h : net.Consistent) : Gains [] [] [] net net where
  toGrows := Grows.of_bare rfl
  claims := Claims.refl h
  label := by simp
  tokens := fun _ => rfl
  arcs := by simp

theorem Gains.trans (h : Gains transitions places arcs net net')
    (h' : Gains transitions' places' arcs' net' net'') :
    Gains (transitions ++ transitions') (places ++ places') (arcs ++ arcs') net net'' where
  toGrows := h.toGrows.trans h'.toGrows
  claims := by
    rw [List.length_append, List.length_append]
    exact h.claims.trans h'.claims
  label := by
    intro t
    rw [h'.label, h.label]
    by_cases ht : t ∈ transitions
    · simp [ht]
    · simp [ht]
  tokens := fun p => (h'.tokens p).trans (h.tokens p)
  arcs := by
    intro side node
    rw [h'.arcs, h.arcs, List.filter_append, List.append_assoc]

theorem Gains.hasArc_iff (h : Gains transitions places arcs net net') (hnet : net.Consistent)
    {arc : Arc} : net'.HasArc arc ↔ net.HasArc arc ∨ arc ∈ arcs := by
  have hmem : ∀ {net : Net}, net.Consistent →
      (net.HasArc arc ↔ arc ∈ net.arcs .source (arc.endpoint .source)) := by
    intro net hnet
    rw [hnet.mem_arcs_iff]
    simp
  rw [hmem h.evolves.consistent, hmem hnet, h.arcs, List.mem_append, List.mem_filter]
  simp

theorem Gains.pushTransition (h : net.Consistent) :
    Gains [net.transitions.nextHandle] [] [] net
      (net.pushTransition (net.transitionNames.resolve none) .tau) where
  claims := Claims.pushTransition h (by simp) .tau
  handles_transitions := Arena.handles_push _
  handles_places := (List.append_nil _).symm
  label := by
    intro t
    rw [label?, transition?_pushTransition]
    by_cases ht : t = net.transitions.nextHandle
    · simp [ht]
    · simp [ht, label?]
  tokens := fun _ => rfl
  placeContent := fun _ _ => rfl
  transitionContent := by
    intro t ht
    have hne : t ≠ net.transitions.nextHandle := by
      rintro rfl
      exact Arena.not_contains_nextHandle ht
    rw [transitionContent?, transition?_pushTransition, if_neg hne, transitionContent?]
  arcs := by simp

theorem Gains.pushPlace (h : net.Consistent) :
    Gains [] [net.places.nextHandle] [] net (net.pushPlace (net.placeNames.resolve none) 0) where
  claims := Claims.pushPlace h (by simp) 0
  handles_transitions := (List.append_nil _).symm
  handles_places := Arena.handles_push _
  label := by simp [label?, Net.pushPlace, transition?]
  tokens := by
    intro p
    by_cases hp : p = net.places.nextHandle
    · have hnew : ¬ net.contains (.place p) = true := by
        rw [hp]
        exact Arena.not_contains_nextHandle
      rw [tokens_of_not_contains hnew, Net.tokens, place?_pushPlace, if_pos hp]
      rfl
    · rw [Net.tokens, Net.tokens, place?_pushPlace, if_neg hp]
  placeContent := by
    intro p hp
    have hne : p ≠ net.places.nextHandle := by
      rintro rfl
      exact Arena.not_contains_nextHandle hp
    rw [placeContent?, place?_pushPlace, if_neg hne, placeContent?]
  transitionContent := fun _ _ => rfl
  arcs := by simp

end Net

namespace Edit

variable {net : Net}

/-- An arc between nodes of the net that are not joined yet is added. -/
theorem addEdge_gains (h : net.Consistent) {source target : Node} {weight : Weight}
    (hsource : net.contains source = true) (htarget : net.contains target = true)
    (hfits : Fits source target weight)
    (hnew : ∀ arc, net.HasArc arc → arc.source = source → arc.target ≠ target) :
    ∃ id net', (addEdge source target weight).runOn net = (.ok id, net') ∧
      Net.Gains [] [] [⟨source, target, weight⟩] net net' := by
  have hfind : net.findEdge? source target = none :=
    (Net.findEdge?_eq_none_iff h).2 fun id edge hedge => hnew edge.arc ⟨id, edge, hedge, rfl⟩
  obtain ⟨net', hrun, hadded⟩ := addEdge_runOn hsource htarget hfits hfind
  have hends := @contains_newEdge net source target weight hsource htarget
  have hconsistent := h.of_edgeAdded hadded hends hfits hfind
  refine ⟨_, net', hrun, Net.Grows.of_bare hadded.bare,
    Net.Claims.of_bare hconsistent hadded.bare,
    fun t => by simp [Net.label?_of_bare hadded.bare], Net.tokens_of_bare hadded.bare,
    fun side node => ?_⟩
  have harc : (newEdge net source target weight).arc = ⟨source, target, weight⟩ := rfl
  rw [hadded.arcs h hends, harc, List.filter_singleton]
  congr 1
  split <;> simp_all

end Edit

namespace Sync

variable {net : Net}

/-- The arcs of a join of two places. -/
def joinArcs (left right : PlaceId) (t : TransitionId) (p : PlaceId) : List Arc :=
  [⟨.place left, .transition t, 1⟩, ⟨.place right, .transition t, 1⟩, ⟨.transition t, .place p, 1⟩]

/-- A join consumes from both places and produces into a fresh one. -/
theorem join_gains (h : net.Consistent) {left right : PlaceId}
    (hleft : net.contains (.place left) = true) (hright : net.contains (.place right) = true)
    (hne : left ≠ right) :
    ∃ t p net', (join left right).runOn net = (.ok (t, p), net') ∧
      Net.Gains [t] [p] (joinArcs left right t p) net net' := by
  have hg₁ := Net.Gains.pushTransition h
  set t := net.transitions.nextHandle
  set net₁ := net.pushTransition (net.transitionNames.resolve none) .tau with hnet₁
  have hg₂ := Net.Gains.pushPlace hg₁.evolves.consistent
  set p := net₁.places.nextHandle
  set net₂ := net₁.pushPlace (net₁.placeNames.resolve none) 0 with hnet₂
  have hg := hg₁.trans hg₂
  have hfresh : ∀ arc, net₂.HasArc arc → arc.source ≠ .transition t ∧ arc.target ≠ .transition t := by
    intro arc harc
    have harc₀ : net.HasArc arc := by
      have hiff := (hg.hasArc_iff h).1 harc
      simpa using hiff
    have hnot := hg₁.fresh_transition t (by simp)
    exact ⟨fun e => hnot (e ▸ harc₀.contains h .source), fun e => hnot (e ▸ harc₀.contains h .target)⟩
  have ht : net₂.contains (.transition t) = true := (hg.contains_transition t).2 (Or.inl (by simp))
  have hp : net₂.contains (.place p) = true := (hg.contains_place p).2 (Or.inl (by simp))
  obtain ⟨e₃, net₃, hrun₃, hg₃⟩ := Edit.addEdge_gains hg.evolves.consistent
    (hg.contains hleft) ht (show Fits (.place left) (.transition t) 1 from rfl)
    fun arc harc _ => (hfresh arc harc).2
  obtain ⟨e₄, net₄, hrun₄, hg₄⟩ := Edit.addEdge_gains hg₃.evolves.consistent
    (hg₃.contains (hg.contains hright)) (hg₃.contains ht)
    (show Fits (.place right) (.transition t) 1 from rfl) fun arc harc hs htarget => by
      rcases (hg₃.hasArc_iff hg.evolves.consistent).1 harc with harc | harc
      · exact (hfresh arc harc).2 htarget
      · obtain rfl := List.mem_singleton.1 harc
        exact hne (Node.place.inj hs)
  have hone : (1 : Weight) ≠ 0 := by decide
  obtain ⟨e₅, net₅, hrun₅, hg₅⟩ := Edit.addEdge_gains hg₄.evolves.consistent
    (hg₄.contains (hg₃.contains ht)) (hg₄.contains (hg₃.contains hp))
    (show Fits (.transition t) (.place p) 1 from hone) fun arc harc hs _ => by
      rcases ((hg₃.trans hg₄).hasArc_iff hg.evolves.consistent).1 harc with harc | harc
      · exact (hfresh arc harc).1 hs
      · simp only [List.cons_append, List.nil_append, List.mem_cons, List.not_mem_nil,
          or_false] at harc
        rcases harc with rfl | rfl <;> cases hs
  refine ⟨t, p, net₅, ?_, ((hg.trans hg₃).trans hg₄).trans hg₅⟩
  rw [join, Edit.runOn_bind_ok (Edit.addLabelledTransition_runOn (by simp) .tau net),
    Edit.runOn_bind_ok (Edit.addPlace_runOn (by simp) 0 net₁), Edit.runOn_bind_ok hrun₃,
    Edit.runOn_bind_ok hrun₄, Edit.runOn_bind_ok hrun₅, Edit.runOn_pure]

end Sync
end PetriCcs
