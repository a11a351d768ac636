import PetriCcs.Proofs.Digits
import PetriCcs.Proofs.Synchronise

/-! # Reachable nets

A net is reachable when a finite sequence of operations leads to it, whatever their arguments and
whether they are refused or not; `Net.Reachable n` counts the nodes and edges added on the way.
Reachable nets are consistent (`Reachable.consistent`), their names are tracked while the counters
have room (`Reachable.named`), and so they satisfy `Net.WellFormed`, the invariant in terms of what
a user of the library sees (`reachable_wellFormed`). -/

namespace PetriCcs

/-- How many nodes and edges a synchronisation has added. -/
def Sync.Result.additions (result : Sync.Result) : ℕ := Sync.additions result.steps

/-- How many nodes and edges operations one after the other add to a net. -/
def Change.totalAdditions : List Change → Net → ℕ
  | [], _ => 0
  | change :: changes, net =>
      change.additions (change.runOn net).1 + totalAdditions changes (change.runOn net).2

namespace Net

/-- The nets that operations lead to, with the number of additions in their history. -/
inductive Reachable : ℕ → Net → Prop where
  | empty (tag : ℕ) : Reachable 0 (Net.empty tag)
  | copy {n : ℕ} {net : Net} (h : Reachable n net) (tag : ℕ) : Reachable n (net.copy tag)
  | change {n : ℕ} {net : Net} (h : Reachable n net) (change : Change) :
      Reachable (n + change.additions (change.runOn net).1) (change.runOn net).2
  | synchronise {n : ℕ} {net : Net} {σ : Type} [RandomSource σ] {source source' : σ} {tag : ℕ}
      {result : Sync.Result} (h : Reachable n net)
      (hrun : net.synchronise tag source = .ok (result, source')) :
      Reachable (n + result.additions) result.net

variable {n : ℕ} {net : Net}

/-- What a synchronisation returns: a copy of the net, split group by group if need be. -/
theorem synchronise_splits {σ : Type} [RandomSource σ] {source source' : σ} {tag : ℕ}
    {result : Sync.Result} (h : net.Consistent)
    (hrun : net.synchronise tag source = .ok (result, source')) :
    Sync.Splits (net.copy tag) result.steps result.net ∧
      result.net.isTwoTauSynchronisation = true := by
  by_cases hclass : net.isTwoTauSynchronisation = true
  · rw [synchronise_of_isTwoTauSynchronisation hclass] at hrun
    cases hrun
    exact ⟨Sync.Splits.done (h.copy tag), (isTwoTauSynchronisation_copy net tag).trans hclass⟩
  · by_cases hchoice : net.isGroupChoice = true
    · obtain ⟨output, blocks, rest, hok, hpasses, htwoTau⟩ :=
        synchronise_of_isGroupChoice h hclass hchoice tag source
      rw [hok] at hrun
      cases hrun
      exact ⟨hpasses.splits, htwoTau⟩
    · rw [synchronise_refused hclass hchoice] at hrun
      cases hrun

/-- Reachable nets are consistent. -/
theorem Reachable.consistent (h : net.Reachable n) : net.Consistent := by
  induction h with
  | empty tag => exact consistent_empty tag
  | copy _ tag ih => exact ih.copy tag
  | change _ change ih => exact (change.evolves ih).consistent
  | synchronise _ hrun ih => exact (synchronise_splits ih hrun).1.evolves.consistent

/-- As long as the counters of names have room, names are tracked. -/
theorem Reachable.named (h : net.Reachable n) (hn : n < additionLimit) : net.Named n := by
  induction h with
  | empty tag => exact named_empty 0 tag
  | copy _ tag ih => exact (ih hn).copy tag
  | change hnet change ih =>
      exact (change.evolves hnet.consistent).named _ hn (ih (by omega))
  | synchronise hnet hrun ih =>
      have hcopy := (ih (by omega)).copy
      exact (synchronise_splits hnet.consistent hrun).1.evolves.named _ hn (hcopy _)

theorem Reachable.changes (changes : List Change) (h : net.Reachable n) :
    (changes.foldl (fun net change => (change.runOn net).2) net).Reachable
      (n + Change.totalAdditions changes net) := by
  induction changes generalizing n net with
  | nil => exact h
  | cons change changes ih =>
      have hrest := ih (h.change change)
      rw [Nat.add_assoc] at hrest
      exact hrest

/-- What operations make of the empty net. -/
theorem Reachable.of_changes {changes : List Change} {tag : ℕ}
    (hcount : Change.totalAdditions changes (Net.empty tag) = n) :
    (changes.foldl (fun net change => (change.runOn net).2) (Net.empty tag)).Reachable n := by
  have h := (Reachable.empty tag).changes changes
  rwa [hcount, Nat.zero_add] at h

/-! ### The invariant as a user sees it -/

/-- Nodes and edges are stored under their own handles, edges are listed where they belong and
nowhere else, they join places and transitions with proper weights, and names are unique. -/
structure WellFormed (net : Net) : Prop where
  place_id : ∀ id place, net.place? id = some place → place.id = id ∧ id.owner = net.tag
  transition_id : ∀ id transition, net.transition? id = some transition →
    transition.id = id ∧ id.owner = net.tag
  edge_id : ∀ id edge, net.edge? id = some edge → edge.id = id ∧ id.owner = net.tag
  listed_outgoing : ∀ id edge, net.edge? id = some edge → ∀ node edges,
    net.outgoing? node = some edges → edges.count id = if node = edge.source then 1 else 0
  listed_incoming : ∀ id edge, net.edge? id = some edge → ∀ node edges,
    net.incoming? node = some edges → edges.count id = if node = edge.target then 1 else 0
  outgoing_exists : ∀ node edges, net.outgoing? node = some edges → ∀ id ∈ edges,
    ∃ edge, net.edge? id = some edge
  incoming_exists : ∀ node edges, net.incoming? node = some edges → ∀ id ∈ edges,
    ∃ edge, net.edge? id = some edge
  contains_ends : ∀ id edge, net.edge? id = some edge →
    net.contains edge.source = true ∧ net.contains edge.target = true
  fits : ∀ id edge, net.edge? id = some edge → Fits edge.source edge.target edge.weight
  unique : ∀ id id' edge edge', net.edge? id = some edge → net.edge? id' = some edge' →
    edge.source = edge'.source → edge.target = edge'.target → id = id'
  place_names : (net.places.toList.map Place.displayName).Nodup
  transition_names : (net.transitions.toList.map Transition.displayName).Nodup

/-- A text with a number at its end tells the number. -/
theorem numbered_injective (front : String) :
    Function.Injective fun n : ℕ => front ++ toString n :=
  fun _ _ heq => Text.toString_injective ((String.append_right_inj front).1 heq)

/-- A display name tells the number in it. -/
theorem displayName_injective (letter : String) :
    Function.Injective fun name : NameIndex => letter ++ toString name.toNat :=
  fun _ _ heq => UInt32.toNat_inj.1 (numbered_injective letter heq)

theorem Named.wellFormed (h : net.Consistent) (hnamed : net.Named n) : net.WellFormed := by
  refine ⟨fun id place hid => ⟨h.identified.place_id hid, ?_⟩,
    fun id transition hid => ⟨h.identified.transition_id hid, ?_⟩,
    fun id edge hid => ⟨h.edge_id hid, h.identified.owner_of_edge hid⟩,
    fun id edge hid node edges hl =>
      h.linked.count_listed hid (show net.listed? .source node = _ from hl),
    fun id edge hid node edges hl =>
      h.linked.count_listed hid (show net.listed? .target node = _ from hl),
    fun node edges hl id hmem => ?_, fun node edges hl id hmem => ?_,
    fun id edge hid => ⟨h.contains_endpoint hid .source, h.contains_endpoint hid .target⟩,
    fun id edge hid => h.fits hid, fun id id' edge edge' hid hid' => h.unique hid hid', ?_, ?_⟩
  · exact (Arena.owner_of_get? hid).trans h.identified.places_owner
  · exact (Arena.owner_of_get? hid).trans h.identified.transitions_owner
  · obtain ⟨edge, hedge, -⟩ := h.edge_of_mem (show net.listed? .source node = _ from hl) hmem
    exact ⟨edge, hedge⟩
  · obtain ⟨edge, hedge, -⟩ := h.edge_of_mem (show net.listed? .target node = _ from hl) hmem
    exact ⟨edge, hedge⟩
  · have hnodup := hnamed.places.nodup.map (displayName_injective "p")
    rw [List.map_map] at hnodup
    exact hnodup
  · have hnodup := hnamed.transitions.nodup.map (displayName_injective "t")
    rw [List.map_map] at hnodup
    exact hnodup

/-- Reachable nets are well-formed, the check finds nothing in them, and the queries answer with
exactly what is there, without repetitions. -/
theorem reachable_wellFormed (h : net.Reachable n) (hn : n < additionLimit) :
    net.WellFormed ∧ net.check = .ok () ∧
      (∀ source target id, net.findEdge? source target = some id ↔
        ∃ edge, net.edge? id = some edge ∧ edge.source = source ∧ edge.target = target) ∧
      (∀ t, (net.preset t).Nodup ∧ ∀ p, p ∈ net.preset t ↔ ∃ id edge,
        net.edge? id = some edge ∧ edge.source = .place p ∧ edge.target = .transition t) ∧
      (∀ t, ((net.postset t).map Prod.fst).Nodup ∧ ∀ p weight, (p, weight) ∈ net.postset t ↔
        ∃ id edge, net.edge? id = some edge ∧ edge.source = .transition t ∧
          edge.target = .place p ∧ edge.weight = weight) ∧
      (∀ p, (net.consumers p).Nodup ∧ ∀ t, t ∈ net.consumers p ↔ ∃ id edge,
        net.edge? id = some edge ∧ edge.source = .place p ∧ edge.target = .transition t) := by
  have hnet := h.consistent
  have hconsumes : ∀ p t, net.HasArc ⟨.place p, .transition t, 1⟩ ↔ ∃ id edge,
      net.edge? id = some edge ∧ edge.source = .place p ∧ edge.target = .transition t := by
    intro p t
    constructor
    · rintro ⟨id, edge, hedge, harc⟩
      exact ⟨id, edge, hedge, congrArg Arc.source harc, congrArg Arc.target harc⟩
    · rintro ⟨id, edge, hedge, hsource, htarget⟩
      have hfits := hnet.fits hedge
      rw [hsource, htarget] at hfits
      have hweight : edge.weight = 1 := hfits
      exact ⟨id, edge, hedge, by rw [Edge.arc, hsource, htarget, hweight]⟩
  refine ⟨(h.named hn).wellFormed hnet, hnet.check, fun source target id => findEdge?_eq_some_iff hnet,
    fun t => ⟨hnet.nodup_preset t, fun p => hnet.mem_preset_iff.trans (hconsumes p t)⟩,
    fun t => ⟨hnet.nodup_postset t, fun p weight => hnet.mem_postset_iff.trans ?_⟩,
    fun p => ⟨hnet.nodup_consumers p, fun t => hnet.mem_consumers_iff.trans (hconsumes p t)⟩⟩
  constructor
  · rintro ⟨id, edge, hedge, harc⟩
    exact ⟨id, edge, hedge, congrArg Arc.source harc, congrArg Arc.target harc,
      congrArg Arc.weight harc⟩
  · rintro ⟨id, edge, hedge, hsource, htarget, rfl⟩
    exact ⟨id, edge, hedge, by rw [Edge.arc, hsource, htarget]⟩

/-- A history that skips a name, removes a place with its edge, and then asks in vain for nodes under
a stale handle and under a handle of another net. -/
def wear : List Change :=
  [.addPlace none 2, .addPlace (some 5) 1, .addPlace none 0,
    .addLabelledTransition none (.visible "a"), .addLabelledTransition none .tau,
    .addEdge (.place ⟨0, 0⟩) (.transition ⟨0, 0⟩) 1,
    .addEdge (.transition ⟨0, 0⟩) (.place ⟨0, 1⟩) 3,
    .addEdge (.place ⟨0, 1⟩) (.transition ⟨0, 1⟩) 1,
    .addEdge (.transition ⟨0, 1⟩) (.place ⟨0, 2⟩) 1,
    .addEdge (.place ⟨0, 1⟩) (.transition ⟨0, 0⟩) 1,
    .removePlace ⟨0, 0⟩, .setTokens ⟨0, 2⟩ 9, .removeTransition ⟨1, 0⟩]

/-- Its last place and its last edge took over the freed handles, and `p5` lists its edges out of
order. -/
def worn : Net := wear.foldl (fun net change => (change.runOn net).2) (empty 0)

theorem worn_reachable : worn.Reachable 10 :=
  Reachable.of_changes (by decide +kernel)

/-- The edge that was made last is found under the handle of the one that was removed. -/
theorem reachable_wellFormed_worn : worn.Reachable 10 ∧ 10 < additionLimit ∧ worn.WellFormed ∧
    worn.check = .ok () ∧ (∃ edge, worn.edge? ⟨0, 0⟩ = some edge ∧ edge.source = .place ⟨0, 1⟩ ∧
      edge.target = .transition ⟨0, 0⟩) ∧ ∀ id, worn.findEdge? (.place ⟨0, 2⟩) (.transition ⟨0, 1⟩) ≠
        some id := by
  obtain ⟨hwell, hcheck, hfind, -⟩ := reachable_wellFormed worn_reachable (by decide)
  refine ⟨worn_reachable, by decide, hwell, hcheck, (hfind _ _ _).1 (by decide +kernel), ?_⟩
  intro id hid
  obtain ⟨edge, hedge, hsource, -⟩ := (hfind _ _ _).1 hid
  obtain ⟨hcontains, -⟩ := hwell.contains_ends id edge hedge
  rw [hsource] at hcontains
  exact absurd hcontains (by decide +kernel)

end Net
end PetriCcs
