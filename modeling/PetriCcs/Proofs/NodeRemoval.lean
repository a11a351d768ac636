import PetriCcs.Proofs.EdgeRemoval
import PetriCcs.Proofs.Takeover

/-! # Removing nodes

A node is cut off from its edges (`detach_runOn`), the last node of its kind moves to its handle,
and the edges of that node follow (`reattach_runOn`).  `Net.NodeRemoved` describes the lookups after
the move; a consistent net stays consistent (`Consistent.of_nodeRemoved`). -/

namespace PetriCcs

namespace Net

variable {net net' : Net} {node last : Node}

/-- Nodes other than the freed one keep apart. -/
theorem renamed_inj {n m : Node} (hn : n ≠ node) (hm : m ≠ node)
    (heq : renamed last node n = renamed last node m) : n = m := by
  unfold renamed at heq
  split_ifs at heq with h1 h2 h2
  · rw [h1, h2]
  · exact absurd heq.symm hm
  · exact absurd heq hn
  · exact heq

/-- An edge once the last node has moved to `node`. -/
def movedEdge (last node : Node) (edge : Edge) : Edge :=
  { edge with source := renamed last node edge.source, target := renamed last node edge.target }

theorem endpoint_movedEdge (edge : Edge) (side : Side) :
    (movedEdge last node edge).endpoint side = renamed last node (edge.endpoint side) := by
  cases side <;> rfl

/-- An edge that fits between two nodes fits between the renamed ones, when the two handles of the
moved node are of one kind. -/
theorem fits_renamed {source target : Node} {weight : Weight} (h : Fits source target weight)
    (hkind : ∀ n weight, (Fits last n weight → Fits node n weight) ∧
      (Fits n last weight → Fits n node weight)) :
    Fits (renamed last node source) (renamed last node target) weight := by
  unfold renamed
  split_ifs with hs ht ht
  · rw [hs, ht] at h
    cases last <;> exact absurd h fun hf => hf
  · exact (hkind _ _).1 (hs ▸ h)
  · exact (hkind _ _).2 (ht ▸ h)
  · exact h

/-- No edge ends at a node that lists none. -/
theorem Consistent.endpoint_ne (h : net.Consistent) {side : Side}
    (hisolated : net.listed? side node = some []) {id : EdgeId} {edge : Edge}
    (hid : net.edge? id = some edge) : edge.endpoint side ≠ node := by
  intro hend
  have hmem := (h.mem_listed hisolated id).2 ⟨edge, hid, hend⟩
  exact List.not_mem_nil hmem

/-- What the removal of a node without edges does to the lookups of a net. -/
structure NodeRemoved (net net' : Net) (last node : Node) : Prop where
  identified : net'.Identified
  listed : ∀ side n, net'.listed? side n =
    if n = last then none else if n = node then net.listed? side last else net.listed? side n
  edge : ∀ id, net'.edge? id = (net.edge? id).map fun edge =>
    { edge with source := renamed last node edge.source, target := renamed last node edge.target }

theorem NodeRemoved.takesOver (r : NodeRemoved net net' last node) (side : Side) :
    TakesOver last node (net.listed? side) (net'.listed? side) := r.listed side

theorem NodeRemoved.edge?_eq_some_iff (r : NodeRemoved net net' last node) {id : EdgeId}
    {edge' : Edge} : net'.edge? id = some edge' ↔
      ∃ edge, net.edge? id = some edge ∧ movedEdge last node edge = edge' := by
  rw [r.edge, Option.map_eq_some_iff]
  rfl

/-- When the last node itself goes, no other node is renamed. -/
theorem NodeRemoved.of_last (hid : net'.Identified) (hedges : net'.edges = net.edges)
    (hlisted : ∀ side, TakesOver last node (net.listed? side) (net'.listed? side))
    (hlast : last = node) : NodeRemoved net net' last node := by
  refine ⟨hid, hlisted, fun k => ?_⟩
  have hsame : ∀ n, renamed last node n = n := by
    intro n
    unfold renamed
    split_ifs with hn
    · rw [hn, hlast]
    · rfl
  have hedge : net'.edge? k = net.edge? k := by rw [edge?, edge?, hedges]
  simp only [hsame, hedge]
  cases net.edge? k <;> rfl

/-- Moving the last node into the place of one without edges keeps a net consistent. -/
theorem Consistent.of_nodeRemoved (h : net.Consistent) (r : NodeRemoved net net' last node)
    (hisolated : ∀ side, net.listed? side node = some [])
    (hkind : ∀ n weight, (Fits last n weight → Fits node n weight) ∧
      (Fits n last weight → Fits n node weight)) : net'.Consistent := by
  have hne : ∀ {id edge}, net.edge? id = some edge → ∀ side, edge.endpoint side ≠ node :=
    fun hid side => h.endpoint_ne (hisolated side) hid
  refine ⟨r.identified, ?_, ?_, ?_, ?_, ?_, ?_⟩
  · intro id edge' hid'
    obtain ⟨edge, hid, rfl⟩ := r.edge?_eq_some_iff.1 hid'
    have hown := h.edge_id hid
    exact hown
  · intro side n edges hl'
    obtain ⟨m, -, rfl, hl⟩ := (r.takesOver side).eq_renamed hl'
    exact h.nodup hl
  · intro side n edges hl' id
    obtain ⟨m, hm, rfl, hl⟩ := (r.takesOver side).eq_renamed hl'
    rw [h.mem_listed hl id]
    constructor
    · rintro ⟨edge, hid, rfl⟩
      exact ⟨_, r.edge?_eq_some_iff.2 ⟨edge, hid, rfl⟩, endpoint_movedEdge edge side⟩
    · rintro ⟨edge', hid', hend⟩
      obtain ⟨edge, hid, rfl⟩ := r.edge?_eq_some_iff.1 hid'
      rw [endpoint_movedEdge] at hend
      exact ⟨edge, hid, renamed_inj (hne hid side) hm hend⟩
  · intro id edge' hid' side
    obtain ⟨edge, hid, rfl⟩ := r.edge?_eq_some_iff.1 hid'
    obtain ⟨edges, hl, -⟩ := h.listed hid side
    refine (contains_iff_listed? side _).2 ⟨edges, ?_⟩
    rw [endpoint_movedEdge, (r.takesOver side).renamed_eq (hne hid side), hl]
  · intro id edge' hid'
    obtain ⟨edge, hid, rfl⟩ := r.edge?_eq_some_iff.1 hid'
    exact fits_renamed (h.fits hid) hkind
  · intro id id' edge edge' hid hid' hs ht
    obtain ⟨old, hold, rfl⟩ := r.edge?_eq_some_iff.1 hid
    obtain ⟨old', hold', rfl⟩ := r.edge?_eq_some_iff.1 hid'
    exact h.unique hold hold' (renamed_inj (hne hold .source) (hne hold' .source) hs)
      (renamed_inj (hne hold .target) (hne hold' .target) ht)

end Net

namespace Edit

variable {net : Net}

/-- Detaching a node removes the arcs that touch it. -/
theorem detach_runOn (h : net.Consistent) {node : Node} (hnode : net.contains node = true) :
    ∃ net', (detach node).runOn net = (.ok (), net') ∧
      Net.Keeps (fun arc => arc.source ≠ node ∧ arc.target ≠ node) net net' ∧
      Net.Stays net net' := by
  obtain ⟨net₁, hrun₁, hkeeps₁, hstays₁⟩ := removeListed_runOn h .target hnode
  obtain ⟨net₂, hrun₂, hkeeps₂, hstays₂⟩ := removeListed_runOn hkeeps₁.consistent .source
    (show net₁.contains node = true by rw [Net.contains_of_bare hkeeps₁.bare]; exact hnode)
  have hrun₁' : (removeListed (storedIncoming node)).runOn net = (.ok (), net₁) := hrun₁
  have hrun₂' : (removeListed (storedOutgoing node)).runOn net₁ = (.ok (), net₂) := hrun₂
  refine ⟨net₂, ?_, (hkeeps₁.trans hkeeps₂).congr fun arc => ?_, hstays₁.trans hstays₂
    fun arc harc => ((hkeeps₂.hasArc_iff hkeeps₁.consistent).1 harc).1⟩
  · rw [detach, runOn_bind_ok hrun₁', hrun₂']
  · by_cases hs : arc.source = node <;> by_cases ht : arc.target = node <;>
      simp [hs, ht, Arc.endpoint]

/-- A node whose arcs are removed lists no edge. -/
theorem isolated_of_keeps {net' : Net} {node : Node} (h : net.Consistent)
    (hnode : net.contains node = true)
    (hkeeps : Net.Keeps (fun arc => arc.source ≠ node ∧ arc.target ≠ node) net net') (side : Side) :
    net'.listed? side node = some [] := by
  obtain ⟨edges, hl⟩ := (Net.contains_iff_listed? side node).1
    (by rw [Net.contains_of_bare hkeeps.bare]; exact hnode)
  cases edges with
  | nil => exact hl
  | cons id edges =>
      obtain ⟨edge, hedge, hend⟩ := hkeeps.consistent.edge_of_mem hl List.mem_cons_self
      have hkeep := of_decide_eq_true ((hkeeps.hasArc_iff h).1 ⟨id, edge, hedge, rfl⟩).2
      cases side with
      | source => exact absurd hend hkeep.1
      | target => exact absurd hend hkeep.2

/-- Changing the listed edges one after the other. -/
theorem forM_updateEdge_runOn (f : Edge → Edge) :
    ∀ (ids : List EdgeId) (net : Net), ids.Nodup → (∀ id ∈ ids, net.edges.contains id = true) →
      ∃ net', (ids.forM fun id => updateEdge id f).runOn net = (.ok (), net') ∧
        net'.bare = net.bare ∧ (∀ side node, net'.listed? side node = net.listed? side node) ∧
        ∀ k, net'.edge? k = if k ∈ ids then (net.edge? k).map f else net.edge? k
  | [], net, _, _ => ⟨net, rfl, rfl, fun _ _ => rfl, fun k => by simp⟩
  | id :: ids, net, hnodup, hcontains => by
      obtain ⟨hid, hids⟩ := List.nodup_cons.1 hnodup
      obtain ⟨net₁, hrun₁, hbare₁, hlisted₁, -, hedge₁⟩ :=
        updateEdge_runOn f (hcontains id List.mem_cons_self)
      have hcontains₁ : ∀ k ∈ ids, net₁.edges.contains k = true := by
        intro k hk
        obtain ⟨edge, hedge⟩ := Arena.contains_iff_get?.1
          (hcontains k (List.mem_cons_of_mem _ hk))
        have hne : k ≠ id := fun e => hid (e ▸ hk)
        refine Arena.contains_iff_get?.2 ⟨edge, ?_⟩
        have hk₁ := hedge₁ k
        rw [if_neg hne] at hk₁
        exact hk₁.trans hedge
      obtain ⟨net₂, hrun₂, hbare₂, hlisted₂, hedge₂⟩ :=
        forM_updateEdge_runOn f ids net₁ hids hcontains₁
      refine ⟨net₂, (runOn_bind_ok hrun₁).trans hrun₂, hbare₂.trans hbare₁,
        fun side node => (hlisted₂ side node).trans (hlisted₁ side node), fun k => ?_⟩
      rw [hedge₂, hedge₁]
      by_cases hk : k = id
      · subst hk
        simp [hid]
      · simp [hk]

/-- The edges that a node lists are pointed at its handle. -/
theorem reattach_runOn {node : Node} {edges : Side → List EdgeId}
    (hlisted : ∀ side, net.listed? side node = some (edges side)) (hnodup : ∀ side, (edges side).Nodup)
    (hcontains : ∀ side, ∀ id ∈ edges side, net.edges.contains id = true) :
    ∃ net', (reattach node).runOn net = (.ok (), net') ∧ net'.bare = net.bare ∧
      (∀ side n, net'.listed? side n = net.listed? side n) ∧
      ∀ id, net'.edge? id = (net.edge? id).map fun edge => { edge with
        source := if id ∈ edges .source then node else edge.source
        target := if id ∈ edges .target then node else edge.target } := by
  obtain ⟨net₁, hrun₁, hbare₁, hlisted₁, hedge₁⟩ := forM_updateEdge_runOn ({ · with target := node })
    (edges .target) net (hnodup .target) (hcontains .target)
  have hcontains₁ : ∀ id ∈ edges .source, net₁.edges.contains id = true := by
    intro id hid
    obtain ⟨edge, hedge⟩ := Arena.contains_iff_get?.1 (hcontains .source id hid)
    have hid₁ := hedge₁ id
    have hedge' : net.edge? id = some edge := hedge
    rw [hedge'] at hid₁
    split at hid₁
    · exact Arena.contains_of_get? hid₁
    · exact Arena.contains_of_get? hid₁
  obtain ⟨net₂, hrun₂, hbare₂, hlisted₂, hedge₂⟩ := forM_updateEdge_runOn ({ · with source := node })
    (edges .source) net₁ (hnodup .source) hcontains₁
  refine ⟨net₂, ?_, hbare₂.trans hbare₁,
    fun side n => (hlisted₂ side n).trans (hlisted₁ side n), fun id => ?_⟩
  · have hin : (storedIncoming node).runOn net = (.ok (edges .target), net) :=
      storedListed_runOn (hlisted .target)
    have hout : (storedOutgoing node).runOn net = (.ok (edges .source), net) :=
      storedListed_runOn (hlisted .source)
    rw [reattach, runOn_bind_ok hin, runOn_bind_ok hout, runOn_bind_ok hrun₁, hrun₂]
  · rw [hedge₂, hedge₁]
    cases net.edge? id with
    | none => simp
    | some edge =>
        by_cases hs : id ∈ edges .source <;> by_cases ht : id ∈ edges .target <;> simp [hs, ht]

/-- Moving the links of the last node: once its lists stand at `node`, pointing its edges there
finishes the removal of a node. -/
theorem reattach_nodeRemoved {net₀ : Net} {last node : Node} (h : net₀.Consistent)
    (hlast : net₀.contains last = true) (hid : net.Identified) (hne : last ≠ node)
    (hedges : net.edges = net₀.edges)
    (hlisted : ∀ side, Net.TakesOver last node (net₀.listed? side) (net.listed? side)) :
    ∃ net', (reattach node).runOn net = (.ok (), net') ∧ net'.bare = net.bare ∧
      Net.NodeRemoved net₀ net' last node := by
  choose edges hlastEdges using fun side => (Net.contains_iff_listed? side last).1 hlast
  have hedge : ∀ id, net.edge? id = net₀.edge? id := fun id => by rw [Net.edge?, Net.edge?, hedges]
  have hnode : ∀ side, net.listed? side node = some (edges side) := by
    intro side
    rw [hlisted, if_neg (fun e => hne e.symm), if_pos rfl, hlastEdges]
  have hcontains : ∀ side, ∀ id ∈ edges side, net.edges.contains id = true := by
    intro side id hmem
    obtain ⟨edge, he, -⟩ := h.edge_of_mem (hlastEdges side) hmem
    exact Arena.contains_of_get? ((hedge id).trans he)
  obtain ⟨net', hrun, hbare, hlisted', hedge'⟩ :=
    reattach_runOn hnode (fun side => h.nodup (hlastEdges side)) hcontains
  refine ⟨net', hrun, hbare, hid.of_bare hbare, fun side n => by rw [hlisted', hlisted], fun id => ?_⟩
  rw [hedge', hedge]
  cases he : net₀.edge? id with
  | none => rfl
  | some edge =>
      have hmem : ∀ side, id ∈ edges side ↔ edge.endpoint side = last := by
        intro side
        rw [h.mem_listed (hlastEdges side)]
        constructor
        · rintro ⟨edge', he', hend⟩
          rw [he] at he'
          cases he'
          exact hend
        · exact fun hend => ⟨edge, he, hend⟩
      simp only [Option.map_some, hmem, Edge.endpoint, Net.renamed]

/-- A node takes over the handle under which it stands; nothing else changes. -/
def Adopts (adopt : Edit Unit) (net : Net) : Prop :=
  ∃ net', adopt.runOn net = (.ok (), net') ∧ net'.Identified ∧ net'.edges = net.edges ∧
    (∀ side n, net'.listed? side n = net.listed? side n) ∧ Net.SameContents net net'

/-- Once the last node stands in the position of another, it takes over the handle (`adopt`) and its
edges follow; nothing is left to do when it is the other. -/
theorem moveLast_runOn {α : Type} {net₁ net₂ : Net} {last node : Node} {adopt : Edit Unit}
    {moved : Bool} (value : α) (hmoved : moved = true ↔ last ≠ node) (h : net₁.Consistent)
    (hlast : net₁.contains last = true) (hedges : net₂.edges = net₁.edges)
    (hlisted : ∀ side, Net.TakesOver last node (net₁.listed? side) (net₂.listed? side))
    (hid : net₂.IdentifiedBut node) (hadopt : net₂.contains node = true → Adopts adopt net₂) :
    ∃ net', (do
        if moved then
          adopt
          reattach node
        return value : Edit α).runOn net₂ = (.ok value, net') ∧
      Net.NodeRemoved net₁ net' last node ∧ Net.SameContents net₂ net' := by
  have hnode := hlisted .source node
  by_cases heq : last = node
  · have hstay : moved = false := Bool.eq_false_iff.2 fun hm => hmoved.1 hm heq
    rw [if_pos heq.symm] at hnode
    have hgone : ¬ net₂.contains node = true := fun hc => by
      obtain ⟨edges, hl⟩ := (Net.contains_iff_listed? .source node).1 hc
      rw [hnode] at hl
      cases hl
    refine ⟨net₂, ?_, Net.NodeRemoved.of_last (hid.identified hgone) hedges hlisted heq,
      Net.SameContents.of_bare rfl⟩
    subst hstay
    rfl
  · obtain ⟨edges, hl⟩ := (Net.contains_iff_listed? .source last).1 hlast
    rw [if_neg fun e => heq e.symm, if_pos rfl, hl] at hnode
    obtain ⟨net₃, hrun₃, hid₃, hedges₃, hlisted₃, hsame₃⟩ :=
      hadopt ((Net.contains_iff_listed? .source node).2 ⟨edges, hnode⟩)
    obtain ⟨net₄, hrun₄, hbare₄, hremoved⟩ := reattach_nodeRemoved h hlast hid₃ heq
      (hedges₃.trans hedges) fun side n => (hlisted₃ side n).trans (hlisted side n)
    refine ⟨net₄, ?_, hremoved, hsame₃.trans (Net.SameContents.of_bare hbare₄)⟩
    obtain rfl := hmoved.2 heq
    exact (runOn_bind_ok hrun₃).trans ((runOn_bind_ok hrun₄).trans (runOn_pure value net₄))

/-! ### Places -/

theorem removePlace_refused {id : PlaceId} (h : ¬ net.contains (.place id) = true) :
    (removePlace id).runOn net = (.error (.unrelatedNode (.place id)), net) := by
  have hid : net.places.contains id = false := Bool.not_eq_true _ |>.mp h
  rw [removePlace, runOn_bind_ok (runOn_get net), hid]
  rfl

theorem adoptPlace_runOn {id : PlaceId} (h : net.IdentifiedBut (.place id))
    (hcontains : net.contains (.place id) = true) : Adopts (updatePlace id ({ · with id })) net := by
  let net' : Net := { net with
    places := { net.places with items := net.places.items.modify id.index ({ · with id }) } }
  have hget : ∀ k, net'.place? k =
      if k = id then (net.place? k).map ({ · with id }) else net.place? k :=
    fun k => Arena.get?_modify (Arena.contains_iff.1 hcontains).1
  have hstored : ∀ {k place}, net'.place? k = some place → place.id = k := by
    intro k place hk
    rw [hget] at hk
    split_ifs at hk with heq
    · obtain ⟨old, -, rfl⟩ := Option.map_eq_some_iff.1 hk
      exact heq.symm
    · exact h.place_id (fun hnode => heq (Node.place.inj hnode)) hk
  have hcontent : ∀ k, net'.placeContent? k = net.placeContent? k := by
    intro k
    rw [Net.placeContent?, hget]
    split_ifs
    · rw [Option.map_map]
      rfl
    · rfl
  refine ⟨net', updatePlace_runOn _ hcontains, ⟨h.places_owner, h.transitions_owner, h.edges_owner,
    hstored, fun hk => h.transition_id Node.noConfusion hk⟩, rfl, fun side n => ?_,
    ⟨rfl, ⟨rfl, Arena.map_toList_modify (f := ({ · with id })) Place.name id.index fun _ => rfl,
      hcontent⟩, ⟨rfl, rfl, fun _ => rfl⟩⟩⟩
  cases n with
  | place k =>
      cases side <;> simp only [Net.listed?, Net.outgoing?, Net.incoming?, hget] <;>
        split_ifs <;> simp [Function.comp_def]
  | transition k => cases side <;> rfl

/-- The part of a removal that is left once the place is cut off. -/
theorem removePlace_detached {id : PlaceId} {net₁ : Net} {removal : Arena.Removal .place Place}
    (hid : net.contains (.place id) = true)
    (hdetach : (detach (.place id)).runOn net = (.ok (), net₁))
    (hswap : net₁.places.swapRemove? id = some removal) :
    (removePlace id).runOn net = (do
      if removal.movedFrom.isSome then
        updatePlace id ({ · with id })
        reattach (.place id)
      return removal.value : Edit Place).runOn (net₁.withoutPlace removal) := by
  have hid' : net.places.contains id = true := hid
  rw [removePlace, runOn_bind_ok (runOn_get net), hid']
  refine (runOn_bind_ok hdetach).trans ?_
  rw [runOn_bind_ok (runOn_get net₁), hswap]
  exact runOn_bind_ok (runOn_set (net₁.withoutPlace removal) net₁)

/-- Removing a place of a consistent net succeeds: its arcs go, the last place takes over its
handle and its name is given back. -/
theorem removePlace_runOn (h : net.Consistent) {id : PlaceId} {place : Place}
    (hid : net.place? id = some place) :
    ∃ value net₁ net', (removePlace id).runOn net = (.ok value, net') ∧
      Net.Keeps (fun arc => arc.source ≠ .place id ∧ arc.target ≠ .place id) net net₁ ∧
      Net.Stays net net₁ ∧
      Net.NodeRemoved net₁ net' (.place net.places.lastHandle) (.place id) ∧
      Net.PlaceRemoved net net' id place.name := by
  have hcontains : net.contains (.place id) = true := Arena.contains_of_get? hid
  obtain ⟨net₁, hrun₁, hkeeps, hstays⟩ := detach_runOn h hcontains
  obtain ⟨place₁, hplace₁, hname⟩ := Net.place?_of_bare hkeeps.bare hid
  obtain ⟨removal, hswap, hvalue, hmoved, howner, -, hget⟩ := Arena.swapRemove?_eq hplace₁
  have hmoved' : removal.movedFrom.isSome = true ↔
      Node.place net₁.places.lastHandle ≠ .place id := by
    rw [hmoved, ne_eq, Node.place.injEq]
    split_ifs with heq <;> simp [heq]
  have hedges : (net₁.withoutPlace removal).edges = net₁.edges := rfl
  have hbut := hkeeps.consistent.identified.withoutPlace howner hget
  obtain ⟨net', hrun', hremoved, hsame⟩ := moveLast_runOn removal.value hmoved' hkeeps.consistent
    (Arena.contains_iff_get?.2 (Arena.exists_get?_lastHandle hplace₁)) hedges
    (Net.listed?_withoutPlace hget) hbut (adoptPlace_runOn hbut)
  have hplace := ((Net.placeRemoved_withoutPlace hswap hget).congr hsame).of_bare hkeeps.bare
  rw [Net.lastPlace_of_bare hkeeps.bare] at hremoved
  rw [hvalue, hname] at hplace
  exact ⟨removal.value, net₁, net', (removePlace_detached hcontains hrun₁ hswap).trans hrun',
    hkeeps, hstays, hremoved, hplace⟩

/-! ### Transitions -/

theorem removeTransition_refused {id : TransitionId} (h : ¬ net.contains (.transition id) = true) :
    (removeTransition id).runOn net = (.error (.unrelatedNode (.transition id)), net) := by
  have hid : net.transitions.contains id = false := Bool.not_eq_true _ |>.mp h
  rw [removeTransition, runOn_bind_ok (runOn_get net), hid]
  rfl

theorem adoptTransition_runOn {id : TransitionId} (h : net.IdentifiedBut (.transition id))
    (hcontains : net.contains (.transition id) = true) :
      Adopts (updateTransition id ({ · with id })) net := by
  let net' : Net := { net with
    transitions := { net.transitions with
      items := net.transitions.items.modify id.index ({ · with id }) } }
  have hget : ∀ k, net'.transition? k =
      if k = id then (net.transition? k).map ({ · with id }) else net.transition? k :=
    fun k => Arena.get?_modify (Arena.contains_iff.1 hcontains).1
  have hstored : ∀ {k transition}, net'.transition? k = some transition → transition.id = k := by
    intro k transition hk
    rw [hget] at hk
    split_ifs at hk with heq
    · obtain ⟨old, -, rfl⟩ := Option.map_eq_some_iff.1 hk
      exact heq.symm
    · exact h.transition_id (fun hnode => heq (Node.transition.inj hnode)) hk
  have hcontent : ∀ k, net'.transitionContent? k = net.transitionContent? k := by
    intro k
    rw [Net.transitionContent?, hget]
    split_ifs
    · rw [Option.map_map]
      rfl
    · rfl
  refine ⟨net', updateTransition_runOn _ hcontains, ⟨h.places_owner, h.transitions_owner,
    h.edges_owner, fun hk => h.place_id Node.noConfusion hk, hstored⟩, rfl, fun side n => ?_,
    ⟨rfl, ⟨rfl, rfl, fun _ => rfl⟩, ⟨rfl, Arena.map_toList_modify (f := ({ · with id }))
      Transition.name id.index fun _ => rfl, hcontent⟩⟩⟩
  cases n with
  | place k => cases side <;> rfl
  | transition k =>
      cases side <;> simp only [Net.listed?, Net.outgoing?, Net.incoming?, hget] <;>
        split_ifs <;> simp [Function.comp_def]

/-- The part of a removal that is left once the transition is cut off. -/
theorem removeTransition_detached {id : TransitionId} {net₁ : Net}
    {removal : Arena.Removal .transition Transition}
    (hid : net.contains (.transition id) = true)
    (hdetach : (detach (.transition id)).runOn net = (.ok (), net₁))
    (hswap : net₁.transitions.swapRemove? id = some removal) :
    (removeTransition id).runOn net = (do
      if removal.movedFrom.isSome then
        updateTransition id ({ · with id })
        reattach (.transition id)
      return removal.value : Edit Transition).runOn (net₁.withoutTransition removal) := by
  have hid' : net.transitions.contains id = true := hid
  rw [removeTransition, runOn_bind_ok (runOn_get net), hid']
  refine (runOn_bind_ok hdetach).trans ?_
  rw [runOn_bind_ok (runOn_get net₁), hswap]
  exact runOn_bind_ok (runOn_set (net₁.withoutTransition removal) net₁)

/-- Removing a transition of a consistent net succeeds: its arcs go, the last transition takes over
its handle and its name is given back. -/
theorem removeTransition_runOn (h : net.Consistent) {id : TransitionId} {transition : Transition}
    (hid : net.transition? id = some transition) :
    ∃ value net₁ net', (removeTransition id).runOn net = (.ok value, net') ∧
      Net.Keeps (fun arc => arc.source ≠ .transition id ∧ arc.target ≠ .transition id) net net₁ ∧
      Net.Stays net net₁ ∧
      Net.NodeRemoved net₁ net' (.transition net.transitions.lastHandle) (.transition id) ∧
      Net.TransitionRemoved net net' id transition.name := by
  have hcontains : net.contains (.transition id) = true := Arena.contains_of_get? hid
  obtain ⟨net₁, hrun₁, hkeeps, hstays⟩ := detach_runOn h hcontains
  obtain ⟨transition₁, htransition₁, hname⟩ := Net.transition?_of_bare hkeeps.bare hid
  obtain ⟨removal, hswap, hvalue, hmoved, howner, -, hget⟩ := Arena.swapRemove?_eq htransition₁
  have hmoved' : removal.movedFrom.isSome = true ↔
      Node.transition net₁.transitions.lastHandle ≠ .transition id := by
    rw [hmoved, ne_eq, Node.transition.injEq]
    split_ifs with heq <;> simp [heq]
  have hedges : (net₁.withoutTransition removal).edges = net₁.edges := rfl
  have hbut := hkeeps.consistent.identified.withoutTransition howner hget
  obtain ⟨net', hrun', hremoved, hsame⟩ := moveLast_runOn removal.value hmoved' hkeeps.consistent
    (Arena.contains_iff_get?.2 (Arena.exists_get?_lastHandle htransition₁)) hedges
    (Net.listed?_withoutTransition hget) hbut (adoptTransition_runOn hbut)
  have htransition :=
    ((Net.transitionRemoved_withoutTransition hswap hget).congr hsame).of_bare hkeeps.bare
  rw [Net.lastTransition_of_bare hkeeps.bare] at hremoved
  rw [hvalue, hname] at htransition
  exact ⟨removal.value, net₁, net', (removeTransition_detached hcontains hrun₁ hswap).trans hrun',
    hkeeps, hstays, hremoved, htransition⟩

end Edit
end PetriCcs
