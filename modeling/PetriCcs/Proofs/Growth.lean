import PetriCcs.Proofs.Arcs

/-! # Adding nodes and edges

A node is added without links (`Net.pushPlace`, `Net.pushTransition`); an edge is added at the end
of the lists of its endpoints, or refused without a trace (`addEdge_runOn`, `addEdge_refused`).  All
of it keeps the net consistent. -/

namespace PetriCcs

/-- An error that answers to an argument; the others are faults of the net. -/
def NetError.IsRefusal : NetError → Prop
  | .dangling _ => False
  | _ => True

namespace Net

variable {net net' : Net}

/-- The net with one more place. -/
def pushPlace (net : Net) (name : NameIndex) (tokens : Weight) : Net :=
  { net with
    places := net.places.push { id := net.places.nextHandle, name, tokens }
    placeNames := net.placeNames.claim name }

/-- The net with one more transition. -/
def pushTransition (net : Net) (name : NameIndex) (label : Label) : Net :=
  { net with
    transitions := net.transitions.push { id := net.transitions.nextHandle, name, label }
    transitionNames := net.transitionNames.claim name }

/-! ### Nodes -/

theorem place?_pushPlace (name : NameIndex) (tokens : Weight) (id : PlaceId) :
    (net.pushPlace name tokens).place? id =
      if id = net.places.nextHandle then
        some { id := net.places.nextHandle, name, tokens } else net.place? id :=
  Arena.get?_push _

theorem transition?_pushTransition (name : NameIndex) (label : Label) (id : TransitionId) :
    (net.pushTransition name label).transition? id =
      if id = net.transitions.nextHandle then
        some { id := net.transitions.nextHandle, name, label } else net.transition? id :=
  Arena.get?_push _

theorem listed?_pushPlace (name : NameIndex) (tokens : Weight) (side : Side) (node : Node) :
    (net.pushPlace name tokens).listed? side node =
      if node = .place net.places.nextHandle then some [] else net.listed? side node := by
  cases node with
  | place id =>
      cases side <;> simp only [listed?, outgoing?, incoming?, place?_pushPlace] <;>
        by_cases hid : id = net.places.nextHandle <;> simp [hid]
  | transition id => cases side <;> simp [listed?, outgoing?, incoming?, transition?, pushPlace]

theorem listed?_pushTransition (name : NameIndex) (label : Label) (side : Side) (node : Node) :
    (net.pushTransition name label).listed? side node =
      if node = .transition net.transitions.nextHandle then some [] else net.listed? side node := by
  cases node with
  | place id => cases side <;> simp [listed?, outgoing?, incoming?, place?, pushTransition]
  | transition id =>
      cases side <;> simp only [listed?, outgoing?, incoming?, transition?_pushTransition] <;>
        by_cases hid : id = net.transitions.nextHandle <;> simp [hid]

theorem Identified.pushPlace (h : net.Identified) (name : NameIndex) (tokens : Weight) :
    (net.pushPlace name tokens).Identified := by
  refine ⟨h.places_owner, h.transitions_owner, h.edges_owner, fun {id place} hp => ?_,
    h.transition_id⟩
  rw [place?_pushPlace] at hp
  split at hp
  · rename_i hid
    cases hp
    exact hid.symm
  · exact h.place_id hp

theorem Identified.pushTransition (h : net.Identified) (name : NameIndex) (label : Label) :
    (net.pushTransition name label).Identified := by
  refine ⟨h.places_owner, h.transitions_owner, h.edges_owner, h.place_id,
    fun {id transition} ht => ?_⟩
  rw [transition?_pushTransition] at ht
  split at ht
  · rename_i hid
    cases ht
    exact hid.symm
  · exact h.transition_id ht

/-- A new node without links keeps a net consistent. -/
theorem Consistent.of_newNode (h : net.Consistent) (hid : net'.Identified)
    (hedges : net'.edges = net.edges) (new : Node) (hnew : ¬ net.contains new = true)
    (hlisted : ∀ side node, net'.listed? side node =
      if node = new then some [] else net.listed? side node) : net'.Consistent := by
  have hedge : ∀ id, net'.edge? id = net.edge? id := fun id => by rw [edge?, edge?, hedges]
  have hne : ∀ {id edge}, net.edge? id = some edge → ∀ side, edge.endpoint side ≠ new :=
    fun he side e => hnew (e ▸ h.contains_endpoint he side)
  refine ⟨hid, fun {id edge} he => h.edge_id (hedge id ▸ he), ?_, ?_, ?_,
    fun {id edge} he => h.fits (hedge id ▸ he), fun {id id' edge edge'} he he' =>
      h.unique (hedge id ▸ he) (hedge id' ▸ he')⟩
  · intro side node edges hl
    rw [hlisted] at hl
    split at hl
    · cases hl
      exact List.nodup_nil
    · exact h.nodup hl
  · intro side node edges hl id
    rw [hlisted] at hl
    rw [hedge]
    split at hl
    · rename_i hnode
      cases hl
      simp only [List.not_mem_nil, false_iff]
      rintro ⟨edge, he, hend⟩
      exact hne he side (hend.trans hnode)
    · exact h.mem_listed hl id
  · intro id edge he side
    rw [hedge] at he
    obtain ⟨edges, hl, -⟩ := h.listed he side
    refine (contains_iff_listed? side _).2 ⟨edges, ?_⟩
    rw [hlisted, if_neg (hne he side), hl]

theorem Consistent.pushPlace (h : net.Consistent) (name : NameIndex) (tokens : Weight) :
    (net.pushPlace name tokens).Consistent :=
  h.of_newNode (h.identified.pushPlace name tokens) rfl
    (.place net.places.nextHandle) Arena.not_contains_nextHandle
    (listed?_pushPlace name tokens)

theorem Consistent.pushTransition (h : net.Consistent) (name : NameIndex) (label : Label) :
    (net.pushTransition name label).Consistent :=
  h.of_newNode (h.identified.pushTransition name label) rfl
    (.transition net.transitions.nextHandle) Arena.not_contains_nextHandle
    (listed?_pushTransition name label)

@[simp] theorem arcs_pushPlace (name : NameIndex) (tokens : Weight) (side : Side) (node : Node) :
    (net.pushPlace name tokens).arcs side node = net.arcs side node := by
  have hnew : ¬ net.contains (.place net.places.nextHandle) = true := Arena.not_contains_nextHandle
  rw [arcs, arcs, listed?_pushPlace]
  by_cases hnode : node = .place net.places.nextHandle
  · subst hnode
    rw [if_pos rfl, listed?_eq_none hnew]
    rfl
  · rw [if_neg hnode]
    rfl

@[simp] theorem arcs_pushTransition (name : NameIndex) (label : Label) (side : Side) (node : Node) :
    (net.pushTransition name label).arcs side node = net.arcs side node := by
  have hnew : ¬ net.contains (.transition net.transitions.nextHandle) = true :=
    Arena.not_contains_nextHandle
  rw [arcs, arcs, listed?_pushTransition]
  by_cases hnode : node = .transition net.transitions.nextHandle
  · subst hnode
    rw [if_pos rfl, listed?_eq_none hnew]
    rfl
  · rw [if_neg hnode]
    rfl

/-- The net after an edge was stored under the next handle and added at the end of the lists of its
endpoints. -/
structure EdgeAdded (net net' : Net) (new : Edge) : Prop where
  bare : net'.bare = net.bare
  id : new.id = net.edges.nextHandle
  edges : net'.edges = net.edges.push new
  listed : ∀ side node, net'.listed? side node =
    if node = new.endpoint side then (net.listed? side node).map (· ++ [new.id])
    else net.listed? side node

end Net

namespace Edit

variable {net : Net}

theorem addPlace_runOn {hint : Option NameIndex} (hhint : hint ≠ some 0) (tokens : Weight)
    (net : Net) : (addPlace hint tokens).runOn net =
      (.ok net.places.nextHandle, net.pushPlace (net.placeNames.resolve hint) tokens) := by
  have hcheck : (checkHint hint).runOn net = (.ok (), net) := by
    rw [checkHint, if_neg hhint]
    rfl
  rw [addPlace, runOn_bind_ok hcheck, runOn_bind_ok (runOn_get net)]
  rfl

theorem addLabelledTransition_runOn {hint : Option NameIndex} (hhint : hint ≠ some 0)
    (label : Label) (net : Net) : (addLabelledTransition hint label).runOn net =
      (.ok net.transitions.nextHandle,
        net.pushTransition (net.transitionNames.resolve hint) label) := by
  have hcheck : (checkHint hint).runOn net = (.ok (), net) := by
    rw [checkHint, if_neg hhint]
    rfl
  rw [addLabelledTransition, runOn_bind_ok hcheck, runOn_bind_ok (runOn_get net)]
  rfl

theorem addPlace_refused (tokens : Weight) (net : Net) :
    (addPlace (some 0) tokens).runOn net = (.error (.invalidArgument .zeroName), net) := by
  rfl

theorem addLabelledTransition_refused (label : Label) (net : Net) :
    (addLabelledTransition (some 0) label).runOn net =
      (.error (.invalidArgument .zeroName), net) := by
  rfl

/-! ### Edges -/

theorem checkNode_runOn {node : Node} (h : net.contains node = true) :
    (checkNode node).runOn net = (.ok (), net) := by
  rw [checkNode, runOn_bind_ok (runOn_get net), h]
  rfl

theorem checkNode_refused {node : Node} (h : ¬ net.contains node = true) :
    (checkNode node).runOn net = (.error (.unrelatedNode node), net) := by
  rw [checkNode, runOn_bind_ok (runOn_get net), Bool.not_eq_true _ |>.mp h]
  rfl

theorem checkEdge_runOn {source target : Node} {weight : Weight} (h : Fits source target weight) :
    (checkEdge source target weight).runOn net = (.ok (), net) := by
  cases source <;> cases target <;> simp_all [Fits, checkEdge]

theorem checkEdge_refused {source target : Node} {weight : Weight} (h : ¬ Fits source target weight) :
    ∃ error, error.IsRefusal ∧ (checkEdge source target weight).runOn net = (.error error, net) := by
  cases source <;> cases target <;> simp_all [Fits, checkEdge, NetError.IsRefusal]

/-- The edge that the next addition stores. -/
def newEdge (net : Net) (source target : Node) (weight : Weight) : Edge :=
  { id := net.edges.nextHandle, source, target, weight }

theorem contains_newEdge {source target : Node} {weight : Weight}
    (hsource : net.contains source = true) (htarget : net.contains target = true) (side : Side) :
    net.contains ((newEdge net source target weight).endpoint side) = true := by
  cases side
  · exact hsource
  · exact htarget

/-- An edge between nodes of the net that fits and is new is added to both lists. -/
theorem addEdge_runOn {source target : Node} {weight : Weight} (hsource : net.contains source = true)
    (htarget : net.contains target = true) (hfits : Fits source target weight)
    (hnew : net.findEdge? source target = none) :
    ∃ net', (addEdge source target weight).runOn net = (.ok net.edges.nextHandle, net') ∧
      Net.EdgeAdded net net' (newEdge net source target weight) := by
  let net₀ : Net := { net with edges := net.edges.push (newEdge net source target weight) }
  have hlisted₀ : ∀ side node, net₀.listed? side node = net.listed? side node := by
    intro side node
    cases side <;> cases node <;> rfl
  have hcontains₀ : net₀.contains source = true := by
    cases source <;> exact hsource
  obtain ⟨net₁, hrun₁, hbare₁, hedges₁, hlisted₁⟩ :=
    updateListed_runOn .source source (· ++ [net.edges.nextHandle]) hcontains₀
  have hcontains₁ : net₁.contains target = true := by
    rw [Net.contains_of_bare hbare₁]
    cases target <;> exact htarget
  obtain ⟨net₂, hrun₂, hbare₂, hedges₂, hlisted₂⟩ :=
    updateListed_runOn .target target (· ++ [net.edges.nextHandle]) hcontains₁
  refine ⟨net₂, ?_, hbare₂.trans hbare₁, rfl, hedges₂.trans hedges₁, ?_⟩
  · rw [addEdge, runOn_bind_ok (checkNode_runOn hsource), runOn_bind_ok (checkNode_runOn htarget),
      runOn_bind_ok (checkEdge_runOn hfits), runOn_bind_ok (runOn_get net), hnew]
    have hout : (updateOutgoing source (· ++ [net.edges.nextHandle])).runOn net₀ = (.ok (), net₁) :=
      hrun₁
    have hin : (updateIncoming target (· ++ [net.edges.nextHandle])).runOn net₁ = (.ok (), net₂) :=
      hrun₂
    simp only [Option.isSome_none, Bool.false_eq_true, if_false]
    refine (runOn_bind_ok (runOn_set net₀ net)).trans ?_
    rw [runOn_bind_ok hout, runOn_bind_ok hin, runOn_pure]
  · intro side node
    rw [hlisted₂, hlisted₁, hlisted₀]
    cases side with
    | source => by_cases hnode : node = source <;> simp [hnode, newEdge, Edge.endpoint]
    | target => by_cases hnode : node = target <;> simp [hnode, newEdge, Edge.endpoint]

/-- Any other edge is refused, and nothing changes. -/
theorem addEdge_refusal {source target : Node} {weight : Weight}
    (h : ¬ (net.contains source = true ∧ net.contains target = true ∧ Fits source target weight ∧
      net.findEdge? source target = none)) :
    ∃ error, error.IsRefusal ∧ (addEdge source target weight).runOn net = (.error error, net) := by
  rw [addEdge]
  by_cases hsource : net.contains source = true
  · rw [runOn_bind_ok (checkNode_runOn hsource)]
    by_cases htarget : net.contains target = true
    · rw [runOn_bind_ok (checkNode_runOn htarget)]
      by_cases hfits : Fits source target weight
      · rw [runOn_bind_ok (checkEdge_runOn hfits), runOn_bind_ok (runOn_get net)]
        cases hfind : net.findEdge? source target with
        | none => exact absurd ⟨hsource, htarget, hfits, hfind⟩ h
        | some id => exact ⟨.duplicateEdge source target, trivial, rfl⟩
      · obtain ⟨error, hrefusal, herror⟩ := @checkEdge_refused net _ _ _ hfits
        exact ⟨error, hrefusal, runOn_bind_error herror⟩
    · exact ⟨.unrelatedNode target, trivial, runOn_bind_error (checkNode_refused htarget)⟩
  · exact ⟨.unrelatedNode source, trivial, runOn_bind_error (checkNode_refused hsource)⟩

theorem addEdge_refused {source target : Node} {weight : Weight}
    (h : ¬ (net.contains source = true ∧ net.contains target = true ∧ Fits source target weight ∧
      net.findEdge? source target = none)) :
    ∃ error, (addEdge source target weight).runOn net = (.error error, net) :=
  (addEdge_refusal h).imp fun _ herror => herror.2

end Edit

namespace Net

variable {net net' : Net}

namespace EdgeAdded

variable {new : Edge}

theorem edge?_eq (a : EdgeAdded net net' new) (id : EdgeId) :
    net'.edge? id = if id = new.id then some new else net.edge? id := by
  rw [edge?, a.edges, a.id]
  exact Arena.get?_push new

/-- The handle of the new edge was free. -/
theorem ne_id (a : EdgeAdded net net' new) {id : EdgeId} {edge : Edge}
    (hid : net.edge? id = some edge) : id ≠ new.id := by
  rintro rfl
  have hfresh : net.edge? new.id = none := by
    rw [a.id]
    exact Arena.get?_eq_none_iff.2 Arena.not_contains_nextHandle
  rw [hfresh] at hid
  cases hid

theorem not_mem_listed (a : EdgeAdded net net' new) (h : net.Consistent) {side : Side} {node : Node}
    {old : List EdgeId} (hold : net.listed? side node = some old) : new.id ∉ old := by
  intro hmem
  obtain ⟨edge, hedge, -⟩ := h.edge_of_mem hold hmem
  exact a.ne_id hedge rfl

/-- The lists hold the new edge where it ends and the old edges where they were. -/
theorem mem_listed (a : EdgeAdded net net' new) (h : net.Consistent) {side : Side} {node : Node}
    {edges : List EdgeId} (hl : net'.listed? side node = some edges) (id : EdgeId) :
    id ∈ edges ↔ ∃ edge, net'.edge? id = some edge ∧ edge.endpoint side = node := by
  rw [a.listed] at hl
  rw [a.edge?_eq]
  by_cases hid : id = new.id
  · subst hid
    rw [if_pos rfl]
    split at hl
    · rename_i hnode
      obtain ⟨old, hold, rfl⟩ := Option.map_eq_some_iff.1 hl
      simpa using hnode.symm
    · rename_i hnode
      simpa [a.not_mem_listed h hl] using fun heq => hnode heq.symm
  · rw [if_neg hid]
    split at hl
    · obtain ⟨old, hold, rfl⟩ := Option.map_eq_some_iff.1 hl
      rw [List.mem_append, List.mem_singleton, or_iff_left hid, h.mem_listed hold id]
    · exact h.mem_listed hl id

/-- The new arc stands at the end of the lists of its endpoints. -/
theorem arcs (a : EdgeAdded net net' new) (h : net.Consistent)
    (hcontains : ∀ side, net.contains (new.endpoint side) = true) (side : Side) (node : Node) :
    net'.arcs side node =
      net.arcs side node ++ if new.arc.endpoint side = node then [new.arc] else [] := by
  have hsame : ∀ {old : List EdgeId}, net.listed? side node = some old →
      old.filterMap (fun id => (net'.edge? id).map Edge.arc) =
        old.filterMap fun id => (net.edge? id).map Edge.arc := by
    intro old hold
    refine List.filterMap_congr fun id hid => ?_
    obtain ⟨edge, hedge, -⟩ := h.edge_of_mem hold hid
    rw [a.edge?_eq, if_neg (a.ne_id hedge)]
  have harc : (net'.edge? new.id).map Edge.arc = some new.arc := by
    rw [a.edge?_eq, if_pos rfl]
    rfl
  rw [Net.arcs, Net.arcs, a.listed, Edge.endpoint_arc]
  by_cases hnode : node = new.endpoint side
  · rw [if_pos hnode, if_pos hnode.symm]
    obtain ⟨old, hold⟩ := (contains_iff_listed? side node).1 (hnode ▸ hcontains side)
    rw [hold, Option.map_some, Option.getD_some, Option.getD_some, List.filterMap_append,
      hsame hold]
    simp [harc]
  · rw [if_neg hnode, if_neg (fun heq => hnode heq.symm), List.append_nil]
    cases hl : net.listed? side node with
    | none => rfl
    | some old => exact hsame hl

end EdgeAdded

/-- A new edge at the end of both lists keeps a net consistent. -/
theorem Consistent.of_edgeAdded (h : net.Consistent) {new : Edge} (a : EdgeAdded net net' new)
    (hcontains : ∀ side, net.contains (new.endpoint side) = true)
    (hfits : Fits new.source new.target new.weight)
    (hnew : net.findEdge? new.source new.target = none) : net'.Consistent := by
  have hother := (findEdge?_eq_none_iff h).1 hnew
  refine ⟨h.identified.of_bare a.bare, ?_, ?_, a.mem_listed h, ?_, ?_, ?_⟩
  · intro id edge hedge
    rw [a.edge?_eq] at hedge
    split at hedge
    · rename_i hid
      cases hedge
      exact hid.symm
    · exact h.edge_id hedge
  · intro side node edges hl
    rw [a.listed] at hl
    split at hl
    · obtain ⟨old, hold, rfl⟩ := Option.map_eq_some_iff.1 hl
      refine List.nodup_append.2 ⟨h.nodup hold, List.nodup_singleton _, ?_⟩
      intro id hid id' hid' heq
      rw [List.mem_singleton.1 hid'] at heq
      exact a.not_mem_listed h hold (heq ▸ hid)
    · exact h.nodup hl
  · intro id edge hedge side
    rw [contains_of_bare a.bare]
    rw [a.edge?_eq] at hedge
    split at hedge
    · cases hedge
      exact hcontains side
    · exact h.contains_endpoint hedge side
  · intro id edge hedge
    rw [a.edge?_eq] at hedge
    split at hedge
    · cases hedge
      exact hfits
    · exact h.fits hedge
  · intro id id' edge edge' hedge hedge' hs ht
    rw [a.edge?_eq] at hedge hedge'
    split at hedge
    · rename_i hid
      cases hedge
      split at hedge'
      · rename_i hid'
        exact hid.trans hid'.symm
      · exact absurd ht.symm (hother id' edge' hedge' hs.symm)
    · split at hedge'
      · cases hedge'
        exact absurd ht (hother id edge hedge hs)
      · exact h.unique hedge hedge' hs ht

end Net
end PetriCcs
