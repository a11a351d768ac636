import PetriCcs.Proofs.NamedEdits

/-! # The contract of the edits

`Net.RefinesGraph` states, for every edit, when it is carried out, which operation of the named graph
it is then, and what the handles denote afterwards.  Adding leaves every handle as it is.  Removing
an element moves the last one of its collection to the freed handle; every other handle still in use
denotes what it did, the handles of edges included that went down with a node. -/

namespace PetriCcs

/-- An edit is carried out with a result as described when its condition holds; otherwise it is
refused and the net stays as it is. -/
structure Edit.Meets {α : Type} (edit : Edit α) (net : Net) (condition : Prop)
    (result : α → Net → Prop) : Prop where
  carriedOut : condition → ∃ value net', edit.runOn net = (.ok value, net') ∧ result value net'
  refused : ¬ condition → ∃ error, edit.runOn net = (.error error, net)

namespace Net

variable {net net' : Net} {g : NamedGraph}

/-! ### Handles -/

/-- Every handle in use denotes what it did before. -/
structure KeepsHandles (net net' : Net) : Prop where
  node : ∀ {n a}, net.name? n = some a → net'.name? n = some a
  edge : ∀ {id arc}, net.arcName? id = some arc → net'.arcName? id = some arc

/-- The same handles are in use and denote the same. -/
structure SameHandles (net net' : Net) : Prop where
  node : ∀ n, net'.name? n = net.name? n
  edge : ∀ id, net'.arcName? id = net.arcName? id

/-- After the removal of a node, the edges under the handles still in use are those that were there
before, unless they went with the node. -/
def EdgesStay (removed : NodeName) (net net' : Net) : Prop :=
  ∀ id arc', net'.arcName? id = some arc' → ∃ arc, net.arcName? id = some arc ∧
    (arc.source ≠ removed → arc.target ≠ removed → arc' = arc)

theorem Consistent.arcName?_eq_some_iff (h : net.Consistent) {id : EdgeId} :
    (∃ arc, net.arcName? id = some arc) ↔ ∃ edge, net.edge? id = some edge := by
  constructor
  · rintro ⟨arc, harc⟩
    obtain ⟨edge, hedge, -⟩ := Option.bind_eq_some_iff.1 harc
    exact ⟨edge, hedge⟩
  · rintro ⟨edge, hedge⟩
    have harc : net.HasArc edge.arc := ⟨id, edge, hedge, rfl⟩
    obtain ⟨a, ha⟩ := harc.exists_name h .source
    obtain ⟨b, hb⟩ := harc.exists_name h .target
    refine ⟨⟨a, b, edge.weight⟩, ?_⟩
    rw [arcName?, hedge, Option.bind_some]
    exact nameArc?_eq_some_iff.2 ⟨ha, hb, rfl⟩

theorem KeepsHandles.of_names (h : net.Consistent)
    (hedge : ∀ {id edge}, net.edge? id = some edge → net'.edge? id = some edge)
    (hname : ∀ {n a}, net.name? n = some a → net'.name? n = some a) : KeepsHandles net net' := by
  refine ⟨hname, fun {id arc} harc => ?_⟩
  obtain ⟨edge, hid, hnamed⟩ := Option.bind_eq_some_iff.1 harc
  have hhas : net.HasArc edge.arc := ⟨id, edge, hid, rfl⟩
  rw [arcName?, hedge hid, Option.bind_some, hhas.nameArc?_eq h hname, hnamed]

theorem SameHandles.of_names (hedge : ∀ id, net'.edge? id = net.edge? id)
    (hname : ∀ n, net'.name? n = net.name? n) : SameHandles net net' := by
  refine ⟨hname, fun id => ?_⟩
  rw [arcName?, arcName?, hedge]
  cases net.edge? id with
  | none => rfl
  | some edge => exact nameArc?_congr (hname _) (hname _) rfl

/-- The last edge takes over the freed handle also by name. -/
theorem EdgeRemoved.arcName? {id : EdgeId} (r : EdgeRemoved net net' id) :
    TakesOver net.edges.lastHandle id net.arcName? net'.arcName? := by
  intro n
  have hbind : ∀ edge? : Option Edge, (edge?.map ({ · with id := n })).bind
      (fun edge => net'.nameArc? edge.arc) = edge?.bind fun edge => net.nameArc? edge.arc := by
    intro edge?
    cases edge? with
    | none => rfl
    | some edge => exact nameArc?_of_bare r.bare edge.arc
  rw [Net.arcName?, r.edge]
  split_ifs with hlast hid
  · rfl
  · rw [hbind, origin, if_pos hid]
    rfl
  · rw [hbind, origin, if_neg hid]
    rfl

/-- An edge left over after the removal of a node stood in the net after the node was cut off, under
the same handle. -/
theorem NodeRemoved.edgesStay {net₁ : Net} {node last : Node} {a : NodeName}
    (r : NodeRemoved net₁ net' last node) (h : net.Consistent) (hunique : net.UniqueNames)
    (ha : net.name? node = some a)
    (hkeeps : Keeps (fun arc => arc.source ≠ node ∧ arc.target ≠ node) net net₁)
    (hstays : Stays net net₁) (hname : TakesOver last node net.name? net'.name?) :
    EdgesStay a net net' := by
  intro id arc' harc'
  obtain ⟨edge', hedge', hnamed'⟩ := Option.bind_eq_some_iff.1 harc'
  obtain ⟨edge₁, hedge₁, rfl⟩ := r.edge?_eq_some_iff.1 hedge'
  obtain ⟨edge, hedge⟩ := hstays.edge_of hedge₁
  obtain ⟨arc, harc⟩ := h.arcName?_eq_some_iff.2 ⟨edge, hedge⟩
  have hnamedArc : net.nameArc? edge.arc = some arc := by
    rw [arcName?, hedge, Option.bind_some] at harc
    exact harc
  refine ⟨arc, harc, fun hs ht => ?_⟩
  have hkept := (hunique.ends_ne_iff ha hnamedArc).2 ⟨hs, ht⟩
  have hhas₁ : net₁.HasArc edge.arc :=
    (hkeeps.hasArc_iff h).2 ⟨⟨id, edge, hedge, rfl⟩, decide_eq_true hkept⟩
  obtain rfl := hstays.eq hedge hedge₁ hhas₁
  have hsame : net'.nameArc? (renameArc last node edge₁.arc) = net.nameArc? edge₁.arc :=
    nameArc?_congr (hname.renamed_eq hkept.1) (hname.renamed_eq hkept.2) rfl
  have heq := hnamed'.symm.trans (hsame.trans hnamedArc)
  exact Option.some.inj heq

/-! ### Adding and setting nodes -/

/-- A node under a fresh handle and a fresh name. -/
theorem HasGraph.addNode {new : Node} {content : Content} (h : net.Consistent)
    (h' : net'.Consistent) (hg : net.HasGraph g) (hedges : net'.edges = net.edges)
    (hcontent : ∀ n, net'.content? n = if n = new then some content else net.content? n)
    (harcs : ∀ side n, net'.arcs side n = net.arcs side n) (hnew : ¬ net.contains new = true)
    (hunused : ∀ n, net.name? n ≠ some content.name) :
    net'.HasGraph (g.put content) ∧ net'.name? new = some content.name ∧
      KeepsHandles net net' := by
  have hfresh : ∀ {a}, net.name? new ≠ some a := fun ha => hnew (contains_iff_name?.2 ⟨_, ha⟩)
  have hputs : Puts net net' new content :=
    ⟨hcontent, harcs, fun ha => absurd ha hfresh, fun n _ => hunused n⟩
  refine ⟨hg.put h h' hputs, ?_, KeepsHandles.of_names h (fun hid => ?_) hputs.keeps⟩
  · rw [hputs.name?, if_pos rfl]
  · rw [edge?, hedges]
    exact hid

/-- Other content for a node that keeps its name. -/
theorem HasGraph.setNode {node : Node} {content : Content} (h : net.Consistent)
    (h' : net'.Consistent) (hg : net.HasGraph g) (hedges : net'.edges = net.edges)
    (hcontent : ∀ n, net'.content? n = if n = node then some content else net.content? n)
    (harcs : ∀ side n, net'.arcs side n = net.arcs side n)
    (hnode : net.name? node = some content.name) :
    net'.HasGraph (g.put content) ∧ SameHandles net net' := by
  have hputs : Puts net net' node content := by
    refine ⟨hcontent, harcs, fun ha => ?_, fun n hn heq => hn (hg.unique.eq heq hnode)⟩
    rw [hnode] at ha
    exact (Option.some.inj ha).symm
  refine ⟨hg.put h h' hputs, SameHandles.of_names (fun id => by rw [edge?, edge?, hedges]) fun n => ?_⟩
  rw [hputs.name?]
  split_ifs with hn
  · rw [hn, hnode]
  · rfl

/-- A name that the table of places has free is the name of no node. -/
theorem Named.unused_place {k : ℕ} (hnamed : net.Named k) {name : NameIndex}
    (hfree : name ∉ net.placeNames.used) (n : Node) : net.name? n ≠ some (.place name) := by
  intro hn
  cases n with
  | place id =>
      obtain ⟨place, hplace, heq⟩ := name?_place_iff.1 hn
      cases heq
      exact hfree (hnamed.places.perm.mem_iff.2
        (List.mem_map.2 ⟨place, Arena.mem_toList_iff.2 ⟨id, hplace⟩, rfl⟩))
  | transition id =>
      obtain ⟨_, -, heq⟩ := name?_transition_iff.1 hn
      cases heq

theorem Named.unused_transition {k : ℕ} (hnamed : net.Named k) {name : NameIndex}
    (hfree : name ∉ net.transitionNames.used) (n : Node) :
    net.name? n ≠ some (.transition name) := by
  intro hn
  cases n with
  | place id =>
      obtain ⟨_, -, heq⟩ := name?_place_iff.1 hn
      cases heq
  | transition id =>
      obtain ⟨transition, htransition, heq⟩ := name?_transition_iff.1 hn
      cases heq
      exact hfree (hnamed.transitions.perm.mem_iff.2
        (List.mem_map.2 ⟨transition, Arena.mem_toList_iff.2 ⟨id, htransition⟩, rfl⟩))

theorem HasGraph.tokens_eq_none (hg : net.HasGraph g) {name : NameIndex}
    (hunused : ∀ n, net.name? n ≠ some (.place name)) : g.tokens name = none := by
  refine Option.eq_none_iff_forall_ne_some.2 fun tokens htokens => ?_
  obtain ⟨n, hn⟩ := (hg.tokens name tokens).1 htokens
  exact hunused n (name?_eq_some_iff.2 ⟨_, hn, rfl⟩)

theorem HasGraph.label_eq_none (hg : net.HasGraph g) {name : NameIndex}
    (hunused : ∀ n, net.name? n ≠ some (.transition name)) : g.label name = none := by
  refine Option.eq_none_iff_forall_ne_some.2 fun label hlabel => ?_
  obtain ⟨n, hn⟩ := (hg.label name label).1 hlabel
  exact hunused n (name?_eq_some_iff.2 ⟨_, hn, rfl⟩)

/-- No arc between the names is no edge between the nodes. -/
theorem HasGraph.weight_eq_none_iff (h : net.Consistent) (hg : net.HasGraph g) {source target : Node}
    {a b : NodeName} (ha : net.name? source = some a) (hb : net.name? target = some b) :
    g.weight a b = none ↔ net.findEdge? source target = none := by
  rw [findEdge?_eq_none_iff h, Option.eq_none_iff_forall_ne_some]
  constructor
  · rintro hnone id edge hedge rfl rfl
    exact hnone edge.weight ((hg.weight a b edge.weight).2
      ⟨edge.arc, ⟨id, edge, hedge, rfl⟩, nameArc?_eq_some_iff.2 ⟨ha, hb, rfl⟩⟩)
  · intro hall w hw
    obtain ⟨_, ⟨id, edge, hedge, rfl⟩, hnamed⟩ := (hg.weight a b w).1 hw
    obtain ⟨hs, ht, -⟩ := nameArc?_eq_some_iff.1 hnamed
    exact hall id edge hedge (hg.unique.eq hs ha) (hg.unique.eq ht hb)

/-- What stands under the handles of all nodes after the removal of a place. -/
theorem PlaceRemoved.takesOver {id : PlaceId} {name : NameIndex} (r : PlaceRemoved net net' id name) :
    TakesOver (.place net.places.lastHandle) (.place id) net.content? net'.content? := by
  intro n
  cases n with
  | place k =>
      simp only [content?, r.content k, Node.place.injEq]
      split_ifs <;> rfl
  | transition k => simp only [content?, r.transitions.content k, reduceCtorEq, if_false]

theorem TransitionRemoved.takesOver {id : TransitionId} {name : NameIndex}
    (r : TransitionRemoved net net' id name) :
    TakesOver (.transition net.transitions.lastHandle) (.transition id) net.content? net'.content? := by
  intro n
  cases n with
  | place k => simp only [content?, r.places.content k, reduceCtorEq, if_false]
  | transition k =>
      simp only [content?, r.content k, Node.transition.injEq]
      split_ifs <;> rfl

/-! ### The contract -/

/-- The lookups by name show all that the net holds, and every edit of the net is the operation of
the same name on the graph so read. -/
structure RefinesGraph (net : Net) : Prop where
  hasGraph : net.HasGraph net.graph
  addPlace : ∀ hint tokens, (Edit.addPlace hint tokens).Meets net (hint ≠ some 0) fun id net' =>
    ∃ name, net.graph.tokens name = none ∧ net'.name? (.place id) = some (.place name) ∧
      net'.graph = net.graph.setTokens name tokens ∧ KeepsHandles net net'
  addLabelledTransition : ∀ hint label,
    (Edit.addLabelledTransition hint label).Meets net (hint ≠ some 0) fun id net' =>
      ∃ name, net.graph.label name = none ∧ net'.name? (.transition id) = some (.transition name) ∧
        net'.graph = net.graph.setLabel name label ∧ KeepsHandles net net'
  addTransition : ∀ hint text, (Edit.addTransition hint text).Meets net
    (hint ≠ some 0 ∧ ∃ label, Label.parse? text = some label) fun id net' =>
      ∃ name label, Label.parse? text = some label ∧ net.graph.label name = none ∧
        net'.name? (.transition id) = some (.transition name) ∧
        net'.graph = net.graph.setLabel name label ∧ KeepsHandles net net'
  addEdge : ∀ source target weight, (Edit.addEdge source target weight).Meets net
    (∃ a b, net.name? source = some a ∧ net.name? target = some b ∧ Fits source target weight ∧
      net.graph.weight a b = none) fun id net' =>
      ∃ arc, net.nameArc? ⟨source, target, weight⟩ = some arc ∧ net'.arcName? id = some arc ∧
        net'.graph = net.graph.addArc arc ∧ KeepsHandles net net'
  removeEdge : ∀ id, (Edit.removeEdge id).Meets net (∃ arc, net.arcName? id = some arc)
    fun _ net' => ∃ arc, net.arcName? id = some arc ∧
      net'.graph = net.graph.removeArc arc.source arc.target ∧
      (∀ n, net'.name? n = net.name? n) ∧
      TakesOver net.edges.lastHandle id net.arcName? net'.arcName?
  removePlace : ∀ id, (Edit.removePlace id).Meets net (∃ a, net.name? (.place id) = some a)
    fun _ net' => ∃ a, net.name? (.place id) = some a ∧ net'.graph = net.graph.removeNode a ∧
      TakesOver (.place net.places.lastHandle) (.place id) net.name? net'.name? ∧
      EdgesStay a net net'
  removeTransition : ∀ id, (Edit.removeTransition id).Meets net
    (∃ a, net.name? (.transition id) = some a)
    fun _ net' => ∃ a, net.name? (.transition id) = some a ∧ net'.graph = net.graph.removeNode a ∧
      TakesOver (.transition net.transitions.lastHandle) (.transition id) net.name? net'.name? ∧
      EdgesStay a net net'
  setTokens : ∀ id tokens, (Edit.setTokens id tokens).Meets net
    (∃ a, net.name? (.place id) = some a) fun _ net' =>
      ∃ name, net.name? (.place id) = some (.place name) ∧
        net'.graph = net.graph.setTokens name tokens ∧ SameHandles net net'
  setLabel : ∀ id text, (Edit.setLabel id text).Meets net
    ((∃ a, net.name? (.transition id) = some a) ∧ ∃ label, Label.parse? text = some label)
    fun _ net' => ∃ name label, Label.parse? text = some label ∧
      net.name? (.transition id) = some (.transition name) ∧
      net'.graph = net.graph.setLabel name label ∧ SameHandles net net'

section Edits

variable {k : ℕ} (h : net.Consistent) (hnamed : net.Named k)

include h hnamed

theorem Consistent.hasGraph_graph : net.HasGraph net.graph :=
  Net.hasGraph_graph h (hnamed.uniqueNames h.identified)

theorem addPlace_refines (hint : Option NameIndex) (tokens : Weight) :
    (Edit.addPlace hint tokens).Meets net (hint ≠ some 0) fun id net' =>
      ∃ name, net.graph.tokens name = none ∧ net'.name? (.place id) = some (.place name) ∧
        net'.graph = net.graph.setTokens name tokens ∧ KeepsHandles net net' := by
  constructor
  · intro hhint
    have hg := h.hasGraph_graph hnamed
    have hfree := (hnamed.places.sound.resolve hhint).2
    have hunused := hnamed.unused_place hfree
    have h' := h.pushPlace (net.placeNames.resolve hint) tokens
    obtain ⟨hg', hname, hkeeps⟩ := hg.addNode h h' rfl
      (content?_pushPlace (net.placeNames.resolve hint) tokens) (fun side n => by simp)
      Arena.not_contains_nextHandle hunused
    exact ⟨_, _, Edit.addPlace_runOn hhint tokens net, _, hg.tokens_eq_none hunused, hname,
      hg'.graph_eq h', hkeeps⟩
  · intro hhint
    obtain rfl := not_not.1 hhint
    exact ⟨_, Edit.addPlace_refused tokens net⟩

theorem addLabelledTransition_refines (hint : Option NameIndex) (label : Label) :
    (Edit.addLabelledTransition hint label).Meets net (hint ≠ some 0) fun id net' =>
      ∃ name, net.graph.label name = none ∧ net'.name? (.transition id) = some (.transition name) ∧
        net'.graph = net.graph.setLabel name label ∧ KeepsHandles net net' := by
  constructor
  · intro hhint
    have hg := h.hasGraph_graph hnamed
    have hfree := (hnamed.transitions.sound.resolve hhint).2
    have hunused := hnamed.unused_transition hfree
    have h' := h.pushTransition (net.transitionNames.resolve hint) label
    obtain ⟨hg', hname, hkeeps⟩ := hg.addNode h h' rfl
      (content?_pushTransition (net.transitionNames.resolve hint) label) (fun side n => by simp)
      Arena.not_contains_nextHandle hunused
    exact ⟨_, _, Edit.addLabelledTransition_runOn hhint label net, _, hg.label_eq_none hunused, hname,
      hg'.graph_eq h', hkeeps⟩
  · intro hhint
    obtain rfl := not_not.1 hhint
    exact ⟨_, Edit.addLabelledTransition_refused label net⟩

theorem addTransition_refines (hint : Option NameIndex) (text : String) :
    (Edit.addTransition hint text).Meets net
      (hint ≠ some 0 ∧ ∃ label, Label.parse? text = some label) fun id net' =>
        ∃ name label, Label.parse? text = some label ∧ net.graph.label name = none ∧
          net'.name? (.transition id) = some (.transition name) ∧
          net'.graph = net.graph.setLabel name label ∧ KeepsHandles net net' := by
  rw [Edit.addTransition]
  cases hlabel : Label.parse? text with
  | none =>
      constructor
      · rintro ⟨-, label, hsome⟩
        cases hsome
      · exact fun _ => ⟨_, Edit.runOn_throw _ _⟩
  | some label =>
      have hadd := addLabelledTransition_refines h hnamed hint label
      constructor
      · rintro ⟨hhint, -⟩
        obtain ⟨id, net', hrun, name, hfresh, hname, hgraph, hkeeps⟩ := hadd.carriedOut hhint
        exact ⟨id, net', hrun, name, label, rfl, hfresh, hname, hgraph, hkeeps⟩
      · exact fun hnot => hadd.refused fun hhint => hnot ⟨hhint, label, rfl⟩

theorem addEdge_refines (source target : Node) (weight : Weight) :
    (Edit.addEdge source target weight).Meets net
      (∃ a b, net.name? source = some a ∧ net.name? target = some b ∧ Fits source target weight ∧
        net.graph.weight a b = none) fun id net' =>
        ∃ arc, net.nameArc? ⟨source, target, weight⟩ = some arc ∧ net'.arcName? id = some arc ∧
          net'.graph = net.graph.addArc arc ∧ KeepsHandles net net' := by
  have hg := h.hasGraph_graph hnamed
  constructor
  · rintro ⟨a, b, ha, hb, hfits, hweight⟩
    have hsource := contains_iff_name?.2 ⟨a, ha⟩
    have htarget := contains_iff_name?.2 ⟨b, hb⟩
    have hfind := (hg.weight_eq_none_iff h ha hb).1 hweight
    obtain ⟨net', hrun, hadded⟩ := Edit.addEdge_runOn hsource htarget hfits hfind
    have hcontains := @Edit.contains_newEdge net source target weight hsource htarget
    have h' := h.of_edgeAdded hadded hcontains hfits hfind
    have hname : ∀ n, net'.name? n = net.name? n := fun n =>
      name?_congr (content?_of_bare hadded.bare n)
    have hnamedArc : net.nameArc? ⟨source, target, weight⟩ = some ⟨a, b, weight⟩ :=
      nameArc?_eq_some_iff.2 ⟨ha, hb, rfl⟩
    refine ⟨_, net', hrun, _, hnamedArc, ?_, ?_, ?_⟩
    · rw [arcName?, hadded.edge?_eq, if_pos hadded.id.symm, Option.bind_some]
      exact (nameArc?_of_bare hadded.bare _).trans hnamedArc
    · exact (hg.addArc h h' hadded.bare (hadded.arcs h hcontains) hnamedArc).graph_eq h'
    · refine KeepsHandles.of_names h (fun {id edge} hid => ?_) fun {n a} hn => (hname n).trans hn
      rw [hadded.edge?_eq, if_neg (hadded.ne_id hid), hid]
  · intro hnot
    refine Edit.addEdge_refused ?_
    rintro ⟨hsource, htarget, hfits, hfind⟩
    obtain ⟨a, ha⟩ := contains_iff_name?.1 hsource
    obtain ⟨b, hb⟩ := contains_iff_name?.1 htarget
    exact hnot ⟨a, b, ha, hb, hfits, (hg.weight_eq_none_iff h ha hb).2 hfind⟩

theorem removeEdge_refines (id : EdgeId) :
    (Edit.removeEdge id).Meets net (∃ arc, net.arcName? id = some arc)
      fun _ net' => ∃ arc, net.arcName? id = some arc ∧
        net'.graph = net.graph.removeArc arc.source arc.target ∧
        (∀ n, net'.name? n = net.name? n) ∧
        TakesOver net.edges.lastHandle id net.arcName? net'.arcName? := by
  have hg := h.hasGraph_graph hnamed
  constructor
  · rintro ⟨arc, harc⟩
    obtain ⟨removed, hremoved, hnamedArc⟩ := Option.bind_eq_some_iff.1 harc
    obtain ⟨net', hrun, r⟩ := Edit.removeEdge_runOn h hremoved
    have hkeeps : Keeps (fun old => old ≠ removed.arc) net net' :=
      ⟨h.of_edgeRemoved r, r.bare, fun side n => r.arcs h hremoved side n⟩
    have hgraph : net'.HasGraph (net.graph.removeArc arc.source arc.target) :=
      hg.keepArcs h hkeeps fun old named hold hnamedOld => decide_eq_decide.2 (not_congr
        (hold.eq_iff_ends h hg.unique ⟨id, removed, hremoved, rfl⟩ hnamedOld hnamedArc))
    exact ⟨removed, net', hrun, arc, harc, hgraph.graph_eq hkeeps.consistent,
      fun n => name?_congr (content?_of_bare r.bare n), r.arcName?⟩
  · intro hnot
    refine ⟨_, Edit.removeEdge_refused (Option.eq_none_iff_forall_ne_some.2 fun edge hedge => ?_)⟩
    exact hnot (h.arcName?_eq_some_iff.2 ⟨edge, hedge⟩)

/-- The removal of a node on names, from what it does to the lookups. -/
theorem removeNode_refines {net₁ net' : Net} {node last : Node} {a : NodeName}
    (ha : net.name? node = some a)
    (hkeeps : Keeps (fun arc => arc.source ≠ node ∧ arc.target ≠ node) net net₁)
    (hstays : Stays net net₁) (hremoved : NodeRemoved net₁ net' last node)
    (hcontent : TakesOver last node net.content? net'.content?) (h' : net'.Consistent) :
    net'.graph = net.graph.removeNode a ∧ TakesOver last node net.name? net'.name? ∧
      EdgesStay a net net' := by
  have hg := h.hasGraph_graph hnamed
  have hcontent₁ := content?_of_bare hkeeps.bare
  have hname : TakesOver last node net.name? net'.name? := hcontent.map Content.name
  have hg₁ : net₁.HasGraph (net.graph.keepArcs fun b c => b ≠ a ∧ c ≠ a) :=
    hg.keepArcs h hkeeps fun arc named _ hnamedArc =>
      decide_eq_decide.2 (hg.unique.ends_ne_iff ha hnamedArc)
  refine ⟨(hg₁.dropContent hkeeps.consistent hremoved (fun n => ?_)
    ((name?_congr (hcontent₁ node)).trans ha) fun side => ?_).graph_eq h', hname,
    hremoved.edgesStay h hg.unique ha hkeeps hstays hname⟩
  · rw [hcontent, hcontent₁, hcontent₁]
  · rw [arcs, Edit.isolated_of_keeps h (contains_iff_name?.2 ⟨a, ha⟩) hkeeps]
    rfl

theorem removePlace_refines (id : PlaceId) :
    (Edit.removePlace id).Meets net (∃ a, net.name? (.place id) = some a)
      fun _ net' => ∃ a, net.name? (.place id) = some a ∧ net'.graph = net.graph.removeNode a ∧
        TakesOver (.place net.places.lastHandle) (.place id) net.name? net'.name? ∧
        EdgesStay a net net' := by
  constructor
  · rintro ⟨a, ha⟩
    have hcontains := contains_iff_name?.2 ⟨a, ha⟩
    obtain ⟨place, hplace⟩ := Arena.contains_iff_get?.1 hcontains
    obtain ⟨value, net₁, net', hrun, hkeeps, hstays, hremoved, r⟩ := Edit.removePlace_runOn h hplace
    have h' := Edit.consistent_of_placeRemoved h hcontains hkeeps hremoved
    exact ⟨value, net', hrun, a, ha,
      removeNode_refines h hnamed ha hkeeps hstays hremoved r.takesOver h'⟩
  · exact fun hnot => ⟨_, Edit.removePlace_refused fun hid => hnot (contains_iff_name?.1 hid)⟩

theorem removeTransition_refines (id : TransitionId) :
    (Edit.removeTransition id).Meets net (∃ a, net.name? (.transition id) = some a)
      fun _ net' => ∃ a, net.name? (.transition id) = some a ∧
        net'.graph = net.graph.removeNode a ∧
        TakesOver (.transition net.transitions.lastHandle) (.transition id) net.name? net'.name? ∧
        EdgesStay a net net' := by
  constructor
  · rintro ⟨a, ha⟩
    have hcontains := contains_iff_name?.2 ⟨a, ha⟩
    obtain ⟨transition, htransition⟩ := Arena.contains_iff_get?.1 hcontains
    obtain ⟨value, net₁, net', hrun, hkeeps, hstays, hremoved, r⟩ :=
      Edit.removeTransition_runOn h htransition
    have h' := Edit.consistent_of_transitionRemoved h hcontains hkeeps hremoved
    exact ⟨value, net', hrun, a, ha,
      removeNode_refines h hnamed ha hkeeps hstays hremoved r.takesOver h'⟩
  · exact fun hnot => ⟨_, Edit.removeTransition_refused fun hid => hnot (contains_iff_name?.1 hid)⟩

theorem setTokens_refines (id : PlaceId) (tokens : Weight) :
    (Edit.setTokens id tokens).Meets net (∃ a, net.name? (.place id) = some a) fun _ net' =>
      ∃ name, net.name? (.place id) = some (.place name) ∧
        net'.graph = net.graph.setTokens name tokens ∧ SameHandles net net' := by
  constructor
  · rintro ⟨_, hid⟩
    obtain ⟨place, -, rfl⟩ := name?_place_iff.1 hid
    have hcontains := contains_iff_name?.2 ⟨_, hid⟩
    have h' := (Claims.withTokens h hcontains tokens).consistent
    obtain ⟨hg', hsame⟩ := (h.hasGraph_graph hnamed).setNode h h' rfl
      (content?_withTokens hid tokens) (arcs_withTokens hcontains tokens) hid
    exact ⟨_, _, Edit.setTokens_runOn hcontains tokens, place.name, hid, hg'.graph_eq h', hsame⟩
  · exact fun hnot => ⟨_, Edit.setTokens_refused (fun hid => hnot (contains_iff_name?.1 hid)) tokens⟩

theorem setLabel_refines (id : TransitionId) (text : String) :
    (Edit.setLabel id text).Meets net
      ((∃ a, net.name? (.transition id) = some a) ∧ ∃ label, Label.parse? text = some label)
      fun _ net' => ∃ name label, Label.parse? text = some label ∧
        net.name? (.transition id) = some (.transition name) ∧
        net'.graph = net.graph.setLabel name label ∧ SameHandles net net' := by
  constructor
  · rintro ⟨⟨_, hid⟩, label, hlabel⟩
    obtain ⟨transition, -, rfl⟩ := name?_transition_iff.1 hid
    have hcontains := contains_iff_name?.2 ⟨_, hid⟩
    have h' := (Claims.withLabel h hcontains label).consistent
    obtain ⟨hg', hsame⟩ := (h.hasGraph_graph hnamed).setNode h h' rfl
      (content?_withLabel hid label) (arcs_withLabel hcontains label) hid
    exact ⟨_, _, Edit.setLabel_runOn hcontains hlabel, transition.name, label, hlabel, hid,
      hg'.graph_eq h', hsame⟩
  · exact fun hnot => Edit.setLabel_refused fun ⟨hid, hlabel⟩ =>
      hnot ⟨contains_iff_name?.1 hid, hlabel⟩

end Edits

/-- On every reachable net the edits are the operations of the named graph. -/
theorem reachable_refinesGraph {n : ℕ} (h : net.Reachable n) (hn : n < additionLimit) :
    net.RefinesGraph where
  hasGraph := h.consistent.hasGraph_graph (h.named hn)
  addPlace := addPlace_refines h.consistent (h.named hn)
  addLabelledTransition := addLabelledTransition_refines h.consistent (h.named hn)
  addTransition := addTransition_refines h.consistent (h.named hn)
  addEdge := addEdge_refines h.consistent (h.named hn)
  removeEdge := removeEdge_refines h.consistent (h.named hn)
  removePlace := removePlace_refines h.consistent (h.named hn)
  removeTransition := removeTransition_refines h.consistent (h.named hn)
  setTokens := setTokens_refines h.consistent (h.named hn)
  setLabel := setLabel_refines h.consistent (h.named hn)

/-- The last place takes over the handle of a removed one and the last edge that of a removed edge;
the sequences of neighbours lose the removed name.  A stale handle is refused. -/
theorem reachable_refinesGraph_worn : worn.Reachable 10 ∧ 10 < additionLimit ∧
    worn.RefinesGraph ∧
    (∃ place net', (Edit.removePlace ⟨0, 0⟩).runOn worn = (.ok place, net') ∧
      net'.name? (.place ⟨0, 0⟩) = some (.place 5) ∧
      worn.graph.neighbours .source (.transition 2) = [.place 2] ∧
      net'.graph.neighbours .source (.transition 2) = []) ∧
    (∃ edge net', (Edit.removeEdge ⟨0, 0⟩).runOn worn = (.ok edge, net') ∧
      net'.arcName? ⟨0, 0⟩ = some ⟨.transition 2, .place 2, 1⟩ ∧
      worn.graph.neighbours .source (.place 5) = [.transition 2, .transition 1] ∧
      net'.graph.neighbours .source (.place 5) = [.transition 2]) ∧
    ∃ error, (Edit.setTokens ⟨0, 2⟩ 9).runOn worn = (.error error, worn) := by
  have h := reachable_refinesGraph worn_reachable (by decide)
  have hname : worn.name? (.place ⟨0, 0⟩) = some (.place 2) := by decide +kernel
  have harc : worn.arcName? ⟨0, 0⟩ = some ⟨.place 5, .transition 1, 1⟩ := by decide +kernel
  have hsource : worn.graph.neighbours .source (.transition 2) = [.place 2] := by decide +kernel
  have hplace : worn.graph.neighbours .source (.place 5) = [.transition 2, .transition 1] := by
    decide +kernel
  refine ⟨worn_reachable, by decide, h, ?_, ?_, ?_⟩
  · obtain ⟨place, net', hrun, a, ha, hgraph, hmoved, -⟩ :=
      (h.removePlace ⟨0, 0⟩).carriedOut ⟨_, hname⟩
    obtain rfl := Option.some.inj (ha.symm.trans hname)
    refine ⟨place, net', hrun, (hmoved _).trans (by decide +kernel), hsource, ?_⟩
    rw [hgraph, NamedGraph.neighbours_removeNode, hsource]
    rfl
  · obtain ⟨edge, net', hrun, arc, harc', hgraph, -, hmoved⟩ :=
      (h.removeEdge ⟨0, 0⟩).carriedOut ⟨_, harc⟩
    obtain rfl := Option.some.inj (harc'.symm.trans harc)
    refine ⟨edge, net', hrun, (hmoved _).trans (by decide +kernel), hplace, ?_⟩
    rw [hgraph, NamedGraph.neighbours_removeArc, hplace]
    rfl
  · refine (h.setTokens ⟨0, 2⟩ 9).refused ?_
    rintro ⟨a, ha⟩
    exact absurd ha (by rw [show worn.name? (.place ⟨0, 2⟩) = none by decide +kernel]; simp)

end Net
end PetriCcs
