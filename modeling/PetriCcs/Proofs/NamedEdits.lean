import PetriCcs.Proofs.NamedGraph

/-! # Edits refine the operations of the named graph

A forward simulation from nets to named graphs: each way in which an edit changes the lookups of a
net is one operation of the graph that the net represents (`HasGraph.put`, `HasGraph.addArc`,
`HasGraph.keepArcs`, `HasGraph.removeNode`).  In the graph nothing is renumbered; what happens to
the handles is stated beside it. -/

namespace PetriCcs
namespace Net

variable {net net' : Net} {g : NamedGraph} {node : Node}

/-! ### What stays -/

/-- Two consistent nets with the same lists of arcs have the same arcs. -/
theorem Consistent.hasArc_congr (h : net.Consistent) (h' : net'.Consistent)
    (harcs : ∀ side n, net'.arcs side n = net.arcs side n) (arc : Arc) :
    net'.HasArc arc ↔ net.HasArc arc := by
  rw [h.hasArc_iff_mem, h'.hasArc_iff_mem, harcs]

theorem name?_congr (hcontent : net'.content? node = net.content? node) :
    net'.name? node = net.name? node := by
  rw [name?, name?, hcontent]

/-- An arc keeps its name when the nodes keep theirs. -/
theorem HasArc.nameArc?_eq (h : net.Consistent) {arc : Arc} (harc : net.HasArc arc)
    (hkeep : ∀ {m a}, net.name? m = some a → net'.name? m = some a) :
    net'.nameArc? arc = net.nameArc? arc := by
  obtain ⟨a, ha⟩ := harc.exists_name h .source
  obtain ⟨b, hb⟩ := harc.exists_name h .target
  exact nameArc?_congr ((hkeep ha).trans ha.symm) ((hkeep hb).trans hb.symm) rfl

/-- A node keeps its neighbours when its arcs and the names of the nodes stay. -/
theorem neighboursAt_congr (h : net.Consistent) {side : Side}
    (harcs : net'.arcs side node = net.arcs side node)
    (hkeep : ∀ {m a}, net.name? m = some a → net'.name? m = some a) :
    net'.neighboursAt side node = net.neighboursAt side node := by
  rw [neighboursAt, neighboursAt, harcs]
  refine List.filterMap_congr fun arc harc => ?_
  obtain ⟨a, ha⟩ := (h.mem_arcs_iff.1 harc).1.exists_name h side.other
  rw [hkeep ha, ha]

/-! ### What a graph holds -/

/-- Whether a content stands in a graph under its name. -/
def Holds (g : NamedGraph) : Content → Prop
  | .place name tokens => g.tokens name = some tokens
  | .transition name label => g.label name = some label

theorem holds_put {content c : Content} :
    Holds (g.put content) c ↔ if c.name = content.name then c = content else Holds g c := by
  cases content with
  | place name value =>
      cases c with
      | place a tokens =>
          by_cases ha : a = name
          · simp [Holds, NamedGraph.put, NamedGraph.setTokens, Content.name, ha, eq_comm]
          · simp [Holds, NamedGraph.put, NamedGraph.setTokens, Content.name, ha]
      | transition a label => simp [Holds, NamedGraph.put, NamedGraph.setTokens, Content.name]
  | transition name value =>
      cases c with
      | place a tokens => simp [Holds, NamedGraph.put, NamedGraph.setLabel, Content.name]
      | transition a label =>
          by_cases ha : a = name
          · simp [Holds, NamedGraph.put, NamedGraph.setLabel, Content.name, ha, eq_comm]
          · simp [Holds, NamedGraph.put, NamedGraph.setLabel, Content.name, ha]

theorem holds_dropContent {x : NodeName} {c : Content} :
    Holds (g.dropContent x) c ↔ c.name ≠ x ∧ Holds g c := by
  cases c with
  | place a tokens =>
      by_cases hx : x = .place a
      · simp [Holds, NamedGraph.dropContent, Content.name, hx]
      · simp [Holds, NamedGraph.dropContent, Content.name, hx, Ne.symm hx]
  | transition a label =>
      by_cases hx : x = .transition a
      · simp [Holds, NamedGraph.dropContent, Content.name, hx]
      · simp [Holds, NamedGraph.dropContent, Content.name, hx, Ne.symm hx]

theorem HasGraph.holds_iff (hg : net.HasGraph g) (c : Content) :
    Holds g c ↔ ∃ n, net.content? n = some c := by
  cases c with
  | place name tokens => exact hg.tokens name tokens
  | transition name label => exact hg.label name label

/-- Tokens and labels at once. -/
theorem HasGraph.of_holds (hunique : net.UniqueNames)
    (hholds : ∀ c, Holds g c ↔ ∃ n, net.content? n = some c)
    (hweight : ∀ a b weight, g.weight a b = some weight ↔
      ∃ arc, net.HasArc arc ∧ net.nameArc? arc = some ⟨a, b, weight⟩)
    (hneighbours : ∀ {n a}, net.name? n = some a →
      ∀ side, g.neighbours side a = net.neighboursAt side n)
    (hunused : ∀ {a}, (∀ n, net.name? n ≠ some a) → ∀ side, g.neighbours side a = []) :
    net.HasGraph g where
  unique := hunique
  tokens a tokens := hholds (.place a tokens)
  label a label := hholds (.transition a label)
  weight := hweight
  neighbours := hneighbours
  neighbours_unused := hunused

/-! ### Writing what a node holds -/

/-- One node, old or new, holds `content` afterwards: it had the name before, or no node had it. -/
structure Puts (net net' : Net) (node : Node) (content : Content) : Prop where
  content? : ∀ n, net'.content? n = if n = node then some content else net.content? n
  arcs : ∀ side n, net'.arcs side n = net.arcs side n
  old : ∀ {a}, net.name? node = some a → a = content.name
  other : ∀ n, n ≠ node → net.name? n ≠ some content.name

section Puts

variable {content : Content}

theorem Puts.name? (p : Puts net net' node content) (n : Node) :
    net'.name? n = if n = node then some content.name else net.name? n := by
  rw [Net.name?, p.content?]
  split_ifs <;> rfl

/-- Nodes keep their names. -/
theorem Puts.keeps (p : Puts net net' node content) {n : Node} {a : NodeName}
    (hn : net.name? n = some a) : net'.name? n = some a := by
  rw [p.name?]
  split_ifs with hnode
  · rw [hnode] at hn
    rw [p.old hn]
  · exact hn

theorem Puts.uniqueNames (p : Puts net net' node content) (h : net.UniqueNames) :
    net'.UniqueNames := by
  refine ⟨fun {n m a} hn hm => ?_⟩
  rw [p.name?] at hn hm
  split_ifs at hn hm with h1 h2 h2
  · rw [h1, h2]
  · cases hn
    exact absurd hm (p.other m h2)
  · cases hm
    exact absurd hn (p.other n h1)
  · exact h.eq hn hm

/-- Under the written name stands the written content, under any other what stood there. -/
theorem Puts.exists_content?_iff (p : Puts net net' node content) (c : Content) :
    (∃ n, net'.content? n = some c) ↔
      if c.name = content.name then c = content else ∃ n, net.content? n = some c := by
  constructor
  · rintro ⟨n, hn⟩
    rw [p.content?] at hn
    split_ifs at hn with hnode
    · cases hn
      rw [if_pos rfl]
    · rw [if_neg]
      · exact ⟨n, hn⟩
      · exact fun hc => p.other n hnode (name?_eq_some_iff.2 ⟨c, hn, hc⟩)
  · intro hc
    split_ifs at hc with hsame
    · exact ⟨node, by rw [p.content?, if_pos rfl, hc]⟩
    · obtain ⟨n, hn⟩ := hc
      refine ⟨n, ?_⟩
      rw [p.content?, if_neg, hn]
      rintro rfl
      exact hsame (p.old (name?_eq_some_iff.2 ⟨c, hn, rfl⟩))

/-- A node without a name before is the new one, and no node had its name. -/
theorem Puts.unused (p : Puts net net' node content) {n : Node} {a : NodeName}
    (hn : net'.name? n = some a) (hnew : net.name? n = none) (m : Node) : net.name? m ≠ some a := by
  rw [p.name?] at hn
  split_ifs at hn with hnode
  · cases hn
    by_cases hm : m = node
    · rw [hm, ← hnode, hnew]
      exact (Option.some_ne_none _).symm
    · exact p.other m hm
  · rw [hnew] at hn
    cases hn

/-- Writing the content of a node, old or new, is the same on names. -/
theorem HasGraph.put (h : net.Consistent) (h' : net'.Consistent) (hg : net.HasGraph g)
    (p : Puts net net' node content) : net'.HasGraph (g.put content) := by
  refine .of_holds (p.uniqueNames hg.unique) (fun c => ?_) (fun a b weight => ?_)
    (fun {n a} hn side => ?_) fun {a} ha side => ?_
  · simp only [holds_put, p.exists_content?_iff, hg.holds_iff]
  · rw [NamedGraph.weight_put, hg.weight]
    refine exists_congr fun arc => ?_
    rw [h.hasArc_congr h' p.arcs]
    exact and_congr_right fun harc => by rw [harc.nameArc?_eq h p.keeps]
  · rw [NamedGraph.neighbours_put, neighboursAt_congr h (p.arcs side n) p.keeps]
    cases hbefore : net.name? n with
    | some b =>
        have hb := p.keeps hbefore
        rw [hn] at hb
        cases hb
        exact hg.neighbours hbefore side
    | none =>
        -- no arc ends at a new node
        rw [neighboursAt, arcs_eq_nil_of_name? h hbefore, List.filterMap_nil]
        exact hg.neighbours_unused (p.unused hn hbefore) side
  · rw [NamedGraph.neighbours_put]
    exact hg.neighbours_unused (fun n hn => ha n (p.keeps hn)) side

end Puts

/-! ### What single edits write -/

theorem content?_pushPlace (name : NameIndex) (tokens : Weight) (n : Node) :
    (net.pushPlace name tokens).content? n =
      if n = .place net.places.nextHandle then some (.place name tokens) else net.content? n := by
  cases n with
  | place id =>
      rw [content?, placeContent?, place?_pushPlace]
      by_cases hid : id = net.places.nextHandle
      · rw [if_pos hid, if_pos (congrArg Node.place hid)]
        rfl
      · rw [if_neg hid, if_neg fun heq => hid (Node.place.inj heq)]
        rfl
  | transition id => rfl

theorem content?_pushTransition (name : NameIndex) (label : Label) (n : Node) :
    (net.pushTransition name label).content? n =
      if n = .transition net.transitions.nextHandle then some (.transition name label)
      else net.content? n := by
  cases n with
  | place id => rfl
  | transition id =>
      rw [content?, transitionContent?, transition?_pushTransition]
      by_cases hid : id = net.transitions.nextHandle
      · rw [if_pos hid, if_pos (congrArg Node.transition hid)]
        rfl
      · rw [if_neg hid, if_neg fun heq => hid (Node.transition.inj heq)]
        rfl

theorem content?_withTokens {id : PlaceId} {name : NameIndex}
    (hid : net.name? (.place id) = some (.place name)) (tokens : Weight) (n : Node) :
    (net.withTokens id tokens).content? n =
      if n = .place id then some (.place name tokens) else net.content? n := by
  cases n with
  | place k =>
      rw [content?, placeContent?, place?_withTokens (contains_iff_name?.2 ⟨_, hid⟩)]
      by_cases hk : k = id
      · obtain ⟨place, hplace, hname⟩ := name?_place_iff.1 hid
        cases hname
        rw [if_pos hk, if_pos (congrArg Node.place hk), hk, hplace]
        rfl
      · rw [if_neg hk, if_neg fun heq => hk (Node.place.inj heq)]
        rfl
  | transition k => rfl

theorem content?_withLabel {id : TransitionId} {name : NameIndex}
    (hid : net.name? (.transition id) = some (.transition name)) (label : Label) (n : Node) :
    (net.withLabel id label).content? n =
      if n = .transition id then some (.transition name label) else net.content? n := by
  cases n with
  | place k => rfl
  | transition k =>
      rw [content?, transitionContent?, transition?_withLabel (contains_iff_name?.2 ⟨_, hid⟩)]
      by_cases hk : k = id
      · obtain ⟨transition, htransition, hname⟩ := name?_transition_iff.1 hid
        cases hname
        rw [if_pos hk, if_pos (congrArg Node.transition hk), hk, htransition]
        rfl
      · rw [if_neg hk, if_neg fun heq => hk (Node.transition.inj heq)]
        rfl

theorem arcs_withTokens {id : PlaceId} (hid : net.contains (.place id) = true) (tokens : Weight)
    (side : Side) (n : Node) : (net.withTokens id tokens).arcs side n = net.arcs side n := by
  rw [arcs, listed?_withTokens hid]
  rfl

theorem arcs_withLabel {id : TransitionId} (hid : net.contains (.transition id) = true)
    (label : Label) (side : Side) (n : Node) :
    (net.withLabel id label).arcs side n = net.arcs side n := by
  rw [arcs, listed?_withLabel hid]
  rfl

/-! ### Adding and removing arcs -/

theorem name?_endpoint {arc : Arc} {named : NamedArc} (hnamed : net.nameArc? arc = some named)
    (side : Side) : net.name? (arc.endpoint side) = some (named.endpoint side) := by
  obtain ⟨hsource, htarget, -⟩ := nameArc?_eq_some_iff.1 hnamed
  cases side
  · exact hsource
  · exact htarget

/-- Nodes are told apart by their names. -/
theorem UniqueNames.eq_iff (h : net.UniqueNames) {n m : Node} {a b : NodeName}
    (hn : net.name? n = some a) (hm : net.name? m = some b) : n = m ↔ a = b := by
  constructor
  · rintro rfl
    exact Option.some.inj (hn.symm.trans hm)
  · rintro rfl
    exact h.eq hn hm

/-- An arc avoids a node when its name avoids the name of the node. -/
theorem UniqueNames.ends_ne_iff (h : net.UniqueNames) {a : NodeName} (ha : net.name? node = some a)
    {arc : Arc} {named : NamedArc} (hnamed : net.nameArc? arc = some named) :
    (arc.source ≠ node ∧ arc.target ≠ node) ↔ (named.source ≠ a ∧ named.target ≠ a) :=
  and_congr (not_congr (h.eq_iff (name?_endpoint hnamed .source) ha))
    (not_congr (h.eq_iff (name?_endpoint hnamed .target) ha))

/-- Arcs of a net are told apart by the names of their endpoints. -/
theorem HasArc.eq_iff_ends (h : net.Consistent) (hunique : net.UniqueNames) {arc arc' : Arc}
    {named named' : NamedArc} (harc : net.HasArc arc) (harc' : net.HasArc arc')
    (hnamed : net.nameArc? arc = some named) (hnamed' : net.nameArc? arc' = some named') :
    arc = arc' ↔ named.source = named'.source ∧ named.target = named'.target := by
  have hsource := hunique.eq_iff (name?_endpoint hnamed .source) (name?_endpoint hnamed' .source)
  have htarget := hunique.eq_iff (name?_endpoint hnamed .target) (name?_endpoint hnamed' .target)
  constructor
  · rintro rfl
    exact ⟨hsource.1 rfl, htarget.1 rfl⟩
  · exact fun hends => harc.unique h harc' (hsource.2 hends.1) (htarget.2 hends.2)

theorem nameArc?_of_bare (hbare : net'.bare = net.bare) (arc : Arc) :
    net'.nameArc? arc = net.nameArc? arc :=
  nameArc?_congr (name?_congr (content?_of_bare hbare _)) (name?_congr (content?_of_bare hbare _)) rfl

theorem UniqueNames.of_bare (h : net.UniqueNames) (hbare : net'.bare = net.bare) :
    net'.UniqueNames := by
  refine ⟨fun {n m a} hn hm => ?_⟩
  rw [name?_congr (content?_of_bare hbare _)] at hn hm
  exact h.eq hn hm

/-- An arc at the end of the lists of its endpoints. -/
theorem Consistent.hasArc_snoc (h : net.Consistent) (h' : net'.Consistent) {arc : Arc}
    (harcs : ∀ side n, net'.arcs side n =
      net.arcs side n ++ if arc.endpoint side = n then [arc] else []) (old : Arc) :
    net'.HasArc old ↔ net.HasArc old ∨ old = arc := by
  rw [h'.hasArc_iff_mem, harcs, List.mem_append, ← h.hasArc_iff_mem]
  refine or_congr_right ?_
  constructor
  · intro hold
    split_ifs at hold with hend
    · exact List.mem_singleton.1 hold
    · exact absurd hold List.not_mem_nil
  · rintro rfl
    rw [if_pos]
    · exact List.mem_singleton_self _
    · rfl

/-- The arcs by name when one is added between nodes that no other arc joins. -/
theorem HasGraph.weight_addArc (h' : net'.Consistent) (hg : net.HasGraph g)
    (hbare : net'.bare = net.bare) {arc : Arc} {named : NamedArc}
    (hhas : ∀ old, net'.HasArc old ↔ net.HasArc old ∨ old = arc)
    (hnamed : net.nameArc? arc = some named) (a b : NodeName) (weight : Weight) :
    (g.addArc named).weight a b = some weight ↔
      ∃ old, net'.HasArc old ∧ net'.nameArc? old = some ⟨a, b, weight⟩ := by
  simp only [nameArc?_of_bare hbare, hhas]
  by_cases hab : a = named.source ∧ b = named.target
  · -- between these names the added arc is the only one
    obtain ⟨rfl, rfl⟩ := hab
    simp only [NamedGraph.addArc, and_self, if_true]
    constructor
    · intro heq
      cases heq
      exact ⟨arc, Or.inr rfl, hnamed⟩
    · rintro ⟨old, hold, hnameOld⟩
      obtain ⟨hs, ht, -⟩ := nameArc?_eq_some_iff.1 hnameOld
      have hsame : old = arc := HasArc.unique h' ((hhas old).2 hold) ((hhas arc).2 (Or.inr rfl))
        (hg.unique.eq hs (name?_endpoint hnamed .source))
        (hg.unique.eq ht (name?_endpoint hnamed .target))
      rw [hsame, hnamed] at hnameOld
      exact congrArg (Option.map NamedArc.weight) hnameOld
  · simp only [NamedGraph.addArc, hab, if_false, hg.weight]
    refine exists_congr fun old => and_congr_left fun hold => (or_iff_left ?_).symm
    rintro rfl
    rw [hnamed] at hold
    cases hold
    exact hab ⟨rfl, rfl⟩

/-- An arc that comes last in the lists of its endpoints is added to the graph. -/
theorem HasGraph.addArc (h : net.Consistent) (h' : net'.Consistent) (hg : net.HasGraph g)
    (hbare : net'.bare = net.bare) {arc : Arc} {named : NamedArc}
    (harcs : ∀ side n, net'.arcs side n =
      net.arcs side n ++ if arc.endpoint side = n then [arc] else [])
    (hnamed : net.nameArc? arc = some named) : net'.HasGraph (g.addArc named) := by
  have hname : ∀ n, net'.name? n = net.name? n := fun n => name?_congr (content?_of_bare hbare n)
  have hend := name?_endpoint hnamed
  refine .of_holds (hg.unique.of_bare hbare) (fun c => ?_)
    (hg.weight_addArc h' hbare (h.hasArc_snoc h' harcs) hnamed) (fun {n a} hn side => ?_)
    fun {a} ha side => ?_
  · simp only [content?_of_bare hbare, ← hg.holds_iff]
    cases c <;> rfl
  · rw [hname] at hn
    have hsame : a = named.endpoint side ↔ arc.endpoint side = n :=
      eq_comm.trans (hg.unique.eq_iff (hend side) hn).symm
    simp only [NamedGraph.addArc, hg.neighbours hn, neighboursAt, harcs, List.filterMap_append,
      hname, hsame]
    split_ifs with hn'
    · simp only [List.filterMap_cons, hend, List.filterMap_nil]
    · rw [List.filterMap_nil]
  · have ha' : ∀ n, net.name? n ≠ some a := fun n hn => ha n ((hname n).trans hn)
    have hne : a ≠ named.endpoint side := fun heq => ha' _ ((hend side).trans (heq ▸ rfl))
    simp only [NamedGraph.addArc, hg.neighbours_unused ha', if_neg hne, List.nil_append]

/-- The neighbours that are left to a node when arcs are taken out by a test of their other end. -/
theorem Keeps.neighboursAt (h : net.Consistent) {keep : Arc → Bool} (hkeeps : Keeps keep net net')
    {side : Side} {p : NodeName → Bool}
    (hp : ∀ arc ∈ net.arcs side node, ∀ b, net.name? (arc.endpoint side.other) = some b →
      keep arc = p b) : net'.neighboursAt side node = (net.neighboursAt side node).filter p := by
  rw [Net.neighboursAt, Net.neighboursAt, hkeeps.arcs, List.filter_filterMap, List.filterMap_filter]
  refine List.filterMap_congr fun arc harc => ?_
  obtain ⟨b, hb⟩ := (h.mem_arcs_iff.1 harc).1.exists_name h side.other
  rw [name?_congr (content?_of_bare hkeeps.bare _), hb, hp arc harc b hb, Option.filter_some]

/-- Arcs that fail a test are taken out of all lists. -/
theorem HasGraph.keepArcs (h : net.Consistent) (hg : net.HasGraph g) {keep : Arc → Bool}
    {test : NodeName → NodeName → Bool} (hkeeps : Keeps keep net net')
    (htest : ∀ arc named, net.HasArc arc → net.nameArc? arc = some named →
      keep arc = test named.source named.target) : net'.HasGraph (g.keepArcs test) := by
  have hname : ∀ n, net'.name? n = net.name? n := fun n =>
    name?_congr (content?_of_bare hkeeps.bare n)
  refine .of_holds (hg.unique.of_bare hkeeps.bare) (fun c => ?_) (fun a b weight => ?_)
    (fun {n a} hn side => ?_) fun {a} ha side => ?_
  · simp only [content?_of_bare hkeeps.bare, ← hg.holds_iff]
    cases c <;> rfl
  · simp only [nameArc?_of_bare hkeeps.bare, hkeeps.hasArc_iff h, NamedGraph.keepArcs]
    split_ifs with hab
    · rw [hg.weight]
      refine exists_congr fun arc => ?_
      constructor
      · rintro ⟨harc, hnamed⟩
        exact ⟨⟨harc, (htest arc _ harc hnamed).trans hab⟩, hnamed⟩
      · rintro ⟨⟨harc, -⟩, hnamed⟩
        exact ⟨harc, hnamed⟩
    · simp only [false_iff, not_exists]
      rintro arc ⟨⟨harc, hkeep⟩, hnamed⟩
      exact hab ((htest arc _ harc hnamed).symm.trans hkeep)
  · rw [hname] at hn
    cases side with
    | source =>
        simp only [NamedGraph.keepArcs, hg.neighbours hn]
        refine (hkeeps.neighboursAt h fun arc harc b hb => ?_).symm
        obtain ⟨hhas, rfl⟩ := h.mem_arcs_iff.1 harc
        exact htest arc ⟨a, b, arc.weight⟩ hhas (nameArc?_eq_some_iff.2 ⟨hn, hb, rfl⟩)
    | target =>
        simp only [NamedGraph.keepArcs, hg.neighbours hn]
        refine (hkeeps.neighboursAt h fun arc harc b hb => ?_).symm
        obtain ⟨hhas, rfl⟩ := h.mem_arcs_iff.1 harc
        exact htest arc ⟨b, a, arc.weight⟩ hhas (nameArc?_eq_some_iff.2 ⟨hb, hn, rfl⟩)
  · have ha' : ∀ n, net.name? n ≠ some a := fun n hn => ha n ((hname n).trans hn)
    cases side <;> simp only [NamedGraph.keepArcs, hg.neighbours_unused ha', List.filter_nil]

/-! ### Removing a node -/

/-- An arc of the net once the last node has moved to `node`. -/
def renameArc (last node : Node) (arc : Arc) : Arc :=
  ⟨renamed last node arc.source, renamed last node arc.target, arc.weight⟩

theorem endpoint_renameArc (last node : Node) (arc : Arc) (side : Side) :
    (renameArc last node arc).endpoint side = renamed last node (arc.endpoint side) := by
  cases side <;> rfl

/-- Every node but the removed one lists its arcs as before, up to the handle of the last node. -/
theorem NodeRemoved.arcs {last n : Node} (r : NodeRemoved net net' last node) (hn : n ≠ node)
    (side : Side) :
    net'.arcs side (renamed last node n) = (net.arcs side n).map (renameArc last node) := by
  have hlisted := (r.takesOver side).renamed_eq hn
  have hedge : ∀ id, (net'.edge? id).map Edge.arc =
      ((net.edge? id).map Edge.arc).map (renameArc last node) := by
    intro id
    rw [r.edge, Option.map_map, Option.map_map]
    rfl
  simp only [Net.arcs, hlisted, hedge]
  rw [List.map_filterMap]

theorem NodeRemoved.hasArc_iff {last : Node} (r : NodeRemoved net net' last node) (arc' : Arc) :
    net'.HasArc arc' ↔ ∃ arc, net.HasArc arc ∧ renameArc last node arc = arc' := by
  constructor
  · rintro ⟨id, edge', hedge', rfl⟩
    obtain ⟨edge, hedge, rfl⟩ := r.edge?_eq_some_iff.1 hedge'
    exact ⟨edge.arc, ⟨id, edge, hedge, rfl⟩, rfl⟩
  · rintro ⟨_, ⟨id, edge, hedge, rfl⟩, rfl⟩
    exact ⟨id, _, r.edge?_eq_some_iff.2 ⟨edge, hedge, rfl⟩, rfl⟩

/-- The contents left after a removal are those under other names. -/
theorem TakesOver.exists_content?_iff {last : Node} {x : NodeName}
    (hcontent : TakesOver last node net.content? net'.content?) (hunique : net.UniqueNames)
    (hx : net.name? node = some x) (c : Content) :
    (∃ n, net'.content? n = some c) ↔ c.name ≠ x ∧ ∃ n, net.content? n = some c := by
  rw [hcontent.exists_iff]
  constructor
  · rintro ⟨n, hn, hc⟩
    exact ⟨fun heq => hn (hunique.eq (name?_eq_some_iff.2 ⟨c, hc, heq⟩) hx), n, hc⟩
  · rintro ⟨hcx, n, hc⟩
    refine ⟨n, ?_, hc⟩
    rintro rfl
    rw [name?_eq_some_iff.2 ⟨c, hc, rfl⟩] at hx
    exact hcx (Option.some.inj hx)

theorem UniqueNames.of_takesOver {last : Node} (h : net.UniqueNames)
    (hname : TakesOver last node net.name? net'.name?) : net'.UniqueNames := by
  refine ⟨fun {n m a} hn hm => ?_⟩
  obtain ⟨n₀, -, rfl, hn₀⟩ := hname.eq_renamed hn
  obtain ⟨m₀, -, rfl, hm₀⟩ := hname.eq_renamed hm
  rw [h.eq hn₀ hm₀]

/-- A node without arcs is dropped; the last node stands under its handle afterwards. -/
theorem HasGraph.dropContent {last : Node} {x : NodeName} (h : net.Consistent)
    (hg : net.HasGraph g) (r : NodeRemoved net net' last node)
    (hcontent : TakesOver last node net.content? net'.content?) (hx : net.name? node = some x)
    (hisolated : ∀ side, net.arcs side node = []) : net'.HasGraph (g.dropContent x) := by
  have hname : TakesOver last node net.name? net'.name? := hcontent.map Content.name
  have hne : ∀ {arc}, net.HasArc arc → ∀ side, arc.endpoint side ≠ node := by
    intro arc harc side hend
    have hmem := h.mem_arcs_iff.2 ⟨harc, hend⟩
    rw [hisolated] at hmem
    exact List.not_mem_nil hmem
  -- the arcs move along with the last node and keep their names
  have hnames : ∀ {arc}, net.HasArc arc → net'.nameArc? (renameArc last node arc) =
      net.nameArc? arc := fun harc =>
    nameArc?_congr (hname.renamed_eq (hne harc .source)) (hname.renamed_eq (hne harc .target)) rfl
  refine .of_holds (hg.unique.of_takesOver hname) (fun c => ?_) (fun a b weight => ?_)
    (fun {n a} hn side => ?_) fun {a} ha side => ?_
  · rw [holds_dropContent, hcontent.exists_content?_iff hg.unique hx, hg.holds_iff]
  · change g.weight a b = some weight ↔ _
    rw [hg.weight]
    constructor
    · rintro ⟨arc, harc, hnamed⟩
      exact ⟨_, (r.hasArc_iff _).2 ⟨arc, harc, rfl⟩, (hnames harc).trans hnamed⟩
    · rintro ⟨_, harc', hnamed⟩
      obtain ⟨arc, harc, rfl⟩ := (r.hasArc_iff _).1 harc'
      exact ⟨arc, harc, (hnames harc).symm.trans hnamed⟩
  · obtain ⟨m, hm, rfl, hold⟩ := hname.eq_renamed hn
    change g.neighbours side a = _
    rw [hg.neighbours hold, neighboursAt, neighboursAt, r.arcs hm, List.filterMap_map]
    refine List.filterMap_congr fun arc harc => ?_
    rw [Function.comp_apply, endpoint_renameArc,
      hname.renamed_eq (hne (h.mem_arcs_iff.1 harc).1 side.other)]
  · change g.neighbours side a = _
    by_cases hax : a = x
    · rw [hax, hg.neighbours hx, neighboursAt, hisolated, List.filterMap_nil]
    · refine hg.neighbours_unused (fun n hn => ha (renamed last node n) ?_) side
      rw [hname.renamed_eq, hn]
      rintro rfl
      rw [hx] at hn
      exact hax (Option.some.inj hn).symm

end Net
end PetriCcs
