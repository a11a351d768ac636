import PetriCcs.Classification.Workflow
import PetriCcs.Proofs.Copy
import PetriCcs.Proofs.Search

/-! # Paths and workflow nets

`net.Leads u v` says that a path of arcs leads from one node to another, and `net.IsBorder side p`
that no arc has a place at that side: a place without incoming arcs is a border at the target side,
one without outgoing arcs at the source side.  `Net.WorkflowNet` states the workflow property with
these; the test of the class, which searches along the lists of edges, decides it
(`Consistent.isWorkflow_iff`).  Copies keep the property (`WorkflowNet.copy`). -/

namespace PetriCcs

/-- The edges that a place lists at a side. -/
def Place.listed (place : Place) : Side → List EdgeId
  | .source => place.outgoing
  | .target => place.incoming

namespace Net

variable {net : Net} {u v : Node} {p : PlaceId} {side : Side}

/-! ### Paths -/

/-- An arc leads from one node to the other. -/
def Flows (net : Net) (u v : Node) : Prop := ∃ weight, net.HasArc ⟨u, v, weight⟩

/-- A path of arcs, possibly empty, leads from one node to the other. -/
def Leads (net : Net) : Node → Node → Prop := Relation.ReflTransGen net.Flows

theorem Flows.leads (h : net.Flows u v) : net.Leads u v := Relation.ReflTransGen.single h

theorem Flows.contains_source (h : net.Consistent) (hflows : net.Flows u v) :
    net.contains u = true := by
  obtain ⟨weight, harc⟩ := hflows
  exact harc.contains h .source

theorem Flows.contains_target (h : net.Consistent) (hflows : net.Flows u v) :
    net.contains v = true := by
  obtain ⟨weight, harc⟩ := hflows
  exact harc.contains h .target

theorem flows_iff : net.Flows u v ↔ ∃ edge ∈ net.edges.toList, edge.source = u ∧ edge.target = v := by
  constructor
  · rintro ⟨weight, id, edge, hedge, harc⟩
    exact ⟨edge, Arena.mem_toList_iff.2 ⟨id, hedge⟩, congrArg Arc.source harc,
      congrArg Arc.target harc⟩
  · rintro ⟨edge, hedge, rfl, rfl⟩
    obtain ⟨id, hid⟩ := Arena.mem_toList_iff.1 hedge
    exact ⟨edge.weight, id, edge, hid, rfl⟩

/-- A transition consumes from a place exactly when an arc leads from the one to the other. -/
theorem Consistent.mem_consumers_iff_flows (h : net.Consistent) {t : TransitionId} :
    t ∈ net.consumers p ↔ net.Flows (.place p) (.transition t) := by
  rw [h.mem_consumers_iff]
  constructor
  · exact fun harc => ⟨1, harc⟩
  · rintro ⟨weight, harc⟩
    have hweight : weight = 1 := harc.fits h
    rwa [hweight] at harc

theorem mem_successors_iff : v ∈ net.successors u ↔ net.Flows u v := by
  rw [flows_iff, successors, List.mem_filterMap]
  simp

theorem mem_predecessors_iff : v ∈ net.predecessors u ↔ net.Flows v u := by
  rw [flows_iff, predecessors, List.mem_filterMap]
  refine exists_congr fun edge => and_congr_right fun _ => ?_
  simp [and_comm]

theorem nodup_nodes (net : Net) : net.nodes.Nodup := by
  refine List.nodup_append.2 ⟨net.places.nodup_handles.map fun _ _ => Node.place.inj,
    net.transitions.nodup_handles.map fun _ _ => Node.transition.inj, fun u hu v hv heq => ?_⟩
  obtain ⟨p, -, rfl⟩ := List.mem_map.1 hu
  obtain ⟨t, -, rfl⟩ := List.mem_map.1 hv
  cases heq

/-! ### Places at the border -/

/-- A place of the net that no arc has at a side. -/
def IsBorder (net : Net) (side : Side) (p : PlaceId) : Prop :=
  net.contains (.place p) = true ∧ ∀ arc, net.HasArc arc → arc.endpoint side ≠ .place p

theorem isBorder_target_iff : net.IsBorder .target p ↔
    net.contains (.place p) = true ∧ ∀ u, ¬ net.Flows u (.place p) := by
  refine and_congr_right fun _ => ⟨fun hall u hflows => ?_, fun hall arc harc heq => ?_⟩
  · obtain ⟨weight, harc⟩ := hflows
    exact hall _ harc rfl
  · refine hall arc.source ⟨arc.weight, ?_⟩
    rw [← show arc.target = .place p from heq]
    exact harc

theorem isBorder_source_iff : net.IsBorder .source p ↔
    net.contains (.place p) = true ∧ ∀ v, ¬ net.Flows (.place p) v := by
  refine and_congr_right fun _ => ⟨fun hall v hflows => ?_, fun hall arc harc heq => ?_⟩
  · obtain ⟨weight, harc⟩ := hflows
    exact hall _ harc rfl
  · refine hall arc.target ⟨arc.weight, ?_⟩
    rw [← show arc.source = .place p from heq]
    exact harc

/-- A node lists no edge at a side exactly when it is there at the end of no arc. -/
theorem Consistent.listed_eq_nil_iff (h : net.Consistent) {node : Node} {edges : List EdgeId}
    (hlisted : net.listed? side node = some edges) :
    edges = [] ↔ ∀ arc, net.HasArc arc → arc.endpoint side ≠ node := by
  rw [List.eq_nil_iff_forall_not_mem]
  constructor
  · rintro hnil arc ⟨id, edge, hedge, rfl⟩ hend
    rw [Edge.endpoint_arc] at hend
    exact hnil id ((h.mem_listed hlisted id).2 ⟨edge, hedge, hend⟩)
  · intro hall id hid
    obtain ⟨edge, hedge, hend⟩ := (h.mem_listed hlisted id).1 hid
    refine hall edge.arc ⟨id, edge, hedge, rfl⟩ ?_
    rw [Edge.endpoint_arc, hend]

theorem listed?_place {place : Place} (hplace : net.place? p = some place) (side : Side) :
    net.listed? side (.place p) = some (place.listed side) := by
  cases side <;> simp [listed?, outgoing?, incoming?, hplace, Place.listed]

theorem Consistent.isBorder_iff (h : net.Consistent) : net.IsBorder side p ↔
    ∃ place, net.place? p = some place ∧ (place.listed side).isEmpty = true := by
  constructor
  · rintro ⟨hp, hall⟩
    obtain ⟨place, hplace⟩ := Arena.contains_iff_get?.1 hp
    have hplace' : net.place? p = some place := hplace
    refine ⟨place, hplace', List.isEmpty_iff.2 ?_⟩
    exact (h.listed_eq_nil_iff (listed?_place hplace' side)).2 hall
  · rintro ⟨place, hplace, hempty⟩
    refine ⟨Arena.contains_iff_get?.2 ⟨place, hplace⟩, ?_⟩
    exact (h.listed_eq_nil_iff (listed?_place hplace side)).1 (List.isEmpty_iff.1 hempty)

/-- The only place that satisfies a test. -/
theorem Identified.onlyPlace?_eq_some_iff (h : net.Identified) {test : Place → Bool} :
    net.onlyPlace? test = some p ↔
      ∀ q, (∃ place, net.place? q = some place ∧ test place = true) ↔ q = p := by
  have hmem : ∀ place, place ∈ net.places.toList.filter test ↔
      net.place? place.id = some place ∧ test place = true := by
    intro place
    rw [List.mem_filter, Arena.mem_toList_iff]
    refine and_congr_left fun _ => ⟨fun ⟨id, hid⟩ => ?_, fun hid => ⟨_, hid⟩⟩
    rw [h.place_id hid]
    exact hid
  constructor
  · intro honly q
    unfold onlyPlace? at honly
    split at honly
    · rename_i place hfilter
      obtain rfl := Option.some.inj honly
      rw [hfilter] at hmem
      constructor
      · rintro ⟨other, hother, htest⟩
        have hid := h.place_id hother
        subst hid
        rw [List.mem_singleton.1 ((hmem other).2 ⟨hother, htest⟩)]
      · rintro rfl
        exact ⟨place, (hmem place).1 (List.mem_singleton_self place)⟩
    · cases honly
  · intro hall
    obtain ⟨place, hplace, htest⟩ := (hall p).2 rfl
    have hid := h.place_id hplace
    have hfilter : net.places.toList.filter test = [place] := by
      refine List.perm_singleton.1 ((List.perm_ext_iff_of_nodup
        ((Arena.nodup_toList h.place_id).filter _) (List.nodup_singleton place)).2 fun other => ?_)
      rw [hmem, List.mem_singleton]
      constructor
      · rintro ⟨hother, hok⟩
        have heq := (hall other.id).1 ⟨other, hother, hok⟩
        rw [heq, hplace] at hother
        exact (Option.some.inj hother).symm
      · rintro rfl
        rw [hid]
        exact ⟨hplace, htest⟩
    rw [onlyPlace?, hfilter, ← hid]

/-! ### The workflow property -/

/-- One place has no incoming arcs, one has no outgoing arcs, and every node lies on a path from
the first and on a path to the second. -/
def WorkflowNet (net : Net) : Prop :=
  ∃ source sink, (∀ p, net.IsBorder .target p ↔ p = source) ∧
    (∀ p, net.IsBorder .source p ↔ p = sink) ∧
    ∀ node, net.contains node = true →
      net.Leads (.place source) node ∧ net.Leads node (.place sink)

/-- The place that the test of the class takes for the border at a side. -/
theorem Consistent.onlyPlace?_listed (h : net.Consistent) (side : Side) :
    net.onlyPlace? (fun place => (place.listed side).isEmpty) = some p ↔
      ∀ q, net.IsBorder side q ↔ q = p := by
  rw [h.identified.onlyPlace?_eq_some_iff]
  exact forall_congr' fun q => by rw [h.isBorder_iff]

/-- A search along a relation between nodes meets them all exactly when it relates its start to all of
them in some number of steps. -/
theorem isEmpty_unreached_nodes {next : Node → List Node} {R : Node → Node → Prop}
    (hnext : ∀ {u v}, v ∈ next u ↔ R u v) (hcontains : ∀ {u v}, R u v → net.contains v = true)
    (hu : net.contains u = true) : (unreached next net.nodes [u]).isEmpty = true ↔
      ∀ node, net.contains node = true → Relation.ReflTransGen R u node := by
  rw [isEmpty_unreached_iff net.nodup_nodes (fun _ _ node hnode => ?_) (mem_nodes_iff.2 hu)]
  · refine forall_congr' fun node => ?_
    rw [mem_nodes_iff]
    simp only [hnext]
  · exact mem_nodes_iff.2 (hcontains (hnext.1 hnode))

/-- The search along the edges meets the nodes to which its start leads. -/
theorem Consistent.isEmpty_unreached_successors (h : net.Consistent)
    (hu : net.contains u = true) :
    (unreached net.successors net.nodes [u]).isEmpty = true ↔
      ∀ node, net.contains node = true → net.Leads u node :=
  isEmpty_unreached_nodes mem_successors_iff (Flows.contains_target h) hu

/-- The search against the edges meets the nodes that lead to its start. -/
theorem Consistent.isEmpty_unreached_predecessors (h : net.Consistent)
    (hu : net.contains u = true) :
    (unreached net.predecessors net.nodes [u]).isEmpty = true ↔
      ∀ node, net.contains node = true → net.Leads node u := by
  have hback : ∀ {a b}, b ∈ net.predecessors a ↔ Function.swap net.Flows a b :=
    mem_predecessors_iff
  rw [isEmpty_unreached_nodes hback (Flows.contains_source h) hu]
  exact forall₂_congr fun node _ => Relation.reflTransGen_swap

/-- The class is the workflow property. -/
theorem Consistent.isWorkflow_iff (h : net.Consistent) :
    net.isWorkflow = true ↔ net.WorkflowNet := by
  have hsource := fun p => h.onlyPlace?_listed (p := p) .target
  have hsink := fun p => h.onlyPlace?_listed (p := p) .source
  simp only [Place.listed] at hsource hsink
  constructor
  · intro hclass
    unfold isWorkflow at hclass
    split at hclass
    · rename_i source sink hfirst hlast
      have hfirst := (hsource source).1 hfirst
      have hlast := (hsink sink).1 hlast
      rw [Bool.and_eq_true,
        h.isEmpty_unreached_successors ((hfirst source).2 rfl).1,
        h.isEmpty_unreached_predecessors ((hlast sink).2 rfl).1] at hclass
      exact ⟨source, sink, hfirst, hlast, fun node hnode => ⟨hclass.1 node hnode, hclass.2 node hnode⟩⟩
    · cases hclass
  · rintro ⟨source, sink, hfirst, hlast, hall⟩
    rw [isWorkflow, (hsource source).2 hfirst, (hsink sink).2 hlast]
    show (_ && _) = true
    rw [Bool.and_eq_true,
      h.isEmpty_unreached_successors ((hfirst source).2 rfl).1,
      h.isEmpty_unreached_predecessors ((hlast sink).2 rfl).1]
    exact ⟨fun node hnode => (hall node hnode).1, fun node hnode => (hall node hnode).2⟩

/-! ### Copies -/

variable {tag : ℕ}

theorem Leads.copy (h : net.Consistent) (hleads : net.Leads u v) (tag : ℕ) :
    (net.copy tag).Leads (u.retag tag) (v.retag tag) := by
  refine Relation.ReflTransGen.lift (Node.retag tag) (fun a b hab => ?_) u v hleads
  obtain ⟨weight, harc⟩ := hab
  exact ⟨weight, harc.copy h tag⟩

theorem isBorder_copy_iff (h : net.Consistent) : (net.copy tag).IsBorder side p ↔
    p.owner = tag ∧ net.IsBorder side (p.retag net.tag) := by
  have hendpoint : ∀ (arc : Arc) (tag : ℕ),
      (arc.retag tag).endpoint side = (arc.endpoint side).retag tag := by
    intro arc tag
    cases side <;> rfl
  unfold IsBorder
  rw [contains_copy h.identified, and_assoc]
  refine and_congr_right fun howner => and_congr_right fun _ => ?_
  constructor
  · intro hall arc harc hend
    refine hall (arc.retag tag) (harc.copy h tag) ?_
    rw [hendpoint, hend]
    exact congrArg Node.place (Handle.retag_of_owner howner)
  · intro hall arc harc hend
    refine hall (arc.retag net.tag) ((hasArc_copy_iff h).1 harc).2.2 ?_
    rw [hendpoint, hend]
    rfl

theorem WorkflowNet.copy (h : net.Consistent) (hnet : net.WorkflowNet) (tag : ℕ) :
    (net.copy tag).WorkflowNet := by
  have hborder : ∀ {side : Side} {border : PlaceId},
      (∀ p, net.IsBorder side p ↔ p = border) →
        ∀ p, (net.copy tag).IsBorder side p ↔ p = border.retag tag := by
    intro side border hall p
    rw [isBorder_copy_iff h, hall]
    constructor
    · rintro ⟨howner, rfl⟩
      exact (Handle.retag_of_owner howner).symm
    · rintro rfl
      have howner := h.identified.owner_of_contains ((hall border).2 rfl).1
      exact ⟨rfl, Handle.retag_of_owner howner⟩
  obtain ⟨source, sink, hsource, hsink, hall⟩ := hnet
  refine ⟨source.retag tag, sink.retag tag, hborder hsource, hborder hsink, fun node hnode => ?_⟩
  obtain ⟨howner, hnode⟩ := (contains_copy h.identified node).1 hnode
  obtain ⟨hfrom, hto⟩ := hall _ hnode
  rw [← Node.retag_of_owner howner, ← Node.retag_retag net.tag tag]
  exact ⟨hfrom.copy h tag, hto.copy h tag⟩

end Net
end PetriCcs
