import PetriCcs.Proofs.Arcs
import PetriCcs.Proofs.Takeover

/-! # Removing edges

Removing an edge takes its handle out of all lists and renames the last handle to it everywhere
(`removeEdge_runOn`); in a consistent net the lists of the endpoints are the only ones concerned.
The net stays consistent and every list of arcs loses the removed arc only
(`Consistent.of_removedEdge`).  Removing the listed edges of a node empties its list
(`removeListed_runOn`). -/

namespace PetriCcs

open Edit (replaceHandle)

/-- The former handle of what is stored under `k` once the last edge has moved to `id`. -/
def origin (last id k : EdgeId) : EdgeId := if k = id then last else k

theorem origin_ne {last id k : EdgeId} (h : k ≠ last) : origin last id k ≠ id := by
  unfold origin
  split
  · rename_i hk
    exact fun e => h (hk.trans e.symm)
  · assumption

/-- A handle is left in a list when its former handle was there. -/
theorem mem_replaceHandle_filter_iff {last id k : EdgeId} {edges : List EdgeId} :
    k ∈ replaceHandle last id (edges.filter (· ≠ id)) ↔ k ≠ last ∧ origin last id k ∈ edges := by
  simp only [replaceHandle, List.mem_map, List.mem_filter, decide_eq_true_eq]
  constructor
  · rintro ⟨e, ⟨hmem, hne⟩, rfl⟩
    by_cases he : e = last
    · rw [if_pos he]
      exact ⟨fun hid => hne (he.trans hid.symm), by rwa [origin, if_pos rfl, ← he]⟩
    · rw [if_neg he]
      exact ⟨he, by rwa [origin, if_neg hne]⟩
  · rintro ⟨hk, hmem⟩
    refine ⟨origin last id k, ⟨hmem, origin_ne hk⟩, ?_⟩
    unfold origin
    by_cases hid : k = id
    · rw [if_pos hid, if_pos rfl, hid]
    · rw [if_neg hid, if_neg hk]

theorem nodup_replaceHandle_filter {last id : EdgeId} {edges : List EdgeId} (h : edges.Nodup) :
    (replaceHandle last id (edges.filter (· ≠ id))).Nodup := by
  refine (h.filter _).map_on ?_
  intro e he e' he' heq
  have hne : e ≠ id := by simpa using (List.mem_filter.1 he).2
  have hne' : e' ≠ id := by simpa using (List.mem_filter.1 he').2
  split_ifs at heq with h1 h2 h2
  · rw [h1, h2]
  · exact absurd heq.symm hne'
  · exact absurd heq hne
  · exact heq

theorem replaceHandle_self (id : EdgeId) (edges : List EdgeId) : replaceHandle id id edges = edges := by
  unfold replaceHandle
  conv_rhs => rw [← List.map_id edges]
  refine List.map_congr_left fun e _ => ?_
  split
  · rename_i he
    exact he.symm
  · rfl

theorem replaceHandle_of_not_mem {old new : EdgeId} {edges : List EdgeId} (h : old ∉ edges) :
    replaceHandle old new edges = edges := by
  unfold replaceHandle
  conv_rhs => rw [← List.map_id edges]
  refine List.map_congr_left fun e he => ?_
  rw [if_neg (fun heq : e = old => h (heq ▸ he))]
  rfl

theorem filter_ne_of_not_mem {id : EdgeId} {edges : List EdgeId} (h : id ∉ edges) :
    edges.filter (· ≠ id) = edges :=
  List.filter_eq_self.2 fun e he => by simpa using fun heq : e = id => h (heq ▸ he)

namespace Net

variable {net net' : Net} {id : EdgeId} {removed : Edge}

/-- What an edge removal does to the lookups of a net. -/
structure EdgeRemoved (net net' : Net) (id : EdgeId) : Prop where
  bare : net'.bare = net.bare
  size : net'.edges.size + 1 = net.edges.size
  listed : ∀ side node, net'.listed? side node = (net.listed? side node).map fun edges =>
    replaceHandle net.edges.lastHandle id (edges.filter (· ≠ id))
  edge : ∀ k, net'.edge? k =
    if k = net.edges.lastHandle then none
    else (net.edge? (origin net.edges.lastHandle id k)).map ({ · with id := k })

theorem EdgeRemoved.edge?_eq_some_iff (r : EdgeRemoved net net' id) {k : EdgeId} {edge' : Edge} :
    net'.edge? k = some edge' ↔ k ≠ net.edges.lastHandle ∧
      ∃ edge, net.edge? (origin net.edges.lastHandle id k) = some edge ∧ { edge with id := k } = edge' := by
  rw [r.edge]
  split
  · rename_i hk
    simp [hk]
  · rename_i hk
    simp [hk, Option.map_eq_some_iff]

/-- Removing an edge keeps a net consistent. -/
theorem Consistent.of_edgeRemoved (h : net.Consistent) (r : EdgeRemoved net net' id) :
    net'.Consistent := by
  have hend : ∀ (edge : Edge) (k : EdgeId) (side : Side),
      ({ edge with id := k } : Edge).endpoint side = edge.endpoint side := by
    intro edge k side
    cases side <;> rfl
  refine ⟨h.identified.of_bare r.bare, ?_, ?_, ?_, ?_, ?_, ?_⟩
  · intro k edge' hk
    obtain ⟨-, edge, -, rfl⟩ := r.edge?_eq_some_iff.1 hk
    rfl
  · intro side node edges' hl
    rw [r.listed, Option.map_eq_some_iff] at hl
    obtain ⟨edges, hl, rfl⟩ := hl
    exact nodup_replaceHandle_filter (h.nodup hl)
  · intro side node edges' hl k
    rw [r.listed, Option.map_eq_some_iff] at hl
    obtain ⟨edges, hl, rfl⟩ := hl
    rw [mem_replaceHandle_filter_iff, h.mem_listed hl]
    constructor
    · rintro ⟨hk, edge, hedge, hnode⟩
      exact ⟨_, r.edge?_eq_some_iff.2 ⟨hk, edge, hedge, rfl⟩, (hend edge k side).trans hnode⟩
    · rintro ⟨edge', hedge', hnode⟩
      obtain ⟨hk, edge, hedge, rfl⟩ := r.edge?_eq_some_iff.1 hedge'
      exact ⟨hk, edge, hedge, (hend edge k side).symm.trans hnode⟩
  · intro k edge' hk side
    obtain ⟨-, edge, hedge, rfl⟩ := r.edge?_eq_some_iff.1 hk
    rw [contains_of_bare r.bare, hend]
    exact h.contains_endpoint hedge side
  · intro k edge' hk
    obtain ⟨-, edge, hedge, rfl⟩ := r.edge?_eq_some_iff.1 hk
    have hfits := h.fits hedge
    exact hfits
  · intro k k' edge edge' hk hk' hs ht
    obtain ⟨hne, old, hold, rfl⟩ := r.edge?_eq_some_iff.1 hk
    obtain ⟨hne', old', hold', rfl⟩ := r.edge?_eq_some_iff.1 hk'
    have heq := h.unique hold hold' hs ht
    unfold origin at heq
    split_ifs at heq with h1 h2 h2
    · rw [h1, h2]
    · exact absurd heq.symm hne'
    · exact absurd heq hne
    · exact heq

/-- Every list of arcs loses the removed arc and keeps the others in order. -/
theorem EdgeRemoved.arcs (h : net.Consistent) (r : EdgeRemoved net net' id)
    (hremoved : net.edge? id = some removed) (side : Side) (node : Node) :
    net'.arcs side node = (net.arcs side node).filter (· ≠ removed.arc) := by
  rw [Net.arcs, Net.arcs, r.listed]
  cases hl : net.listed? side node with
  | none => rfl
  | some edges =>
      rw [Option.map_some, Option.getD_some, Option.getD_some, replaceHandle, List.filterMap_map,
        List.filterMap_filter, List.filter_filterMap]
      refine List.filterMap_congr fun e he => ?_
      obtain ⟨edge, hedge, -⟩ := h.edge_of_mem hl he
      by_cases hid : e = id
      · subst hid
        rw [hremoved] at hedge
        cases hedge
        simp [hremoved, Option.filter]
      · have harc : edge.arc ≠ removed.arc := fun heq =>
          hid (h.unique hedge hremoved (congrArg Arc.source heq) (congrArg Arc.target heq))
        have hedge' : (net'.edge? (if e = net.edges.lastHandle then id else e)).map Edge.arc =
            some edge.arc := by
          rw [r.edge]
          by_cases hlast : e = net.edges.lastHandle
          · rw [if_pos hlast, if_neg (fun heq => hid (hlast.trans heq.symm)), origin, if_pos rfl,
              ← hlast, hedge]
            rfl
          · rw [if_neg hlast, if_neg hlast, origin, if_neg hid, hedge]
            rfl
        simp [hid, hedge, hedge', harc, Option.filter]

end Net

namespace Edit

variable {net net' : Net} {id : EdgeId} {removed : Edge}

/-- Changing the lists of both endpoints of an edge changes all lists alike, when the change leaves
the others alone. -/
theorem updateEnds_runOn (edge : Edge) (f : List EdgeId → List EdgeId)
    (hcontains : ∀ side, net.contains (edge.endpoint side) = true)
    (hother : ∀ side node edges, net.listed? side node = some edges →
      node ≠ edge.endpoint side → f edges = edges) :
    ∃ net₁ net', (updateOutgoing edge.source f).runOn net = (.ok (), net₁) ∧
      (updateIncoming edge.target f).runOn net₁ = (.ok (), net') ∧ net'.bare = net.bare ∧
      net'.edges = net.edges ∧
      ∀ side node, net'.listed? side node = (net.listed? side node).map f := by
  obtain ⟨net₁, hrun₁, hbare₁, hedges₁, hlisted₁⟩ :=
    updateListed_runOn .source edge.source f (hcontains .source)
  obtain ⟨net₂, hrun₂, hbare₂, hedges₂, hlisted₂⟩ := updateListed_runOn .target edge.target f
    (show net₁.contains edge.target = true by rw [Net.contains_of_bare hbare₁]; exact hcontains .target)
  refine ⟨net₁, net₂, hrun₁, hrun₂, hbare₂.trans hbare₁, hedges₂.trans hedges₁, ?_⟩
  intro side node
  have hsame : node ≠ edge.endpoint side → net.listed? side node = (net.listed? side node).map f := by
    intro hne
    cases hl : net.listed? side node with
    | none => rfl
    | some edges => rw [Option.map_some, hother side node edges hl hne]
  rw [hlisted₂, hlisted₁]
  cases side with
  | source =>
      by_cases hnode : node = edge.source
      · simp [hnode]
      · simpa [hnode] using hsame hnode
  | target =>
      by_cases hnode : node = edge.target
      · simp [hnode]
      · simpa [hnode] using hsame hnode

/-- The moved edge takes over the handle `id`, in its own record and in all lists. -/
theorem adoptEdge_runOn {old : EdgeId} {moved : Edge} (hid : net.edge? id = some moved)
    (hcontains : ∀ side, net.contains (moved.endpoint side) = true)
    (hother : ∀ side node edges, net.listed? side node = some edges →
      node ≠ moved.endpoint side → old ∉ edges) :
    ∃ net', (adoptEdge old id).runOn net = (.ok (), net') ∧ net'.bare = net.bare ∧
      net'.edges.size = net.edges.size ∧
      (∀ side node, net'.listed? side node = (net.listed? side node).map (replaceHandle old id)) ∧
      ∀ k, net'.edge? k = if k = id then some { moved with id } else net.edge? k := by
  obtain ⟨net₁, hrun₁, hbare₁, hlisted₁, hsize₁, hedge₁⟩ :=
    @updateEdge_runOn net id ({ · with id }) (Arena.contains_of_get? hid)
  have hmoved : net₁.edge? id = some { moved with id } := by
    rw [hedge₁, if_pos rfl, hid]
    rfl
  have hend : ∀ side, ({ moved with id } : Edge).endpoint side = moved.endpoint side := by
    intro side
    cases side <;> rfl
  obtain ⟨net₂, net₃, hrun₂, hrun₃, hbare₃, hedges₃, hlisted₃⟩ :=
    @updateEnds_runOn net₁ { moved with id } (replaceHandle old id)
      (fun side => by rw [Net.contains_of_bare hbare₁, hend]; exact hcontains side)
      (fun side node edges hl hne => replaceHandle_of_not_mem
        (hother side node edges (hlisted₁ side node ▸ hl) (hend side ▸ hne)))
  refine ⟨net₃, ?_, hbare₃.trans hbare₁, by rw [hedges₃, hsize₁], ?_, ?_⟩
  · rw [adoptEdge, runOn_bind_ok hrun₁, runOn_bind_ok (storedEdge_runOn hmoved), runOn_bind_ok hrun₂,
      hrun₃]
  · intro side node
    rw [hlisted₃, hlisted₁]
  · intro k
    rw [Net.edge?, hedges₃]
    change net₁.edge? k = _
    rw [hedge₁]
    split
    · rename_i hk
      rw [hk, hid]
      rfl
    · rfl

theorem removeEdge_refused (h : net.edge? id = none) :
    (removeEdge id).runOn net = (.error (.unrelatedEdge id), net) := by
  rw [removeEdge, runOn_bind_ok (runOn_get net), h]
  rfl

/-- An edge is out of the lists and of the collection; the last edge stands under its handle, but is
still listed under the former one. -/
structure Unlinked (net net' : Net) (id : EdgeId) : Prop where
  bare : net'.bare = net.bare
  size : net'.edges.size + 1 = net.edges.size
  listed : ∀ side node, net'.listed? side node = (net.listed? side node).map (·.filter (· ≠ id))
  edge : Net.TakesOver net.edges.lastHandle id net.edge? net'.edge?

/-- Under any handle but the freed one the same edge is left, unless it was the last. -/
theorem Unlinked.edge_of_ne (u : Unlinked net net' id) (h : net.Consistent) {k : EdgeId}
    (hk : k ≠ id) : net'.edge? k = if k = net.edges.lastHandle then none
      else (net.edge? (origin net.edges.lastHandle id k)).map ({ · with id := k }) := by
  rw [u.edge, if_neg hk, origin, if_neg hk]
  cases hedge : net.edge? k with
  | none => rfl
  | some edge =>
      have hsame : { edge with id := k } = edge := by rw [← h.edge_id hedge]
      rw [Option.map_some, hsame]

/-- When the last edge itself goes, nothing is left to do. -/
theorem Unlinked.of_last (u : Unlinked net net' id) (h : net.Consistent)
    (hlast : net.edges.lastHandle = id) : Net.EdgeRemoved net net' id := by
  refine ⟨u.bare, u.size, fun side node => ?_, fun k => ?_⟩
  · rw [u.listed, hlast]
    simp only [replaceHandle_self]
  · by_cases hk : k = id
    · have hkl : k = net.edges.lastHandle := hk.trans hlast.symm
      rw [u.edge, if_pos hkl, if_pos hkl]
    · exact u.edge_of_ne h hk

/-- The last edge takes over the handle under which it stands. -/
theorem Unlinked.adopt_runOn (u : Unlinked net net' id) (h : net.Consistent) {moved : Edge}
    (hmoved : net.edge? net.edges.lastHandle = some moved) (hlast : net.edges.lastHandle ≠ id) :
    ∃ net'', (adoptEdge net.edges.lastHandle id).runOn net' = (.ok (), net'') ∧
      Net.EdgeRemoved net net'' id := by
  have hid : net'.edge? id = some moved := by rw [u.edge, if_neg hlast.symm, if_pos rfl, hmoved]
  obtain ⟨net'', hrun, hbare, hsize, hlisted, hedge⟩ :=
    @adoptEdge_runOn net' id net.edges.lastHandle moved hid
      (fun side => by rw [Net.contains_of_bare u.bare]; exact h.contains_endpoint hmoved side)
      (fun side node edges hl hnode hmem => by
        rw [u.listed, Option.map_eq_some_iff] at hl
        obtain ⟨old, hold, rfl⟩ := hl
        obtain ⟨edge, hedge, hend⟩ := h.edge_of_mem hold (List.mem_filter.1 hmem).1
        rw [hmoved] at hedge
        cases hedge
        exact hnode hend.symm)
  refine ⟨net'', hrun, hbare.trans u.bare, by rw [hsize]; exact u.size, fun side node => ?_,
    fun k => ?_⟩
  · rw [hlisted, u.listed, Option.map_map]
    rfl
  · rw [hedge]
    by_cases hk : k = id
    · rw [if_pos hk, if_neg (hk ▸ hlast.symm), origin, if_pos hk, hmoved, hk]
      rfl
    · rw [if_neg hk]
      exact u.edge_of_ne h hk

/-- The part of a removal that is left once the edge is out of the lists and of the collection. -/
theorem removeEdge_unlinked (h : net.Consistent) (hid : net.edge? id = some removed) :
    ∃ (moved? : Option EdgeId) (net₃ : Net), Unlinked net net₃ id ∧
      moved? = (if net.edges.lastHandle = id then none else some net.edges.lastHandle) ∧
      (removeEdge id).runOn net = ((moved?.elim (pure ()) (adoptEdge · id) : Edit Unit) >>=
        fun _ => pure removed).runOn net₃ := by
  obtain ⟨net₁, net₂, hrun₁, hrun₂, hbare₂, hedges₂, hlisted₂⟩ :=
    @updateEnds_runOn net removed (·.filter (· ≠ id)) (h.contains_endpoint hid)
      (fun side node edges hl hne => filter_ne_of_not_mem fun hmem => by
        obtain ⟨edge, hedge, hend⟩ := h.edge_of_mem hl hmem
        rw [hid] at hedge
        cases hedge
        exact hne hend.symm)
  obtain ⟨removal, hswap, -, hmoved, howner, hsize, hget⟩ := Arena.swapRemove?_eq hid
  let net₃ : Net := { net₂ with edges := removal.rest }
  refine ⟨removal.movedFrom, net₃, ⟨?_, hsize, fun side node => ?_, hget⟩, hmoved, ?_⟩
  · rw [← hbare₂]
    simp only [Net.bare, net₃, Arena.clear, howner, hedges₂]
  · rw [← hlisted₂]
    cases side <;> cases node <;> rfl
  · rw [removeEdge, runOn_bind_ok (runOn_get net), hid]
    refine (runOn_bind_ok hrun₁).trans ((runOn_bind_ok hrun₂).trans ?_)
    rw [runOn_bind_ok (runOn_get net₂), hedges₂, hswap]
    refine (runOn_bind_ok (runOn_set net₃ net₂)).trans ?_
    cases removal.movedFrom <;> rfl

/-- Removing an edge of a consistent net succeeds and returns the edge. -/
theorem removeEdge_runOn (h : net.Consistent) (hid : net.edge? id = some removed) :
    ∃ net', (removeEdge id).runOn net = (.ok removed, net') ∧ Net.EdgeRemoved net net' id := by
  obtain ⟨moved?, net₃, u, hmoved, hrun⟩ := removeEdge_unlinked h hid
  by_cases hlast : net.edges.lastHandle = id
  · refine ⟨net₃, ?_, u.of_last h hlast⟩
    rw [hrun, hmoved, if_pos hlast]
    rfl
  · obtain ⟨moved, hmovedEdge⟩ : ∃ moved, net.edge? net.edges.lastHandle = some moved :=
      Arena.exists_get?_lastHandle hid
    obtain ⟨net₄, hrun₄, hremoved⟩ := u.adopt_runOn h hmovedEdge hlast
    refine ⟨net₄, ?_, hremoved⟩
    rw [hrun, hmoved, if_neg hlast, Option.elim_some, runOn_bind_ok hrun₄, runOn_pure]

end Edit

namespace Net

variable {net net' net'' : Net}

/-- What a consistent net becomes when the arcs that fail a test are removed. -/
structure Keeps (keep : Arc → Bool) (net net' : Net) : Prop where
  consistent : net'.Consistent
  bare : net'.bare = net.bare
  arcs : ∀ side node, net'.arcs side node = (net.arcs side node).filter keep

theorem Keeps.refl (h : net.Consistent) {keep : Arc → Bool}
    (hkeep : ∀ arc, net.HasArc arc → keep arc = true) : Keeps keep net net := by
  refine ⟨h, rfl, fun side node => (List.filter_eq_self.2 fun arc harc => ?_).symm⟩
  exact hkeep arc (h.mem_arcs_iff.1 harc).1

theorem Keeps.trans {keep keep' : Arc → Bool} (h : Keeps keep net net')
    (h' : Keeps keep' net' net'') : Keeps (fun arc => keep' arc && keep arc) net net'' :=
  ⟨h'.consistent, h'.bare.trans h.bare, fun side node => by
    rw [h'.arcs, h.arcs, List.filter_filter]⟩

theorem Keeps.congr {keep keep' : Arc → Bool} (h : Keeps keep net net')
    (hkeep : ∀ arc, keep arc = keep' arc) : Keeps keep' net net' :=
  ⟨h.consistent, h.bare, fun side node => by
    rw [h.arcs]
    exact List.filter_congr fun arc _ => hkeep arc⟩

/-- Only the arcs of the net matter for a test. -/
theorem Keeps.congr_arcs (hnet : net.Consistent) {keep keep' : Arc → Bool} (h : Keeps keep net net')
    (hkeep : ∀ arc, net.HasArc arc → keep arc = keep' arc) : Keeps keep' net net' :=
  ⟨h.consistent, h.bare, fun side node => by
    rw [h.arcs]
    exact List.filter_congr fun arc harc => hkeep arc (hnet.mem_arcs_iff.1 harc).1⟩

theorem Keeps.hasArc_iff (hnet : net.Consistent) {keep : Arc → Bool} (h : Keeps keep net net')
    {arc : Arc} : net'.HasArc arc ↔ net.HasArc arc ∧ keep arc = true := by
  rw [h.consistent.hasArc_iff_mem, hnet.hasArc_iff_mem, h.arcs, List.mem_filter]

/-- An edge that survives under a handle still in use stands where it stood. -/
structure Stays (net net' : Net) : Prop where
  edge_of : ∀ {id edge'}, net'.edge? id = some edge' → ∃ edge, net.edge? id = some edge
  eq : ∀ {id edge edge'}, net.edge? id = some edge → net'.edge? id = some edge' →
    net'.HasArc edge.arc → edge' = edge

theorem Stays.refl (net : Net) : Stays net net :=
  ⟨fun hid => ⟨_, hid⟩, fun hid hid' _ => Option.some.inj (hid'.symm.trans hid)⟩

theorem Stays.trans (h : Stays net net') (h' : Stays net' net'')
    (hsub : ∀ arc, net''.HasArc arc → net'.HasArc arc) : Stays net net'' := by
  constructor
  · intro id edge'' hid''
    obtain ⟨edge', hid'⟩ := h'.edge_of hid''
    exact h.edge_of hid'
  · intro id edge edge'' hid hid'' harc
    obtain ⟨edge', hid'⟩ := h'.edge_of hid''
    obtain rfl := h.eq hid hid' (hsub _ harc)
    exact h'.eq hid' hid'' harc

/-- A removal moves the last edge only, and its former handle is out of use afterwards. -/
theorem EdgeRemoved.stays {id : EdgeId} {removed : Edge} (h : net.Consistent)
    (r : EdgeRemoved net net' id) (hremoved : net.edge? id = some removed) : Stays net net' := by
  constructor
  · intro k edge' hk
    obtain ⟨-, edge, hedge, -⟩ := r.edge?_eq_some_iff.1 hk
    by_cases hid : k = id
    · exact ⟨removed, hid ▸ hremoved⟩
    · rw [origin, if_neg hid] at hedge
      exact ⟨edge, hedge⟩
  · intro k edge edge' hedge hk harc
    obtain ⟨-, old, hold, rfl⟩ := r.edge?_eq_some_iff.1 hk
    have hid : k ≠ id := by
      rintro rfl
      rw [hremoved] at hedge
      cases hedge
      have hmem := (h.of_edgeRemoved r).mem_arcs_iff.2 ⟨harc, Edge.endpoint_arc removed .source⟩
      rw [r.arcs h hremoved, List.mem_filter] at hmem
      simp at hmem
    rw [origin, if_neg hid, hedge] at hold
    cases hold
    rw [← h.edge_id hedge]

/-- The length of a list of edges is bounded by the number of edges. -/
theorem Consistent.length_listed_le (h : net.Consistent) {side : Side} {node : Node}
    {edges : List EdgeId} (hlisted : net.listed? side node = some edges) :
    edges.length ≤ net.edges.size :=
  Arena.length_le_size (h.nodup hlisted) fun _ hid =>
    have ⟨_, hedge, _⟩ := h.edge_of_mem hlisted hid
    Arena.contains_of_get? hedge

end Net

namespace Edit

/-- Draining takes out the edges that a node lists at one end, as long as there are rounds left. -/
theorem drain_runOn (side : Side) (node : Node) :
    ∀ (rounds : Nat) (net : Net) (edges : List EdgeId), net.Consistent →
      net.listed? side node = some edges → edges.length < rounds →
      ∃ net', (drain (storedListed side node) rounds).runOn net = (.ok (), net') ∧
        Net.Keeps (fun arc => arc.endpoint side ≠ node) net net' ∧ Net.Stays net net'
  | 0, _, _, _, _, hrounds => absurd hrounds (Nat.not_lt_zero _)
  | rounds + 1, net, edges, h, hlisted, hrounds => by
      rw [drain, runOn_bind_ok (storedListed_runOn hlisted)]
      cases hlast : edges.getLast? with
      | none =>
          obtain rfl := List.getLast?_eq_none_iff.1 hlast
          refine ⟨net, rfl, Net.Keeps.refl h fun arc harc => ?_, Net.Stays.refl net⟩
          rw [decide_eq_true_eq]
          intro hend
          have hmem := h.mem_arcs_iff.2 ⟨harc, hend⟩
          simp [Net.arcs, hlisted] at hmem
      | some id =>
          have hid := List.mem_of_getLast? hlast
          obtain ⟨removed, hremoved, hend⟩ := h.edge_of_mem hlisted hid
          obtain ⟨net₁, hrun₁, r⟩ := removeEdge_runOn h hremoved
          have hlisted₁ := r.listed side node
          rw [hlisted, Option.map_some] at hlisted₁
          have hlength : (replaceHandle net.edges.lastHandle id
              (edges.filter (· ≠ id))).length < rounds := by
            have hlt : (edges.filter (· ≠ id)).length < edges.length :=
              List.length_filter_lt_length_iff_exists.2 ⟨id, hid, by simp⟩
            rw [replaceHandle, List.length_map]
            omega
          obtain ⟨net₂, hrun₂, hkeeps, hstays⟩ := drain_runOn side node rounds net₁ _
            (h.of_edgeRemoved r) hlisted₁ hlength
          refine ⟨net₂, (runOn_bind_ok hrun₁).trans hrun₂, ⟨hkeeps.consistent,
            hkeeps.bare.trans r.bare, fun s m => ?_⟩, (r.stays h hremoved).trans hstays
              fun arc harc => ((hkeeps.hasArc_iff (h.of_edgeRemoved r)).1 harc).1⟩
          rw [hkeeps.arcs, r.arcs h hremoved, List.filter_filter]
          refine List.filter_congr fun arc _ => ?_
          by_cases harc : arc = removed.arc
          · simp [harc, hend]
          · simp [harc]

/-- Removing the edges that a node lists at one end takes out exactly those. -/
theorem removeListed_runOn {net : Net} (h : net.Consistent) (side : Side) {node : Node}
    (hnode : net.contains node = true) :
    ∃ net', (removeListed (storedListed side node)).runOn net = (.ok (), net') ∧
      Net.Keeps (fun arc => arc.endpoint side ≠ node) net net' ∧ Net.Stays net net' := by
  obtain ⟨edges, hlisted⟩ := (Net.contains_iff_listed? side node).1 hnode
  obtain ⟨net', hrun, hkept⟩ := drain_runOn side node (net.edges.size + 1) net edges h hlisted
    (Nat.lt_succ_of_le (h.length_listed_le hlisted))
  exact ⟨net', (runOn_bind_ok (runOn_get net)).trans hrun, hkept⟩

end Edit
end PetriCcs
