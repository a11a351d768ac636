import PetriCcs.Proofs.Reachable

/-! # Edits are atomic and never fault

An edit of a reachable net is carried out, or it is refused and the net is exactly what it was
(`Change.Atomic`); it never ends with a fault, which is what a stored handle that leads nowhere would
cause.  The two places where the definitions are more forgiving are covered as well: a search that
reads every edge on its way through its handle (`Edit.searchEdge`) misses none, and the loops that
are bounded by a number of rounds are the unbounded ones (`Edit.Drains`, and the counters stop at free
names).  `Net.reachable_faultless` collects this for every edit with any arguments. -/

namespace PetriCcs

namespace Edit

variable {net net' : Net} {side : Side} {node : Node}

/-! ### Searching -/

/-- The first of the listed edges that leads to a node, where every edge on the way is read. -/
def scan (target : Node) : List EdgeId → Edit (Option EdgeId)
  | [] => pure none
  | id :: ids => do
    let edge ← storedEdge id
    if edge.target = target then pure (some id) else scan target ids

/-- The first edge listed at `source` that leads to `target`, if the net has the former. -/
def searchEdge (source target : Node) : Edit (Option EdgeId) := do
  match (← get).outgoing? source with
  | none => pure none
  | some edges => scan target edges

theorem scan_runOn (target : Node) : ∀ {edges : List EdgeId},
    (∀ id ∈ edges, ∃ edge, net.edge? id = some edge) →
    (scan target edges).runOn net = (.ok (edges.find? fun id =>
      (net.edge? id).any fun edge => edge.target = target), net)
  | [], _ => rfl
  | id :: ids, h => by
      obtain ⟨⟨edge, hedge⟩, hrest⟩ := List.forall_mem_cons.1 h
      rw [scan, runOn_bind_ok (storedEdge_runOn hedge), List.find?_cons, hedge, Option.any_some]
      by_cases htarget : edge.target = target
      · rw [if_pos htarget, decide_eq_true htarget]
        rfl
      · rw [if_neg htarget, decide_eq_false htarget]
        exact scan_runOn target hrest

/-- No edge is missing on the way of a search. -/
theorem searchEdge_runOn (h : net.Consistent) (source target : Node) :
    (searchEdge source target).runOn net = (.ok (net.findEdge? source target), net) := by
  rw [searchEdge, runOn_bind_ok (runOn_get net), Net.findEdge?]
  cases hlisted : net.outgoing? source with
  | none => rfl
  | some edges =>
      refine scan_runOn target fun id hid => ?_
      have hsource : net.listed? .source source = some edges := hlisted
      obtain ⟨edge, hedge, -⟩ := h.edge_of_mem hsource hid
      exact ⟨edge, hedge⟩

/-! ### Draining -/

/-- The runs of the loop that removes the last edge that a node lists at one end until there is none,
with no bound on its rounds. -/
inductive Drains (side : Side) (node : Node) : Net → Net → Prop where
  | done {net : Net} (hlisted : net.listed? side node = some []) : Drains side node net net
  | round {net net₁ net' : Net} {edges : List EdgeId} {id : EdgeId} {removed : Edge}
      (hlisted : net.listed? side node = some edges) (hlast : edges.getLast? = some id)
      (hremove : (removeEdge id).runOn net = (.ok removed, net₁)) (hrest : Drains side node net₁ net') :
      Drains side node net net'

theorem storedListed_refused (hlisted : net.listed? side node = none) :
    (storedListed side node).runOn net = (.error (.dangling (.node node)), net) := by
  cases side with
  | source =>
      have hout : net.outgoing? node = none := hlisted
      rw [storedListed, storedOutgoing, runOn_bind_ok (runOn_get net), hout]
      rfl
  | target =>
      have hin : net.incoming? node = none := hlisted
      rw [storedListed, storedIncoming, runOn_bind_ok (runOn_get net), hin]
      rfl

/-- A bounded loop that leaves nothing to remove has not run out of rounds. -/
theorem drains_of_runOn (hempty : net'.listed? side node = some []) :
    ∀ {rounds : ℕ} {net : Net}, (drain (storedListed side node) rounds).runOn net = (.ok (), net') →
      Drains side node net net'
  | 0, net, hrun => by
      have hsame : net = net' := congrArg Prod.snd hrun
      subst hsame
      exact Drains.done hempty
  | rounds + 1, net, hrun => by
      cases hlisted : net.listed? side node with
      | none =>
          rw [drain, runOn_bind_error (storedListed_refused hlisted)] at hrun
          cases hrun
      | some edges =>
          rw [drain, runOn_bind_ok (storedListed_runOn hlisted)] at hrun
          cases hlast : edges.getLast? with
          | none =>
              rw [hlast] at hrun
              have hsame : net = net' := congrArg Prod.snd hrun
              subst hsame
              exact Drains.done hempty
          | some id =>
              rw [hlast] at hrun
              replace hrun : (removeEdge id >>= fun _ =>
                drain (storedListed side node) rounds).runOn net = (.ok (), net') := hrun
              cases hremove : (removeEdge id).runOn net with
              | mk result net₁ =>
                  cases result with
                  | error error =>
                      rw [runOn_bind_error hremove] at hrun
                      cases hrun
                  | ok removed =>
                      rw [runOn_bind_ok hremove] at hrun
                      exact Drains.round hlisted hlast hremove (drains_of_runOn hempty hrun)

/-- Once the arcs at one end of a node are gone, it lists none there. -/
theorem listed?_eq_nil_of_keeps (hnode : net.contains node = true)
    (hkeeps : Net.Keeps (fun arc => arc.endpoint side ≠ node) net net') :
    net'.listed? side node = some [] := by
  have hnode' : net'.contains node = true := by
    rw [Net.contains_of_bare hkeeps.bare]
    exact hnode
  obtain ⟨edges, hlisted⟩ := (Net.contains_iff_listed? side node).1 hnode'
  have hnone : net'.arcs side node = [] := by
    refine List.eq_nil_iff_forall_not_mem.2 fun arc harc => ?_
    have hend := (hkeeps.consistent.mem_arcs_iff.1 harc).2
    rw [hkeeps.arcs] at harc
    simp [hend] at harc
  have hlength := hkeeps.consistent.length_arcs hlisted
  rw [hnone, List.length_nil] at hlength
  rw [hlisted, List.length_eq_zero_iff.1 hlength.symm]

theorem removeListed_drains (h : net.Consistent) (side : Side) (hnode : net.contains node = true) :
    ∃ net', (removeListed (storedListed side node)).runOn net = (.ok (), net') ∧
      net'.Consistent ∧ net'.contains node = true ∧ Drains side node net net' := by
  obtain ⟨net', hrun, hkeeps, -⟩ := removeListed_runOn h side hnode
  refine ⟨net', hrun, hkeeps.consistent, ?_, ?_⟩
  · rw [Net.contains_of_bare hkeeps.bare]
    exact hnode
  · rw [removeListed, runOn_bind_ok (runOn_get net)] at hrun
    exact drains_of_runOn (listed?_eq_nil_of_keeps hnode hkeeps) hrun

/-- Both loops that cut off a node come to their ends. -/
theorem detach_drains (h : net.Consistent) (hnode : net.contains node = true) :
    ∃ net₁ net₂, (detach node).runOn net = (.ok (), net₂) ∧ Drains .target node net net₁ ∧
      Drains .source node net₁ net₂ := by
  obtain ⟨net₁, hrun₁, h₁, hnode₁, hdrains₁⟩ := removeListed_drains h .target hnode
  obtain ⟨net₂, hrun₂, -, -, hdrains₂⟩ := removeListed_drains h₁ .source hnode₁
  have hdetach : (detach node).runOn net = (.ok (), net₂) := (runOn_bind_ok hrun₁).trans hrun₂
  exact ⟨net₁, net₂, hdetach, hdrains₁, hdrains₂⟩

/-! ### Single edits -/

/-- An edit is carried out, or refused without a trace. -/
def Atomic {α : Type} (edit : Edit α) (net : Net) : Prop :=
  (∃ value net', edit.runOn net = (.ok value, net')) ∨
    ∃ error, error.IsRefusal ∧ edit.runOn net = (.error error, net)

theorem addPlace_atomic (hint : Option NameIndex) (tokens : Weight) (net : Net) :
    (addPlace hint tokens).Atomic net := by
  by_cases hhint : hint = some 0
  · subst hhint
    exact Or.inr ⟨.invalidArgument .zeroName, trivial, addPlace_refused tokens net⟩
  · exact Or.inl ⟨_, _, addPlace_runOn hhint tokens net⟩

theorem addLabelledTransition_atomic (hint : Option NameIndex) (label : Label) (net : Net) :
    (addLabelledTransition hint label).Atomic net := by
  by_cases hhint : hint = some 0
  · subst hhint
    exact Or.inr ⟨.invalidArgument .zeroName, trivial, addLabelledTransition_refused label net⟩
  · exact Or.inl ⟨_, _, addLabelledTransition_runOn hhint label net⟩

theorem addTransition_atomic (hint : Option NameIndex) (text : String) (net : Net) :
    (addTransition hint text).Atomic net := by
  unfold addTransition
  cases Label.parse? text with
  | none => exact Or.inr ⟨.invalidArgument (.newLabel text), trivial, rfl⟩
  | some label => exact addLabelledTransition_atomic hint label net

theorem addEdge_atomic (source target : Node) (weight : Weight) (net : Net) :
    (addEdge source target weight).Atomic net := by
  by_cases hall : net.contains source = true ∧ net.contains target = true ∧
      Fits source target weight ∧ net.findEdge? source target = none
  · obtain ⟨hsource, htarget, hfits, hnew⟩ := hall
    obtain ⟨net', hrun, -⟩ := addEdge_runOn hsource htarget hfits hnew
    exact Or.inl ⟨_, net', hrun⟩
  · exact Or.inr (addEdge_refusal hall)

theorem removeEdge_atomic (h : net.Consistent) (id : EdgeId) : (removeEdge id).Atomic net := by
  cases hid : net.edge? id with
  | none => exact Or.inr ⟨.unrelatedEdge id, trivial, removeEdge_refused hid⟩
  | some removed =>
      obtain ⟨net', hrun, -⟩ := removeEdge_runOn h hid
      exact Or.inl ⟨removed, net', hrun⟩

theorem removePlace_atomic (h : net.Consistent) (id : PlaceId) : (removePlace id).Atomic net := by
  by_cases hid : net.contains (.place id) = true
  · obtain ⟨place, hplace⟩ := Arena.contains_iff_get?.1 hid
    obtain ⟨value, net₁, net', hrun, -⟩ := removePlace_runOn h hplace
    exact Or.inl ⟨value, net', hrun⟩
  · exact Or.inr ⟨.unrelatedNode (.place id), trivial, removePlace_refused hid⟩

theorem removeTransition_atomic (h : net.Consistent) (id : TransitionId) :
    (removeTransition id).Atomic net := by
  by_cases hid : net.contains (.transition id) = true
  · obtain ⟨transition, htransition⟩ := Arena.contains_iff_get?.1 hid
    obtain ⟨value, net₁, net', hrun, -⟩ := removeTransition_runOn h htransition
    exact Or.inl ⟨value, net', hrun⟩
  · exact Or.inr ⟨.unrelatedNode (.transition id), trivial, removeTransition_refused hid⟩

theorem setTokens_atomic (id : PlaceId) (tokens : Weight) (net : Net) :
    (setTokens id tokens).Atomic net := by
  by_cases hid : net.contains (.place id) = true
  · exact Or.inl ⟨_, _, setTokens_runOn hid tokens⟩
  · exact Or.inr ⟨.unrelatedNode (.place id), trivial, setTokens_refused hid tokens⟩

theorem setLabel_atomic (id : TransitionId) (text : String) (net : Net) :
    (setLabel id text).Atomic net := by
  by_cases hall : net.contains (.transition id) = true ∧ ∃ label, Label.parse? text = some label
  · obtain ⟨hid, label, hlabel⟩ := hall
    exact Or.inl ⟨_, _, setLabel_runOn hid hlabel⟩
  · exact Or.inr (setLabel_refusal hall)

end Edit

namespace Change

variable {net : Net}

/-- An operation is carried out, or refused by an error of the net that leaves no trace. -/
def Atomic (change : Change) (net : Net) : Prop :=
  (∃ outcome net', change.runOn net = (.ok outcome, net')) ∨
    ∃ error, error.IsRefusal ∧ change.runOn net = (.error (.net error), net)

theorem edit_atomic {α : Type} {action : Edit α} (h : action.Atomic net) (outcome : α → Outcome) :
    (∃ value net', (edit action outcome).run.run net = (.ok value, net')) ∨
      ∃ error, error.IsRefusal ∧ (edit action outcome).run.run net = (.error (.net error), net) := by
  rw [edit_runOn]
  rcases h with ⟨value, net', hrun⟩ | ⟨error, hrefusal, hrun⟩
  · rw [hrun]
    exact Or.inl ⟨outcome value, net', rfl⟩
  · rw [hrun]
    exact Or.inr ⟨error, hrefusal, rfl⟩

/-- Everything but the import of a document is atomic. -/
theorem atomic (h : net.Consistent) (change : Change)
    (hedit : ∀ document, change ≠ .importDocument document) : change.Atomic net := by
  cases change with
  | addPlace hint tokens => exact edit_atomic (Edit.addPlace_atomic hint tokens net) _
  | addTransition hint text => exact edit_atomic (Edit.addTransition_atomic hint text net) _
  | addLabelledTransition hint label =>
      exact edit_atomic (Edit.addLabelledTransition_atomic hint label net) _
  | addEdge source target weight =>
      exact edit_atomic (Edit.addEdge_atomic source target weight net) _
  | removeEdge id => exact edit_atomic (Edit.removeEdge_atomic h id) _
  | removePlace id => exact edit_atomic (Edit.removePlace_atomic h id) _
  | removeTransition id => exact edit_atomic (Edit.removeTransition_atomic h id) _
  | setTokens id tokens => exact edit_atomic (Edit.setTokens_atomic id tokens net) _
  | setLabel id text => exact edit_atomic (Edit.setLabel_atomic id text net) _
  | clear => exact Or.inl ⟨_, _, rfl⟩
  | importDocument document => exact absurd rfl (hedit document)

/-- What is claimed of one operation on a net: it is atomic and without faults, the searches and
loops inside it read edges that exist and come to their ends, and the counters that it moves stop at
free names. -/
structure Faultless (change : Change) (net : Net) : Prop where
  atomic : change.Atomic net
  search : ∀ source target,
    (Edit.searchEdge source target).runOn net = (.ok (net.findEdge? source target), net)
  detach : ∀ node, net.contains node = true → ∃ net₁ net₂,
    (Edit.detach node).runOn net = (.ok (), net₂) ∧ Edit.Drains .target node net net₁ ∧
      Edit.Drains .source node net₁ net₂
  placeCounter : (change.runOn net).2.placeNames.next ∉ (change.runOn net).2.placeNames.used
  transitionCounter :
    (change.runOn net).2.transitionNames.next ∉ (change.runOn net).2.transitionNames.used

end Change

namespace Net

variable {net : Net} {n : ℕ}

/-- Every edit of a reachable net, whatever its arguments, is carried out or refused without a trace;
it never faults and its loops end. -/
theorem reachable_faultless (h : net.Reachable n) (change : Change)
    (hedit : ∀ document, change ≠ .importDocument document)
    (hn : n + change.additions (change.runOn net).1 < additionLimit) : change.Faultless net := by
  have hnet := h.consistent
  have hnamed := (h.change change).named hn
  exact ⟨change.atomic hnet hedit, Edit.searchEdge_runOn hnet, fun node => Edit.detach_drains hnet,
    hnamed.places.sound.next_free, hnamed.transitions.sound.next_free⟩

/-- Edits of a worn net: some are carried out, others name stale handles or handles of another net. -/
def attempts : List Change :=
  [.removePlace ⟨0, 1⟩, .addPlace (some 5) 1, .addEdge (.place ⟨0, 0⟩) (.transition ⟨0, 0⟩) 2,
    .removeEdge ⟨0, 4⟩, .setTokens ⟨0, 2⟩ 9, .removeTransition ⟨1, 0⟩]

theorem reachable_faultless_worn : worn.Reachable 10 ∧
    (∀ change ∈ attempts, (∀ document, change ≠ .importDocument document) ∧
      10 + change.additions (change.runOn worn).1 < additionLimit) ∧
    ∀ change ∈ attempts, change.Faultless worn := by
  have hedits : ∀ change ∈ attempts, ∀ document, change ≠ .importDocument document := by
    simp [attempts]
  have hroom : ∀ change ∈ attempts,
      10 + change.additions (change.runOn worn).1 < additionLimit := by decide +kernel
  exact ⟨worn_reachable, fun change hmem => ⟨hedits change hmem, hroom change hmem⟩,
    fun change hmem =>
      reachable_faultless worn_reachable change (hedits change hmem) (hroom change hmem)⟩

end Net
end PetriCcs
