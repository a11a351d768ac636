import PetriCcs.Proofs.Calls

/-! # Where handles come from

A consistent net stores handles of its own only (`Net.Consistent.owner_of_mem_mentions`), and what it
hands out carries its tag too: operations do the same in translated handles, so what they return is
left alone by every translation that leaves the tag of the net alone (`Change.owner_of_mem_mentions`,
`Query.owner_of_mem_mentions`, `Sync.owner_of_mem_mentions`).  A handle that another net has issued is
refused: changes leave the net as it is (`Change.refused_of_foreign`), questions have an empty answer
(`Query.isVoid_of_foreign`). -/

namespace PetriCcs

/-- A handle of any kind. -/
structure AnyHandle where
  kind : Kind
  id : Handle kind
  deriving DecidableEq

/-! ### The handles in a value -/

def Node.handle : Node → AnyHandle
  | .place id => ⟨.place, id⟩
  | .transition id => ⟨.transition, id⟩

def Place.mentions (place : Place) : List AnyHandle :=
  ⟨.place, place.id⟩ :: (place.incoming ++ place.outgoing).map fun id => ⟨.edge, id⟩

def Transition.mentions (transition : Transition) : List AnyHandle :=
  ⟨.transition, transition.id⟩ ::
    (transition.incoming ++ transition.outgoing).map fun id => ⟨.edge, id⟩

def Edge.mentions (edge : Edge) : List AnyHandle :=
  [⟨.edge, edge.id⟩, edge.source.handle, edge.target.handle]

def Kind.mentionsOf : (kind : Kind) → kind.Value → List AnyHandle
  | .place => Place.mentions
  | .transition => Transition.mentions
  | .edge => Edge.mentions

/-- The handles that a net stores. -/
def Net.mentions (net : Net) : List AnyHandle :=
  net.places.toList.flatMap Place.mentions ++ net.transitions.toList.flatMap Transition.mentions
    ++ net.edges.toList.flatMap Edge.mentions

def Outcome.mentions : Outcome → List AnyHandle
  | .done => []
  | .place id => [⟨.place, id⟩]
  | .transition id => [⟨.transition, id⟩]
  | .edge id => [⟨.edge, id⟩]
  | .removedEdge removed => removed.mentions
  | .removedPlace removed => removed.mentions
  | .removedTransition removed => removed.mentions

/-- The handles in an error that a user can take out of it; the others are part of a text. -/
def NetError.mentions : NetError → List AnyHandle
  | .duplicateEdge source target => [source.handle, target.handle]
  | _ => []

def DocumentError.mentions : DocumentError → List AnyHandle
  | .net error => error.mentions
  | _ => []

def ChangeError.mentions : ChangeError → List AnyHandle
  | .net error => error.mentions
  | .document error => error.mentions

def Answer.mentions : Answer → List AnyHandle
  | .handle id => id.toList.map fun id => ⟨_, id⟩
  | .handles ids => ids.map fun id => ⟨_, id⟩
  | .value stored => stored.toList.flatMap (Kind.mentionsOf _)
  | .values stored => stored.flatMap (Kind.mentionsOf _)
  | .entries stored => stored.flatMap fun entry => ⟨_, entry.1⟩ :: Kind.mentionsOf _ entry.2
  | .products made => made.map fun entry => ⟨_, entry.1⟩
  | .encoding (.error error) => error.mentions
  | _ => []

def Sync.Step.mentions : Sync.Step → List AnyHandle
  | .merged left right transition place =>
      [⟨.place, left⟩, ⟨.place, right⟩, ⟨.transition, transition⟩, ⟨.place, place⟩]
  | .reconnected places transitions =>
      places.map (fun id => ⟨.place, id⟩) ++ transitions.map fun id => ⟨.transition, id⟩

def Change.mentions : Change → List AnyHandle
  | .addEdge source target _ => [source.handle, target.handle]
  | .removeEdge id => [⟨.edge, id⟩]
  | .removePlace id => [⟨.place, id⟩]
  | .removeTransition id => [⟨.transition, id⟩]
  | .setTokens id _ => [⟨.place, id⟩]
  | .setLabel id _ => [⟨.transition, id⟩]
  | _ => []

def Query.mentions : Query → List AnyHandle
  | .contains id => [⟨_, id⟩]
  | .get id => [⟨_, id⟩]
  | .findEdge source target => [source.handle, target.handle]
  | .preset transition => [⟨.transition, transition⟩]
  | .postset transition => [⟨.transition, transition⟩]
  | .consumers place => [⟨.place, place⟩]
  | _ => []

/-! ### Translation -/

def AnyHandle.rename (ρ : ℕ → ℕ) (handle : AnyHandle) : AnyHandle :=
  ⟨handle.kind, handle.id.rename ρ⟩

section Rename

variable {ρ : ℕ → ℕ}

theorem Node.handle_rename (node : Node) : (node.rename ρ).handle = node.handle.rename ρ := by
  cases node <;> rfl

theorem Place.mentions_rename (place : Place) :
    (place.rename ρ).mentions = place.mentions.map (AnyHandle.rename ρ) := by
  simp [mentions, Place.rename, AnyHandle.rename, Function.comp_def]

theorem Transition.mentions_rename (transition : Transition) :
    (transition.rename ρ).mentions = transition.mentions.map (AnyHandle.rename ρ) := by
  simp [mentions, Transition.rename, AnyHandle.rename, Function.comp_def]

theorem Edge.mentions_rename (edge : Edge) :
    (edge.rename ρ).mentions = edge.mentions.map (AnyHandle.rename ρ) := by
  simp [mentions, Edge.rename, AnyHandle.rename, Node.handle_rename]

theorem Kind.mentionsOf_rename (kind : Kind) (value : kind.Value) :
    kind.mentionsOf (kind.renameValue ρ value) =
      (kind.mentionsOf value).map (AnyHandle.rename ρ) := by
  cases kind with
  | place => exact Place.mentions_rename value
  | transition => exact Transition.mentions_rename value
  | edge => exact Edge.mentions_rename value

theorem Net.mentions_rename {net : Net} :
    (net.rename ρ).mentions = net.mentions.map (AnyHandle.rename ρ) := by
  simp [mentions, Net.rename, List.flatMap_map, List.map_flatMap, Place.mentions_rename,
    Transition.mentions_rename, Edge.mentions_rename]

theorem NetError.mentions_rename (error : NetError) :
    (error.rename ρ).mentions = error.mentions.map (AnyHandle.rename ρ) := by
  cases error <;> simp [mentions, NetError.rename, Node.handle_rename]

theorem DocumentError.mentions_rename (error : DocumentError) :
    (error.rename ρ).mentions = error.mentions.map (AnyHandle.rename ρ) := by
  cases error with
  | net error => exact error.mentions_rename
  | _ => rfl

theorem ChangeError.mentions_rename (error : ChangeError) :
    (error.rename ρ).mentions = error.mentions.map (AnyHandle.rename ρ) := by
  cases error with
  | net error => exact error.mentions_rename
  | document error => exact error.mentions_rename

theorem Outcome.mentions_rename (outcome : Outcome) :
    (outcome.rename ρ).mentions = outcome.mentions.map (AnyHandle.rename ρ) := by
  cases outcome with
  | removedEdge removed => exact removed.mentions_rename
  | removedPlace removed => exact removed.mentions_rename
  | removedTransition removed => exact removed.mentions_rename
  | _ => rfl

theorem Answer.mentions_rename (answer : Answer) :
    (answer.rename ρ).mentions = answer.mentions.map (AnyHandle.rename ρ) := by
  cases answer with
  | handle id => cases id <;> rfl
  | handles ids => simp [mentions, Answer.rename, AnyHandle.rename, Function.comp_def]
  | value stored =>
      cases stored with
      | none => rfl
      | some value => simp [mentions, Answer.rename, Kind.mentionsOf_rename]
  | values stored =>
      simp [mentions, Answer.rename, List.flatMap_map, List.map_flatMap, Kind.mentionsOf_rename]
  | entries stored =>
      simp [mentions, Answer.rename, List.flatMap_map, List.map_flatMap, Kind.mentionsOf_rename,
        AnyHandle.rename]
  | products made => simp [mentions, Answer.rename, AnyHandle.rename, Function.comp_def]
  | encoding result =>
      cases result with
      | ok encoding => rfl
      | error error => exact error.mentions_rename
  | _ => rfl

theorem Sync.Step.mentions_rename (step : Sync.Step) :
    (step.rename ρ).mentions = step.mentions.map (AnyHandle.rename ρ) := by
  cases step with
  | merged left right transition place => rfl
  | reconnected places transitions =>
      simp [mentions, Step.rename, AnyHandle.rename, Function.comp_def]

end Rename

/-! ### Translations that leave one tag alone -/

/-- Moves every tag but one. -/
def movingOthers (tag other : ℕ) : ℕ := if other = tag then other else other + tag + 1

theorem movingOthers_eq_iff {tag other : ℕ} : movingOthers tag other = other ↔ other = tag := by
  unfold movingOthers
  split_ifs with h
  · exact iff_of_true rfl h
  · exact iff_of_false (by omega) h

theorem movingOthers_injective (tag : ℕ) : Function.Injective (movingOthers tag) := by
  intro other other' heq
  unfold movingOthers at heq
  split_ifs at heq <;> omega

/-- Handles that such a translation leaves alone carry the tag. -/
theorem owner_of_map_rename {tag : ℕ} {handles : List AnyHandle}
    (h : handles.map (AnyHandle.rename (movingOthers tag)) = handles) {handle : AnyHandle}
    (hmem : handle ∈ handles) : handle.id.owner = tag := by
  have hfixed : handle.rename (movingOthers tag) = handle := by
    obtain ⟨i, hi⟩ := List.mem_iff_getElem?.1 hmem
    have hboth := congrArg (·[i]?) h
    rw [List.getElem?_map, hi] at hboth
    exact Option.some.inj hboth
  have howner := congrArg (fun handle : AnyHandle => handle.id.owner) hfixed
  exact movingOthers_eq_iff.1 howner

namespace Net

variable {net : Net}

theorem Consistent.rename_movingOthers (h : net.Consistent) :
    net.rename (movingOthers net.tag) = net := by
  rw [← h.copy_eq_rename, movingOthers_eq_iff.2 rfl, h.copy_tag]

/-- The handles that a net stores are its own. -/
theorem Consistent.owner_of_mem_mentions (h : net.Consistent) {handle : AnyHandle}
    (hmem : handle ∈ net.mentions) : handle.id.owner = net.tag := by
  refine owner_of_map_rename ?_ hmem
  rw [← mentions_rename, h.rename_movingOthers]

end Net

/-! ### What a net hands out -/

section Fixed

variable {ρ : ℕ → ℕ}

theorem Handle.rename_eq_self {kind : Kind} {id : Handle kind} (h : ρ id.owner = id.owner) :
    id.rename ρ = id :=
  Handle.ext h rfl

theorem Node.rename_eq_self {node : Node} (h : ρ node.handle.id.owner = node.handle.id.owner) :
    node.rename ρ = node := by
  cases node with
  | place id => exact congrArg Node.place (Handle.rename_eq_self h)
  | transition id => exact congrArg Node.transition (Handle.rename_eq_self h)

theorem Change.rename_eq_self {change : Change}
    (h : ∀ handle ∈ change.mentions, ρ handle.id.owner = handle.id.owner) :
    change.rename ρ = change := by
  cases change with
  | addEdge source target weight =>
      rw [rename, Node.rename_eq_self (h _ (by simp [mentions])),
        Node.rename_eq_self (h _ (by simp [mentions]))]
  | removeEdge id => rw [rename, Handle.rename_eq_self (h _ (List.mem_singleton_self _))]
  | removePlace id => rw [rename, Handle.rename_eq_self (h _ (List.mem_singleton_self _))]
  | removeTransition id => rw [rename, Handle.rename_eq_self (h _ (List.mem_singleton_self _))]
  | setTokens id tokens => rw [rename, Handle.rename_eq_self (h _ (List.mem_singleton_self _))]
  | setLabel id text => rw [rename, Handle.rename_eq_self (h _ (List.mem_singleton_self _))]
  | _ => rfl

theorem Query.rename_eq_self {query : Query}
    (h : ∀ handle ∈ query.mentions, ρ handle.id.owner = handle.id.owner) :
    query.rename ρ = query := by
  cases query with
  | contains id => rw [rename, Handle.rename_eq_self (h _ (List.mem_singleton_self _))]
  | get id => rw [rename, Handle.rename_eq_self (h _ (List.mem_singleton_self _))]
  | findEdge source target =>
      rw [rename, Node.rename_eq_self (h _ (by simp [mentions])),
        Node.rename_eq_self (h _ (by simp [mentions]))]
  | preset transition => rw [rename, Handle.rename_eq_self (h _ (List.mem_singleton_self _))]
  | postset transition => rw [rename, Handle.rename_eq_self (h _ (List.mem_singleton_self _))]
  | consumers place => rw [rename, Handle.rename_eq_self (h _ (List.mem_singleton_self _))]
  | _ => rfl

end Fixed

/-- The handles in a result. -/
def resultMentions {ε α : Type} (inError : ε → List AnyHandle) (inValue : α → List AnyHandle) :
    Except ε α → List AnyHandle
  | .ok value => inValue value
  | .error error => inError error

def Reply.mentions {σ : Type} : Reply σ → List AnyHandle
  | .absent => []
  | .created => []
  | .built result => resultMentions DocumentError.mentions (fun _ => []) result
  | .synchronised result =>
      resultMentions NetError.mentions (fun made => made.1.flatMap Sync.Step.mentions) result
  | .changed result => resultMentions ChangeError.mentions Outcome.mentions result
  | .answered answer => answer.mentions

theorem resultMentions_translate {ε α : Type} {ρ : ℕ → ℕ} {e : ε → ε} {r : α → α}
    {inError : ε → List AnyHandle} {inValue : α → List AnyHandle}
    (he : ∀ error, inError (e error) = (inError error).map (AnyHandle.rename ρ))
    (hr : ∀ value, inValue (r value) = (inValue value).map (AnyHandle.rename ρ))
    (result : Except ε α) : resultMentions inError inValue (translate e r result) =
      (resultMentions inError inValue result).map (AnyHandle.rename ρ) := by
  cases result with
  | ok value => exact hr value
  | error error => exact he error

/-! ### What a net refuses -/

/-- An error that says that a handle does not belong to the net. -/
def NetError.IsUnrelated : NetError → Prop
  | .unrelatedNode _ => True
  | .unrelatedEdge _ => True
  | _ => False

/-- An answer that says that there is nothing. -/
def Answer.IsVoid : Answer → Prop
  | .truth holds => holds = false
  | .handle id => id = none
  | .handles ids => ids = []
  | .value stored => stored = none
  | .products made => made = []
  | _ => False

namespace Net

variable {net : Net}

theorem Consistent.not_contains_of_foreign (h : net.Consistent) {node : Node}
    (hforeign : node.handle.id.owner ≠ net.tag) : ¬ net.contains node = true := by
  intro hnode
  have howner := h.identified.owner_of_contains hnode
  cases node <;> exact hforeign howner

theorem Consistent.collection_owner (h : net.Consistent) (kind : Kind) :
    (net.collection kind).owner = net.tag := by
  cases kind with
  | place => exact h.identified.places_owner
  | transition => exact h.identified.transitions_owner
  | edge => exact h.identified.edges_owner

theorem Consistent.get?_of_foreign (h : net.Consistent) {kind : Kind} {id : Handle kind}
    (hforeign : id.owner ≠ net.tag) : (net.collection kind).get? id = none := by
  cases hget : (net.collection kind).get? id with
  | none => rfl
  | some value =>
      exact absurd ((Arena.owner_of_get? hget).trans (h.collection_owner kind)) hforeign

/-- Nothing is listed at a node of another net. -/
theorem Consistent.listed?_of_foreign (h : net.Consistent) (side : Side) (node : Node)
    (hforeign : node.handle.id.owner ≠ net.tag) : net.listed? side node = none :=
  listed?_eq_none (h.not_contains_of_foreign hforeign)

end Net

/-- The changes that refuse a foreign handle because the handle is foreign; a label is checked before
the transition that it is for. -/
def Change.Refuses (change : Change) (error : NetError) : Prop :=
  error.IsUnrelated ∨ ∃ id text, change = .setLabel id text ∧ Label.parse? text = none ∧
    error = .invalidArgument (.replacementLabel text)

namespace Change

variable {net : Net} {change : Change} {handle : AnyHandle}

theorem edit_refused {α : Type} {action : Edit α} {outcome : α → Outcome} {error : NetError}
    (h : action.runOn net = (.error error, net)) :
    (edit action outcome).run.run net = (.error (.net error), net) := by
  rw [edit_runOn, h]

/-- A change that is handed a handle of another net is refused and leaves the net as it is. -/
theorem refused_of_foreign (h : net.Consistent) (hmem : handle ∈ change.mentions)
    (hforeign : handle.id.owner ≠ net.tag) :
    ∃ error, change.Refuses error ∧ change.runOn net = (.error (.net error), net) := by
  cases change with
  | addEdge source target weight =>
      have hrefused : ∃ error : NetError, error.IsUnrelated ∧
          (Edit.addEdge source target weight).runOn net = (.error error, net) := by
        by_cases hsource : net.contains source = true
        · have htarget : ¬ net.contains target = true := by
            rcases List.mem_pair.1 hmem with rfl | rfl
            · exact absurd hsource (h.not_contains_of_foreign hforeign)
            · exact h.not_contains_of_foreign hforeign
          refine ⟨.unrelatedNode target, trivial, ?_⟩
          rw [Edit.addEdge, Edit.runOn_bind_ok (Edit.checkNode_runOn hsource)]
          exact Edit.runOn_bind_error (Edit.checkNode_refused htarget)
        · exact ⟨.unrelatedNode source, trivial,
            Edit.runOn_bind_error (Edit.checkNode_refused hsource)⟩
      obtain ⟨error, hunrelated, hrun⟩ := hrefused
      exact ⟨error, Or.inl hunrelated, edit_refused hrun⟩
  | removeEdge id =>
      cases List.mem_singleton.1 hmem
      have hnone : net.edge? id = none := h.get?_of_foreign hforeign
      exact ⟨.unrelatedEdge id, Or.inl trivial, edit_refused (Edit.removeEdge_refused hnone)⟩
  | removePlace id =>
      cases List.mem_singleton.1 hmem
      have hnot : ¬ net.contains (.place id) = true := h.not_contains_of_foreign hforeign
      exact ⟨.unrelatedNode (.place id), Or.inl trivial,
        edit_refused (Edit.removePlace_refused hnot)⟩
  | removeTransition id =>
      cases List.mem_singleton.1 hmem
      have hnot : ¬ net.contains (.transition id) = true := h.not_contains_of_foreign hforeign
      exact ⟨.unrelatedNode (.transition id), Or.inl trivial,
        edit_refused (Edit.removeTransition_refused hnot)⟩
  | setTokens id tokens =>
      cases List.mem_singleton.1 hmem
      have hnot : ¬ net.contains (.place id) = true := h.not_contains_of_foreign hforeign
      exact ⟨.unrelatedNode (.place id), Or.inl trivial,
        edit_refused (Edit.setTokens_refused hnot tokens)⟩
  | setLabel id text =>
      cases List.mem_singleton.1 hmem
      have hnot : ¬ net.contains (.transition id) = true := h.not_contains_of_foreign hforeign
      cases hlabel : Label.parse? text with
      | none => exact ⟨_, Or.inr ⟨id, text, rfl, hlabel, rfl⟩,
          edit_refused (Edit.setLabel_improper id hlabel)⟩
      | some label => exact ⟨.unrelatedNode (.transition id), Or.inl trivial,
          edit_refused (Edit.setLabel_unrelated hnot hlabel)⟩
  | addPlace hint tokens => exact absurd hmem List.not_mem_nil
  | addTransition hint text => exact absurd hmem List.not_mem_nil
  | addLabelledTransition hint label => exact absurd hmem List.not_mem_nil
  | clear => exact absurd hmem List.not_mem_nil
  | importDocument document => exact absurd hmem List.not_mem_nil

end Change

namespace Query

variable {net : Net} {query : Query} {handle : AnyHandle}

/-- A question about a handle of another net has an empty answer. -/
theorem isVoid_of_foreign (h : net.Consistent) (hmem : handle ∈ query.mentions)
    (hforeign : handle.id.owner ≠ net.tag) : (query.answer net).IsVoid := by
  cases query with
  | contains id =>
      cases List.mem_singleton.1 hmem
      have hnot : ¬ (net.collection _).contains id = true := fun hid =>
        hforeign ((Arena.contains_iff.1 hid).1.trans (h.collection_owner _))
      exact Bool.eq_false_iff.2 hnot
  | get id =>
      cases List.mem_singleton.1 hmem
      exact h.get?_of_foreign hforeign
  | findEdge source target =>
      change net.findEdge? source target = none
      by_contra hfound
      obtain ⟨id, hid⟩ := Option.ne_none_iff_exists'.1 hfound
      obtain ⟨edge, hedge, rfl, rfl⟩ := (Net.findEdge?_eq_some_iff h).1 hid
      rcases List.mem_pair.1 hmem with rfl | rfl
      · exact h.not_contains_of_foreign hforeign (h.contains_endpoint hedge .source)
      · exact h.not_contains_of_foreign hforeign (h.contains_endpoint hedge .target)
  | preset transition =>
      cases List.mem_singleton.1 hmem
      have hlisted : net.incoming? (.transition transition) = none :=
        h.listed?_of_foreign .target (.transition transition) hforeign
      change net.preset transition = []
      rw [Net.preset, hlisted]
      rfl
  | postset transition =>
      cases List.mem_singleton.1 hmem
      have hlisted : net.outgoing? (.transition transition) = none :=
        h.listed?_of_foreign .source (.transition transition) hforeign
      change net.postset transition = []
      rw [Net.postset, hlisted]
      rfl
  | consumers place =>
      cases List.mem_singleton.1 hmem
      have hlisted : net.outgoing? (.place place) = none :=
        h.listed?_of_foreign .source (.place place) hforeign
      change net.consumers place = []
      rw [Net.consumers, hlisted]
      rfl
  | _ => exact absurd hmem List.not_mem_nil

end Query

/-! ### What a net hands out -/

variable {net : Net} {handle : AnyHandle} {σ : Type} [RandomSource σ]

theorem NetError.mentions_of_isUnrelated {error : NetError} (h : error.IsUnrelated) :
    error.mentions = [] := by
  cases error with
  | unrelatedNode node => rfl
  | unrelatedEdge id => rfl
  | _ => exact absurd h id

theorem Answer.mentions_of_isVoid {answer : Answer} (h : answer.IsVoid) : answer.mentions = [] := by
  cases answer with
  | truth holds => rfl
  | handle id =>
      cases h
      rfl
  | handles ids =>
      cases h
      rfl
  | value stored =>
      cases h
      rfl
  | products made =>
      cases h
      rfl
  | _ => exact absurd h id

/-- The handles that an operation returns are those of the net. -/
theorem Change.owner_of_mem_mentions (h : net.Consistent) (change : Change)
    (hmem : handle ∈ resultMentions ChangeError.mentions Outcome.mentions (change.runOn net).1) :
    handle.id.owner = net.tag := by
  by_cases hown : ∀ handle ∈ change.mentions, handle.id.owner = net.tag
  · have hchange : change.rename (movingOthers net.tag) = change :=
      rename_eq_self fun handle hmem => movingOthers_eq_iff.2 (hown handle hmem)
    have hrun := change.runOn_rename (movingOthers_injective net.tag) net
    rw [hchange, h.rename_movingOthers] at hrun
    have hfixed : (change.runOn net).1 = translate _ _ (change.runOn net).1 := congrArg Prod.fst hrun
    refine owner_of_map_rename ?_ hmem
    rw [← resultMentions_translate ChangeError.mentions_rename Outcome.mentions_rename, ← hfixed]
  · simp only [not_forall, exists_prop] at hown
    obtain ⟨foreign, hforeign, hne⟩ := hown
    obtain ⟨error, hrefuses, hrun⟩ := change.refused_of_foreign h hforeign hne
    have hnone : error.mentions = [] := by
      rcases hrefuses with hunrelated | ⟨id, text, -, -, rfl⟩
      · exact NetError.mentions_of_isUnrelated hunrelated
      · rfl
    rw [hrun] at hmem
    change handle ∈ error.mentions at hmem
    rw [hnone] at hmem
    exact absurd hmem List.not_mem_nil

/-- The handles that a net answers with are its own. -/
theorem Query.owner_of_mem_mentions (h : net.Consistent) (query : Query)
    (hmem : handle ∈ (query.answer net).mentions) : handle.id.owner = net.tag := by
  by_cases hown : ∀ handle ∈ query.mentions, handle.id.owner = net.tag
  · have hquery : query.rename (movingOthers net.tag) = query :=
      rename_eq_self fun handle hmem => movingOthers_eq_iff.2 (hown handle hmem)
    have hanswer := query.answer_rename (movingOthers_injective net.tag) h
    rw [hquery, h.rename_movingOthers] at hanswer
    refine owner_of_map_rename ?_ hmem
    rw [← Answer.mentions_rename, ← hanswer]
  · simp only [not_forall, exists_prop] at hown
    obtain ⟨foreign, hforeign, hne⟩ := hown
    have hvoid := query.isVoid_of_foreign h hforeign hne
    rw [Answer.mentions_of_isVoid hvoid] at hmem
    exact absurd hmem List.not_mem_nil

/-- The handles in what a synchronisation returns carry the tag of the new net. -/
theorem Net.owner_of_mem_synchronise (h : net.Consistent) (tag : ℕ) (source : σ)
    (hmem : handle ∈ resultMentions NetError.mentions
      (fun made : Sync.Result × σ => made.1.steps.flatMap Sync.Step.mentions)
      (net.synchronise tag source)) : handle.id.owner = tag := by
  have hsteps : ∀ steps : List Sync.Step,
      (steps.map (Sync.Step.rename (movingOthers tag))).flatMap Sync.Step.mentions =
        (steps.flatMap Sync.Step.mentions).map (AnyHandle.rename (movingOthers tag)) := fun steps => by
    simp only [List.flatMap_map, List.map_flatMap, Sync.Step.mentions_rename]
  have hrun := h.synchronise_rename (movingOthers_injective tag) tag source
  rw [← h.copy_eq_rename, h.synchronise_copy, movingOthers_eq_iff.2 rfl] at hrun
  refine owner_of_map_rename ?_ hmem
  rw [← resultMentions_translate
    (r := fun made : Sync.Result × σ => (made.1.rename (movingOthers tag), made.2))
    NetError.mentions_rename fun made => hsteps made.1.steps, ← hrun]

/-- The handles in the refusal of a document carry the tag that was drawn for its net. -/
theorem Document.owner_of_mem_mentions (document : Document) (tag : ℕ)
    (hmem : handle ∈ resultMentions DocumentError.mentions Net.mentions (document.toNet tag)) :
    handle.id.owner = tag := by
  have hrun := document.toNet_rename (movingOthers_injective tag) tag
  rw [movingOthers_eq_iff.2 rfl] at hrun
  refine owner_of_map_rename ?_ hmem
  rw [← resultMentions_translate DocumentError.mentions_rename fun _ => Net.mentions_rename,
    ← hrun]

end PetriCcs
