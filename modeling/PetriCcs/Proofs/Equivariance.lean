import PetriCcs.Proofs.Renaming

/-! # Edits in translated handles

Operations on a net compare handles and hand them on, and look at their tags in no other way.  On a
translated net an operation with translated arguments therefore does the same in translated handles:
it returns the translated value or the translated error, and leaves the translated net behind
(`Equivariant`).  This is closed under sequencing, so it passes from single cells to edits, to imports
and to all operations on one net (`Change.equivariant`).  No invariant of the net is needed. -/

namespace PetriCcs

/-! ### Results in translated handles -/

def Misuse.rename (ρ : ℕ → ℕ) : Misuse → Misuse
  | .sameSide source target => .sameSide (source.rename ρ) (target.rename ρ)
  | misuse => misuse

def Dangling.rename (ρ : ℕ → ℕ) : Dangling → Dangling
  | .node n => .node (n.rename ρ)
  | .edge id => .edge (id.rename ρ)
  | .position i => .position i

def NetError.rename (ρ : ℕ → ℕ) : NetError → NetError
  | .invalidArgument misuse => .invalidArgument (misuse.rename ρ)
  | .duplicateEdge source target => .duplicateEdge (source.rename ρ) (target.rename ρ)
  | .unrelatedNode node => .unrelatedNode (node.rename ρ)
  | .unrelatedEdge id => .unrelatedEdge (id.rename ρ)
  | .structuralMismatch requirement => .structuralMismatch requirement
  | .dangling reference => .dangling (reference.rename ρ)

def DocumentError.rename (ρ : ℕ → ℕ) : DocumentError → DocumentError
  | .net error => .net (error.rename ρ)
  | error => error

def ChangeError.rename (ρ : ℕ → ℕ) : ChangeError → ChangeError
  | .net error => .net (error.rename ρ)
  | .document error => .document (error.rename ρ)

def Outcome.rename (ρ : ℕ → ℕ) : Outcome → Outcome
  | .done => .done
  | .place id => .place (id.rename ρ)
  | .transition id => .transition (id.rename ρ)
  | .edge id => .edge (id.rename ρ)
  | .removedEdge removed => .removedEdge (removed.rename ρ)
  | .removedPlace removed => .removedPlace (removed.rename ρ)
  | .removedTransition removed => .removedTransition (removed.rename ρ)

def Change.rename (ρ : ℕ → ℕ) : Change → Change
  | .addEdge source target weight => .addEdge (source.rename ρ) (target.rename ρ) weight
  | .removeEdge id => .removeEdge (id.rename ρ)
  | .removePlace id => .removePlace (id.rename ρ)
  | .removeTransition id => .removeTransition (id.rename ρ)
  | .setTokens id tokens => .setTokens (id.rename ρ) tokens
  | .setLabel id label => .setLabel (id.rename ρ) label
  | change => change

/-- The nodes declared so far in translated handles. -/
def Document.Declared.rename (ρ : ℕ → ℕ) (declared : Declared) : Declared where
  places := declared.places.map fun entry => (entry.1, entry.2.rename ρ)
  transitions := declared.transitions.map fun entry => (entry.1, entry.2.rename ρ)

/-- A result with its error and its value translated. -/
def translate {ε ε' α α' : Type} (e : ε → ε') (r : α → α') : Except ε α → Except ε' α'
  | .ok value => .ok (r value)
  | .error error => .error (e error)

/-! ### Equivariant actions -/

variable {ρ : ℕ → ℕ} {ε ε' α α' β β' : Type} {e : ε → ε} {r : α → α'} {r' : β → β'}

/-- On the translated net `action'` does what `action` does on the net, in translated handles. -/
def Equivariant (ρ : ℕ → ℕ) (e : ε → ε) (r : α → α') (action : ExceptT ε (StateM Net) α)
    (action' : ExceptT ε (StateM Net) α') : Prop :=
  ∀ net : Net, action'.run.run (net.rename ρ) =
    (translate e r (action.run.run net).1, (action.run.run net).2.rename ρ)

theorem equivariant_pure (value : α) : Equivariant ρ e r (pure value) (pure (r value)) :=
  fun _ => rfl

theorem equivariant_throw (error : ε) : Equivariant ρ e r (throw error) (throw (e error)) :=
  fun _ => rfl

theorem equivariant_set (net : Net) : Equivariant ρ e id (set net) (set (net.rename ρ)) :=
  fun _ => rfl

/-- A result computed beforehand. -/
theorem equivariant_liftM (result : Except ε α) : Equivariant ρ e r
    (MonadLiftT.monadLift result) (MonadLiftT.monadLift (translate e r result)) := by
  intro net
  cases result <;> rfl

theorem Equivariant.bind {action : ExceptT ε (StateM Net) α}
    {action' : ExceptT ε (StateM Net) α'} {f : α → ExceptT ε (StateM Net) β}
    {f' : α' → ExceptT ε (StateM Net) β'} (h : Equivariant ρ e r action action')
    (hf : ∀ a, Equivariant ρ e r' (f a) (f' (r a))) :
    Equivariant ρ e r' (action >>= f) (action' >>= f') := by
  intro net
  have hfirst := h net
  rw [ExceptT.run_bind, StateT.run_bind, ExceptT.run_bind, StateT.run_bind, hfirst]
  cases hrun : action.run.run net with
  | mk result net' =>
      cases result with
      | error error => rfl
      | ok a => exact hf a net'

/-- What follows may depend on the net as it is. -/
theorem equivariant_get_bind {f : Net → ExceptT ε (StateM Net) β}
    {f' : Net → ExceptT ε (StateM Net) β'}
    (hf : ∀ net : Net, Equivariant ρ e r' (f net) (f' (net.rename ρ))) :
    Equivariant ρ e r' (get >>= f) (get >>= f') :=
  fun net => hf net net

theorem Equivariant.adapt {action : ExceptT ε (StateM Net) α}
    {action' : ExceptT ε (StateM Net) α'} {e' : ε' → ε'} {f : ε → ε'}
    (h : Equivariant ρ e r action action') (hf : ∀ error, f (e error) = e' (f error)) :
    Equivariant ρ e' r (ExceptT.adapt f action) (ExceptT.adapt f action') := by
  intro net
  have hrun := h net
  change ((action'.run.run (net.rename ρ)).1.mapError f, (action'.run.run (net.rename ρ)).2) =
    (translate e' r ((action.run.run net).1.mapError f), (action.run.run net).2.rename ρ)
  rw [hrun]
  cases (action.run.run net).1 with
  | ok value => rfl
  | error error => exact congrArg (fun error => (Except.error error, _)) (hf error)

theorem Equivariant.map {action : ExceptT ε (StateM Net) α} {action' : ExceptT ε (StateM Net) α'}
    {f : α → β} {f' : α' → β'} (h : Equivariant ρ e r action action')
    (hf : ∀ a, f' (r a) = r' (f a)) : Equivariant ρ e r' (f <$> action) (f' <$> action') := by
  intro net
  have hrun := h net
  rw [ExceptT.run_map, StateT.run_map, ExceptT.run_map, StateT.run_map, hrun]
  cases hresult : action.run.run net with
  | mk result net' =>
      cases result with
      | error error => rfl
      | ok a => exact congrArg (fun value => (Except.ok value, net'.rename ρ)) (hf a)

theorem Equivariant.tryCatch {action : ExceptT ε (StateM Net) α}
    {action' : ExceptT ε (StateM Net) α'} {handle : ε → ExceptT ε (StateM Net) α}
    {handle' : ε → ExceptT ε (StateM Net) α'} (h : Equivariant ρ e r action action')
    (hhandle : ∀ error, Equivariant ρ e r (handle error) (handle' (e error))) :
    Equivariant ρ e r (MonadExcept.tryCatch action handle)
      (MonadExcept.tryCatch action' handle') := by
  intro net
  have hrun := h net
  rw [ExceptT.run_tryCatch, StateT.run_bind, ExceptT.run_tryCatch, StateT.run_bind, hrun]
  cases hresult : action.run.run net with
  | mk result net' =>
      cases result with
      | error error => exact hhandle error net'
      | ok a => rfl

theorem equivariant_forM {f : α → ExceptT ε (StateM Net) Unit}
    {f' : α' → ExceptT ε (StateM Net) Unit} (r : α → α')
    (hf : ∀ a, Equivariant ρ e id (f a) (f' (r a))) :
    ∀ values : List α, Equivariant ρ e id (values.forM f) ((values.map r).forM f')
  | [] => equivariant_pure ()
  | a :: values => (hf a).bind fun _ => equivariant_forM r hf values

namespace Edit

/-- An edit that does the same in translated handles. -/
abbrev Equivariant (ρ : ℕ → ℕ) (r : α → α') (edit : Edit α) (edit' : Edit α') : Prop :=
  PetriCcs.Equivariant ρ (NetError.rename ρ) r edit edit'

variable (hρ : Function.Injective ρ)

include hρ

/-! ### Single cells -/

theorem updatePlace_equivariant (place : PlaceId) {f f' : Place → Place}
    (hf : ∀ value, f' (value.rename ρ) = (f value).rename ρ) :
    Equivariant ρ id (updatePlace place f) (updatePlace (place.rename ρ) f') := by
  refine equivariant_get_bind fun net => ?_
  have hupdate : (net.rename ρ).places.update? (place.rename ρ) f' = _ :=
    Arena.update?_rename hρ hf
  rw [hupdate]
  cases net.places.update? place f with
  | none => exact equivariant_throw _
  | some places => exact equivariant_set { net with places }

theorem updateTransition_equivariant (transition : TransitionId) {f f' : Transition → Transition}
    (hf : ∀ value, f' (value.rename ρ) = (f value).rename ρ) :
    Equivariant ρ id (updateTransition transition f) (updateTransition (transition.rename ρ) f') := by
  refine equivariant_get_bind fun net => ?_
  have hupdate : (net.rename ρ).transitions.update? (transition.rename ρ) f' = _ :=
    Arena.update?_rename hρ hf
  rw [hupdate]
  cases net.transitions.update? transition f with
  | none => exact equivariant_throw _
  | some transitions => exact equivariant_set { net with transitions }

theorem updateEdge_equivariant (edge : EdgeId) {f f' : Edge → Edge}
    (hf : ∀ value, f' (value.rename ρ) = (f value).rename ρ) :
    Equivariant ρ id (updateEdge edge f) (updateEdge (edge.rename ρ) f') := by
  refine equivariant_get_bind fun net => ?_
  have hupdate : (net.rename ρ).edges.update? (edge.rename ρ) f' = _ :=
    Arena.update?_rename hρ hf
  rw [hupdate]
  cases net.edges.update? edge f with
  | none => exact equivariant_throw _
  | some edges => exact equivariant_set { net with edges }

theorem storedEdge_equivariant (edge : EdgeId) :
    Equivariant ρ (Edge.rename ρ) (storedEdge edge) (storedEdge (edge.rename ρ)) := by
  refine equivariant_get_bind fun net => ?_
  rw [Net.edge?_rename hρ]
  cases net.edge? edge with
  | none => exact equivariant_throw _
  | some value => exact equivariant_pure value

theorem updateOutgoing_equivariant (node : Node) {f f' : List EdgeId → List EdgeId}
    (hf : ∀ edges : List EdgeId, f' (edges.map (·.rename ρ)) = (f edges).map (·.rename ρ)) :
    Equivariant ρ id (updateOutgoing node f) (updateOutgoing (node.rename ρ) f') := by
  cases node with
  | place p =>
      exact updatePlace_equivariant hρ p fun value => by simp only [Place.rename, hf]
  | transition t =>
      exact updateTransition_equivariant hρ t fun value => by simp only [Transition.rename, hf]

theorem updateIncoming_equivariant (node : Node) {f f' : List EdgeId → List EdgeId}
    (hf : ∀ edges : List EdgeId, f' (edges.map (·.rename ρ)) = (f edges).map (·.rename ρ)) :
    Equivariant ρ id (updateIncoming node f) (updateIncoming (node.rename ρ) f') := by
  cases node with
  | place p =>
      exact updatePlace_equivariant hρ p fun value => by simp only [Place.rename, hf]
  | transition t =>
      exact updateTransition_equivariant hρ t fun value => by simp only [Transition.rename, hf]

theorem storedOutgoing_equivariant (node : Node) :
    Equivariant ρ (List.map (·.rename ρ)) (storedOutgoing node) (storedOutgoing (node.rename ρ)) := by
  refine equivariant_get_bind fun net => ?_
  rw [Net.outgoing?_rename hρ]
  cases net.outgoing? node with
  | none => exact equivariant_throw _
  | some edges => exact equivariant_pure edges

theorem storedIncoming_equivariant (node : Node) :
    Equivariant ρ (List.map (·.rename ρ)) (storedIncoming node) (storedIncoming (node.rename ρ)) := by
  refine equivariant_get_bind fun net => ?_
  rw [Net.incoming?_rename hρ]
  cases net.incoming? node with
  | none => exact equivariant_throw _
  | some edges => exact equivariant_pure edges

/-! ### Adding -/

omit hρ in
theorem addPlace_equivariant (hint : Option NameIndex) (tokens : Weight) :
    Equivariant ρ (·.rename ρ) (addPlace hint tokens) (addPlace hint tokens) := by
  intro net
  change (addPlace hint tokens).runOn (net.rename ρ) =
    (translate _ _ ((addPlace hint tokens).runOn net).1, ((addPlace hint tokens).runOn net).2.rename ρ)
  by_cases hhint : hint = some 0
  · rw [hhint, addPlace_refused, addPlace_refused]
    rfl
  · rw [addPlace_runOn hhint, addPlace_runOn hhint, Net.pushPlace_rename]
    exact congrArg (fun id => (Except.ok id, _)) Arena.nextHandle_rename

omit hρ in
theorem addLabelledTransition_equivariant (hint : Option NameIndex) (label : Label) :
    Equivariant ρ (·.rename ρ) (addLabelledTransition hint label)
      (addLabelledTransition hint label) := by
  intro net
  change (addLabelledTransition hint label).runOn (net.rename ρ) =
    (translate _ _ ((addLabelledTransition hint label).runOn net).1,
      ((addLabelledTransition hint label).runOn net).2.rename ρ)
  by_cases hhint : hint = some 0
  · rw [hhint, addLabelledTransition_refused, addLabelledTransition_refused]
    rfl
  · rw [addLabelledTransition_runOn hhint, addLabelledTransition_runOn hhint,
      Net.pushTransition_rename]
    exact congrArg (fun id => (Except.ok id, _)) Arena.nextHandle_rename

omit hρ in
theorem addTransition_equivariant (hint : Option NameIndex) (text : String) :
    Equivariant ρ (·.rename ρ) (addTransition hint text) (addTransition hint text) := by
  rw [addTransition]
  cases Label.parse? text with
  | none => exact equivariant_throw _
  | some label => exact addLabelledTransition_equivariant hint label

theorem checkNode_equivariant (node : Node) :
    Equivariant ρ id (checkNode node) (checkNode (node.rename ρ)) := by
  refine equivariant_get_bind fun net => ?_
  rw [Net.contains_rename hρ]
  cases net.contains node with
  | true => exact equivariant_pure ()
  | false => exact equivariant_throw _

omit hρ in
theorem checkEdge_equivariant (source target : Node) (weight : Weight) :
    Equivariant ρ id (checkEdge source target weight)
      (checkEdge (source.rename ρ) (target.rename ρ) weight) := by
  cases source with
  | place p =>
      cases target with
      | place q => exact equivariant_throw _
      | transition t =>
          simp only [Node.rename, checkEdge]
          split_ifs
          · exact equivariant_pure ()
          · exact equivariant_throw _
  | transition t =>
      cases target with
      | place p =>
          simp only [Node.rename, checkEdge]
          split_ifs
          · exact equivariant_throw _
          · exact equivariant_pure ()
      | transition u => exact equivariant_throw _

theorem addEdge_equivariant (source target : Node) (weight : Weight) :
    Equivariant ρ (·.rename ρ) (addEdge source target weight)
      (addEdge (source.rename ρ) (target.rename ρ) weight) := by
  refine (checkNode_equivariant hρ source).bind fun _ => ?_
  refine (checkNode_equivariant hρ target).bind fun _ => ?_
  refine (checkEdge_equivariant source target weight).bind fun _ => equivariant_get_bind fun net => ?_
  rw [Net.findEdge?_rename hρ, Option.isSome_map]
  cases (net.findEdge? source target).isSome with
  | true => exact equivariant_throw _
  | false =>
      have hnext : (net.rename ρ).edges.nextHandle = net.edges.nextHandle.rename ρ :=
        Arena.nextHandle_rename
      have hset : Equivariant ρ id
          (set { net with edges := net.edges.push (newEdge net source target weight) })
          (set { net.rename ρ with
            edges := (net.rename ρ).edges.push
              (newEdge (net.rename ρ) (source.rename ρ) (target.rename ρ) weight) }) := by
        rw [← Net.pushEdge_rename]
        exact equivariant_set _
      have happend : ∀ edges : List EdgeId, edges.map (·.rename ρ) ++
          [(net.rename ρ).edges.nextHandle] = (edges ++ [net.edges.nextHandle]).map (·.rename ρ) :=
        fun edges => by rw [hnext, List.map_append, List.map_singleton]
      refine hset.bind fun _ => ?_
      refine (updateOutgoing_equivariant hρ source happend).bind fun _ => ?_
      refine (updateIncoming_equivariant hρ target happend).bind fun _ => ?_
      rw [hnext]
      exact equivariant_pure _

/-! ### Removing -/

theorem replaceHandle_rename (old new : EdgeId) (edges : List EdgeId) :
    replaceHandle (old.rename ρ) (new.rename ρ) (edges.map (·.rename ρ)) =
      (replaceHandle old new edges).map (·.rename ρ) := by
  have hiff : ∀ id : EdgeId, id.rename ρ = old.rename ρ ↔ id = old := fun id =>
    (Handle.rename_injective hρ).eq_iff
  rw [replaceHandle, replaceHandle, List.map_map, List.map_map]
  refine List.map_congr_left fun id _ => ?_
  simp only [Function.comp_apply, hiff]
  split_ifs <;> rfl

theorem filter_ne_rename (removed : EdgeId) (edges : List EdgeId) :
    (edges.map (·.rename ρ)).filter (· ≠ removed.rename ρ) =
      (edges.filter (· ≠ removed)).map (·.rename ρ) := by
  have hiff : ∀ id : EdgeId, id.rename ρ = removed.rename ρ ↔ id = removed := fun id =>
    (Handle.rename_injective hρ).eq_iff
  rw [List.filter_map]
  refine congrArg _ (List.filter_congr fun id _ => ?_)
  simp only [Function.comp_apply, ne_eq, hiff]

theorem adoptEdge_equivariant (old new : EdgeId) :
    Equivariant ρ id (adoptEdge old new) (adoptEdge (old.rename ρ) (new.rename ρ)) := by
  have hid : Equivariant ρ id (updateEdge new ({ · with id := new }))
      (updateEdge (new.rename ρ) ({ · with id := new.rename ρ })) :=
    updateEdge_equivariant hρ new fun _ => rfl
  refine hid.bind fun _ => ?_
  refine (storedEdge_equivariant hρ new).bind fun moved => ?_
  refine (updateOutgoing_equivariant hρ moved.source (replaceHandle_rename hρ old new)).bind
    fun _ => ?_
  exact updateIncoming_equivariant hρ moved.target (replaceHandle_rename hρ old new)

theorem removeEdge_equivariant (removed : EdgeId) :
    Equivariant ρ (Edge.rename ρ) (removeEdge removed) (removeEdge (removed.rename ρ)) := by
  refine equivariant_get_bind fun net => ?_
  rw [Net.edge?_rename hρ]
  cases net.edge? removed with
  | none => exact equivariant_throw _
  | some edge =>
      refine (updateOutgoing_equivariant hρ edge.source (filter_ne_rename hρ removed)).bind
        fun _ => ?_
      refine (updateIncoming_equivariant hρ edge.target (filter_ne_rename hρ removed)).bind
        fun _ => equivariant_get_bind fun net => ?_
      have hremove : (net.rename ρ).edges.swapRemove? (removed.rename ρ) = _ :=
        Arena.swapRemove?_rename hρ
      rw [hremove]
      cases net.edges.swapRemove? removed with
      | none => exact equivariant_pure edge
      | some removal =>
          obtain ⟨value, moved, rest⟩ := removal
          refine (equivariant_set { net with edges := rest }).bind fun _ => ?_
          cases moved with
          | none => exact equivariant_pure edge
          | some old => exact (adoptEdge_equivariant hρ old removed).bind fun _ => equivariant_pure edge

theorem drain_equivariant {listed listed' : Edit (List EdgeId)}
    (hlisted : Equivariant ρ (List.map (·.rename ρ)) listed listed') :
    ∀ rounds : ℕ, Equivariant ρ id (drain listed rounds) (drain listed' rounds)
  | 0 => equivariant_pure ()
  | rounds + 1 => by
      refine hlisted.bind fun edges => ?_
      rw [List.getLast?_map]
      cases edges.getLast? with
      | none => exact equivariant_pure ()
      | some last =>
          exact (removeEdge_equivariant hρ last).bind fun _ => drain_equivariant hlisted rounds

theorem removeListed_equivariant {listed listed' : Edit (List EdgeId)}
    (hlisted : Equivariant ρ (List.map (·.rename ρ)) listed listed') :
    Equivariant ρ id (removeListed listed) (removeListed listed') := by
  refine equivariant_get_bind fun net => ?_
  have hsize : (net.rename ρ).edges.size = net.edges.size := Arena.size_rename
  rw [hsize]
  exact drain_equivariant hρ hlisted _

theorem detach_equivariant (node : Node) :
    Equivariant ρ id (detach node) (detach (node.rename ρ)) :=
  (removeListed_equivariant hρ (storedIncoming_equivariant hρ node)).bind fun _ =>
    removeListed_equivariant hρ (storedOutgoing_equivariant hρ node)

theorem reattach_equivariant (node : Node) :
    Equivariant ρ id (reattach node) (reattach (node.rename ρ)) := by
  refine (storedIncoming_equivariant hρ node).bind fun incoming => ?_
  refine (storedOutgoing_equivariant hρ node).bind fun outgoing => ?_
  have htarget : ∀ edge : EdgeId, Equivariant ρ id (updateEdge edge ({ · with target := node }))
      (updateEdge (edge.rename ρ) ({ · with target := node.rename ρ })) := fun edge =>
    updateEdge_equivariant hρ edge fun _ => rfl
  have hsource : ∀ edge : EdgeId, Equivariant ρ id (updateEdge edge ({ · with source := node }))
      (updateEdge (edge.rename ρ) ({ · with source := node.rename ρ })) := fun edge =>
    updateEdge_equivariant hρ edge fun _ => rfl
  exact (equivariant_forM (Handle.rename ρ) htarget incoming).bind fun _ =>
    equivariant_forM (Handle.rename ρ) hsource outgoing

theorem removePlace_equivariant (place : PlaceId) :
    Equivariant ρ (Place.rename ρ) (removePlace place) (removePlace (place.rename ρ)) := by
  refine equivariant_get_bind fun net => ?_
  have hcontains : (net.rename ρ).places.contains (place.rename ρ) = net.places.contains place :=
    Arena.contains_rename hρ
  rw [hcontains]
  cases net.places.contains place with
  | false => exact equivariant_throw _
  | true =>
      refine (detach_equivariant hρ (.place place)).bind fun _ => equivariant_get_bind fun net => ?_
      have hremove : (net.rename ρ).places.swapRemove? (place.rename ρ) = _ :=
        Arena.swapRemove?_rename hρ
      rw [hremove]
      cases net.places.swapRemove? place with
      | none => exact equivariant_throw _
      | some removal =>
          obtain ⟨value, moved, rest⟩ := removal
          refine (equivariant_set _).bind fun _ => ?_
          cases moved with
          | none => exact equivariant_pure value
          | some old =>
              have hid : Equivariant ρ id (updatePlace place ({ · with id := place }))
                  (updatePlace (place.rename ρ) ({ · with id := place.rename ρ })) :=
                updatePlace_equivariant hρ place fun _ => rfl
              refine hid.bind fun _ => ?_
              exact (reattach_equivariant hρ (.place place)).bind fun _ => equivariant_pure value

theorem removeTransition_equivariant (transition : TransitionId) :
    Equivariant ρ (Transition.rename ρ) (removeTransition transition)
      (removeTransition (transition.rename ρ)) := by
  refine equivariant_get_bind fun net => ?_
  have hcontains : (net.rename ρ).transitions.contains (transition.rename ρ) =
      net.transitions.contains transition := Arena.contains_rename hρ
  rw [hcontains]
  cases net.transitions.contains transition with
  | false => exact equivariant_throw _
  | true =>
      refine (detach_equivariant hρ (.transition transition)).bind fun _ => equivariant_get_bind fun net => ?_
      have hremove : (net.rename ρ).transitions.swapRemove? (transition.rename ρ) = _ :=
        Arena.swapRemove?_rename hρ
      rw [hremove]
      cases net.transitions.swapRemove? transition with
      | none => exact equivariant_throw _
      | some removal =>
          obtain ⟨value, moved, rest⟩ := removal
          refine (equivariant_set _).bind fun _ => ?_
          cases moved with
          | none => exact equivariant_pure value
          | some old =>
              have hid : Equivariant ρ id (updateTransition transition ({ · with id := transition }))
                  (updateTransition (transition.rename ρ) ({ · with id := transition.rename ρ })) :=
                updateTransition_equivariant hρ transition fun _ => rfl
              refine hid.bind fun _ => ?_
              exact (reattach_equivariant hρ (.transition transition)).bind fun _ => equivariant_pure value

/-! ### Setting -/

theorem setTokens_equivariant (place : PlaceId) (tokens : Weight) :
    Equivariant ρ id (setTokens place tokens) (setTokens (place.rename ρ) tokens) := by
  refine equivariant_get_bind fun net => ?_
  have hcontains : (net.rename ρ).places.contains (place.rename ρ) = net.places.contains place :=
    Arena.contains_rename hρ
  rw [hcontains]
  cases net.places.contains place with
  | false => exact equivariant_throw _
  | true => exact updatePlace_equivariant hρ place fun _ => rfl

theorem setLabel_equivariant (transition : TransitionId) (text : String) :
    Equivariant ρ id (setLabel transition text) (setLabel (transition.rename ρ) text) := by
  rw [setLabel, setLabel]
  cases Label.parse? text with
  | none => exact equivariant_throw _
  | some label =>
      refine equivariant_get_bind fun net => ?_
      have hcontains : (net.rename ρ).transitions.contains (transition.rename ρ) =
          net.transitions.contains transition := Arena.contains_rename hρ
      rw [hcontains]
      cases net.transitions.contains transition with
      | false => exact equivariant_throw _
      | true => exact updateTransition_equivariant hρ transition fun _ => rfl

omit hρ in
theorem clear_equivariant : Equivariant ρ id clear clear :=
  fun _ => congrArg (Prod.mk _) Net.clear_rename

end Edit

/-! ### Imports -/

namespace Document

theorem parseReference_equivariant (letter : Char) (reference : String) :
    Equivariant ρ (DocumentError.rename ρ) id
      (MonadLiftT.monadLift (parseReference letter reference))
      (MonadLiftT.monadLift (parseReference letter reference)) := by
  cases hparse : parseReference letter reference with
  | ok name => exact equivariant_pure name
  | error error =>
      have hbad : error = .badReference reference := by
        unfold parseReference at hparse
        simp only at hparse
        split at hparse
        · cases hparse
        · exact (Except.error.inj hparse).symm
      rw [hbad]
      exact equivariant_throw _

theorem lookup_rename (declared : List (String × Handle kind)) (reference : String) :
    (declared.map fun entry => (entry.1, entry.2.rename ρ)).lookup reference =
      (declared.lookup reference).map (·.rename ρ) := by
  induction declared with
  | nil => rfl
  | cons entry declared ih =>
      rw [List.map_cons, List.lookup_cons, List.lookup_cons, ih]
      cases reference == entry.1 <;> rfl

theorem resolve_rename (declared : Declared) (reference : String) :
    (declared.rename ρ).resolve reference =
      translate (DocumentError.rename ρ) (Node.rename ρ) (declared.resolve reference) := by
  unfold Declared.resolve Declared.rename
  simp only [lookup_rename]
  cases declared.places.lookup reference with
  | some id => rfl
  | none => cases declared.transitions.lookup reference <;> rfl

theorem lift_equivariant {edit : Edit α} {edit' : Edit α'} (h : Edit.Equivariant ρ r edit edit') :
    Equivariant ρ (DocumentError.rename ρ) r (lift edit) (lift edit') :=
  h.adapt fun _ => rfl

theorem importPlaces_equivariant : ∀ (entries : List PlaceEntry)
    (declared : List (String × PlaceId)), Equivariant ρ (DocumentError.rename ρ)
      (List.map fun entry => (entry.1, entry.2.rename ρ)) (importPlaces entries declared)
      (importPlaces entries (declared.map fun entry => (entry.1, entry.2.rename ρ)))
  | [], declared => equivariant_pure declared
  | entry :: entries, declared => by
      refine (parseReference_equivariant 'p' entry.id).bind fun name => ?_
      rw [lookup_rename, Option.isSome_map]
      cases (declared.lookup entry.id).isSome with
      | true => exact equivariant_throw _
      | false =>
          refine (lift_equivariant (Edit.addPlace_equivariant (some name) entry.tokens)).bind
            fun id => ?_
          exact importPlaces_equivariant entries ((entry.id, id) :: declared)

theorem importTransitions_equivariant : ∀ (entries : List TransitionEntry)
    (declared : List (String × TransitionId)), Equivariant ρ (DocumentError.rename ρ)
      (List.map fun entry => (entry.1, entry.2.rename ρ)) (importTransitions entries declared)
      (importTransitions entries (declared.map fun entry => (entry.1, entry.2.rename ρ)))
  | [], declared => equivariant_pure declared
  | entry :: entries, declared => by
      refine (parseReference_equivariant 't' entry.id).bind fun name => ?_
      rw [lookup_rename, Option.isSome_map]
      cases (declared.lookup entry.id).isSome with
      | true => exact equivariant_throw _
      | false =>
          refine (lift_equivariant (Edit.addTransition_equivariant (some name) entry.label)).bind
            fun id => ?_
          exact importTransitions_equivariant entries ((entry.id, id) :: declared)

variable (hρ : Function.Injective ρ)

include hρ

theorem importArcs_equivariant (declared : Declared) : ∀ arcs : List ArcEntry,
    Equivariant ρ (DocumentError.rename ρ) id (importArcs declared arcs)
      (importArcs (declared.rename ρ) arcs)
  | [] => equivariant_pure ()
  | arc :: arcs => by
      have hresolve : ∀ reference, Equivariant ρ (DocumentError.rename ρ) (Node.rename ρ)
          (MonadLiftT.monadLift (declared.resolve reference))
          (MonadLiftT.monadLift ((declared.rename ρ).resolve reference)) := fun reference => by
        rw [resolve_rename]
        exact equivariant_liftM _
      refine (hresolve arc.source).bind fun source => (hresolve arc.target).bind fun target => ?_
      refine (lift_equivariant (Edit.addEdge_equivariant hρ source target arc.weight)).bind
        fun _ => ?_
      exact importArcs_equivariant declared arcs

theorem importInto_equivariant (document : Document) :
    Equivariant ρ (DocumentError.rename ρ) id document.importInto document.importInto := by
  have hpopulate : Equivariant ρ (DocumentError.rename ρ) id document.populate
      document.populate := by
    refine (importPlaces_equivariant document.places []).bind fun places => ?_
    refine (importTransitions_equivariant document.transitions []).bind fun transitions => ?_
    exact importArcs_equivariant hρ ⟨places, transitions⟩ document.arcs
  refine (lift_equivariant Edit.clear_equivariant).bind fun _ => ?_
  refine hpopulate.tryCatch fun error => ?_
  exact (lift_equivariant Edit.clear_equivariant).bind fun _ => equivariant_throw error

end Document

/-! ### Operations as data -/

namespace Change

theorem edit_equivariant {action : Edit α} {action' : Edit α'} {outcome : α → Outcome}
    {outcome' : α' → Outcome} (h : Edit.Equivariant ρ r action action')
    (houtcome : ∀ a, outcome' (r a) = (outcome a).rename ρ) :
    Equivariant ρ (ChangeError.rename ρ) (Outcome.rename ρ) (edit action outcome)
      (edit action' outcome') :=
  Equivariant.map (h.adapt fun _ => rfl) houtcome

/-- An operation with translated arguments does the same to the translated net. -/
theorem equivariant (hρ : Function.Injective ρ) (change : Change) :
    Equivariant ρ (ChangeError.rename ρ) (Outcome.rename ρ) change.perform
      (change.rename ρ).perform := by
  cases change with
  | addPlace hint tokens =>
      exact edit_equivariant (Edit.addPlace_equivariant hint tokens) fun _ => rfl
  | addTransition hint label =>
      exact edit_equivariant (Edit.addTransition_equivariant hint label) fun _ => rfl
  | addLabelledTransition hint label =>
      exact edit_equivariant (Edit.addLabelledTransition_equivariant hint label) fun _ => rfl
  | addEdge source target weight =>
      exact edit_equivariant (Edit.addEdge_equivariant hρ source target weight) fun _ => rfl
  | removeEdge id => exact edit_equivariant (Edit.removeEdge_equivariant hρ id) fun _ => rfl
  | removePlace id => exact edit_equivariant (Edit.removePlace_equivariant hρ id) fun _ => rfl
  | removeTransition id =>
      exact edit_equivariant (Edit.removeTransition_equivariant hρ id) fun _ => rfl
  | setTokens id tokens =>
      exact edit_equivariant (Edit.setTokens_equivariant hρ id tokens) fun _ => rfl
  | setLabel id label =>
      exact edit_equivariant (Edit.setLabel_equivariant hρ id label) fun _ => rfl
  | clear => exact edit_equivariant Edit.clear_equivariant fun _ => rfl
  | importDocument document =>
      have himport : Equivariant ρ (ChangeError.rename ρ) id
          (ExceptT.adapt ChangeError.document document.importInto)
          (ExceptT.adapt ChangeError.document document.importInto) :=
        (Document.importInto_equivariant hρ document).adapt fun _ => rfl
      exact himport.bind fun _ => equivariant_pure Outcome.done

theorem runOn_rename (hρ : Function.Injective ρ) (change : Change) (net : Net) :
    (change.rename ρ).runOn (net.rename ρ) =
      (translate (ChangeError.rename ρ) (Outcome.rename ρ) (change.runOn net).1,
        (change.runOn net).2.rename ρ) :=
  change.equivariant hρ net

end Change
end PetriCcs
