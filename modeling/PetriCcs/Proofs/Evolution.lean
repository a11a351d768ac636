import PetriCcs.Proofs.Growth
import PetriCcs.Proofs.NameTable
import PetriCcs.Proofs.NodeRemoval
import PetriCcs.Workspace

/-! # What a change does to the invariants of a net

`Net.Numbered p t` says that the tables of names agree with the nodes after at most `p` names of places
and `t` names of transitions, and `Net.Claims p t net net'` that `net'` comes from a consistent `net` by
claiming that many.  Where only the number of additions matters, `Net.Named n` bounds both tables by
it, and `Net.Evolves n net net'` says that `net'` comes from `net` by at most `n` additions and any
number of other changes.  Every operation on one net is such a change, whether it is refused or not
(`Change.evolves`). -/

namespace PetriCcs

namespace Net

variable {net net' net'' : Net} {n m k p p' t t' : ℕ}

/-- Bound on the additions in the history of a net: the counters of names stay in their range. -/
def additionLimit : ℕ := 2 ^ 32 - 2

/-- The names in use are those of the nodes, and the tables remember at most as many names of places
and of transitions as given. -/
structure Numbered (p t : ℕ) (net : Net) : Prop where
  places : net.placeNames.Tracks (net.places.toList.map Place.name)
  transitions : net.transitionNames.Tracks (net.transitions.toList.map Transition.name)
  places_load : net.placeNames.load ≤ p
  transitions_load : net.transitionNames.load ≤ t

/-- The names in use are those of the nodes, and each table remembers at most `n` names. -/
abbrev Named (n : ℕ) (net : Net) : Prop := net.Numbered n n

theorem numbered_empty (p t tag : ℕ) : (empty tag).Numbered p t :=
  ⟨NameTable.tracks_empty, NameTable.tracks_empty, Nat.zero_le _, Nat.zero_le _⟩

theorem named_empty (n tag : ℕ) : (empty tag).Named n := numbered_empty n n tag

theorem Numbered.mono (h : net.Numbered p t) (hp : p ≤ p') (ht : t ≤ t') : net.Numbered p' t' :=
  ⟨h.places, h.transitions, h.places_load.trans hp, h.transitions_load.trans ht⟩

theorem Numbered.of_bare (h : net.Numbered p t) (hbare : net'.bare = net.bare) :
    net'.Numbered p t := by
  constructor
  · rw [placeNames_of_bare hbare, map_placeName_of_bare hbare]
    exact h.places
  · rw [transitionNames_of_bare hbare, map_transitionName_of_bare hbare]
    exact h.transitions
  · rw [placeNames_of_bare hbare]
    exact h.places_load
  · rw [transitionNames_of_bare hbare]
    exact h.transitions_load

theorem Numbered.pushPlace (h : net.Numbered p t) (hroom : p + 1 < additionLimit)
    {hint : Option NameIndex} (hhint : hint ≠ some 0) (tokens : Weight) :
    (net.pushPlace (net.placeNames.resolve hint) tokens).Numbered (p + 1) t := by
  have hload := h.places_load
  refine ⟨?_, h.transitions, ?_, h.transitions_load⟩
  · have htracks := h.places.claim (by unfold additionLimit at hroom; omega) hhint
    simpa [Net.pushPlace] using htracks
  · exact (NameTable.load_claim_le _ _).trans (Nat.succ_le_succ hload)

theorem Numbered.pushTransition (h : net.Numbered p t) (hroom : t + 1 < additionLimit)
    {hint : Option NameIndex} (hhint : hint ≠ some 0) (label : Label) :
    (net.pushTransition (net.transitionNames.resolve hint) label).Numbered p (t + 1) := by
  have hload := h.transitions_load
  refine ⟨h.places, ?_, h.places_load, ?_⟩
  · have htracks := h.transitions.claim (by unfold additionLimit at hroom; omega) hhint
    simpa [Net.pushTransition] using htracks
  · exact (NameTable.load_claim_le _ _).trans (Nat.succ_le_succ hload)

/-- Changes that claim the given numbers of names of places and of transitions keep what is known of
a net. -/
structure Claims (places transitions : ℕ) (net net' : Net) : Prop where
  consistent : net'.Consistent
  tag : net'.tag = net.tag
  numbered : ∀ p t, p + places < additionLimit → t + transitions < additionLimit →
    net.Numbered p t → net'.Numbered (p + places) (t + transitions)

theorem Claims.of_bare (h : net'.Consistent) (hbare : net'.bare = net.bare) :
    Claims 0 0 net net' :=
  ⟨h, tag_of_bare hbare, fun _ _ _ _ hnumbered => hnumbered.of_bare hbare⟩

theorem Claims.refl (h : net.Consistent) : Claims 0 0 net net := Claims.of_bare h rfl

theorem Claims.trans (h : Claims p t net net') (h' : Claims p' t' net' net'') :
    Claims (p + p') (t + t') net net'' :=
  ⟨h'.consistent, h'.tag.trans h.tag, fun k l hk hl hnumbered => by
    rw [← Nat.add_assoc] at hk hl
    rw [← Nat.add_assoc, ← Nat.add_assoc]
    exact h'.numbered _ _ hk hl (h.numbered k l (by omega) (by omega) hnumbered)⟩

theorem Claims.pushPlace (h : net.Consistent) {hint : Option NameIndex} (hhint : hint ≠ some 0)
    (tokens : Weight) : Claims 1 0 net (net.pushPlace (net.placeNames.resolve hint) tokens) :=
  ⟨h.pushPlace _ _, rfl, fun _ _ hp _ hnumbered => hnumbered.pushPlace hp hhint tokens⟩

theorem Claims.pushTransition (h : net.Consistent) {hint : Option NameIndex}
    (hhint : hint ≠ some 0) (label : Label) :
    Claims 0 1 net (net.pushTransition (net.transitionNames.resolve hint) label) :=
  ⟨h.pushTransition _ _, rfl, fun _ _ _ ht hnumbered => hnumbered.pushTransition ht hhint label⟩

/-- Changes with at most `n` additions keep what is known of a net. -/
structure Evolves (n : ℕ) (net net' : Net) : Prop where
  consistent : net'.Consistent
  tag : net'.tag = net.tag
  named : ∀ m, m + n < additionLimit → net.Named m → net'.Named (m + n)

/-- Names are claimed for added nodes only. -/
theorem Claims.evolves (h : Claims p t net net') (hp : p ≤ n) (ht : t ≤ n) : Evolves n net net' :=
  ⟨h.consistent, h.tag, fun m hm hnamed =>
    (h.numbered m m (by omega) (by omega) hnamed).mono (by omega) (by omega)⟩

theorem Evolves.of_bare (h : net'.Consistent) (hbare : net'.bare = net.bare) :
    Evolves 0 net net' :=
  (Claims.of_bare h hbare).evolves (Nat.le_refl 0) (Nat.le_refl 0)

theorem Evolves.refl (h : net.Consistent) : Evolves 0 net net := Evolves.of_bare h rfl

theorem Evolves.mono (h : Evolves n net net') (hle : n ≤ m) : Evolves m net net' :=
  ⟨h.consistent, h.tag, fun k hk hnamed =>
    (h.named k (by omega) hnamed).mono (by omega) (by omega)⟩

theorem Evolves.trans (h : Evolves n net net') (h' : Evolves m net' net'') :
    Evolves (n + m) net net'' :=
  ⟨h'.consistent, h'.tag.trans h.tag, fun k hk hnamed => by
    rw [← Nat.add_assoc] at hk ⊢
    exact h'.named _ hk (h.named k (by omega) hnamed)⟩

theorem Evolves.clear (h : net.Consistent) : Evolves 0 net net.clear := by
  rw [h.identified.clear_eq]
  exact ⟨consistent_empty _, rfl, fun k _ _ => named_empty _ _⟩

/-- A net keeps its links when only other data of its nodes change. -/
theorem Consistent.of_links (h : net.Consistent) (hid : net'.Identified)
    (hedges : net'.edges = net.edges)
    (hlisted : ∀ side node, net'.listed? side node = net.listed? side node) : net'.Consistent := by
  have hedge : ∀ id, net'.edge? id = net.edge? id := fun id => by rw [edge?, edge?, hedges]
  refine ⟨hid, fun {id edge} he => h.edge_id (hedge id ▸ he),
    fun {side node edges} hl => h.nodup (hlisted side node ▸ hl), fun {side node edges} hl id => ?_,
    fun {id edge} he side => ?_, fun {id edge} he => h.fits (hedge id ▸ he),
    fun {id id' edge edge'} he he' => h.unique (hedge id ▸ he) (hedge id' ▸ he')⟩
  · rw [hedge]
    exact h.mem_listed (hlisted side node ▸ hl) id
  · rw [contains_iff_listed? side, hlisted, ← contains_iff_listed? side]
    exact h.contains_endpoint (hedge id ▸ he) side

/-! ### Tokens and labels -/

/-- The net with other tokens in a place. -/
def withTokens (net : Net) (id : PlaceId) (tokens : Weight) : Net :=
  { net with
    places := { net.places with items := net.places.items.modify id.index ({ · with tokens }) } }

/-- The net with another label on a transition. -/
def withLabel (net : Net) (id : TransitionId) (label : Label) : Net :=
  { net with
    transitions := { net.transitions with
      items := net.transitions.items.modify id.index ({ · with label }) } }

theorem place?_withTokens {id : PlaceId} (h : net.contains (.place id) = true) (tokens : Weight)
    (k : PlaceId) : (net.withTokens id tokens).place? k =
      if k = id then (net.place? k).map ({ · with tokens }) else net.place? k :=
  Arena.get?_modify (Arena.contains_iff.1 h).1

theorem transition?_withLabel {id : TransitionId} (h : net.contains (.transition id) = true)
    (label : Label) (k : TransitionId) : (net.withLabel id label).transition? k =
      if k = id then (net.transition? k).map ({ · with label }) else net.transition? k :=
  Arena.get?_modify (Arena.contains_iff.1 h).1

theorem listed?_withTokens {id : PlaceId} (h : net.contains (.place id) = true) (tokens : Weight)
    (side : Side) (node : Node) :
    (net.withTokens id tokens).listed? side node = net.listed? side node := by
  cases node with
  | place k =>
      cases side <;> simp only [listed?, outgoing?, incoming?, place?_withTokens h] <;>
        split_ifs <;> simp [Function.comp_def]
  | transition k => cases side <;> rfl

theorem listed?_withLabel {id : TransitionId} (h : net.contains (.transition id) = true)
    (label : Label) (side : Side) (node : Node) :
    (net.withLabel id label).listed? side node = net.listed? side node := by
  cases node with
  | place k => cases side <;> rfl
  | transition k =>
      cases side <;> simp only [listed?, outgoing?, incoming?, transition?_withLabel h] <;>
        split_ifs <;> simp [Function.comp_def]

theorem Claims.withTokens (h : net.Consistent) {id : PlaceId}
    (hid : net.contains (.place id) = true) (tokens : Weight) :
    Claims 0 0 net (net.withTokens id tokens) := by
  have hnames : (net.withTokens id tokens).places.toList.map Place.name =
      net.places.toList.map Place.name :=
    Arena.map_toList_modify (f := ({ · with tokens })) Place.name id.index fun _ => rfl
  refine ⟨h.of_links ⟨h.identified.places_owner, h.identified.transitions_owner,
    h.identified.edges_owner, fun {k place} hk => ?_, h.identified.transition_id⟩ rfl
    (listed?_withTokens hid tokens), rfl,
    fun _ _ _ _ hnumbered => ⟨by rw [hnames]; exact hnumbered.places, hnumbered.transitions,
      hnumbered.places_load, hnumbered.transitions_load⟩⟩
  rw [place?_withTokens hid] at hk
  split_ifs at hk
  · obtain ⟨old, hold, rfl⟩ := Option.map_eq_some_iff.1 hk
    have hown := h.identified.place_id hold
    exact hown
  · exact h.identified.place_id hk

theorem Claims.withLabel (h : net.Consistent) {id : TransitionId}
    (hid : net.contains (.transition id) = true) (label : Label) :
    Claims 0 0 net (net.withLabel id label) := by
  have hnames : (net.withLabel id label).transitions.toList.map Transition.name =
      net.transitions.toList.map Transition.name :=
    Arena.map_toList_modify (f := ({ · with label })) Transition.name id.index fun _ => rfl
  refine ⟨h.of_links ⟨h.identified.places_owner, h.identified.transitions_owner,
    h.identified.edges_owner, h.identified.place_id, fun {k transition} hk => ?_⟩ rfl
    (listed?_withLabel hid label), rfl,
    fun _ _ _ _ hnumbered => ⟨hnumbered.places, by rw [hnames]; exact hnumbered.transitions,
      hnumbered.places_load, hnumbered.transitions_load⟩⟩
  rw [transition?_withLabel hid] at hk
  split_ifs at hk
  · obtain ⟨old, hold, rfl⟩ := Option.map_eq_some_iff.1 hk
    have hown := h.identified.transition_id hold
    exact hown
  · exact h.identified.transition_id hk

end Net

/-! ### Edits of one net -/

namespace Edit

variable {net : Net}

/-- A run that claims names for what it adds, or adds nothing when it is refused. -/
def Adds {α : Type} (places transitions : ℕ) (edit : Edit α) : Prop :=
  ∀ net : Net, net.Consistent →
    (∃ error, edit.runOn net = (.error error, net)) ∨
    ∃ value net', edit.runOn net = (.ok value, net') ∧ Net.Claims places transitions net net'

theorem addPlace_adds (hint : Option NameIndex) (tokens : Weight) :
    Adds 1 0 (addPlace hint tokens) := by
  intro net h
  by_cases hhint : hint = some 0
  · subst hhint
    exact Or.inl ⟨_, addPlace_refused tokens net⟩
  · exact Or.inr ⟨_, _, addPlace_runOn hhint tokens net, Net.Claims.pushPlace h hhint tokens⟩

theorem addLabelledTransition_adds (hint : Option NameIndex) (label : Label) :
    Adds 0 1 (addLabelledTransition hint label) := by
  intro net h
  by_cases hhint : hint = some 0
  · subst hhint
    exact Or.inl ⟨_, addLabelledTransition_refused label net⟩
  · exact Or.inr ⟨_, _, addLabelledTransition_runOn hhint label net,
      Net.Claims.pushTransition h hhint label⟩

theorem addTransition_adds (hint : Option NameIndex) (label : String) :
    Adds 0 1 (addTransition hint label) := by
  rw [addTransition]
  split
  · exact addLabelledTransition_adds hint _
  · exact fun net _ => Or.inl ⟨_, runOn_throw _ _⟩

theorem addEdge_adds (source target : Node) (weight : Weight) :
    Adds 0 0 (addEdge source target weight) := by
  intro net h
  by_cases hall : net.contains source = true ∧ net.contains target = true ∧
      Fits source target weight ∧ net.findEdge? source target = none
  · obtain ⟨hsource, htarget, hfits, hnew⟩ := hall
    obtain ⟨net', hrun, hadded⟩ := addEdge_runOn hsource htarget hfits hnew
    have hnet' := h.of_edgeAdded hadded (contains_newEdge hsource htarget) hfits hnew
    exact Or.inr ⟨_, net', hrun, Net.Claims.of_bare hnet' hadded.bare⟩
  · obtain ⟨error, herror⟩ := addEdge_refused hall
    exact Or.inl ⟨error, herror⟩

theorem removeEdge_claims (h : net.Consistent) (id : EdgeId) :
    Net.Claims 0 0 net ((removeEdge id).runOn net).2 := by
  cases hid : net.edge? id with
  | none =>
      rw [removeEdge_refused hid]
      exact Net.Claims.refl h
  | some removed =>
      obtain ⟨net', hrun, r⟩ := removeEdge_runOn h hid
      rw [hrun]
      exact Net.Claims.of_bare (h.of_edgeRemoved r) r.bare

/-- Removing a place keeps the net consistent. -/
theorem consistent_of_placeRemoved {net₁ net' : Net} {id : PlaceId} (h : net.Consistent)
    (hid : net.contains (.place id) = true)
    (hkeeps : Net.Keeps (fun arc => arc.source ≠ .place id ∧ arc.target ≠ .place id) net net₁)
    (hremoved : Net.NodeRemoved net₁ net' (.place net.places.lastHandle) (.place id)) :
    net'.Consistent := by
  refine hkeeps.consistent.of_nodeRemoved hremoved (isolated_of_keeps h hid hkeeps) fun n weight => ?_
  cases n <;> exact ⟨fun hf => hf, fun hf => hf⟩

theorem consistent_of_transitionRemoved {net₁ net' : Net} {id : TransitionId} (h : net.Consistent)
    (hid : net.contains (.transition id) = true)
    (hkeeps : Net.Keeps (fun arc => arc.source ≠ .transition id ∧ arc.target ≠ .transition id)
      net net₁)
    (hremoved : Net.NodeRemoved net₁ net' (.transition net.transitions.lastHandle)
      (.transition id)) : net'.Consistent := by
  refine hkeeps.consistent.of_nodeRemoved hremoved (isolated_of_keeps h hid hkeeps) fun n weight => ?_
  cases n <;> exact ⟨fun hf => hf, fun hf => hf⟩

theorem removePlace_claims (h : net.Consistent) (id : PlaceId) :
    Net.Claims 0 0 net ((removePlace id).runOn net).2 := by
  by_cases hid : net.contains (.place id) = true
  · obtain ⟨place, hplace⟩ := Arena.contains_iff_get?.1 hid
    obtain ⟨value, net₁, net', hrun, hkeeps, -, hremoved, r⟩ := removePlace_runOn h hplace
    rw [hrun]
    refine ⟨consistent_of_placeRemoved h hid hkeeps hremoved, r.tag, fun _ _ _ _ hnumbered => ?_⟩
    constructor
    · rw [r.table]
      exact hnumbered.places.release r.names
    · rw [r.transitions.table, r.transitions.names]
      exact hnumbered.transitions
    · rw [r.table]
      exact (NameTable.load_release_le _ _).trans hnumbered.places_load
    · rw [r.transitions.table]
      exact hnumbered.transitions_load
  · rw [removePlace_refused hid]
    exact Net.Claims.refl h

theorem removeTransition_claims (h : net.Consistent) (id : TransitionId) :
    Net.Claims 0 0 net ((removeTransition id).runOn net).2 := by
  by_cases hid : net.contains (.transition id) = true
  · obtain ⟨transition, htransition⟩ := Arena.contains_iff_get?.1 hid
    obtain ⟨value, net₁, net', hrun, hkeeps, -, hremoved, r⟩ := removeTransition_runOn h htransition
    rw [hrun]
    refine ⟨consistent_of_transitionRemoved h hid hkeeps hremoved, r.tag,
      fun _ _ _ _ hnumbered => ?_⟩
    constructor
    · rw [r.places.table, r.places.names]
      exact hnumbered.places
    · rw [r.table]
      exact hnumbered.transitions.release r.names
    · rw [r.places.table]
      exact hnumbered.places_load
    · rw [r.table]
      exact (NameTable.load_release_le _ _).trans hnumbered.transitions_load
  · rw [removeTransition_refused hid]
    exact Net.Claims.refl h

/-! ### Setting -/

theorem setTokens_runOn {id : PlaceId} (h : net.contains (.place id) = true) (tokens : Weight) :
    (setTokens id tokens).runOn net = (.ok (), net.withTokens id tokens) := by
  have hid : net.places.contains id = true := h
  rw [setTokens, runOn_bind_ok (runOn_get net), if_pos hid]
  exact updatePlace_runOn _ hid

theorem setTokens_refused {id : PlaceId} (h : ¬ net.contains (.place id) = true) (tokens : Weight) :
    (setTokens id tokens).runOn net = (.error (.unrelatedNode (.place id)), net) := by
  have hid : ¬ net.places.contains id = true := h
  rw [setTokens, runOn_bind_ok (runOn_get net), if_neg hid]
  rfl

theorem setLabel_runOn {id : TransitionId} (h : net.contains (.transition id) = true)
    {text : String} {label : Label} (hlabel : Label.parse? text = some label) :
    (setLabel id text).runOn net = (.ok (), net.withLabel id label) := by
  have hid : net.transitions.contains id = true := h
  rw [setLabel, hlabel]
  refine (runOn_bind_ok (runOn_get net)).trans ?_
  rw [if_pos hid]
  exact updateTransition_runOn _ hid

theorem setLabel_unrelated {id : TransitionId} (h : ¬ net.contains (.transition id) = true)
    {text : String} {label : Label} (hlabel : Label.parse? text = some label) :
    (setLabel id text).runOn net = (.error (.unrelatedNode (.transition id)), net) := by
  have hid : ¬ net.transitions.contains id = true := h
  rw [setLabel, hlabel]
  refine (runOn_bind_ok (runOn_get net)).trans ?_
  rw [if_neg hid]
  rfl

theorem setLabel_improper (id : TransitionId) {text : String} (hlabel : Label.parse? text = none) :
    (setLabel id text).runOn net = (.error (.invalidArgument (.replacementLabel text)), net) := by
  rw [setLabel, hlabel]
  rfl

/-- Any other label or handle is refused, and nothing changes. -/
theorem setLabel_refusal {id : TransitionId} {text : String}
    (h : ¬ (net.contains (.transition id) = true ∧ ∃ label, Label.parse? text = some label)) :
    ∃ error, error.IsRefusal ∧ (setLabel id text).runOn net = (.error error, net) := by
  cases hlabel : Label.parse? text with
  | none =>
      exact ⟨.invalidArgument (.replacementLabel text), trivial, setLabel_improper id hlabel⟩
  | some label =>
      exact ⟨.unrelatedNode (.transition id), trivial,
        setLabel_unrelated (fun hid => h ⟨hid, label, hlabel⟩) hlabel⟩

theorem setLabel_refused {id : TransitionId} {text : String}
    (h : ¬ (net.contains (.transition id) = true ∧ ∃ label, Label.parse? text = some label)) :
    ∃ error, (setLabel id text).runOn net = (.error error, net) :=
  (setLabel_refusal h).imp fun _ herror => herror.2

theorem setTokens_claims (h : net.Consistent) (id : PlaceId) (tokens : Weight) :
    Net.Claims 0 0 net ((setTokens id tokens).runOn net).2 := by
  by_cases hid : net.contains (.place id) = true
  · rw [setTokens_runOn hid]
    exact Net.Claims.withTokens h hid tokens
  · rw [setTokens_refused hid]
    exact Net.Claims.refl h

theorem setLabel_claims (h : net.Consistent) (id : TransitionId) (label : String) :
    Net.Claims 0 0 net ((setLabel id label).runOn net).2 := by
  by_cases hall : net.contains (.transition id) = true ∧ ∃ parsed, Label.parse? label = some parsed
  · obtain ⟨hid, parsed, hparsed⟩ := hall
    rw [setLabel_runOn hid hparsed]
    exact Net.Claims.withLabel h hid parsed
  · obtain ⟨error, herror⟩ := setLabel_refused hall
    rw [herror]
    exact Net.Claims.refl h

end Edit

/-! ### Sequences of edits -/

/-- Relations between two nets and a number of additions that hold of sequences of steps. -/
structure Composes (R : ℕ → Net → Net → Prop) : Prop where
  refl : ∀ net, R 0 net net
  trans : ∀ {n m net net' net''}, R n net net' → R m net' net'' → R (n + m) net net''
  mono : ∀ {n m net net'}, R n net net' → n ≤ m → R m net net'

section Ensures

variable {ε ε' α β : Type} {R : ℕ → Net → Net → Prop} {n m : ℕ}

/-- An action that leads to a related net with at most `n` additions, whether it is refused or
not. -/
def Ensures (R : ℕ → Net → Net → Prop) (n : ℕ) (action : ExceptT ε (StateM Net) α) : Prop :=
  ∀ net : Net, R n net (action.run.run net).2

theorem Ensures.pure (hR : Composes R) (a : α) :
    Ensures R 0 (Pure.pure a : ExceptT ε (StateM Net) α) :=
  hR.refl

theorem Ensures.liftM (hR : Composes R) (result : Except ε α) :
    Ensures R 0 (MonadLiftT.monadLift result : ExceptT ε (StateM Net) α) := by
  intro net
  cases result <;> exact hR.refl net

theorem Ensures.bind (hR : Composes R) {action : ExceptT ε (StateM Net) α}
    {f : α → ExceptT ε (StateM Net) β} (h : Ensures R n action) (hf : ∀ a, Ensures R m (f a)) :
    Ensures R (n + m) (action >>= f) := by
  intro net
  have hfirst := h net
  rw [ExceptT.run_bind, StateT.run_bind]
  cases hrun : action.run.run net with
  | mk result net' =>
      rw [hrun] at hfirst
      cases result with
      | error error => exact hR.mono hfirst (Nat.le_add_right n m)
      | ok a => exact hR.trans hfirst (hf a net')

theorem Ensures.adapt {action : ExceptT ε (StateM Net) α} (h : Ensures R n action) (f : ε → ε') :
    Ensures R n (ExceptT.adapt f action) :=
  h

/-- An action that adds at most `n` elements to a consistent net, whether it is refused or not. -/
def Grows (n : ℕ) (action : ExceptT ε (StateM Net) α) : Prop :=
  ∀ net : Net, net.Consistent → Net.Evolves n net (action.run.run net).2

theorem composes_evolves : Composes fun n net net' => net.Consistent → Net.Evolves n net net' where
  refl _ h := Net.Evolves.refl h
  trans h h' hnet := (h hnet).trans (h' (h hnet).consistent)
  mono h hle hnet := (h hnet).mono hle

theorem Edit.Adds.grows {p t : ℕ} {edit : Edit α} (h : Edit.Adds p t edit) (hp : p ≤ n)
    (ht : t ≤ n) : Grows n edit := by
  intro net hnet
  have hrun : edit.run.run net = edit.runOn net := rfl
  rw [hrun]
  rcases h net hnet with ⟨error, herror⟩ | ⟨value, net', hok, hclaims⟩
  · rw [herror]
    exact (Net.Evolves.refl hnet).mono (Nat.zero_le n)
  · rw [hok]
    exact hclaims.evolves hp ht

end Ensures

namespace Document

section Ensures

variable {R : ℕ → Net → Net → Prop} (hR : Composes R)

include hR

/-- A reference that is declared already ends an import. -/
theorem guard_ensures {α : Type} {n : ℕ} (declared : Bool) (reference : String)
    {next : ImportEdit α} (h : Ensures R n next) :
    Ensures R n (do
      if declared then throw (.duplicateReference reference)
      next) := by
  cases declared
  · exact h
  · exact fun net => hR.mono (hR.refl net) (Nat.zero_le n)

theorem importPlaces_ensures
    (hplace : ∀ hint tokens, Ensures R 1 (Edit.addPlace hint tokens)) :
    ∀ (entries : List PlaceEntry) (declared : List (String × PlaceId)),
      Ensures R entries.length (importPlaces entries declared)
  | [], declared => Ensures.pure hR declared
  | entry :: entries, declared => by
      have hadd : ∀ name : NameIndex, Ensures R (1 + entries.length) (do
          let id ← lift (Edit.addPlace (some name) entry.tokens)
          importPlaces entries ((entry.id, id) :: declared)) := fun name =>
        Ensures.bind hR ((hplace (some name) entry.tokens).adapt _) fun id =>
          importPlaces_ensures hplace entries ((entry.id, id) :: declared)
      have hall := Ensures.bind hR (Ensures.liftM hR (parseReference 'p' entry.id)) fun name =>
        guard_ensures hR (declared.lookup entry.id).isSome entry.id (hadd name)
      rw [Nat.zero_add, Nat.add_comm] at hall
      exact hall

theorem importTransitions_ensures
    (htransition : ∀ hint text, Ensures R 1 (Edit.addTransition hint text)) :
    ∀ (entries : List TransitionEntry) (declared : List (String × TransitionId)),
      Ensures R entries.length (importTransitions entries declared)
  | [], declared => Ensures.pure hR declared
  | entry :: entries, declared => by
      have hadd : ∀ name : NameIndex, Ensures R (1 + entries.length) (do
          let id ← lift (Edit.addTransition (some name) entry.label)
          importTransitions entries ((entry.id, id) :: declared)) := fun name =>
        Ensures.bind hR ((htransition (some name) entry.label).adapt _) fun id =>
          importTransitions_ensures htransition entries ((entry.id, id) :: declared)
      have hall := Ensures.bind hR (Ensures.liftM hR (parseReference 't' entry.id)) fun name =>
        guard_ensures hR (declared.lookup entry.id).isSome entry.id (hadd name)
      rw [Nat.zero_add, Nat.add_comm] at hall
      exact hall

theorem importArcs_ensures
    (hedge : ∀ source target weight, Ensures R 1 (Edit.addEdge source target weight))
    (declared : Declared) :
    ∀ arcs : List ArcEntry, Ensures R arcs.length (importArcs declared arcs)
  | [] => Ensures.pure hR ()
  | arc :: arcs => by
      have hadd : ∀ source target, Ensures R (1 + arcs.length) (do
          let _ ← lift (Edit.addEdge source target arc.weight)
          importArcs declared arcs) := fun source target =>
        Ensures.bind hR ((hedge source target arc.weight).adapt _) fun _ =>
          importArcs_ensures hedge declared arcs
      have hall := Ensures.bind hR (Ensures.liftM hR (declared.resolve arc.source)) fun source =>
        Ensures.bind hR (Ensures.liftM hR (declared.resolve arc.target)) fun target =>
          hadd source target
      rw [Nat.zero_add, Nat.zero_add, Nat.add_comm] at hall
      exact hall

end Ensures

/-- Number of entries of a document. -/
def entryCount (document : Document) : ℕ :=
  document.places.length + document.transitions.length + document.arcs.length

/-- What every addition ensures, an import ensures as often as it has entries. -/
theorem populate_ensures {R : ℕ → Net → Net → Prop} (hR : Composes R)
    (hplace : ∀ hint tokens, Ensures R 1 (Edit.addPlace hint tokens))
    (htransition : ∀ hint text, Ensures R 1 (Edit.addTransition hint text))
    (hedge : ∀ source target weight, Ensures R 1 (Edit.addEdge source target weight))
    (document : Document) : Ensures R document.entryCount document.populate := by
  have hall := Ensures.bind hR (importPlaces_ensures hR hplace document.places []) fun places =>
    Ensures.bind hR (importTransitions_ensures hR htransition document.transitions [])
      fun transitions => importArcs_ensures hR hedge ⟨places, transitions⟩ document.arcs
  rw [← Nat.add_assoc] at hall
  exact hall

theorem populate_grows (document : Document) : Grows document.entryCount document.populate :=
  populate_ensures composes_evolves
    (fun hint tokens => (Edit.addPlace_adds hint tokens).grows (by omega) (by omega))
    (fun hint text => (Edit.addTransition_adds hint text).grows (by omega) (by omega))
    (fun source target weight => (Edit.addEdge_adds source target weight).grows (by omega) (by omega))
    document

/-- An import adds its entries to an emptied net; what a refused entry leaves behind is dropped. -/
theorem importInto_eq {net : Net} (h : net.Identified) (document : Document) :
    runOn document.importInto net =
      match (populate document).run.run (Net.empty net.tag) with
      | (.ok (), net') => (.ok (), net')
      | (.error error, net') => (.error error, net'.clear) := by
  rw [← h.clear_eq]
  change runOn (tryCatch (populate document) fun error => do
    lift Edit.clear
    throw error) net.clear = _
  simp only [runOn]
  rw [ExceptT.run_tryCatch]
  cases hresult : (populate document).run.run net.clear with
  | mk result net' =>
      cases result with
      | ok value =>
          rw [StateT.run_bind, hresult]
          rfl
      | error error =>
          rw [StateT.run_bind, hresult]
          rfl

/-- A refused import leaves the net empty, any other one adds the entries to the emptied net. -/
theorem importInto_runOn {net : Net} (h : net.Consistent) (document : Document) :
    (∃ error, runOn document.importInto net = (.error error, Net.empty net.tag)) ∨
    ∃ net', runOn document.importInto net = (.ok (), net') ∧
      Net.Evolves document.entryCount (Net.empty net.tag) net' := by
  have hpopulate := populate_grows document _ (Net.consistent_empty net.tag)
  have hrun := importInto_eq h.identified document
  cases hresult : (populate document).run.run (Net.empty net.tag) with
  | mk result net' =>
      rw [hresult] at hpopulate hrun
      cases result with
      | ok value => exact Or.inr ⟨net', hrun, hpopulate⟩
      | error error =>
          refine Or.inl ⟨error, hrun.trans ?_⟩
          have hclear := hpopulate.consistent.identified.clear_eq
          rw [hpopulate.tag] at hclear
          simp only [hclear]
          rfl

end Document

/-! ### Operations as data -/

namespace Change

/-- How many elements an operation has added. -/
def additions : Change → Except ChangeError Outcome → ℕ
  | .importDocument document, .ok _ => document.entryCount
  | _, .ok (.place _) => 1
  | _, .ok (.transition _) => 1
  | _, .ok (.edge _) => 1
  | _, _ => 0

theorem edit_runOn {α : Type} (action : Edit α) (outcome : α → Outcome) (net : Net) :
    (edit action outcome).run.run net =
      match action.runOn net with
      | (.ok a, net') => (.ok (outcome a), net')
      | (.error error, net') => (.error (.net error), net') := by
  have hrun : action.runOn net = action.run.run net := rfl
  rw [hrun, edit, ExceptT.run_map, StateT.run_map]
  cases hresult : action.run.run net with
  | mk result net' =>
      have hadapt : (ExceptT.adapt ChangeError.net action).run.run net =
          (Except.mapError ChangeError.net result, net') := by
        change (fun pair => (Except.mapError ChangeError.net pair.1, pair.2))
          (action.run.run net) = _
        rw [hresult]
      rw [hadapt]
      cases result <;> rfl

theorem edit_claims {α : Type} {action : Edit α} {net : Net} (outcome : α → Outcome) {p t : ℕ}
    (h : Net.Claims p t net (action.runOn net).2) :
    Net.Claims p t net ((edit action outcome).run.run net).2 := by
  rw [edit_runOn]
  cases hresult : action.runOn net with
  | mk result net' =>
      rw [hresult] at h
      cases result <;> exact h

theorem edit_adds {α : Type} {action : Edit α} {p t : ℕ} (h : Edit.Adds p t action)
    (outcome : α → Outcome) {net : Net} (hnet : net.Consistent) :
    (∃ error, (edit action outcome).run.run net = (.error error, net)) ∨
      ∃ value net', (edit action outcome).run.run net = (.ok (outcome value), net') ∧
        Net.Claims p t net net' := by
  rw [edit_runOn]
  rcases h net hnet with ⟨error, herror⟩ | ⟨value, net', hok, hclaims⟩
  · rw [herror]
    exact Or.inl ⟨.net error, rfl⟩
  · rw [hok]
    exact Or.inr ⟨value, net', rfl, hclaims⟩

theorem edit_evolves {α : Type} {action : Edit α} {p t : ℕ} (h : Edit.Adds p t action)
    (hp : p ≤ 1) (ht : t ≤ 1) (outcome : α → Outcome) {net : Net} (hnet : net.Consistent)
    {count : Except ChangeError Outcome → ℕ} (hcount : ∀ a, count (.ok (outcome a)) = 1) :
    Net.Evolves (count ((edit action outcome).run.run net).1) net
      ((edit action outcome).run.run net).2 := by
  rcases edit_adds h outcome hnet with ⟨error, herror⟩ | ⟨value, net', hok, hclaims⟩
  · rw [herror]
    exact (Net.Evolves.refl hnet).mono (Nat.zero_le _)
  · rw [hok]
    simp only [hcount]
    exact hclaims.evolves hp ht

theorem importDocument_runOn (document : Document) (net : Net) :
    (Change.importDocument document).runOn net =
      match Document.runOn document.importInto net with
      | (.ok (), net') => (.ok .done, net')
      | (.error error, net') => (.error (.document error), net') := by
  have hrun : Document.runOn document.importInto net = document.importInto.run.run net := rfl
  rw [hrun, runOn, perform, ExceptT.run_bind, StateT.run_bind]
  cases hresult : document.importInto.run.run net with
  | mk result net' =>
      have hadapt : (ExceptT.adapt ChangeError.document document.importInto).run.run net =
          (Except.mapError ChangeError.document result, net') := by
        change (fun pair => (Except.mapError ChangeError.document pair.1, pair.2))
          (document.importInto.run.run net) = _
        rw [hresult]
      rw [hadapt]
      cases result <;> rfl

/-- The net of a document is the empty net after an import. -/
theorem importDocument_of_toNet {document : Document} {tag : ℕ} {net : Net}
    (hnet : document.toNet tag = .ok net) :
    (Change.importDocument document).runOn (.empty tag) = (.ok .done, net) := by
  rw [importDocument_runOn]
  unfold Document.toNet at hnet
  cases hrun : Document.runOn document.importInto (.empty tag) with
  | mk result net' =>
      rw [hrun] at hnet
      cases result with
      | error error => cases hnet
      | ok value =>
          cases hnet
          rfl

/-- Every operation keeps what is known of a consistent net, up to the elements it adds. -/
theorem evolves (change : Change) {net : Net} (h : net.Consistent) :
    Net.Evolves (change.additions (change.runOn net).1) net (change.runOn net).2 := by
  have hkept : ∀ {net' : Net} {n : ℕ}, Net.Claims 0 0 net net' → Net.Evolves n net net' :=
    fun hclaims => hclaims.evolves (Nat.zero_le _) (Nat.zero_le _)
  cases change with
  | addPlace hint tokens =>
      exact edit_evolves (Edit.addPlace_adds hint tokens) (by omega) (by omega) .place h fun _ => rfl
  | addTransition hint label =>
      exact edit_evolves (Edit.addTransition_adds hint label) (by omega) (by omega) .transition h
        fun _ => rfl
  | addLabelledTransition hint label =>
      exact edit_evolves (Edit.addLabelledTransition_adds hint label) (by omega) (by omega)
        .transition h fun _ => rfl
  | addEdge source target weight =>
      exact edit_evolves (Edit.addEdge_adds source target weight) (by omega) (by omega) .edge h
        fun _ => rfl
  | removeEdge id => exact hkept (edit_claims _ (Edit.removeEdge_claims h id))
  | removePlace id => exact hkept (edit_claims _ (Edit.removePlace_claims h id))
  | removeTransition id => exact hkept (edit_claims _ (Edit.removeTransition_claims h id))
  | setTokens id tokens => exact hkept (edit_claims _ (Edit.setTokens_claims h id tokens))
  | setLabel id label => exact hkept (edit_claims _ (Edit.setLabel_claims h id label))
  | clear => exact (Net.Evolves.clear h).mono (Nat.zero_le _)
  | importDocument document =>
      have hclear := Net.Evolves.clear h
      rw [h.identified.clear_eq] at hclear
      rw [importDocument_runOn]
      rcases Document.importInto_runOn h document with ⟨error, herror⟩ | ⟨net', hok, hevolves⟩
      · rw [herror]
        exact hclear.mono (Nat.zero_le _)
      · rw [hok]
        have hall := hclear.trans hevolves
        rw [Nat.zero_add] at hall
        exact hall

end Change
end PetriCcs
