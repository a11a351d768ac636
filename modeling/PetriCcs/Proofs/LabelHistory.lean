import PetriCcs.Proofs.Encoding
import PetriCcs.Proofs.Labels

/-! # Where labels come from

All operations but one read a label from text or use the internal one, so what they store is proper.
`addLabelledTransition` stores a finished label as it is.  A property of all proper labels and of all
finished labels handed in is therefore a property of all labels of a reachable net
(`ReachableBy.allLabels`); one step keeps labels proper exactly when no improper label is handed in
(`Change.properLabels_iff`).  What the documents and the encoder rely on holds for the histories that
hand in proper labels (`checked_labels`), and fails for others (`unchecked_labels`). -/

namespace PetriCcs

/-- The label that an operation stores without reading it from text. -/
def Change.finishedLabel? : Change → Option Label
  | .addLabelledTransition _ label => some label
  | _ => none

/-- The operation hands in no improper label. -/
def Change.Checked (change : Change) : Prop :=
  ∀ label, change.finishedLabel? = some label → label.Proper

theorem Change.checked_of_none {change : Change} (h : change.finishedLabel? = none) :
    change.Checked := by
  intro label hlabel
  rw [h] at hlabel
  cases hlabel

namespace Net

variable {net net' : Net} {P : Label → Prop}

/-- All labels of a net have a property. -/
def AllLabels (P : Label → Prop) (net : Net) : Prop := ∀ t label, net.label? t = some label → P label

theorem properLabels_iff : net.ProperLabels ↔ net.AllLabels Label.Proper := by
  constructor
  · intro h t label ht
    obtain ⟨transition, htransition, rfl⟩ := Option.map_eq_some_iff.1 ht
    exact h transition (Arena.mem_toList_iff.2 ⟨t, htransition⟩)
  · intro h transition hmem
    obtain ⟨t, ht⟩ := Arena.mem_toList_iff.1 hmem
    exact h t _ (label?_eq_some ht)

/-- A net gets its labels from another one and from a list of admissible ones. -/
theorem AllLabels.of_label? (h : net.AllLabels P)
    (hlabel : ∀ t label, net'.label? t = some label → (∃ u, net.label? u = some label) ∨ P label) :
    net'.AllLabels P := by
  intro t label ht
  rcases hlabel t label ht with ⟨u, hu⟩ | hp
  · exact h u label hu
  · exact hp

theorem AllLabels.congr (h : net.AllLabels P) (hlabel : ∀ t, net'.label? t = net.label? t) :
    net'.AllLabels P :=
  fun t label ht => h t label ((hlabel t).symm.trans ht)

theorem AllLabels.of_bare (h : net.AllLabels P) (hbare : net'.bare = net.bare) :
    net'.AllLabels P :=
  h.congr (label?_of_bare hbare)

theorem allLabels_of_isEmpty (h : net.transitions.items = #[]) : net.AllLabels P := by
  intro t label ht
  obtain ⟨transition, htransition, -⟩ := Option.map_eq_some_iff.1 ht
  have hmem := Arena.mem_toList_iff.2 ⟨t, htransition⟩
  rw [Arena.toList, h] at hmem
  exact absurd hmem List.not_mem_nil

theorem label?_pushTransition (name : NameIndex) (label : Label) (t : TransitionId) :
    (net.pushTransition name label).label? t =
      if t = net.transitions.nextHandle then some label else net.label? t := by
  rw [label?, transition?_pushTransition]
  split_ifs <;> rfl

theorem label?_withLabel {id : TransitionId} (h : net.contains (.transition id) = true)
    (label : Label) (t : TransitionId) :
    (net.withLabel id label).label? t = if t = id then some label else net.label? t := by
  rw [label?, transition?_withLabel h]
  split_ifs with ht
  · obtain ⟨transition, htransition⟩ := Arena.contains_iff_get?.1 h
    have hid : net.transition? t = some transition := ht ▸ htransition
    rw [hid]
    rfl
  · rfl

end Net

/-! ### What one operation does to the labels -/

/-- An action that stores labels with a property only. -/
def Maintains {ε α : Type} (P : Label → Prop) (action : ExceptT ε (StateM Net) α) : Prop :=
  ∀ net : Net, net.AllLabels P → (action.run.run net).2.AllLabels P

theorem composes_allLabels (P : Label → Prop) :
    Composes fun _ net net' => net.AllLabels P → net'.AllLabels P where
  refl _ h := h
  trans h h' hnet := h' (h hnet)
  mono h _ := h

namespace Edit

variable {net : Net} {P : Label → Prop}

theorem addPlace_maintains (hint : Option NameIndex) (tokens : Weight) :
    Maintains P (addPlace hint tokens) := by
  intro net h
  change ((addPlace hint tokens).runOn net).2.AllLabels P
  by_cases hhint : hint = some 0
  · rw [hhint, addPlace_refused]
    exact h
  · rw [addPlace_runOn hhint]
    exact h

theorem addLabelledTransition_maintains (hint : Option NameIndex) {label : Label} (hlabel : P label) :
    Maintains P (addLabelledTransition hint label) := by
  intro net h
  change ((addLabelledTransition hint label).runOn net).2.AllLabels P
  by_cases hhint : hint = some 0
  · rw [hhint, addLabelledTransition_refused]
    exact h
  · rw [addLabelledTransition_runOn hhint]
    refine h.of_label? fun t other ht => ?_
    rw [Net.label?_pushTransition] at ht
    split_ifs at ht
    · cases ht
      exact Or.inr hlabel
    · exact Or.inl ⟨t, ht⟩

theorem addTransition_maintains (hP : ∀ label, label.Proper → P label) (hint : Option NameIndex)
    (text : String) : Maintains P (addTransition hint text) := by
  rw [addTransition]
  cases hlabel : Label.parse? text with
  | none => exact fun _ h => h
  | some label =>
      exact addLabelledTransition_maintains hint (hP label (Label.parse?_eq_some_iff.1 hlabel).1)

theorem addEdge_maintains (source target : Node) (weight : Weight) :
    Maintains P (addEdge source target weight) := by
  intro net h
  change ((addEdge source target weight).runOn net).2.AllLabels P
  by_cases hall : net.contains source = true ∧ net.contains target = true ∧
      Fits source target weight ∧ net.findEdge? source target = none
  · obtain ⟨hsource, htarget, hfits, hnew⟩ := hall
    obtain ⟨net', hrun, hadded⟩ := addEdge_runOn hsource htarget hfits hnew
    rw [hrun]
    exact h.of_bare hadded.bare
  · obtain ⟨error, hrun⟩ := addEdge_refused hall
    rw [hrun]
    exact h

theorem removeEdge_allLabels (hnet : net.Consistent) (h : net.AllLabels P) (id : EdgeId) :
    ((removeEdge id).runOn net).2.AllLabels P := by
  cases hid : net.edge? id with
  | none =>
      rw [removeEdge_refused hid]
      exact h
  | some removed =>
      obtain ⟨net', hrun, r⟩ := removeEdge_runOn hnet hid
      rw [hrun]
      exact h.of_bare r.bare

theorem removePlace_allLabels (hnet : net.Consistent) (h : net.AllLabels P) (id : PlaceId) :
    ((removePlace id).runOn net).2.AllLabels P := by
  by_cases hid : net.contains (.place id) = true
  · obtain ⟨place, hplace⟩ := Arena.contains_iff_get?.1 hid
    obtain ⟨value, net₁, net', hrun, -, -, -, r⟩ := removePlace_runOn hnet hplace
    rw [hrun]
    exact h.congr fun t => Net.label?_of_content (r.transitions.content t)
  · rw [removePlace_refused hid]
    exact h

theorem removeTransition_allLabels (hnet : net.Consistent) (h : net.AllLabels P)
    (id : TransitionId) : ((removeTransition id).runOn net).2.AllLabels P := by
  by_cases hid : net.contains (.transition id) = true
  · obtain ⟨transition, htransition⟩ := Arena.contains_iff_get?.1 hid
    obtain ⟨value, net₁, net', hrun, -, -, -, r⟩ := removeTransition_runOn hnet htransition
    rw [hrun]
    refine h.of_label? fun t label ht => Or.inl ?_
    rw [Net.label?_eq_map] at ht
    obtain ⟨u, -, hu⟩ := (r.content.map Prod.snd).exists_iff.1 ⟨t, ht⟩
    exact ⟨u, (Net.label?_eq_map net u).trans hu⟩
  · rw [removeTransition_refused hid]
    exact h

theorem setTokens_allLabels (h : net.AllLabels P) (id : PlaceId) (tokens : Weight) :
    ((setTokens id tokens).runOn net).2.AllLabels P := by
  by_cases hid : net.contains (.place id) = true
  · rw [setTokens_runOn hid]
    exact h
  · rw [setTokens_refused hid]
    exact h

theorem setLabel_allLabels (hP : ∀ label, label.Proper → P label) (h : net.AllLabels P)
    (id : TransitionId) (text : String) : ((setLabel id text).runOn net).2.AllLabels P := by
  by_cases hall : net.contains (.transition id) = true ∧ ∃ parsed, Label.parse? text = some parsed
  · obtain ⟨hid, label, hlabel⟩ := hall
    rw [setLabel_runOn hid hlabel]
    refine h.of_label? fun t other ht => ?_
    rw [Net.label?_withLabel hid] at ht
    split_ifs at ht
    · cases ht
      exact Or.inr (hP label (Label.parse?_eq_some_iff.1 hlabel).1)
    · exact Or.inl ⟨t, ht⟩
  · obtain ⟨error, hrun⟩ := setLabel_refused hall
    rw [hrun]
    exact h

end Edit

namespace Document

/-- An import stores labels read from text only, whatever was there before. -/
theorem importInto_allLabels {P : Label → Prop} (hP : ∀ label, label.Proper → P label) {net : Net}
    (h : net.Identified) (document : Document) : (runOn document.importInto net).2.AllLabels P := by
  have hpopulate : Maintains P document.populate :=
    populate_ensures (composes_allLabels P) Edit.addPlace_maintains
      (Edit.addTransition_maintains hP) Edit.addEdge_maintains document
  have hlabels := hpopulate (Net.empty net.tag) (Net.allLabels_of_isEmpty rfl)
  rw [importInto_eq h]
  cases hresult : (populate document).run.run (Net.empty net.tag) with
  | mk result net' =>
      rw [hresult] at hlabels
      cases result with
      | ok value => exact hlabels
      | error error => exact Net.allLabels_of_isEmpty rfl

end Document

namespace Change

variable {P : Label → Prop}

theorem edit_snd {α : Type} (action : Edit α) (outcome : α → Outcome) (net : Net) :
    ((edit action outcome).run.run net).2 = (action.runOn net).2 := by
  rw [edit_runOn]
  cases action.runOn net with
  | mk result net' => cases result <;> rfl

/-- What an operation stores was there before, is read from text, or is handed in. -/
theorem allLabels (hP : ∀ label, label.Proper → P label) {net : Net} (hnet : net.Consistent)
    (h : net.AllLabels P) (change : Change)
    (hfinished : ∀ label, change.finishedLabel? = some label → P label) :
    (change.runOn net).2.AllLabels P := by
  unfold runOn perform
  cases change with
  | addPlace hint tokens =>
      rw [edit_snd]
      exact Edit.addPlace_maintains hint tokens net h
  | addTransition hint text =>
      rw [edit_snd]
      exact Edit.addTransition_maintains hP hint text net h
  | addLabelledTransition hint label =>
      rw [edit_snd]
      exact Edit.addLabelledTransition_maintains hint (hfinished label rfl) net h
  | addEdge source target weight =>
      rw [edit_snd]
      exact Edit.addEdge_maintains source target weight net h
  | removeEdge id =>
      rw [edit_snd]
      exact Edit.removeEdge_allLabels hnet h id
  | removePlace id =>
      rw [edit_snd]
      exact Edit.removePlace_allLabels hnet h id
  | removeTransition id =>
      rw [edit_snd]
      exact Edit.removeTransition_allLabels hnet h id
  | setTokens id tokens =>
      rw [edit_snd]
      exact Edit.setTokens_allLabels h id tokens
  | setLabel id text =>
      rw [edit_snd]
      exact Edit.setLabel_allLabels hP h id text
  | clear =>
      rw [edit_snd]
      exact Net.allLabels_of_isEmpty rfl
  | importDocument document =>
      have hlabels := Document.importInto_allLabels hP hnet.identified document
      change ((Change.importDocument document).runOn net).2.AllLabels P
      rw [importDocument_runOn]
      cases hresult : Document.runOn document.importInto net with
      | mk result net' =>
          rw [hresult] at hlabels
          cases result <;> exact hlabels

/-- An operation keeps the labels proper exactly when it stores no improper one. -/
theorem properLabels_iff {net : Net} (hnet : net.Consistent) (h : net.ProperLabels)
    (change : Change) : (change.runOn net).2.ProperLabels ↔
      ∀ hint label, change = .addLabelledTransition hint label → hint ≠ some 0 → label.Proper := by
  constructor
  · rintro hproper hint label rfl hhint
    unfold runOn perform at hproper
    rw [edit_snd, Edit.addLabelledTransition_runOn hhint, Net.properLabels_iff] at hproper
    exact hproper net.transitions.nextHandle label (by rw [Net.label?_pushTransition, if_pos rfl])
  · intro hchecked
    rw [Net.properLabels_iff] at h ⊢
    by_cases hzero : ∃ label, change = .addLabelledTransition (some 0) label
    · obtain ⟨label, rfl⟩ := hzero
      unfold runOn perform
      rw [edit_snd, Edit.addLabelledTransition_refused]
      exact h
    · refine allLabels (fun _ hlabel => hlabel) hnet h change fun label hlabel => ?_
      cases change with
      | addLabelledTransition hint other =>
          cases hlabel
          refine hchecked hint label rfl ?_
          rintro rfl
          exact hzero ⟨label, rfl⟩
      | _ => cases hlabel

end Change

namespace Net

variable {net : Net} {P : Label → Prop} {allowed : Change → Prop} {n : ℕ}

/-! ### Histories -/

/-- The nets that allowed operations lead to, with the number of additions in their history. -/
inductive ReachableBy (allowed : Change → Prop) : ℕ → Net → Prop where
  | empty (tag : ℕ) : ReachableBy allowed 0 (Net.empty tag)
  | copy {n : ℕ} {net : Net} (h : ReachableBy allowed n net) (tag : ℕ) :
      ReachableBy allowed n (net.copy tag)
  | change {n : ℕ} {net : Net} (h : ReachableBy allowed n net) (change : Change)
      (hallowed : allowed change) :
      ReachableBy allowed (n + change.additions (change.runOn net).1) (change.runOn net).2
  | synchronise {n : ℕ} {net : Net} {σ : Type} [RandomSource σ] {source source' : σ} {tag : ℕ}
      {result : Sync.Result} (h : ReachableBy allowed n net)
      (hrun : net.synchronise tag source = .ok (result, source')) :
      ReachableBy allowed (n + result.additions) result.net

theorem ReachableBy.reachable (h : net.ReachableBy allowed n) : net.Reachable n := by
  induction h with
  | empty tag => exact Reachable.empty tag
  | copy _ tag ih => exact ih.copy tag
  | change _ change _ ih => exact ih.change change
  | synchronise _ hrun ih => exact ih.synchronise hrun

/-- Histories that are continued by allowed operations. -/
theorem ReachableBy.changes (changes : List Change) (hallowed : ∀ change ∈ changes, allowed change)
    (h : net.ReachableBy allowed n) :
    (changes.foldl (fun net change => (change.runOn net).2) net).ReachableBy allowed
      (n + Change.totalAdditions changes net) := by
  induction changes generalizing n net with
  | nil => exact h
  | cons change changes ih =>
      obtain ⟨hchange, hchanges⟩ := List.forall_mem_cons.1 hallowed
      have hrest := ih hchanges (h.change change hchange)
      rw [Nat.add_assoc] at hrest
      exact hrest

theorem AllLabels.copy (hnet : net.Consistent) (h : net.AllLabels P) (tag : ℕ) :
    (net.copy tag).AllLabels P := by
  intro t label ht
  obtain ⟨transition', htransition', rfl⟩ := Option.map_eq_some_iff.1 ht
  have hmem := Arena.mem_toList_iff.2 ⟨t, htransition'⟩
  rw [toList_transitions_copy, List.mem_map] at hmem
  obtain ⟨transition, htransition, rfl⟩ := hmem
  have hold := (mem_transitions_iff hnet.identified).1 htransition
  exact h transition.id transition.label (label?_eq_some hold)

/-- Splitting groups adds internal transitions only. -/
theorem AllLabels.splits (htau : P .tau) {net' : Net} {steps : List Sync.Step}
    (hsplits : Sync.Splits net steps net') (h : net.AllLabels P) : net'.AllLabels P := by
  induction hsplits with
  | done _ => exact h
  | split s _ _ _ _ ih =>
      refine ih (h.of_label? fun t label ht => ?_)
      rw [s.label] at ht
      split_ifs at ht
      · cases ht
        exact Or.inr htau
      · exact Or.inl ⟨t, ht⟩

/-- Every label of a net is proper or was handed in on the way to it. -/
theorem ReachableBy.allLabels (h : net.ReachableBy allowed n) (hP : ∀ label, label.Proper → P label)
    (hallowed : ∀ change, allowed change →
      ∀ label, change.finishedLabel? = some label → P label) : net.AllLabels P := by
  induction h with
  | empty tag => exact allLabels_of_isEmpty rfl
  | copy hnet tag ih => exact ih.copy hnet.reachable.consistent tag
  | change hnet change hchange ih =>
      exact change.allLabels hP hnet.reachable.consistent ih (hallowed change hchange)
  | synchronise hnet hrun ih =>
      have hconsistent := hnet.reachable.consistent
      exact (ih.copy hconsistent _).splits (hP .tau trivial) (synchronise_splits hconsistent hrun).1

/-- A history that hands in proper labels leads to proper labels. -/
theorem ReachableBy.properLabels (h : net.ReachableBy Change.Checked n) : net.ProperLabels :=
  properLabels_iff.2 (h.allLabels (fun _ hlabel => hlabel) fun _ hchecked => hchecked)

/-- Where no improper label is handed in, labels are internal or words and read back as themselves,
the encoder does not refuse a net of its class, and no label is the name of a synchronisation.  The
next operation keeps this up unless it hands in an improper label. -/
theorem checked_labels (h : net.ReachableBy Change.Checked n) :
    (∀ transition ∈ net.transitions.toList,
      (transition.label = .tau ∨ ∃ text, transition.label = .visible text ∧ IsWord text) ∧
        Label.parse? transition.label.text = some transition.label) ∧
      (n < additionLimit → net.isTwoTauSynchronisation = true →
        ∃ encoding, net.encode = .ok encoding) ∧
      (∀ transition ∈ net.transitions.toList, ∀ other ∈ net.transitions.toList,
        transition.label ≠ .visible (Encoding.syncKey other).text) ∧
      ∀ change : Change, (change.runOn net).2.ProperLabels ↔
        ∀ hint label, change = .addLabelledTransition hint label → hint ≠ some 0 → label.Proper := by
  have hproper := h.properLabels
  have hnet := h.reachable.consistent
  refine ⟨fun transition hmem => ?_, fun hn hclass => ?_, fun transition hmem other _ heq => ?_,
    Change.properLabels_iff hnet hproper⟩
  · have hlabel := hproper transition hmem
    exact ⟨Label.proper_iff.1 hlabel, Label.parse?_eq_some_iff.2 ⟨hlabel, rfl⟩⟩
  · obtain ⟨encoding, hencode, -⟩ :=
      encode_ok hnet ((h.reachable.named hn).wellFormed hnet) hproper hclass
    exact ⟨encoding, hencode⟩
  · have hlabel := hproper transition hmem
    rw [heq] at hlabel
    exact Encoding.syncKey_ne_of_shows hlabel (Label.Shows.visible _) other rfl

theorem worn_reachableBy : worn.ReachableBy Change.Checked 10 := by
  have hchecked : ∀ change ∈ wear, change.Checked := by
    simp only [wear, List.forall_mem_cons, Change.Checked, Change.finishedLabel?]
    decide
  have hempty : (empty 0).ReachableBy Change.Checked 0 := ReachableBy.empty 0
  have h := hempty.changes wear hchecked
  rwa [show Change.totalAdditions wear (empty 0) = 10 by decide +kernel] at h

theorem checked_labels_worn : worn.ReachableBy Change.Checked 10 ∧
    ∀ transition ∈ worn.transitions.toList,
      Label.parse? transition.label.text = some transition.label :=
  ⟨worn_reachableBy, fun transition hmem =>
    ((checked_labels worn_reachableBy).1 transition hmem).2⟩

/-- Two transitions whose labels are handed in: one is no word, the other the name of the
synchronisation of the first. -/
def unchecked : Net :=
  [Change.addLabelledTransition none (.visible "Bad label"),
    .addLabelledTransition none (.visible "s_t1")].foldl
      (fun net change => (change.runOn net).2) (empty 0)

/-- Handing in labels defeats all that holds of checked ones. -/
theorem unchecked_labels : unchecked.Reachable 2 ∧ unchecked.isTwoTauSynchronisation = true ∧
    (∃ transition ∈ unchecked.transitions.toList,
      ¬ (transition.label = .tau ∨ ∃ text, transition.label = .visible text ∧ IsWord text) ∧
        Label.parse? transition.label.text ≠ some transition.label) ∧
      (¬ ∃ encoding, unchecked.encode = .ok encoding) ∧
      ∃ transition ∈ unchecked.transitions.toList, ∃ other ∈ unchecked.transitions.toList,
        transition.label = .visible (Encoding.syncKey other).text := by
  have hreachable := ((Reachable.empty 0).change
    (.addLabelledTransition none (.visible "Bad label"))).change
      (.addLabelledTransition none (.visible "s_t1"))
  refine ⟨hreachable, by decide, ⟨⟨⟨0, 0⟩, 1, .visible "Bad label", [], []⟩, by decide, ?_, by decide⟩,
    ?_, ⟨⟨0, 1⟩, 2, .visible "s_t1", [], []⟩, by decide, ⟨⟨0, 0⟩, 1, .visible "Bad label", [], []⟩,
    by decide, by decide⟩
  · rw [← Label.proper_iff]
    decide
  · rintro ⟨encoding, hencode⟩
    have herror : ∃ error, unchecked.encode = .error error := ⟨_, rfl⟩
    obtain ⟨error, herror⟩ := herror
    rw [herror] at hencode
    cases hencode

end Net
end PetriCcs
