import PetriCcs.Proofs.Labels
import PetriCcs.Proofs.NamedEdits
import PetriCcs.Proofs.References

/-! # The loops of an import

A part of an import `Succeeds` exactly under a condition, and then with a result as described; parts
one after the other succeed when all of them do (`Succeeds.bind`).  The loops over places and
transitions are one loop with different edits (`importPlaces_eq`, `importTransitions_eq`), which
succeeds exactly when its entries are in order (`declareAll_succeeds`). -/

namespace PetriCcs

/-- The references that an arc joins. -/
def ArcEntry.ends (arc : ArcEntry) : String × String := (arc.source, arc.target)

/-- The display name of a node. -/
def NodeName.text : NodeName → String
  | .place name => placeName name
  | .transition name => transitionName name

theorem NodeName.text_injective : Function.Injective NodeName.text := by
  intro a b heq
  cases a with
  | place name =>
      cases b with
      | place name' => rw [Net.displayName_injective "p" heq]
      | transition name' =>
          have hlist := congrArg String.toList heq
          simp [text, placeName, transitionName] at hlist
  | transition name =>
      cases b with
      | place name' =>
          have hlist := congrArg String.toList heq
          simp [text, placeName, transitionName] at hlist
      | transition name' => rw [Net.displayName_injective "t" heq]

namespace Net

variable {net net' : Net}

/-- The display name of the node under a handle. -/
def shown? (net : Net) (node : Node) : Option String := (net.name? node).map NodeName.text

theorem shown?_eq_some_iff {node : Node} {text : String} :
    net.shown? node = some text ↔ ∃ a, net.name? node = some a ∧ a.text = text := by
  rw [shown?, Option.map_eq_some_iff]

theorem shown?_place (id : PlaceId) :
    net.shown? (.place id) = (net.place? id).map Place.displayName := by
  rw [shown?, name?, content?, placeContent?]
  cases net.place? id <;> rfl

theorem shown?_transition (id : TransitionId) :
    net.shown? (.transition id) = (net.transition? id).map Transition.displayName := by
  rw [shown?, name?, content?, transitionContent?]
  cases net.transition? id <;> rfl

theorem shown?_eq_none_iff {node : Node} : net.shown? node = none ↔ ¬ net.contains node = true := by
  rw [contains_iff_name?, shown?]
  cases net.name? node <;> simp

theorem UniqueNames.of_shown? (hunique : net.UniqueNames) {n m : Node} {text : String}
    (hn : net.shown? n = some text) (hm : net.shown? m = some text) : n = m := by
  obtain ⟨a, ha, rfl⟩ := shown?_eq_some_iff.1 hn
  obtain ⟨b, hb, heq⟩ := shown?_eq_some_iff.1 hm
  rw [NodeName.text_injective heq] at hb
  exact hunique.eq ha hb

/-- Writing the content of one node changes the display name under its handle only. -/
theorem shown?_of_content? {new : Node} {content : Content}
    (hcontent : ∀ n, net'.content? n = if n = new then some content else net.content? n) (n : Node) :
    net'.shown? n = if n = new then some content.name.text else net.shown? n := by
  rw [shown?, name?, hcontent]
  split_ifs <;> rfl

end Net

namespace Document

variable {net net' : Net}

theorem reference_eq (net : Net) (node : Node) : reference net node = (net.shown? node).getD "" := by
  cases node with
  | place id => rw [reference, Net.shown?_place]
  | transition id => rw [reference, Net.shown?_transition]

/-! ### Runs that succeed under a condition -/

theorem runOn_bind_ok {α β : Type} {edit : ImportEdit α} {f : α → ImportEdit β} {a : α}
    (h : runOn edit net = (.ok a, net')) : runOn (edit >>= f) net = runOn (f a) net' := by
  have hrun : edit.run.run net = (.ok a, net') := h
  rw [runOn, ExceptT.run_bind, StateT.run_bind, hrun]
  rfl

theorem runOn_bind_error {α β : Type} {edit : ImportEdit α} {f : α → ImportEdit β}
    {error : DocumentError} (h : runOn edit net = (.error error, net')) :
    runOn (edit >>= f) net = (.error error, net') := by
  have hrun : edit.run.run net = (.error error, net') := h
  rw [runOn, ExceptT.run_bind, StateT.run_bind, hrun]
  rfl

/-- A part of an import goes through exactly under a condition, and then with a result as
described. -/
structure Succeeds {α : Type} (run : Except DocumentError α × Net) (condition : Prop)
    (result : α → Net → Prop) : Prop where
  ok : condition → ∃ value net', run = (.ok value, net') ∧ result value net'
  error : ¬ condition → ∃ error net', run = (.error error, net')

section Succeeds

variable {α β : Type} {c c' : Prop} {r : α → Net → Prop} {r' : β → Net → Prop}

theorem Succeeds.congr {run : Except DocumentError α × Net} (h : Succeeds run c r)
    (hc : c' ↔ c) : Succeeds run c' r :=
  ⟨fun hyes => h.ok (hc.1 hyes), fun hno => h.error fun hyes => hno (hc.2 hyes)⟩

/-- One part after the other goes through when both do. -/
theorem Succeeds.bind {edit : ImportEdit α} {f : α → ImportEdit β}
    (h : Succeeds (runOn edit net) c r)
    (hf : ∀ a net', c → r a net' → Succeeds (runOn (f a) net') c' r') :
    Succeeds (runOn (edit >>= f) net) (c ∧ c') r' := by
  by_cases hc : c
  · obtain ⟨a, net', hrun, hr⟩ := h.ok hc
    rw [runOn_bind_ok hrun]
    exact (hf a net' hc hr).congr (and_iff_right hc)
  · obtain ⟨error, net', hrun⟩ := h.error hc
    rw [runOn_bind_error hrun]
    exact ⟨fun hboth => absurd hboth.1 hc, fun _ => ⟨error, net', rfl⟩⟩

/-- A result computed beforehand. -/
theorem succeeds_liftM {result : Except DocumentError α} (hok : c → ∃ a, result = .ok a ∧ r a net)
    (herror : ¬ c → ∃ error, result = .error error) :
    Succeeds (runOn (liftM result : ImportEdit α) net) c r := by
  constructor
  · intro hc
    obtain ⟨a, rfl, hr⟩ := hok hc
    exact ⟨a, net, rfl, hr⟩
  · intro hc
    obtain ⟨error, rfl⟩ := herror hc
    exact ⟨error, net, rfl⟩

/-- An edit of the net. -/
theorem succeeds_lift {edit : Edit α}
    (hok : c → ∃ a net', edit.runOn net = (.ok a, net') ∧ r a net')
    (herror : ¬ c → ∃ error net', edit.runOn net = (.error error, net')) :
    Succeeds (runOn (lift edit) net) c r := by
  have hlift : runOn (lift edit) net =
      ((edit.runOn net).1.mapError DocumentError.net, (edit.runOn net).2) := rfl
  constructor
  · intro hc
    obtain ⟨a, net', hrun, hr⟩ := hok hc
    exact ⟨a, net', by rw [hlift, hrun]; rfl, hr⟩
  · intro hc
    obtain ⟨error, net', hrun⟩ := herror hc
    exact ⟨.net error, net', by rw [hlift, hrun]; rfl⟩

/-- A reference that is declared already ends the import. -/
theorem Succeeds.guard {declared : Bool} {text : String} {next : ImportEdit α}
    (hdeclared : declared = false ↔ c) (h : c → Succeeds (runOn next net) c' r) :
    Succeeds (runOn (do
      if declared then throw (.duplicateReference text)
      next) net) (c ∧ c') r := by
  cases declared with
  | false =>
      have hc := hdeclared.1 rfl
      exact (h hc).congr (and_iff_right hc)
  | true =>
      have hc : ¬ c := fun hc => Bool.noConfusion (hdeclared.2 hc)
      exact ⟨fun hboth => absurd hboth.1 hc, fun _ => ⟨.duplicateReference text, net, rfl⟩⟩

end Succeeds

/-! ### One loop for places and transitions -/

/-- Adds the entries in order, each under the name that its reference spells. -/
def declareAll {η : Type} {kind : Kind} (letter : Char) (ref : η → String)
    (add : NameIndex → η → Edit (Handle kind)) :
    List η → List (String × Handle kind) → ImportEdit (List (String × Handle kind))
  | [], declared => return declared
  | entry :: entries, declared => do
    let name ← liftM (parseReference letter (ref entry))
    if (declared.lookup (ref entry)).isSome then throw (.duplicateReference (ref entry))
    let id ← lift (add name entry)
    declareAll letter ref add entries ((ref entry, id) :: declared)

theorem importPlaces_eq : ∀ (entries : List PlaceEntry) (declared : List (String × PlaceId)),
    importPlaces entries declared = declareAll 'p' PlaceEntry.id
      (fun name entry => Edit.addPlace (some name) entry.tokens) entries declared
  | [], _ => rfl
  | entry :: entries, declared => by
      simp only [importPlaces, declareAll, importPlaces_eq entries]

theorem importTransitions_eq :
    ∀ (entries : List TransitionEntry) (declared : List (String × TransitionId)),
      importTransitions entries declared = declareAll 't' TransitionEntry.id
        (fun name entry => Edit.addTransition (some name) entry.label) entries declared
  | [], _ => rfl
  | entry :: entries, declared => by
      simp only [importTransitions, declareAll, importTransitions_eq entries]

/-- A table of declared references finds the nodes of one kind by their display names. -/
def Finds {kind : Kind} (node : Handle kind → Node) (declared : List (String × Handle kind))
    (net : Net) : Prop :=
  ∀ text id, declared.lookup text = some id ↔ net.shown? (node id) = some text

section DeclareAll

variable {η : Type} {kind : Kind} {letter : Char} {ref : η → String}
  {add : NameIndex → η → Edit (Handle kind)} {node : Handle kind → Node} {accept : η → Prop}
  {Inv : Net → List η → Prop}

/-- What the loop needs to know of the edit that adds an entry: `Inv net done` holds before it when
the entries `done` have been added. -/
structure Declares (letter : Char) (ref : η → String) (add : NameIndex → η → Edit (Handle kind))
    (node : Handle kind → Node) (accept : η → Prop) (Inv : Net → List η → Prop) : Prop where
  shown : ∀ {net done}, Inv net done →
    ∀ text, text ∈ done.map ref ↔ ∃ id, net.shown? (node id) = some text
  accepted : ∀ {net done name entry}, Inv net done → done.length + 1 < Net.additionLimit →
    0 < name → ref entry = String.singleton letter ++ toString name.toNat →
    ref entry ∉ done.map ref → accept entry →
    ∃ id net', (add name entry).runOn net = (.ok id, net') ∧ Inv net' (done ++ [entry]) ∧
      net.shown? (node id) = none ∧
      ∀ k, net'.shown? (node k) = if k = id then some (ref entry) else net.shown? (node k)
  refused : ∀ {net name entry}, ¬ accept entry →
    ∃ error net', (add name entry).runOn net = (.error error, net')

/-- The entries still to come are in order, and none is declared twice. -/
def InOrder (letter : Char) (ref : η → String) (accept : η → Prop) (done entries : List η) : Prop :=
  (∀ entry ∈ entries, IsReference letter (ref entry) ∧ accept entry) ∧
    ((done ++ entries).map ref).Nodup

theorem inOrder_cons {done entries : List η} {entry : η} :
    InOrder letter ref accept done (entry :: entries) ↔ IsReference letter (ref entry) ∧
      ref entry ∉ done.map ref ∧ accept entry ∧
        InOrder letter ref accept (done ++ [entry]) entries := by
  unfold InOrder
  rw [List.forall_mem_cons, List.append_assoc, List.singleton_append]
  constructor
  · rintro ⟨⟨⟨href, haccept⟩, hall⟩, hnodup⟩
    refine ⟨href, fun hmem => ?_, haccept, hall, hnodup⟩
    rw [List.map_append, List.nodup_append] at hnodup
    exact hnodup.2.2 _ hmem _ (List.mem_map_of_mem List.mem_cons_self) rfl
  · rintro ⟨href, -, haccept, hall, hnodup⟩
    exact ⟨⟨⟨href, haccept⟩, hall⟩, hnodup⟩

/-- A new entry at the head of the table belongs to the new node. -/
theorem Finds.cons {declared : List (String × Handle kind)} {text : String} {id : Handle kind}
    (h : Finds node declared net) (hnew : net.shown? (node id) = none)
    (hunused : ∀ k, net.shown? (node k) ≠ some text)
    (hshown : ∀ k, net'.shown? (node k) = if k = id then some text else net.shown? (node k)) :
    Finds node ((text, id) :: declared) net' := by
  intro other k
  rw [hshown, List.lookup_cons]
  by_cases htext : other = text
  · subst htext
    by_cases hk : k = id
    · simp [hk]
    · simp [hk, Ne.symm hk, hunused k]
  · have hbeq : (other == text) = false := beq_false_of_ne htext
    rw [hbeq]
    by_cases hk : k = id
    · rw [if_pos hk, h other k, hk, hnew]
      simp [Ne.symm htext]
    · rw [if_neg hk]
      exact h other k

/-- The table tells which references are declared. -/
theorem Declares.lookup_isSome (h : Declares letter ref add node accept Inv) {done : List η}
    {declared : List (String × Handle kind)} (hinv : Inv net done) (hfinds : Finds node declared net)
    (text : String) : (declared.lookup text).isSome = false ↔ text ∉ done.map ref := by
  rw [Option.isSome_eq_false_iff, Option.isNone_iff_eq_none, Option.eq_none_iff_forall_ne_some,
    h.shown hinv, not_exists]
  exact forall_congr' fun id => not_congr (hfinds text id)

/-- The loop goes through exactly when the entries are in order, and adds them all. -/
theorem declareAll_succeeds (h : Declares letter ref add node accept Inv) :
    ∀ (entries : List η) {net : Net} {done : List η} {declared : List (String × Handle kind)},
      Inv net done → Finds node declared net → (done.map ref).Nodup →
      done.length + entries.length < Net.additionLimit →
      Succeeds (runOn (declareAll letter ref add entries declared) net)
        (InOrder letter ref accept done entries)
        fun declared' net' => Inv net' (done ++ entries) ∧ Finds node declared' net'
  | [], net, done, declared, hinv, hfinds, hnodup, _ => by
      have hall : InOrder letter ref accept done [] :=
        ⟨fun entry hentry => absurd hentry List.not_mem_nil, by rwa [List.append_nil]⟩
      refine ⟨fun _ => ⟨declared, net, rfl, by rwa [List.append_nil], hfinds⟩, fun hnot => ?_⟩
      exact absurd hall hnot
  | entry :: entries, net, done, declared, hinv, hfinds, hnodup, hroom => by
      rw [List.length_cons] at hroom
      have hparse : Succeeds (runOn (liftM (parseReference letter (ref entry)) : ImportEdit _) net)
          (IsReference letter (ref entry)) fun name net' => net' = net ∧ 0 < name ∧
            ref entry = String.singleton letter ++ toString name.toNat :=
        succeeds_liftM (fun href =>
          have ⟨name, hpos, htext, hparse⟩ := href.parse
          ⟨name, hparse, rfl, hpos, htext⟩) parseReference_refused
      refine Succeeds.congr (hparse.bind fun name net₀ _ hname => ?_) inOrder_cons
      obtain ⟨rfl, hpos, htext⟩ := hname
      refine Succeeds.guard (h.lookup_isSome hinv hfinds _) fun hfresh => ?_
      refine Succeeds.bind (succeeds_lift
        (h.accepted hinv (by omega) hpos htext hfresh) h.refused) fun id net₁ _ hadded => ?_
      obtain ⟨hinv₁, hnew, hshown⟩ := hadded
      have hunused : ∀ k, net₀.shown? (node k) ≠ some (ref entry) := fun k hk =>
        hfresh ((h.shown hinv _).2 ⟨k, hk⟩)
      have hnodup₁ : ((done ++ [entry]).map ref).Nodup := by
        rw [List.map_append, List.map_singleton, ← List.concat_eq_append]
        exact hnodup.concat hfresh
      have hrest := declareAll_succeeds h entries hinv₁ (hfinds.cons hnew hunused hshown) hnodup₁
        (by rw [List.length_append, List.length_singleton]; omega)
      rw [List.append_assoc, List.singleton_append] at hrest
      exact hrest

end DeclareAll

end Document
end PetriCcs
