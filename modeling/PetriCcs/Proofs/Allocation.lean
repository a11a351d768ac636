import PetriCcs.Proofs.ImportContract

/-! # Allocation of display names

Each collection of nodes has room for the names claimed since the net was cleared last, however many
nodes and edges came and went in all.  `Net.Claimed count net` are the reachable nets with these two
numbers (`exists_claimed_iff`), `Change.counted` is what one operation preserves and
`Claimed.counted` what a history does.  So the names in use are those of the nodes, and a new node gets
its hint or the smallest number that no node of its kind bears (`claimed_allocation`). -/

namespace PetriCcs

/-- How many names of places and of transitions were claimed since a net was cleared. -/
structure NameCount where
  places : ℕ := 0
  transitions : ℕ := 0

/-- The counters of both tables have room. -/
def NameCount.Fits (count : NameCount) : Prop :=
  count.places < Net.additionLimit ∧ count.transitions < Net.additionLimit

instance (count : NameCount) : Decidable count.Fits :=
  inferInstanceAs (Decidable (_ ∧ _))

/-- The names claimed after an operation: an added node claims one, and clearing or importing starts
again. -/
def Change.claimed (count : NameCount) : Change → Except ChangeError Outcome → NameCount
  | .addPlace _ _, .ok _ => { count with places := count.places + 1 }
  | .addTransition _ _, .ok _ => { count with transitions := count.transitions + 1 }
  | .addLabelledTransition _ _, .ok _ => { count with transitions := count.transitions + 1 }
  | .clear, _ => {}
  | .importDocument document, .ok _ => ⟨document.places.length, document.transitions.length⟩
  | .importDocument _, .error _ => {}
  | _, _ => count

/-- The names claimed after a synchronisation: one for every node added. -/
def Sync.Result.claimed (count : NameCount) (result : Sync.Result) : NameCount where
  places := count.places + (result.steps.flatMap Sync.Step.places).length
  transitions := count.transitions + (result.steps.flatMap Sync.Step.transitions).length

/-! ### One operation -/

/-- The tables of a net agree with its nodes if they had room so far. -/
def Net.Counted (count : NameCount) (net : Net) : Prop :=
  count.Fits → net.Numbered count.places count.transitions

theorem Net.Counted.claims {net net' : Net} {count : NameCount} {p t : ℕ} (h : net.Counted count)
    (hclaims : Net.Claims p t net net') :
    net'.Counted ⟨count.places + p, count.transitions + t⟩ := by
  rintro ⟨hp, ht⟩
  have hfits : count.Fits := ⟨Nat.lt_of_le_of_lt (Nat.le_add_right _ _) hp,
    Nat.lt_of_le_of_lt (Nat.le_add_right _ _) ht⟩
  exact hclaims.numbered _ _ hp ht (h hfits)

namespace Change

variable {net : Net} {count : NameCount}

theorem counted_edit {α : Type} {action : Edit α} {p t : ℕ} (h : net.Counted count)
    (hadds : Edit.Adds p t action) (outcome : α → Outcome) (hnet : net.Consistent)
    {claimed : Except ChangeError Outcome → NameCount} (herror : ∀ error, claimed (.error error) = count)
    (hok : ∀ a, claimed (.ok (outcome a)) = ⟨count.places + p, count.transitions + t⟩) :
    ((edit action outcome).run.run net).2.Counted
      (claimed ((edit action outcome).run.run net).1) := by
  rcases edit_adds hadds outcome hnet with ⟨error, hrun⟩ | ⟨value, net', hrun, hclaims⟩
  · rw [hrun]
    simp only [herror]
    exact h
  · rw [hrun]
    simp only [hok]
    exact h.claims hclaims

/-- An import starts from empty tables and claims one name for each entry. -/
theorem counted_import (document : Document) (hnet : net.Consistent) :
    ((Change.importDocument document).runOn net).2.Counted
      (claimed count (.importDocument document) ((Change.importDocument document).runOn net).1) := by
  have heq := Document.importInto_eq hnet.identified document
  rw [importDocument_runOn]
  rcases Document.importInto_runOn hnet document with ⟨error, hrun⟩ | ⟨net', hrun, -⟩
  · rw [hrun]
    exact fun _ => Net.numbered_empty 0 0 net.tag
  · rw [hrun]
    rintro ⟨hp, ht⟩
    have hsucceeds := document.populate_succeeds net.tag hp ht
    rw [hrun] at heq
    have hwell : document.WellFormed := by
      by_contra hill
      obtain ⟨error, net'', herror⟩ := hsucceeds.error hill
      have herror' : (Document.populate document).run.run (Net.empty net.tag) =
        (.error error, net'') := herror
      rw [herror'] at heq
      cases heq
    obtain ⟨_, net'', hok, hholds⟩ := hsucceeds.ok hwell
    have hok' : (Document.populate document).run.run (Net.empty net.tag) = (.ok (), net'') := hok
    rw [hok'] at heq
    cases heq
    exact ⟨hholds.placeNames, hholds.transitionNames, hholds.placeLoad, hholds.transitionLoad⟩

/-- Every operation keeps the tables in agreement with the nodes while they have room. -/
theorem counted (change : Change) (hnet : net.Consistent) (h : net.Counted count) :
    (change.runOn net).2.Counted (change.claimed count (change.runOn net).1) := by
  have hkept : ∀ {net' : Net}, Net.Claims 0 0 net net' → net'.Counted count := h.claims
  cases change with
  | addPlace hint tokens =>
      exact counted_edit h (Edit.addPlace_adds hint tokens) .place hnet (fun _ => rfl) fun _ => rfl
  | addTransition hint label =>
      exact counted_edit h (Edit.addTransition_adds hint label) .transition hnet (fun _ => rfl)
        fun _ => rfl
  | addLabelledTransition hint label =>
      exact counted_edit h (Edit.addLabelledTransition_adds hint label) .transition hnet
        (fun _ => rfl) fun _ => rfl
  | addEdge source target weight =>
      exact counted_edit h (Edit.addEdge_adds source target weight) .edge hnet (fun _ => rfl)
        fun _ => rfl
  | removeEdge id => exact hkept (edit_claims _ (Edit.removeEdge_claims hnet id))
  | removePlace id => exact hkept (edit_claims _ (Edit.removePlace_claims hnet id))
  | removeTransition id => exact hkept (edit_claims _ (Edit.removeTransition_claims hnet id))
  | setTokens id tokens => exact hkept (edit_claims _ (Edit.setTokens_claims hnet id tokens))
  | setLabel id label => exact hkept (edit_claims _ (Edit.setLabel_claims hnet id label))
  | clear =>
      have hempty : ((Change.clear).runOn net).2 = Net.empty net.tag := hnet.identified.clear_eq
      rw [hempty]
      exact fun _ => Net.numbered_empty 0 0 net.tag
  | importDocument document => exact counted_import document hnet

end Change

namespace Net

variable {net : Net} {count : NameCount} {n : ℕ}

/-! ### Histories -/

/-- The nets that operations lead to, with the names claimed since the last time they were cleared. -/
inductive Claimed : NameCount → Net → Prop where
  | empty (tag : ℕ) : Claimed {} (Net.empty tag)
  | copy {count : NameCount} {net : Net} (h : Claimed count net) (tag : ℕ) :
      Claimed count (net.copy tag)
  | change {count : NameCount} {net : Net} (h : Claimed count net) (change : Change) :
      Claimed (change.claimed count (change.runOn net).1) (change.runOn net).2
  | synchronise {count : NameCount} {net : Net} {σ : Type} [RandomSource σ] {source source' : σ}
      {tag : ℕ} {result : Sync.Result} (h : Claimed count net)
      (hrun : net.synchronise tag source = .ok (result, source')) :
      Claimed (result.claimed count) result.net

/-- These are the reachable nets. -/
theorem exists_claimed_iff : (∃ count, net.Claimed count) ↔ ∃ n, net.Reachable n := by
  constructor
  · rintro ⟨count, h⟩
    induction h with
    | empty tag => exact ⟨0, Reachable.empty tag⟩
    | copy _ tag ih => exact ih.imp fun _ hnet => hnet.copy tag
    | change _ change ih =>
        obtain ⟨n, hnet⟩ := ih
        exact ⟨_, hnet.change change⟩
    | synchronise _ hrun ih =>
        obtain ⟨n, hnet⟩ := ih
        exact ⟨_, hnet.synchronise hrun⟩
  · rintro ⟨n, h⟩
    induction h with
    | empty tag => exact ⟨{}, Claimed.empty tag⟩
    | copy _ tag ih => exact ih.imp fun _ hnet => hnet.copy tag
    | change _ change ih =>
        obtain ⟨count, hnet⟩ := ih
        exact ⟨_, hnet.change change⟩
    | synchronise _ hrun ih =>
        obtain ⟨count, hnet⟩ := ih
        exact ⟨_, hnet.synchronise hrun⟩

theorem Claimed.consistent (h : net.Claimed count) : net.Consistent := by
  obtain ⟨n, hnet⟩ := exists_claimed_iff.1 ⟨count, h⟩
  exact hnet.consistent

theorem Claimed.counted (h : net.Claimed count) : net.Counted count := by
  induction h with
  | empty tag => exact fun _ => numbered_empty 0 0 tag
  | copy _ tag ih => exact fun hfits => (ih hfits).copy tag
  | change hnet change ih => exact change.counted hnet.consistent ih
  | @synchronise count net σ _ source source' tag result hnet hrun ih =>
      have hcopy : (net.copy tag).Counted count := fun hfits => (ih hfits).copy tag
      exact hcopy.claims (synchronise_splits hnet.consistent hrun).1.claims

/-! ### New nodes -/

/-- While the tables have room, the names in use are those of the nodes, each of them positive and
borne by one node only.  A new node gets the hinted name when no node of its kind bears it, and else the
smallest positive number that none of them bears. -/
theorem claimed_allocation (h : net.Claimed count) (hfits : count.Fits) :
    (∀ name, net.placeNames.isTaken name = true ↔ name ∈ net.places.toList.map Place.name) ∧
      (net.places.toList.map Place.name).Nodup ∧
      (∀ place ∈ net.places.toList, 0 < place.name) ∧
      (∀ name, net.transitionNames.isTaken name = true ↔
        name ∈ net.transitions.toList.map Transition.name) ∧
      (net.transitions.toList.map Transition.name).Nodup ∧
      (∀ transition ∈ net.transitions.toList, 0 < transition.name) ∧
      (∀ hint tokens, hint ≠ some 0 → ∃ id name net',
        (Edit.addPlace hint tokens).runOn net = (.ok id, net') ∧
          net'.places.toList = net.places.toList ++ [⟨id, name, tokens, [], []⟩] ∧
          NameTable.Grants (net.places.toList.map Place.name) hint name) ∧
      (∀ hint label, hint ≠ some 0 → ∃ id name net',
        (Edit.addLabelledTransition hint label).runOn net = (.ok id, net') ∧
          net'.transitions.toList = net.transitions.toList ++ [⟨id, name, label, [], []⟩] ∧
          NameTable.Grants (net.transitions.toList.map Transition.name) hint name) ∧
      ∀ hint text label, Label.parse? text = some label → hint ≠ some 0 → ∃ id name net',
        (Edit.addTransition hint text).runOn net = (.ok id, net') ∧
          net'.transitions.toList = net.transitions.toList ++ [⟨id, name, label, [], []⟩] ∧
          NameTable.Grants (net.transitions.toList.map Transition.name) hint name := by
  obtain ⟨hplaces, htransitions, -, -⟩ := h.counted hfits
  have hadd : ∀ hint label, hint ≠ some 0 → ∃ id name net',
      (Edit.addLabelledTransition hint label).runOn net = (.ok id, net') ∧
        net'.transitions.toList = net.transitions.toList ++ [⟨id, name, label, [], []⟩] ∧
        NameTable.Grants (net.transitions.toList.map Transition.name) hint name :=
    fun hint label hhint => ⟨_, _, _, Edit.addLabelledTransition_runOn hhint label net,
      Arena.toList_push _, htransitions.resolve hint⟩
  refine ⟨fun name => hplaces.isTaken_iff, hplaces.nodup, fun place hplace => ?_,
    fun name => htransitions.isTaken_iff, htransitions.nodup, fun transition htransition => ?_,
    fun hint tokens hhint => ?_, hadd, fun hint text label hlabel hhint => ?_⟩
  · exact hplaces.pos (List.mem_map_of_mem hplace)
  · exact htransitions.pos (List.mem_map_of_mem htransition)
  · exact ⟨_, _, _, Edit.addPlace_runOn hhint tokens net, Arena.toList_push _, hplaces.resolve hint⟩
  · rw [Edit.addTransition, hlabel]
    exact hadd hint label hhint

/-- A history with a hint far above the counter, a hint that is taken, and a name given back. -/
def patchy : Net :=
  [Change.addPlace (some 4294967295) 0, .addPlace none 1, .addPlace (some 4294967295) 0,
    .addPlace (some 5) 2, .removePlace ⟨0, 1⟩, .addTransition (some 3) "a"].foldl
      (fun net change => (change.runOn net).2) (empty 0)

theorem patchy_claimed : patchy.Claimed ⟨4, 1⟩ :=
  ((((((Claimed.empty 0).change (.addPlace (some 4294967295) 0)).change (.addPlace none 1)).change
    (.addPlace (some 4294967295) 0)).change (.addPlace (some 5) 2)).change
    (.removePlace ⟨0, 1⟩)).change (.addTransition (some 3) "a")

theorem claimed_allocation_patchy : patchy.Claimed ⟨4, 1⟩ ∧ (NameCount.mk 4 1).Fits ∧
    (some 5 : Option NameIndex) ≠ some 0 ∧ Label.parse? "b" = some (.visible "b") ∧
    patchy.places.toList.map Place.name = [4294967295, 5, 2] ∧
    NameTable.IsFirstFree [4294967295, 5, 2] 1 ∧
    ∃ id net', (Edit.addPlace (some 5) 0).runOn patchy = (.ok id, net') ∧
      net'.places.toList = patchy.places.toList ++ [⟨id, 1, 0, [], []⟩] := by
  have hfits : (NameCount.mk 4 1).Fits := by decide
  have hnames : patchy.places.toList.map Place.name = [4294967295, 5, 2] := by decide +kernel
  obtain ⟨-, -, -, -, -, -, hadd, -, -⟩ := claimed_allocation patchy_claimed hfits
  obtain ⟨id, name, net', hrun, hlist, hgrants⟩ := hadd (some 5) 0 (by decide)
  rw [hnames] at hgrants
  have hfirst := hgrants.first fun hinted heq => by
    cases heq
    decide
  have hone : NameTable.IsFirstFree [4294967295, 5, 2] 1 :=
    ⟨⟨by decide, by simp⟩, fun n hn => hn.1⟩
  obtain rfl : name = 1 := UInt32.toNat_inj.1 (hfirst.unique hone)
  exact ⟨patchy_claimed, hfits, by decide, by decide, hnames, hone, id, net', hrun, hlist⟩

end Net
end PetriCcs
