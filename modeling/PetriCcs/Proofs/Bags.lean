import PetriCcs.Proofs.NetGame
import PetriCcs.Proofs.Outputs
import PetriCcs.Proofs.Processes

/-! # The constants of a marking

`net.bag m` holds the constant of every place of a net as often as the marking `m` has tokens there.
Firing adds and takes bags (`bag_add`, `bag_take`), and the processes that the encoder writes for
the output of a transition and for the stored marking are soups of bags (`Produces.soup`,
`marked_soup`). -/

namespace PetriCcs

open Encoding

namespace Net

variable {net : Net} {m m' : Marking}

/-- The constants of the marked places, each as often as it has tokens. -/
def bag (net : Net) (m : Marking) : Multiset ConstantName :=
  (net.places.toList.map fun place => Multiset.replicate (m place.id) (placeKey place)).sum

theorem bag_congr (h : ∀ place ∈ net.places.toList, m place.id = m' place.id) :
    net.bag m = net.bag m' := by
  rw [bag, bag, List.map_congr_left fun place hplace => by rw [h place hplace]]

theorem bag_zero : net.bag (fun _ => 0) = 0 := by
  rw [bag]
  exact List.sum_eq_zero fun M hM => by
    obtain ⟨place, -, rfl⟩ := List.mem_map.1 hM
    exact Multiset.replicate_zero _

theorem bag_add (m m' : Marking) : (net.bag fun p => m p + m' p) = net.bag m + net.bag m' := by
  rw [bag, bag, bag, ← List.sum_map_add]
  simp only [Multiset.replicate_add]

theorem mem_bag_iff {X : ConstantName} :
    X ∈ net.bag m ↔ ∃ place ∈ net.places.toList, 0 < m place.id ∧ X = placeKey place := by
  rw [bag]
  induction net.places.toList with
  | nil => simp
  | cons place places ih =>
      rw [List.map_cons, List.sum_cons, Multiset.mem_add, ih, Multiset.mem_replicate,
        List.exists_mem_cons_iff, Nat.pos_iff_ne_zero]

/-! ### Places of a well-formed net -/

theorem WellFormed.nodup_places (h : net.WellFormed) : net.places.toList.Nodup :=
  h.place_names.of_map

theorem WellFormed.nodup_transitions (h : net.WellFormed) : net.transitions.toList.Nodup :=
  h.transition_names.of_map

theorem WellFormed.placeKey_injOn (h : net.WellFormed) {place place' : Place}
    (hplace : place ∈ net.places.toList) (hplace' : place' ∈ net.places.toList)
    (heq : placeKey place = placeKey place') : place = place' :=
  List.inj_on_of_nodup_map h.place_names hplace hplace' (placeKey_inj heq)

theorem WellFormed.generatorKey_injOn (h : net.WellFormed) {transition transition' : Transition}
    (ht : transition ∈ net.transitions.toList) (ht' : transition' ∈ net.transitions.toList)
    (heq : generatorKey transition = generatorKey transition') : transition = transition' :=
  List.inj_on_of_nodup_map h.transition_names ht ht' (generatorKey_inj heq)

theorem WellFormed.syncKey_injOn (h : net.WellFormed) {transition transition' : Transition}
    (ht : transition ∈ net.transitions.toList) (ht' : transition' ∈ net.transitions.toList)
    (heq : syncKey transition = syncKey transition') : transition = transition' :=
  List.inj_on_of_nodup_map h.transition_names ht ht' (syncKey_inj heq)

/-! ### Single tokens -/

variable {p : PlaceId} {place : Place}

theorem bag_single (h : net.Consistent) (hwell : net.WellFormed) (hp : net.place? p = some place)
    (n : ℕ) : (net.bag fun q => if q = p then n else 0) = Multiset.replicate n (placeKey place) := by
  have hid := h.identified.place_id hp
  have hmem := Arena.mem_toList_iff.2 ⟨p, hp⟩
  rw [bag, List.sum_map_eq_nsmul_single place _ fun other hne hother => ?_,
    List.count_eq_one_of_mem hwell.nodup_places hmem, one_smul, if_pos hid]
  -- a place stored under the same handle is the same place
  rw [if_neg, Multiset.replicate_zero]
  intro heq
  have hother' := (mem_places_iff h.identified).1 hother
  rw [heq, hp] at hother'
  exact hne (Option.some.inj hother').symm

/-- A token taken from a place is one constant less. -/
theorem bag_take (h : net.Consistent) (hwell : net.WellFormed) (hp : net.place? p = some place)
    (hm : 0 < m p) :
    net.bag m = {placeKey place} + net.bag fun q => if q = p then m q - 1 else m q := by
  have hone := bag_single h hwell hp 1
  rw [Multiset.replicate_one] at hone
  rw [← hone, ← bag_add]
  refine bag_congr fun q _ => ?_
  by_cases hq : q.id = p
  · rw [if_pos hq, if_pos hq, hq]
    omega
  · rw [if_neg hq, if_neg hq, zero_add]

/-- A constant in a bag is that of a marked place. -/
theorem exists_place_of_mem_bag (h : net.Consistent) {X : ConstantName} (hX : X ∈ net.bag m) :
    ∃ p place, net.place? p = some place ∧ 0 < m p ∧ X = placeKey place := by
  obtain ⟨place, hplace, hpos, rfl⟩ := mem_bag_iff.1 hX
  exact ⟨place.id, place, (mem_places_iff h.identified).1 hplace, hpos, rfl⟩

/-! ### Soups of bags -/

/-- What a list of weighted places adds to a place. -/
def sumOf (entries : List (PlaceId × Weight)) (p : PlaceId) : ℕ :=
  ((entries.filterMap fun entry => if entry.1 = p then some entry.2 else none).map
    UInt64.toNat).sum

theorem sumOf_cons (q : PlaceId) (weight : Weight) (entries : List (PlaceId × Weight))
    (p : PlaceId) :
    sumOf ((q, weight) :: entries) p = (if p = q then weight.toNat else 0) + sumOf entries p := by
  by_cases hp : q = p
  · rw [if_pos hp.symm, sumOf, List.filterMap_cons, if_pos hp, List.map_cons, List.sum_cons]
    rfl
  · rw [if_neg (Ne.symm hp), zero_add, sumOf, List.filterMap_cons, if_neg hp]
    rfl

theorem copies_soup (h : net.Consistent) (hwell : net.WellFormed) :
    ∀ {entries : List (PlaceId × Weight)} {Ps : List Term}, List.Forall₂ net.Copies entries Ps →
      Soup Ps (net.bag (sumOf entries))
  | [], _, hcopies => by
      cases hcopies
      have hzero : sumOf [] = fun _ => 0 := rfl
      rw [hzero, bag_zero]
      exact Soup.nil
  | (p, weight) :: entries, _, hcopies => by
      cases hcopies with
      | cons hhead hrest =>
          obtain ⟨place, hplace, hcopies⟩ := hhead
          have hsoup := (Soup.constant_singleton (placeKey place)).copiesOf hcopies
          rw [Multiset.nsmul_singleton, ← bag_single h hwell hplace weight.toNat] at hsoup
          have hall := hsoup.cons (copies_soup h hwell hrest)
          rw [← bag_add] at hall
          rwa [show sumOf ((p, weight) :: entries) = _ from funext fun q =>
            sumOf_cons p weight entries q]

/-- The process after a transition is a soup of what the transition produces. -/
theorem Produces.soup (h : net.Consistent) (hwell : net.WellFormed) {t : TransitionId} {P : Term}
    (hP : net.Produces t P) : Soup [P] (net.bag (net.produces t)) := by
  obtain ⟨components, hcopies, hP⟩ := hP
  rw [hP.eq_compose]
  exact (copies_soup h hwell hcopies).compose_singleton

/-- The process of the stored marking is a soup of the stored marking. -/
theorem marked_soup (h : net.Consistent) : Soup net.markedTerms (net.bag net.tokens) := by
  have hlist : ∀ places : List Place, Soup
      ((places.filter (0 < ·.tokens)).map fun place =>
        (Term.constant (placeKey place)).times place.tokens)
      (places.map fun place =>
        Multiset.replicate place.tokens.toNat (placeKey place)).sum := by
    intro places
    induction places with
    | nil => exact Soup.nil
    | cons place places ih =>
        rw [List.map_cons, List.sum_cons]
        by_cases hpos : 0 < place.tokens
        · have htokens : place.tokens ≠ 0 := fun hzero => by
            rw [hzero] at hpos
            exact absurd hpos (by decide)
          have hhead := (Soup.constant_singleton (placeKey place)).copiesOf
            (Term.copiesOf_times htokens)
          rw [Multiset.nsmul_singleton] at hhead
          rw [List.filter_cons_of_pos (by simpa using hpos), List.map_cons]
          exact hhead.cons ih
        · have htokens : place.tokens.toNat = 0 := Nat.eq_zero_of_not_pos hpos
          rw [List.filter_cons_of_neg (by simpa using hpos), htokens, Multiset.replicate_zero,
            zero_add]
          exact ih
  rw [bag, List.map_congr_left fun place hplace => ?_]
  · exact hlist net.places.toList
  · rw [tokens, (mem_places_iff h.identified).1 hplace]
    rfl

end Net
end PetriCcs
