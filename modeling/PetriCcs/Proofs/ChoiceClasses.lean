import PetriCcs.Proofs.NetGame
import PetriCcs.Proofs.Synchronise

/-! # The join and choice classes as properties

`Net.Fed` says that every transition has an input; it is what a net of the 2-τ-synchronisation class
lacks to be of the CCS class (`Consistent.isCcs_iff`).  `Net.FreeChoice` says that a transition with
several inputs shares none of them (`Consistent.isFreeChoice_iff`), which is more than the
group-choice property asks (`FreeChoice.groupChoice`), and `Net.FreelySplit` asks this only of
transitions that share their inputs with internal ones, which splitting leaves with two.  The two
agree where the groups are split already (`Consistent.freeChoice_iff_freelySplit`). -/

namespace PetriCcs

/-- A list without repetitions is longer than one exactly when it has two different members. -/
theorem one_lt_length_iff {α : Type} [DecidableEq α] {xs : List α} (hnodup : xs.Nodup) :
    1 < xs.length ↔ ∃ x ∈ xs, ∃ y ∈ xs, x ≠ y := by
  rw [← List.toFinset_card_of_nodup hnodup, Finset.one_lt_card]
  simp

namespace Net

variable {net : Net} {t : TransitionId}

/-! ### Transitions with inputs -/

/-- Every transition has an input. -/
def Fed (net : Net) : Prop := ∀ t, net.contains (.transition t) = true → net.preset t ≠ []

theorem Consistent.fed_iff (h : net.Consistent) :
    net.Fed ↔ ∀ transition ∈ net.transitions.toList, transition.incoming ≠ [] := by
  constructor
  · intro hfed transition hmem hincoming
    obtain ⟨t, ht⟩ := Arena.mem_toList_iff.1 hmem
    exact hfed t (Arena.contains_of_get? ht) ((h.preset_eq_nil_iff ht).2 hincoming)
  · intro hall t ht hpreset
    obtain ⟨transition, htransition⟩ := Arena.contains_iff_get?.1 ht
    have hmem := Arena.mem_toList_iff.2 ⟨t, htransition⟩
    exact hall transition hmem ((h.preset_eq_nil_iff htransition).1 hpreset)

/-- The CCS class admits what the 2-τ-synchronisation class does, transitions without inputs apart. -/
theorem Consistent.isCcs_iff (h : net.Consistent) :
    net.isCcs = true ↔ net.isTwoTauSynchronisation = true ∧ net.Fed := by
  rw [h.fed_iff, isCcs, isTwoTauSynchronisation, List.all_eq_true, List.all_eq_true,
    ← forall₂_and]
  refine forall₂_congr fun transition _ => ?_
  rw [ne_eq, ← List.length_eq_zero_iff]
  rcases transition.incoming.length with _ | _ | _ | n <;> simp

theorem Fed.copy (h : net.Consistent) (hfed : net.Fed) (tag : ℕ) : (net.copy tag).Fed := by
  intro t ht
  obtain ⟨howner, ht⟩ := (contains_copy h.identified _).1 ht
  obtain ⟨p, hp⟩ := List.exists_mem_of_ne_nil _ (hfed _ ht)
  have hpowner : p.owner = net.tag :=
    h.identified.owner_of_contains ((h.mem_preset_iff.1 hp).contains h .source)
  refine List.ne_nil_of_mem ((mem_preset_copy_iff h).2 ⟨Handle.owner_retag tag p, howner, ?_⟩)
  rw [Handle.retag_retag, Handle.retag_of_owner hpowner]
  exact hp

/-! ### Free choice -/

/-- A transition with several inputs shares none of them. -/
def FreeChoice (net : Net) : Prop :=
  ∀ t p q, p ∈ net.preset t → q ∈ net.preset t → p ≠ q → ∀ u ∈ net.consumers p, u = t

/-- The class is the property. -/
theorem Consistent.isFreeChoice_iff (h : net.Consistent) :
    net.isFreeChoice = true ↔ net.FreeChoice := by
  rw [isFreeChoice, List.all_eq_true]
  constructor
  · intro hall t p q hp hq hne u hu
    obtain ⟨transition, ht⟩ := h.exists_transition_of_mem_preset hp
    have hlength : 1 < (net.preset t).length :=
      (one_lt_length_iff (h.nodup_preset t)).2 ⟨p, hp, q, hq, hne⟩
    have hok := hall transition (Arena.mem_toList_iff.2 ⟨t, ht⟩)
    rw [Bool.or_eq_true, decide_eq_true_eq, ← h.length_preset ht, h.identified.transition_id ht,
      List.all_eq_true] at hok
    obtain ⟨place, hplace⟩ := h.exists_place_of_mem_preset hp
    have hone := hok.resolve_left (by omega) p hp
    rw [hplace, Option.any_some, beq_iff_eq, ← h.length_consumers hplace] at hone
    obtain ⟨v, hv⟩ := List.length_eq_one_iff.1 hone
    have ht := h.mem_preset_iff_mem_consumers.1 hp
    rw [hv, List.mem_singleton] at hu ht
    rw [hu, ht]
  · intro hfree transition hmem
    obtain ⟨t, ht⟩ := Arena.mem_toList_iff.1 hmem
    have ht : net.transition? t = some transition := ht
    rw [Bool.or_eq_true, decide_eq_true_eq, ← h.length_preset ht, h.identified.transition_id ht,
      List.all_eq_true]
    refine or_iff_not_imp_left.2 fun hlength p hp => ?_
    obtain ⟨a, ha, b, hb, hab⟩ := (one_lt_length_iff (h.nodup_preset t)).1 (by omega)
    obtain ⟨q, hq, hne⟩ : ∃ q ∈ net.preset t, p ≠ q := by
      by_cases hpa : p = a
      · exact ⟨b, hb, hpa ▸ hab⟩
      · exact ⟨a, ha, hpa⟩
    have hconsumers : net.consumers p = [t] := by
      refine List.perm_singleton.1 ((List.perm_ext_iff_of_nodup (h.nodup_consumers p)
        (List.nodup_singleton t)).2 fun u => ?_)
      rw [List.mem_singleton]
      refine ⟨hfree t p q hp hq hne u, ?_⟩
      rintro rfl
      exact h.mem_preset_iff_mem_consumers.1 hp
    obtain ⟨place, hplace⟩ := h.exists_place_of_mem_preset hp
    rw [hplace, Option.any_some, beq_iff_eq, ← h.length_consumers hplace, hconsumers]
    rfl

/-- Places that feed a common transition feed that one alone, so they feed the same transitions. -/
theorem FreeChoice.groupChoice (h : net.Consistent) (hfree : net.FreeChoice) :
    net.GroupChoice := by
  intro t p q hp hq u
  by_cases hpq : p = q
  · rw [hpq]
  · have hconsumer : ∀ {r r' : PlaceId}, r ∈ net.preset t → r' ∈ net.preset t → r ≠ r' →
        (u ∈ net.consumers r ↔ u = t) := by
      intro r r' hr hr' hne
      refine ⟨hfree t r r' hr hr' hne u, ?_⟩
      rintro rfl
      exact h.mem_preset_iff_mem_consumers.1 hr
    rw [hconsumer hp hq hpq, hconsumer hq hp (Ne.symm hpq)]

/-- A transition with several inputs shares none of them that internal transitions alone consume
from. -/
def FreelySplitAt (net : Net) (t : TransitionId) : Prop :=
  ∀ p q, p ∈ net.preset t → q ∈ net.preset t → p ≠ q →
    (∀ u ∈ net.consumers p, net.label? u = some .tau) → ∀ u ∈ net.consumers p, u = t

/-- Free choice as far as it stays when all groups are split: where a visible transition takes part,
one input is left to each transition. -/
def FreelySplit (net : Net) : Prop := ∀ t, net.FreelySplitAt t

theorem FreeChoice.freelySplit (hfree : net.FreeChoice) : net.FreelySplit :=
  fun t p q hp hq hne _ => hfree t p q hp hq hne

/-- What free choice asks of a transition whose inputs all feed the same transitions. -/
theorem freelySplitAt_iff {places : List PlaceId} {transitions : List TransitionId}
    (hpreset : ∀ p, p ∈ net.preset t ↔ p ∈ places)
    (hconsumers : ∀ p ∈ places, ∀ u, u ∈ net.consumers p ↔ u ∈ transitions)
    (hnodup : places.Nodup)
    (hlength : (∀ u ∈ transitions, net.label? u = some .tau) → 1 < places.length) :
    net.FreelySplitAt t ↔
      ((∀ u ∈ transitions, net.label? u = some .tau) → ∀ u ∈ transitions, u = t) := by
  constructor
  · intro hsplit htau u hu
    obtain ⟨p, hp, q, hq, hne⟩ := (one_lt_length_iff hnodup).1 (hlength htau)
    refine hsplit p q ((hpreset p).2 hp) ((hpreset q).2 hq) hne (fun v hv => ?_) u
      ((hconsumers p hp u).2 hu)
    exact htau v ((hconsumers p hp v).1 hv)
  · intro hall p q hp _ _ htau u hu
    have hp := (hpreset p).1 hp
    exact hall (fun v hv => htau v ((hconsumers p hp v).2 hv)) u ((hconsumers p hp u).1 hu)

/-- Where no group is left to split the two properties agree. -/
theorem Consistent.freeChoice_iff_freelySplit (h : net.Consistent) (hchoice : net.GroupChoice)
    (hlimit : ∀ t, net.WithinLimit t) : net.FreeChoice ↔ net.FreelySplit := by
  refine ⟨FreeChoice.freelySplit, fun hsplit t p q hp hq hne => ?_⟩
  refine hsplit t p q hp hq hne fun u hu => ?_
  -- a consumer of the one place consumes from the other, too
  have hpu : p ∈ net.preset u := h.mem_preset_iff_mem_consumers.2 hu
  have hqu : q ∈ net.preset u :=
    h.mem_preset_iff_mem_consumers.2 ((hchoice t p q hp hq u).1 hu)
  have hlength : 1 < (net.preset u).length :=
    (one_lt_length_iff (h.nodup_preset u)).2 ⟨p, hpu, q, hqu, hne⟩
  obtain ⟨label, hlabel⟩ := contains_transition_iff.1 ((h.mem_preset_iff.1 hpu).contains h .target)
  rw [hlabel, (hlimit u).eq_tau hlabel hlength]

/-! ### Copies -/

theorem retag_inj_copy {kind : Kind} {tag : ℕ} {id id' : Handle kind} (howner : id.owner = tag)
    (howner' : id'.owner = tag) (heq : id.retag net.tag = id'.retag net.tag) : id = id' :=
  retag_inj (show id.owner = (net.copy tag).tag from howner) howner' heq

theorem FreeChoice.copy (h : net.Consistent) (hfree : net.FreeChoice) (tag : ℕ) :
    (net.copy tag).FreeChoice := by
  intro t p q hp hq hne u hu
  obtain ⟨hpowner, htowner, hp⟩ := (mem_preset_copy_iff h).1 hp
  obtain ⟨hqowner, -, hq⟩ := (mem_preset_copy_iff h).1 hq
  obtain ⟨-, huowner, hu⟩ := (mem_consumers_copy_iff h).1 hu
  exact retag_inj_copy huowner htowner
    (hfree _ _ _ hp hq (fun heq => hne (retag_inj_copy hpowner hqowner heq)) _ hu)

theorem FreelySplit.copy (h : net.Consistent) (hsplit : net.FreelySplit) (tag : ℕ) :
    (net.copy tag).FreelySplit := by
  intro t p q hp hq hne htau u hu
  obtain ⟨hpowner, htowner, hp⟩ := (mem_preset_copy_iff h).1 hp
  obtain ⟨hqowner, -, hq⟩ := (mem_preset_copy_iff h).1 hq
  obtain ⟨-, huowner, hu⟩ := (mem_consumers_copy_iff h).1 hu
  refine retag_inj_copy huowner htowner
    (hsplit _ _ _ hp hq (fun heq => hne (retag_inj_copy hpowner hqowner heq)) (fun v hv => ?_) _ hu)
  have hvowner : v.owner = net.tag :=
    h.identified.owner_of_contains ((h.mem_consumers_iff.1 hv).contains h .target)
  have hback : (v.retag tag).retag net.tag = v := by
    rw [Handle.retag_retag, Handle.retag_of_owner hvowner]
  have hlabel := htau (v.retag tag) ((mem_consumers_copy_iff h).2
    ⟨hpowner, Handle.owner_retag tag v, hback.symm ▸ hv⟩)
  rwa [label?_copy h.identified, if_pos (Handle.owner_retag tag v), hback] at hlabel

end Net
end PetriCcs
