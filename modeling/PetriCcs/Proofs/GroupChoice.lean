import PetriCcs.Classification.Choice
import PetriCcs.Proofs.Arcs

/-! # The group-choice property

`Net.GroupChoice` says that the places that feed a transition are consumed from by the same
transitions.  The test of the class establishes it (`groupChoice_of_isGroupChoice`): a place that was
compared with its rivals settles them as well, so the pass may skip them.  On a net with the property
no comparison fails, so a pass over all places decides it in whichever order it visits them
(`groupPass_iff`), and so does the test (`isGroupChoice_iff`). -/

namespace PetriCcs
namespace Net

variable {net : Net}

/-- Places that share a consumer share all of them. -/
def GroupChoice (net : Net) : Prop :=
  ∀ t p q, p ∈ net.preset t → q ∈ net.preset t → ∀ u, u ∈ net.consumers p ↔ u ∈ net.consumers q

/-- A place has the same consumers as every place that shares one with it. -/
def Settled (net : Net) (p : PlaceId) : Prop :=
  ∀ t ∈ net.consumers p, ∀ q ∈ net.preset t, ∀ u, u ∈ net.consumers q ↔ u ∈ net.consumers p

theorem sameMembers_iff {α : Type} [DecidableEq α] {xs ys : List α} :
    sameMembers xs ys = true ↔ ∀ x, x ∈ xs ↔ x ∈ ys := by
  simp only [sameMembers, Bool.and_eq_true, List.all_eq_true, List.contains_iff_mem]
  constructor
  · rintro ⟨hxs, hys⟩ x
    exact ⟨hxs x, hys x⟩
  · intro h
    exact ⟨fun x => (h x).1, fun x => (h x).2⟩

theorem mem_rivals_iff {p q : PlaceId} :
    q ∈ net.rivals p ↔ (∃ t ∈ net.consumers p, q ∈ net.preset t) ∧ q ≠ p := by
  simp [rivals, List.mem_filter, List.mem_flatMap]

/-- A place that agrees with its rivals is settled, and so are they. -/
theorem settled_of_rivals {p : PlaceId}
    (hrivals : ∀ q ∈ net.rivals p, ∀ u, u ∈ net.consumers q ↔ u ∈ net.consumers p) :
    net.Settled p ∧ ∀ q ∈ net.rivals p, net.Settled q := by
  have hsame : ∀ t ∈ net.consumers p, ∀ q ∈ net.preset t,
      ∀ u, u ∈ net.consumers q ↔ u ∈ net.consumers p := by
    intro t ht q hq u
    by_cases hqp : q = p
    · rw [hqp]
    · exact hrivals q (mem_rivals_iff.2 ⟨⟨t, ht, hq⟩, hqp⟩) u
  refine ⟨hsame, fun r hr t ht q hq u => ?_⟩
  have htp : t ∈ net.consumers p := (hrivals r hr t).1 ht
  rw [hsame t htp q hq u, hrivals r hr u]

/-- A pass that succeeds leaves every pending place settled. -/
theorem Consistent.settled_of_groupPass (h : net.Consistent) :
    ∀ (pending confirmed : List PlaceId), (∀ p ∈ confirmed, net.Settled p) →
      net.groupPass pending confirmed = true → ∀ p ∈ pending, net.Settled p
  | [], _, _, _, p, hp => absurd hp List.not_mem_nil
  | place :: pending, confirmed, hconfirmed, hpass, p, hp => by
      rw [groupPass] at hpass
      split_ifs at hpass with hmem
      · -- confirmed before: nothing to compare
        have hplace := hconfirmed place (List.contains_iff_mem.1 hmem)
        rcases List.mem_cons.1 hp with rfl | hp
        · exact hplace
        · exact h.settled_of_groupPass pending confirmed hconfirmed hpass p hp
      · rw [Bool.and_eq_true, List.all_eq_true] at hpass
        obtain ⟨hplace, hsettled⟩ := settled_of_rivals fun q hq =>
          sameMembers_iff.1 (hpass.1 q hq)
        rcases List.mem_cons.1 hp with rfl | hp
        · exact hplace
        · refine h.settled_of_groupPass pending _ (fun q hq => ?_) hpass.2 p hp
          rcases List.mem_append.1 hq with hq | hq
          · rcases List.mem_cons.1 hq with rfl | hq
            · exact hplace
            · exact hsettled q hq
          · exact hconfirmed q hq

/-- A pass over all places that succeeds shows the property. -/
theorem Consistent.groupChoice_of_groupPass (h : net.Consistent) {order : List PlaceId}
    (hall : ∀ p, net.contains (.place p) = true → p ∈ order)
    (hpass : net.groupPass order [] = true) : net.GroupChoice := by
  intro t p q hp hq u
  have harc := h.mem_preset_iff.1 hp
  have hsettled : net.Settled p :=
    h.settled_of_groupPass order [] (by simp) hpass p (hall p (harc.contains h .source))
  exact (hsettled t (h.mem_consumers_iff.2 harc) q hq u).symm

/-- A net in the class has the property. -/
theorem Consistent.groupChoice_of_isGroupChoice (h : net.Consistent)
    (hclass : net.isGroupChoice = true) : net.GroupChoice :=
  h.groupChoice_of_groupPass (fun _ => Arena.mem_handles_iff.2) hclass

/-- A pass over a net with the property succeeds, whatever is confirmed. -/
theorem Consistent.groupPass_of_groupChoice (h : net.Consistent) (hchoice : net.GroupChoice) :
    ∀ pending confirmed : List PlaceId, net.groupPass pending confirmed = true
  | [], _ => rfl
  | place :: pending, confirmed => by
      rw [groupPass]
      split_ifs with hmem
      · exact h.groupPass_of_groupChoice hchoice pending confirmed
      · rw [Bool.and_eq_true, List.all_eq_true]
        refine ⟨fun q hq => ?_, h.groupPass_of_groupChoice hchoice pending _⟩
        obtain ⟨⟨t, ht, hqt⟩, -⟩ := mem_rivals_iff.1 hq
        exact sameMembers_iff.2 (hchoice t q place hqt (h.mem_preset_iff_mem_consumers.2 ht))

/-- A pass over all places decides the property, in whichever order it visits them. -/
theorem Consistent.groupPass_iff (h : net.Consistent) {order : List PlaceId}
    (hall : ∀ p, net.contains (.place p) = true → p ∈ order) :
    net.groupPass order [] = true ↔ net.GroupChoice :=
  ⟨h.groupChoice_of_groupPass hall, fun hchoice => h.groupPass_of_groupChoice hchoice _ _⟩

/-- The class is the property. -/
theorem Consistent.isGroupChoice_iff (h : net.Consistent) :
    net.isGroupChoice = true ↔ net.GroupChoice :=
  h.groupPass_iff fun _ => Arena.mem_handles_iff.2

/-- The property in terms of consumers alone. -/
theorem Consistent.groupChoice_iff (h : net.Consistent) : net.GroupChoice ↔
    ∀ p q t, t ∈ net.consumers p → t ∈ net.consumers q →
      ∀ u, u ∈ net.consumers p ↔ u ∈ net.consumers q := by
  simp only [GroupChoice, h.mem_preset_iff_mem_consumers]
  exact ⟨fun hchoice p q t => hchoice t p q, fun hchoice t p q => hchoice p q t⟩

/-- The transitions that consume from one place are fed by the same places. -/
theorem GroupChoice.mem_preset_iff (hchoice : net.GroupChoice) (h : net.Consistent) {p : PlaceId}
    {t u : TransitionId} (ht : t ∈ net.consumers p) (hu : u ∈ net.consumers p) (q : PlaceId) :
    q ∈ net.preset u ↔ q ∈ net.preset t := by
  have hp : ∀ {s}, s ∈ net.consumers p → p ∈ net.preset s := h.mem_preset_iff_mem_consumers.2
  constructor
  · intro hq
    exact h.mem_preset_iff_mem_consumers.2 ((hchoice u p q (hp hu) hq t).1 ht)
  · intro hq
    exact h.mem_preset_iff_mem_consumers.2 ((hchoice t p q (hp ht) hq u).1 hu)

end Net
end PetriCcs
