import PetriCcs.Proofs.Bisimulation
import PetriCcs.Proofs.Gains

/-! # The token game

A marking gives every place a natural number of tokens.  A transition fires when every place of its
preset holds a token: it takes one from each of them and adds the weight of each outgoing arc to its
target (`Net.Fires`).  `Game` is the game of a net without the net: what each transition takes from
and gives to each place.  Inserting a join that collects two inputs of a group of transitions gives
a weakly bisimilar game (`Game.Merges.weakBisimulation`). -/

namespace PetriCcs

/-- Tokens by place. -/
abbrev Marking := PlaceId → ℕ

/-- Labels, and what transitions take from places and give to them. -/
structure Game where
  label : TransitionId → Option Label
  takes : TransitionId → PlaceId → ℕ
  gives : TransitionId → PlaceId → ℕ

namespace Game

/-- A transition fires from one marking to another. -/
def Fires (g : Game) (m : Marking) (t : TransitionId) (m' : Marking) : Prop :=
  ∀ p, g.takes t p ≤ m p ∧ m' p = m p - g.takes t p + g.gives t p

/-- Some transition with a label fires. -/
def Step (g : Game) (m : Marking) (label : Label) (m' : Marking) : Prop :=
  ∃ t, g.label t = some label ∧ g.Fires m t m'

/-- The marking after a transition fires. -/
def fire (g : Game) (t : TransitionId) (m : Marking) : Marking :=
  fun p => m p - g.takes t p + g.gives t p

theorem fires_fire {g : Game} {t : TransitionId} {m : Marking} (h : ∀ p, g.takes t p ≤ m p) :
    g.Fires m t (g.fire t m) :=
  fun p => ⟨h p, rfl⟩

/-- In `g'` the new transition `t` moves tokens from `left` and `right` together to the new place
`place`, and the transitions of a group take from there instead of from both. -/
structure Merges (g g' : Game) (inGroup : TransitionId → Prop) (left right place : PlaceId)
    (t : TransitionId) : Prop where
  left_ne_right : left ≠ right
  place_ne_left : place ≠ left
  place_ne_right : place ≠ right
  label_new : g.label t = none
  label : ∀ u, g'.label u = if u = t then some .tau else g.label u
  takes_place : ∀ u, g.takes u place = 0
  gives_place : ∀ u, g.gives u place = 0
  takes_group : ∀ u, inGroup u → g.takes u left = 1 ∧ g.takes u right = 1
  takes_other : ∀ u, ¬ inGroup u → g.takes u left = 0 ∧ g.takes u right = 0
  takes_place_group : ∀ u, inGroup u → g'.takes u place = 1
  takes_place_other : ∀ u, u ≠ t → ¬ inGroup u → g'.takes u place = 0
  takes_merged : ∀ u, u ≠ t → g'.takes u left = 0 ∧ g'.takes u right = 0
  takes_rest : ∀ u p, u ≠ t → p ≠ left → p ≠ right → p ≠ place → g'.takes u p = g.takes u p
  gives_rest : ∀ u, u ≠ t → g'.gives u = g.gives u
  takes_new : ∀ p, g'.takes t p = if p = left ∨ p = right then 1 else 0
  gives_new : ∀ p, g'.gives t p = if p = place then 1 else 0

variable {g g' : Game} {inGroup : TransitionId → Prop} {left right place : PlaceId}
  {t u : TransitionId} {m m' m₁ : Marking}

/-- A token in the new place stands for one in each of the two merged ones. -/
structure Unmerged (left right place : PlaceId) (m m' : Marking) : Prop where
  at_left : m left = m' left + m' place
  at_right : m right = m' right + m' place
  at_place : m place = 0
  at_rest : ∀ p, p ≠ left → p ≠ right → p ≠ place → m p = m' p

theorem Merges.ne_of_label (h : Merges g g' inGroup left right place t) {label : Label}
    (hu : g.label u = some label) : u ≠ t := by
  rintro rfl
  rw [h.label_new] at hu
  cases hu

/-- The join does not change what the marking stands for. -/
theorem Merges.join (h : Merges g g' inGroup left right place t)
    (hm : Unmerged left right place m m') (hleft : 0 < m' left) (hright : 0 < m' right) :
    g'.Fires m' t (g'.fire t m') ∧ Unmerged left right place m (g'.fire t m') ∧
      0 < g'.fire t m' place := by
  have hne := h.left_ne_right
  have hpl := h.place_ne_left
  have hpr := h.place_ne_right
  have hmleft := hm.at_left
  have hmright := hm.at_right
  refine ⟨fires_fire fun p => ?_, ⟨?_, ?_, hm.at_place, fun p h1 h2 h3 => ?_⟩, ?_⟩
  · rw [h.takes_new]
    split_ifs with hp
    · rcases hp with rfl | rfl
      · exact hleft
      · exact hright
    · exact Nat.zero_le _
  · simp only [fire, h.takes_new, h.gives_new, hpl, hpr, hpl.symm, or_self, if_true, if_false,
      true_or]
    omega
  · simp only [fire, h.takes_new, h.gives_new, hpl, hpr, hpr.symm, or_self, if_true, if_false,
      or_true]
    omega
  · simp only [fire, h.takes_new, h.gives_new, h1, h2, h3, or_self, if_false]
    rw [hm.at_rest p h1 h2 h3]
    rfl
  · simp only [fire, h.takes_new, h.gives_new, hpl, hpr, or_self, if_true, if_false]
    omega

/-- A transition other than the join takes from the new place what it took from each merged one. -/
theorem Merges.takes_alike (h : Merges g g' inGroup left right place t) (hu : u ≠ t)
    (hplace : inGroup u → 0 < m' place) : ∃ tokens ≤ m' place,
      g.takes u left = tokens ∧ g.takes u right = tokens ∧ g'.takes u place = tokens := by
  by_cases hin : inGroup u
  · exact ⟨1, hplace hin, (h.takes_group u hin).1, (h.takes_group u hin).2,
      h.takes_place_group u hin⟩
  · exact ⟨0, Nat.zero_le _, (h.takes_other u hin).1, (h.takes_other u hin).2,
      h.takes_place_other u hu hin⟩

/-- A transition other than the join does the same in both games, once it is enabled in both. -/
theorem Merges.fire_unmerged (h : Merges g g' inGroup left right place t) (hu : u ≠ t)
    (hm : Unmerged left right place m m') (hplace : inGroup u → 0 < m' place) :
    Unmerged left right place (g.fire u m) (g'.fire u m') := by
  obtain ⟨tokens, hle, htakesLeft, htakesRight, htakesPlace⟩ := h.takes_alike hu hplace
  obtain ⟨hleft, hright⟩ := h.takes_merged u hu
  have hgives := h.gives_rest u hu
  have hgivesPlace := h.gives_place u
  refine ⟨?_, ?_, ?_, fun p h1 h2 h3 => ?_⟩
  · simp only [fire, hgives, hleft, htakesLeft, htakesPlace, hgivesPlace, hm.at_left]
    omega
  · simp only [fire, hgives, hright, htakesRight, htakesPlace, hgivesPlace, hm.at_right]
    omega
  · simp only [fire, h.takes_place, hgivesPlace, hm.at_place]
  · simp only [fire, hgives, h.takes_rest u p hu h1 h2 h3, hm.at_rest p h1 h2 h3]

/-- A transition other than the join is enabled in one game when it is in the other and the new
place holds a token for it. -/
theorem Merges.enabled_iff (h : Merges g g' inGroup left right place t) (hu : u ≠ t)
    (hm : Unmerged left right place m m') (hplace : inGroup u → 0 < m' place) :
    (∀ p, g'.takes u p ≤ m' p) ↔ ∀ p, g.takes u p ≤ m p := by
  obtain ⟨tokens, hle, htakesLeft, htakesRight, htakesPlace⟩ := h.takes_alike hu hplace
  obtain ⟨hleft, hright⟩ := h.takes_merged u hu
  refine forall_congr' fun p => ?_
  by_cases h1 : p = left
  · rw [h1, hleft, htakesLeft, hm.at_left]
    omega
  by_cases h2 : p = right
  · rw [h2, hright, htakesRight, hm.at_right]
    omega
  by_cases h3 : p = place
  · rw [h3, htakesPlace, h.takes_place]
    omega
  · rw [h.takes_rest u p hu h1 h2 h3, hm.at_rest p h1 h2 h3]

theorem Fires.eq_fire (h : g.Fires m u m₁) : m₁ = g.fire u m :=
  funext fun p => (h p).2

/-- Before and after a merge the game behaves the same, up to internal steps. -/
theorem Merges.weakBisimulation (h : Merges g g' inGroup left right place t) :
    WeakBisimulation g.Step g'.Step .tau (Unmerged left right place) where
  forth := by
    rintro m m' label m₁ hm ⟨u, hlabel, hfires⟩
    obtain rfl := hfires.eq_fire
    have hu := h.ne_of_label hlabel
    have hlabel' : g'.label u = some label := by rw [h.label, if_neg hu, hlabel]
    by_cases hplace : inGroup u → 0 < m' place
    · have henabled := (h.enabled_iff hu hm hplace).2 fun p => (hfires p).1
      exact ⟨g'.fire u m', WeakStep.of_step ⟨u, hlabel', fires_fire henabled⟩,
        h.fire_unmerged hu hm hplace⟩
    · -- no token for the group yet: the join brings one first
      obtain ⟨hin, hzero⟩ := Classical.not_imp.1 hplace
      have hleft := (hfires left).1
      have hright := (hfires right).1
      rw [(h.takes_group u hin).1, hm.at_left] at hleft
      rw [(h.takes_group u hin).2, hm.at_right] at hright
      obtain ⟨hjoin, hm', hpos⟩ := h.join hm (by omega) (by omega)
      have henabled := (h.enabled_iff hu hm' fun _ => hpos).2 fun p => (hfires p).1
      refine ⟨g'.fire u (g'.fire t m'), WeakStep.of_tau_step ⟨t, ?_, hjoin⟩
        ⟨u, hlabel', fires_fire henabled⟩, h.fire_unmerged hu hm' fun _ => hpos⟩
      rw [h.label, if_pos rfl]
  back := by
    rintro m m' label m₁ hm ⟨u, hlabel, hfires⟩
    obtain rfl := hfires.eq_fire
    rw [h.label] at hlabel
    split_ifs at hlabel with hu
    · -- the join: the other side does nothing
      cases hlabel
      subst hu
      have hleft := (hfires left).1
      have hright := (hfires right).1
      rw [h.takes_new, if_pos (Or.inl rfl)] at hleft
      rw [h.takes_new, if_pos (Or.inr rfl)] at hright
      exact ⟨m, WeakStep.refl m, (h.join hm hleft hright).2.1⟩
    · have hplace : inGroup u → 0 < m' place := by
        intro hin
        have htoken := (hfires place).1
        rw [h.takes_place_group u hin] at htoken
        exact htoken
      have henabled := (h.enabled_iff hu hm hplace).1 fun p => (hfires p).1
      exact ⟨g.fire u m, WeakStep.of_step ⟨u, hlabel, fires_fire henabled⟩,
        h.fire_unmerged hu hm hplace⟩

end Game
end PetriCcs
