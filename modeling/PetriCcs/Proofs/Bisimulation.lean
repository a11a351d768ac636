import Mathlib.Logic.Relation
import Mathlib.Tactic

/-! # Bisimulations

Two systems with labelled steps are compared by relations between their states.  A bisimulation
answers a step by a step with the same label, a weak bisimulation by a step with the same label
between internal ones, or by internal ones alone where the step is internal.  Weak bisimilarity is
transitive (`WeaklyBisimilar.trans`). -/

namespace PetriCcs

variable {S S' S'' L : Type} {step : S → L → S → Prop} {step' : S' → L → S' → Prop}
  {step'' : S'' → L → S'' → Prop} {tau : L}

/-- Steps of either side are answered by steps of the other. -/
structure Bisimulation (step : S → L → S → Prop) (step' : S' → L → S' → Prop)
    (R : S → S' → Prop) : Prop where
  forth : ∀ {s s' l t}, R s s' → step s l t → ∃ t', step' s' l t' ∧ R t t'
  back : ∀ {s s' l t'}, R s s' → step' s' l t' → ∃ t, step s l t ∧ R t t'

/-- Some bisimulation relates the two states. -/
def Bisimilar (step : S → L → S → Prop) (step' : S' → L → S' → Prop) (s : S) (s' : S') : Prop :=
  ∃ R, Bisimulation step step' R ∧ R s s'

/-- Any number of internal steps. -/
def TauSteps (step : S → L → S → Prop) (tau : L) : S → S → Prop :=
  Relation.ReflTransGen fun s t => step s tau t

/-- A step between internal ones, or internal ones alone where the label is internal. -/
def WeakStep (step : S → L → S → Prop) (tau : L) (s : S) (l : L) (t : S) : Prop :=
  (l = tau ∧ TauSteps step tau s t) ∨
    ∃ u v, TauSteps step tau s u ∧ step u l v ∧ TauSteps step tau v t

theorem WeakStep.of_step {s t : S} {l : L} (h : step s l t) : WeakStep step tau s l t :=
  Or.inr ⟨s, t, Relation.ReflTransGen.refl, h, Relation.ReflTransGen.refl⟩

theorem WeakStep.refl (s : S) : WeakStep step tau s tau s :=
  Or.inl ⟨rfl, Relation.ReflTransGen.refl⟩

/-- A step after an internal one. -/
theorem WeakStep.of_tau_step {s t u : S} {l : L} (h : step s tau t) (h' : step t l u) :
    WeakStep step tau s l u :=
  Or.inr ⟨t, u, Relation.ReflTransGen.single h, h', Relation.ReflTransGen.refl⟩

theorem WeakStep.tauSteps {s t : S} (h : WeakStep step tau s tau t) : TauSteps step tau s t := by
  rcases h with ⟨-, h⟩ | ⟨u, v, hsu, huv, hvt⟩
  · exact h
  · exact (hsu.tail huv).trans hvt

/-- Steps of either side are answered by weak steps of the other. -/
structure WeakBisimulation (step : S → L → S → Prop) (step' : S' → L → S' → Prop) (tau : L)
    (R : S → S' → Prop) : Prop where
  forth : ∀ {s s' l t}, R s s' → step s l t → ∃ t', WeakStep step' tau s' l t' ∧ R t t'
  back : ∀ {s s' l t'}, R s s' → step' s' l t' → ∃ t, WeakStep step tau s l t ∧ R t t'

/-- Some weak bisimulation relates the two states. -/
def WeaklyBisimilar (step : S → L → S → Prop) (step' : S' → L → S' → Prop) (tau : L) (s : S)
    (s' : S') : Prop :=
  ∃ R, WeakBisimulation step step' tau R ∧ R s s'

theorem Bisimulation.weak {R : S → S' → Prop} (h : Bisimulation step step' R) :
    WeakBisimulation step step' tau R where
  forth := fun hR hstep =>
    have ⟨t', hstep', hR'⟩ := h.forth hR hstep
    ⟨t', WeakStep.of_step hstep', hR'⟩
  back := fun hR hstep =>
    have ⟨t, hstep', hR'⟩ := h.back hR hstep
    ⟨t, WeakStep.of_step hstep', hR'⟩

namespace WeakBisimulation

variable {R : S → S' → Prop} {Q : S' → S'' → Prop}

theorem symm (h : WeakBisimulation step step' tau R) :
    WeakBisimulation step' step tau fun s' s => R s s' :=
  ⟨fun hR hstep => h.back hR hstep, fun hR hstep => h.forth hR hstep⟩

theorem forth_tauSteps (h : WeakBisimulation step step' tau R) {s t : S} {s' : S'} (hR : R s s')
    (hsteps : TauSteps step tau s t) : ∃ t', TauSteps step' tau s' t' ∧ R t t' := by
  induction hsteps with
  | refl => exact ⟨s', Relation.ReflTransGen.refl, hR⟩
  | tail _ hlast ih =>
      obtain ⟨u', hsteps', hRu⟩ := ih
      obtain ⟨t', hweak, hRt⟩ := h.forth hRu hlast
      exact ⟨t', hsteps'.trans hweak.tauSteps, hRt⟩

theorem forth_weak (h : WeakBisimulation step step' tau R) {s t : S} {s' : S'} {l : L} (hR : R s s')
    (hweak : WeakStep step tau s l t) : ∃ t', WeakStep step' tau s' l t' ∧ R t t' := by
  rcases hweak with ⟨rfl, hsteps⟩ | ⟨u, v, hsu, huv, hvt⟩
  · obtain ⟨t', hsteps', hRt⟩ := h.forth_tauSteps hR hsteps
    exact ⟨t', Or.inl ⟨rfl, hsteps'⟩, hRt⟩
  · obtain ⟨u', hsu', hRu⟩ := h.forth_tauSteps hR hsu
    obtain ⟨v', huv', hRv⟩ := h.forth hRu huv
    obtain ⟨t', hvt', hRt⟩ := h.forth_tauSteps hRv hvt
    refine ⟨t', ?_, hRt⟩
    rcases huv' with ⟨rfl, hsteps⟩ | ⟨x, y, hux, hxy, hyv⟩
    · exact Or.inl ⟨rfl, (hsu'.trans hsteps).trans hvt'⟩
    · exact Or.inr ⟨x, y, hsu'.trans hux, hxy, hyv.trans hvt'⟩

theorem trans (h : WeakBisimulation step step' tau R) (h' : WeakBisimulation step' step'' tau Q) :
    WeakBisimulation step step'' tau fun s s'' => ∃ s', R s s' ∧ Q s' s'' where
  forth := by
    rintro s s'' l t ⟨s', hR, hQ⟩ hstep
    obtain ⟨t', hweak, hR'⟩ := h.forth hR hstep
    obtain ⟨t'', hweak', hQ'⟩ := h'.forth_weak hQ hweak
    exact ⟨t'', hweak', t', hR', hQ'⟩
  back := by
    rintro s s'' l t'' ⟨s', hR, hQ⟩ hstep
    obtain ⟨t', hweak, hQ'⟩ := h'.back hQ hstep
    obtain ⟨t, hweak', hR'⟩ := h.symm.forth_weak hR hweak
    exact ⟨t, hweak', t', hR', hQ'⟩

end WeakBisimulation

theorem Bisimilar.weak {s : S} {s' : S'} (h : Bisimilar step step' s s') :
    WeaklyBisimilar step step' tau s s' :=
  have ⟨R, hbisim, hR⟩ := h
  ⟨R, hbisim.weak, hR⟩

theorem WeaklyBisimilar.refl (s : S) : WeaklyBisimilar step step tau s s := by
  refine ⟨Eq, ⟨?_, ?_⟩, rfl⟩
  · rintro s _ l t rfl hstep
    exact ⟨t, WeakStep.of_step hstep, rfl⟩
  · rintro s _ l t rfl hstep
    exact ⟨t, WeakStep.of_step hstep, rfl⟩

theorem WeaklyBisimilar.trans {s : S} {s' : S'} {s'' : S''}
    (h : WeaklyBisimilar step step' tau s s') (h' : WeaklyBisimilar step' step'' tau s' s'') :
    WeaklyBisimilar step step'' tau s s'' :=
  have ⟨_, hR, hs⟩ := h
  have ⟨_, hQ, hs'⟩ := h'
  ⟨_, hR.trans hQ, s', hs, hs'⟩

end PetriCcs
