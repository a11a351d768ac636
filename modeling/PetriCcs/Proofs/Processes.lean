import Mathlib.Data.Multiset.AddSub
import Mathlib.Tactic
import PetriCcs.Proofs.Shape

/-! # Steps of processes

The steps of a term, read with defining equations, are those of CCS (`Term.Step`).  A process in the
encoding of a net is a soup: constants side by side, nested in compositions and exponents.
`Soup components contents` counts its constants.  A step of a soup is a step of one of its constants
or a handshake between two of them (`Soup.step_cases`), and all of these are steps of the soup
(`Soup.offers`). -/

namespace PetriCcs

namespace Term

/-- Steps of a process whose constants behave as their definitions. -/
inductive Step (defs : Definitions) : Term → Action → Term → Prop where
  | guarded {a : Action} {P : Term} : Step defs (.guarded a P) a P
  | choice {summands : List Summand} {a : Action} {P : Term} (h : (a, P) ∈ summands) :
      Step defs (.choice summands) a P
  | interleave {before after : List Term} {P P' : Term} {a : Action} (h : Step defs P a P') :
      Step defs (.parallel (before ++ P :: after)) a (.parallel (before ++ P' :: after))
  | sendReceive {before between after : List Term} {P P' Q Q' : Term} {s : ActionName}
      (hP : Step defs P (.co s) P') (hQ : Step defs Q (.input s) Q') :
      Step defs (.parallel (before ++ P :: (between ++ Q :: after))) .internal
        (.parallel (before ++ P' :: (between ++ Q' :: after)))
  | receiveSend {before between after : List Term} {P P' Q Q' : Term} {s : ActionName}
      (hP : Step defs P (.input s) P') (hQ : Step defs Q (.co s) Q') :
      Step defs (.parallel (before ++ P :: (between ++ Q :: after))) .internal
        (.parallel (before ++ P' :: (between ++ Q' :: after)))
  | exponent {P Q : Term} {count : UInt64} {a : Action}
      (h : Step defs (.parallel (List.replicate count.toNat P)) a Q) :
      Step defs (.exponent P count) a Q
  | restriction {s : ActionName} {P P' : Term} {a : Action} (h : Step defs P a P')
      (hinput : a ≠ .input s) (hco : a ≠ .co s) :
      Step defs (.restriction s P) a (.restriction s P')
  | constant {name : ConstantName} {body P : Term} {a : Action}
      (hbody : defs.lookup name = some body) (h : Step defs body a P) :
      Step defs (.constant name) a P

variable {defs : Definitions} {a : Action} {P Q : Term}

/-- The choice between any number of summands offers each of them. -/
theorem step_sum_iff {summands : List Summand} :
    Step defs (Term.sum summands) a P ↔ (a, P) ∈ summands := by
  match summands with
  | [] =>
      constructor
      · intro h
        cases h
      · exact fun h => absurd h List.not_mem_nil
  | [(b, Q)] =>
      rw [List.mem_singleton]
      constructor
      · intro h
        cases h
        rfl
      · intro h
        cases h
        exact Step.guarded
  | (b, Q) :: summand :: summands =>
      constructor
      · intro h
        cases h with
        | choice h => exact h
      · exact Step.choice

/-- A restricted process does what the process does, except on the restricted names. -/
theorem step_restrict_iff (names : List ActionName) :
    ∀ {T : Term}, Step defs (Encoding.restrict names P) a T ↔
      ∃ P', T = Encoding.restrict names P' ∧ Step defs P a P' ∧
        ∀ s ∈ names, a ≠ .input s ∧ a ≠ .co s := by
  induction names with
  | nil =>
      intro T
      constructor
      · exact fun h => ⟨T, rfl, h, by simp⟩
      · rintro ⟨P', rfl, h, -⟩
        exact h
  | cons s names ih =>
      intro T
      constructor
      · intro h
        cases h with
        | restriction h hinput hco =>
            obtain ⟨P', rfl, hstep, hfree⟩ := ih.1 h
            exact ⟨P', rfl, hstep, List.forall_mem_cons.2 ⟨⟨hinput, hco⟩, hfree⟩⟩
      · rintro ⟨P', rfl, hstep, hfree⟩
        obtain ⟨⟨hinput, hco⟩, hfree⟩ := List.forall_mem_cons.1 hfree
        exact Step.restriction (ih.2 ⟨P', rfl, hstep, hfree⟩) hinput hco

/-- A step of one component, behind others. -/
theorem Step.parallel_cons {Qs Qs' : List Term} (h : Step defs (.parallel Qs) a (.parallel Qs')) :
    Step defs (.parallel (P :: Qs)) a (.parallel (P :: Qs')) := by
  cases h with
  | @interleave before after R R' _ h => exact @Step.interleave defs (P :: before) after R R' a h
  | @sendReceive before between after _ _ _ _ _ hR hR' =>
      exact @Step.sendReceive defs (P :: before) between after _ _ _ _ _ hR hR'
  | @receiveSend before between after _ _ _ _ _ hR hR' =>
      exact @Step.receiveSend defs (P :: before) between after _ _ _ _ _ hR hR'

end Term

/-! ### Soups -/

/-- The constants of a list of components, each as often as it occurs. -/
inductive Soup : List Term → Multiset ConstantName → Prop where
  | nil : Soup [] 0
  | inaction {Ps : List Term} {M : Multiset ConstantName} (h : Soup Ps M) :
      Soup (.inaction :: Ps) M
  | constant {Ps : List Term} {M : Multiset ConstantName} (X : ConstantName) (h : Soup Ps M) :
      Soup (.constant X :: Ps) ({X} + M)
  | exponent {Ps : List Term} {M N : Multiset ConstantName} {P : Term} {count : UInt64}
      (hP : Soup (List.replicate count.toNat P) M) (h : Soup Ps N) :
      Soup (.exponent P count :: Ps) (M + N)
  | parallel {Ps Qs : List Term} {M N : Multiset ConstantName} (hQ : Soup Qs M) (h : Soup Ps N) :
      Soup (.parallel Qs :: Ps) (M + N)

namespace Soup

variable {defs : Definitions} {Ps Qs : List Term} {P : Term} {M N K : Multiset ConstantName}

theorem append (h : Soup Ps M) (h' : Soup Qs N) : Soup (Ps ++ Qs) (M + N) := by
  induction h with
  | nil => rwa [zero_add]
  | inaction _ ih => exact ih.inaction
  | constant X _ ih =>
      rw [add_assoc]
      exact ih.constant X
  | exponent hP _ _ ih =>
      rw [add_assoc]
      exact hP.exponent ih
  | parallel hQ _ _ ih =>
      rw [add_assoc]
      exact hQ.parallel ih

/-- The constants of a list are those of its first component and those of the others. -/
theorem cons_inv (h : Soup (P :: Ps) M) : ∃ M₁ M₂, M = M₁ + M₂ ∧ Soup [P] M₁ ∧ Soup Ps M₂ := by
  cases h with
  | inaction h => exact ⟨0, M, (zero_add M).symm, nil.inaction, h⟩
  | constant X h => exact ⟨{X}, _, rfl, by simpa using nil.constant X, h⟩
  | exponent hP h => exact ⟨_, _, rfl, by simpa using hP.exponent nil, h⟩
  | parallel hQ h => exact ⟨_, _, rfl, by simpa using hQ.parallel nil, h⟩

theorem cons (h : Soup [P] M) (h' : Soup Ps N) : Soup (P :: Ps) (M + N) := h.append h'

theorem append_inv : ∀ {Ps : List Term} {M : Multiset ConstantName}, Soup (Ps ++ Qs) M →
    ∃ M₁ M₂, M = M₁ + M₂ ∧ Soup Ps M₁ ∧ Soup Qs M₂
  | [], M, h => ⟨0, M, (zero_add M).symm, nil, h⟩
  | P :: Ps, M, h => by
      obtain ⟨M₁, M', rfl, hP, hrest⟩ := cons_inv h
      obtain ⟨M₂, M₃, rfl, hPs, hQs⟩ := append_inv hrest
      exact ⟨M₁ + M₂, M₃, (add_assoc _ _ _).symm, hP.cons hPs, hQs⟩

theorem constant_singleton (X : ConstantName) : Soup [.constant X] {X} := by
  simpa using nil.constant X

theorem of_constant {X : ConstantName} (h : Soup [.constant X] M) : M = {X} := by
  cases h with
  | constant _ h =>
      cases h
      rw [add_zero]

theorem of_exponent {count : UInt64} (h : Soup [.exponent P count] M) :
    Soup (List.replicate count.toNat P) M := by
  cases h with
  | exponent hP h =>
      cases h
      rwa [add_zero]

theorem of_parallel (h : Soup [.parallel Ps] M) : Soup Ps M := by
  cases h with
  | parallel hQ h =>
      cases h
      rwa [add_zero]

theorem parallel_singleton (h : Soup Ps M) : Soup [.parallel Ps] M := by
  simpa using h.parallel nil

theorem exponent_singleton {count : UInt64} (h : Soup (List.replicate count.toNat P) M) :
    Soup [.exponent P count] M := by
  simpa using h.exponent nil

/-- Copies side by side hold the constants as often. -/
theorem replicate (h : Soup [P] M) : ∀ count : ℕ, Soup (List.replicate count P) (count • M)
  | 0 => by
      rw [zero_nsmul]
      exact nil
  | count + 1 => by
      rw [List.replicate_succ, succ_nsmul']
      exact h.cons (replicate h count)

/-! ### What a soup can do -/

open Term

/-- The ways in which a process with the constants `M` does an action and becomes `T`: one constant
moves, or two of them shake hands. -/
inductive Moves (defs : Definitions) (M : Multiset ConstantName) (a : Action) (T : Term) :
    Prop where
  | alone {X : ConstantName} {Q : Term} (N : Multiset ConstantName) (hM : M = {X} + N)
      (hX : Step defs (.constant X) a Q) (hT : ∀ K, Soup [Q] K → Soup [T] (N + K))
  | handshake {s : ActionName} {X Y : ConstantName} {Q Q' : Term} (N : Multiset ConstantName)
      (ha : a = .internal) (hM : M = {X} + ({Y} + N)) (hX : Step defs (.constant X) (.co s) Q)
      (hY : Step defs (.constant Y) (.input s) Q')
      (hT : ∀ K K', Soup [Q] K → Soup [Q'] K' → Soup [T] (N + K + K'))

theorem Moves.alone_of_ne {a : Action} {T : Term} (h : Moves defs M a T) (ha : a ≠ .internal) :
    ∃ X N Q, M = {X} + N ∧ Step defs (.constant X) a Q ∧
      ∀ K, Soup [Q] K → Soup [T] (N + K) := by
  cases h with
  | alone N hM hX hT => exact ⟨_, N, _, hM, hX, hT⟩
  | handshake _ heq => exact absurd heq ha

/-- The constants of one component of a composition and those around it, which stay as they are when
the component changes. -/
theorem focus {before after : List Term} (h : Soup [.parallel (before ++ P :: after)] M) :
    ∃ M₁ N, M = M₁ + N ∧ Soup [P] M₁ ∧
      ∀ {P' K}, Soup [P'] K → Soup [.parallel (before ++ P' :: after)] (N + K) := by
  obtain ⟨N₁, M', rfl, hbefore, h₁⟩ := append_inv h.of_parallel
  obtain ⟨M₁, N₂, rfl, hP, hafter⟩ := cons_inv h₁
  refine ⟨M₁, N₁ + N₂, by abel, hP, fun {P' K} hK => ?_⟩
  have hall := (hbefore.append (hK.cons hafter)).parallel_singleton
  rwa [show N₁ + (K + N₂) = N₁ + N₂ + K by abel] at hall

/-- The same for two components. -/
theorem focus_pair {before between after : List Term} {Q : Term}
    (h : Soup [.parallel (before ++ P :: (between ++ Q :: after))] M) :
    ∃ M₁ M₂ N, M = M₁ + M₂ + N ∧ Soup [P] M₁ ∧ Soup [Q] M₂ ∧
      ∀ {P' Q' K K'}, Soup [P'] K → Soup [Q'] K' →
        Soup [.parallel (before ++ P' :: (between ++ Q' :: after))] (N + K + K') := by
  obtain ⟨N₁, M', rfl, hbefore, h₁⟩ := append_inv h.of_parallel
  obtain ⟨M₁, M', rfl, hP, h₂⟩ := cons_inv h₁
  obtain ⟨N₂, M', rfl, hbetween, h₃⟩ := append_inv h₂
  obtain ⟨M₂, N₃, rfl, hQ, hafter⟩ := cons_inv h₃
  refine ⟨M₁, M₂, N₁ + N₂ + N₃, by abel, hP, hQ, fun {P' Q' K K'} hK hK' => ?_⟩
  have hall :=
    (hbefore.append (hK.cons (hbetween.append (hK'.cons hafter)))).parallel_singleton
  rwa [show N₁ + (K + (N₂ + (K' + N₃))) = N₁ + N₂ + N₃ + K + K' by abel] at hall

/-- Every step of a soup is one of its constants or a handshake of two. -/
theorem step_cases {a : Action} {T : Term} (h : Step defs P a T) :
    ∀ {M : Multiset ConstantName}, Soup [P] M → Moves defs M a T := by
  induction h with
  | guarded => exact fun h => nomatch h
  | choice _ => exact fun h => nomatch h
  | restriction _ _ _ _ => exact fun h => nomatch h
  | constant hbody hstep _ =>
      intro M h
      rw [h.of_constant]
      refine Moves.alone 0 (add_zero _).symm (Step.constant hbody hstep) fun K hK => ?_
      rwa [zero_add]
  | exponent _ ih => exact fun h => ih h.of_exponent.parallel_singleton
  | interleave _ ih =>
      intro M h
      obtain ⟨M₁, around, rfl, hP, hplug⟩ := focus h
      cases ih hP with
      | alone N hM hX hT =>
          refine Moves.alone (around + N) (by rw [hM]; abel) hX fun K hK => ?_
          rw [add_assoc]
          exact hplug (hT K hK)
      | handshake N ha hM hX hY hT =>
          refine Moves.handshake (around + N) ha (by rw [hM]; abel) hX hY fun K K' hK hK' => ?_
          rw [add_assoc, add_assoc, ← add_assoc N]
          exact hplug (hT K K' hK hK')
  | sendReceive _ _ ihP ihQ =>
      intro M h
      obtain ⟨M₁, M₂, around, rfl, hP, hQ, hplug⟩ := focus_pair h
      obtain ⟨X, N, R, rfl, hX, hT⟩ := (ihP hP).alone_of_ne (by simp)
      obtain ⟨Y, N', R', rfl, hY, hT'⟩ := (ihQ hQ).alone_of_ne (by simp)
      refine Moves.handshake (around + N + N') rfl (by abel) hX hY fun K K' hK hK' => ?_
      rw [show around + N + N' + K + K' = around + (N + K) + (N' + K') by abel]
      exact hplug (hT K hK) (hT' K' hK')
  | receiveSend _ _ ihP ihQ =>
      intro M h
      obtain ⟨M₁, M₂, around, rfl, hP, hQ, hplug⟩ := focus_pair h
      obtain ⟨Y, N', R', rfl, hY, hT'⟩ := (ihP hP).alone_of_ne (by simp)
      obtain ⟨X, N, R, rfl, hX, hT⟩ := (ihQ hQ).alone_of_ne (by simp)
      refine Moves.handshake (around + N + N') rfl (by abel) hX hY fun K K' hK hK' => ?_
      rw [show around + N + N' + K + K' = around + (N' + K') + (N + K) by abel]
      exact hplug (hT' K' hK') (hT K hK)

/-- A constant of a sum is one of either part. -/
theorem add_split {X : ConstantName} {M₁ M₂ : Multiset ConstantName} (h : M₁ + M₂ = {X} + N) :
    (∃ N₁, M₁ = {X} + N₁ ∧ N = N₁ + M₂) ∨ ∃ N₂, M₂ = {X} + N₂ ∧ N = M₁ + N₂ := by
  have hX : X ∈ M₁ + M₂ := by
    rw [h]
    exact Multiset.mem_add.2 (Or.inl (Multiset.mem_singleton_self X))
  rcases Multiset.mem_add.1 hX with hX | hX
  · obtain ⟨N₁, rfl⟩ := Multiset.exists_cons_of_mem hX
    rw [← Multiset.singleton_add, add_assoc] at h
    exact Or.inl ⟨N₁, (Multiset.singleton_add X N₁).symm, (add_left_cancel h).symm⟩
  · obtain ⟨N₂, rfl⟩ := Multiset.exists_cons_of_mem hX
    rw [← Multiset.singleton_add, add_left_comm] at h
    exact Or.inr ⟨N₂, (Multiset.singleton_add X N₂).symm, (add_left_cancel h).symm⟩

/-- Steps that do what the constants `M` do, alone or in pairs; `step a Ps` leaves the components
`Ps`. -/
structure Offers (defs : Definitions) (step : Action → List Term → Prop)
    (M : Multiset ConstantName) : Prop where
  alone : ∀ {X N a Q}, M = {X} + N → Step defs (.constant X) a Q →
    ∃ Ps, step a Ps ∧ ∀ K, Soup [Q] K → Soup Ps (N + K)
  handshake : ∀ {s X Y N Q Q'}, M = {X} + ({Y} + N) → Step defs (.constant X) (.co s) Q →
    Step defs (.constant Y) (.input s) Q' →
    ∃ Ps, step .internal Ps ∧ ∀ K K', Soup [Q] K → Soup [Q'] K' → Soup Ps (N + K + K')

/-- The steps of a process, as steps of its only component. -/
def stepsOf (defs : Definitions) (P : Term) (a : Action) (Ps : List Term) : Prop :=
  ∃ P', Step defs P a P' ∧ Ps = [P']

/-- The steps of a composition. -/
def stepsOfAll (defs : Definitions) (Ps : List Term) (a : Action) (Ps' : List Term) : Prop :=
  Step defs (.parallel Ps) a (.parallel Ps')

theorem Offers.nil (step : Action → List Term → Prop) : Offers defs step 0 where
  alone h _ := by
    have hX := congrArg Multiset.card h
    simp at hX
  handshake h _ _ := by
    have hX := congrArg Multiset.card h
    simp at hX

theorem Offers.constant (X : ConstantName) : Offers defs (stepsOf defs (.constant X)) {X} where
  alone {Y N a Q} h hY := by
    have hcard := congrArg Multiset.card h
    simp only [Multiset.card_singleton, Multiset.card_add, left_eq_add, Multiset.card_eq_zero] at hcard
    subst hcard
    rw [add_zero, Multiset.singleton_inj] at h
    subst h
    refine ⟨[Q], ⟨Q, hY, rfl⟩, fun K hK => ?_⟩
    rwa [zero_add]
  handshake h _ _ := by
    have hcard := congrArg Multiset.card h
    simp only [Multiset.card_singleton, Multiset.card_add] at hcard
    omega

theorem Offers.parallel (h : Offers defs (stepsOfAll defs Ps) M) :
    Offers defs (stepsOf defs (.parallel Ps)) M where
  alone hM hX :=
    have ⟨Ps', hstep, hsoup⟩ := h.alone hM hX
    ⟨[.parallel Ps'], ⟨_, hstep, rfl⟩, fun K hK => (hsoup K hK).parallel_singleton⟩
  handshake hM hX hY :=
    have ⟨Ps', hstep, hsoup⟩ := h.handshake hM hX hY
    ⟨[.parallel Ps'], ⟨_, hstep, rfl⟩, fun K K' hK hK' => (hsoup K K' hK hK').parallel_singleton⟩

theorem Offers.exponent {count : UInt64}
    (h : Offers defs (stepsOf defs (.parallel (List.replicate count.toNat P))) M) :
    Offers defs (stepsOf defs (.exponent P count)) M where
  alone hM hX :=
    have ⟨Ps, ⟨P', hstep, heq⟩, hsoup⟩ := h.alone hM hX
    ⟨Ps, ⟨P', Step.exponent hstep, heq⟩, hsoup⟩
  handshake hM hX hY :=
    have ⟨Ps, ⟨P', hstep, heq⟩, hsoup⟩ := h.handshake hM hX hY
    ⟨Ps, ⟨P', Step.exponent hstep, heq⟩, hsoup⟩

/-- A visible step of a composition is one of a component. -/
theorem stepsOfAll_cases {a : Action} {Ps' : List Term} (h : stepsOfAll defs Ps a Ps')
    (ha : a ≠ .internal) : ∃ before after P P', Ps = before ++ P :: after ∧
      Ps' = before ++ P' :: after ∧ Step defs P a P' := by
  unfold stepsOfAll at h
  cases h with
  | interleave h => exact ⟨_, _, _, _, rfl, rfl, h⟩
  | sendReceive _ _ => exact absurd rfl ha
  | receiveSend _ _ => exact absurd rfl ha

/-- A composition offers what its first component and the others do, and the handshakes between
them. -/
theorem Offers.cons {M₁ M₂ : Multiset ConstantName} (hP : Soup [P] M₁) (hPs : Soup Ps M₂)
    (hhead : Offers defs (stepsOf defs P) M₁) (htail : Offers defs (stepsOfAll defs Ps) M₂) :
    Offers defs (stepsOfAll defs (P :: Ps)) (M₁ + M₂) where
  alone {X N a Q} hM hX := by
    rcases add_split hM with ⟨N₁, hM₁, rfl⟩ | ⟨N₂, hM₂, rfl⟩
    · obtain ⟨_, ⟨P', hstep, rfl⟩, hsoup⟩ := hhead.alone hM₁ hX
      refine ⟨P' :: Ps, @Step.interleave defs [] Ps P P' a hstep, fun K hK => ?_⟩
      rw [add_right_comm]
      exact (hsoup K hK).cons hPs
    · obtain ⟨Ps', hstep, hsoup⟩ := htail.alone hM₂ hX
      refine ⟨P :: Ps', Step.parallel_cons hstep, fun K hK => ?_⟩
      rw [add_assoc]
      exact hP.cons (hsoup K hK)
  handshake {s X Y N Q Q'} hM hX hY := by
    rcases add_split hM with ⟨N₁, hM₁, hrest⟩ | ⟨N₂, hM₂, hrest⟩
    · rcases add_split hrest.symm with ⟨N₁', rfl, rfl⟩ | ⟨N₂, hM₂, rfl⟩
      · obtain ⟨_, ⟨P', hstep, rfl⟩, hsoup⟩ := hhead.handshake hM₁ hX hY
        refine ⟨P' :: Ps, @Step.interleave defs [] Ps P P' _ hstep, fun K K' hK hK' => ?_⟩
        have hall := (hsoup K K' hK hK').cons hPs
        rwa [show N₁' + K + K' + M₂ = N₁' + M₂ + K + K' by abel] at hall
      · -- the first component sends, another one receives
        obtain ⟨_, ⟨P', hsend, rfl⟩, hsoup⟩ := hhead.alone hM₁ hX
        obtain ⟨Ps', hstep, hsoup'⟩ := htail.alone hM₂ hY
        obtain ⟨before, after, R, R', rfl, rfl, hreceive⟩ := stepsOfAll_cases hstep (by simp)
        refine ⟨P' :: (before ++ R' :: after),
          @Step.sendReceive defs [] before after P P' R R' s hsend hreceive, fun K K' hK hK' => ?_⟩
        have hall := (hsoup K hK).cons (hsoup' K' hK')
        rwa [show N₁ + K + (N₂ + K') = N₁ + N₂ + K + K' by abel] at hall
    · rcases add_split hrest.symm with ⟨N₁, hM₁, rfl⟩ | ⟨N₂', rfl, rfl⟩
      · -- the first component receives, another one sends
        obtain ⟨_, ⟨P', hreceive, rfl⟩, hsoup'⟩ := hhead.alone hM₁ hY
        obtain ⟨Ps', hstep, hsoup⟩ := htail.alone hM₂ hX
        obtain ⟨before, after, R, R', rfl, rfl, hsend⟩ := stepsOfAll_cases hstep (by simp)
        refine ⟨P' :: (before ++ R' :: after),
          @Step.receiveSend defs [] before after P P' R R' s hreceive hsend, fun K K' hK hK' => ?_⟩
        have hall := (hsoup' K' hK').cons (hsoup K hK)
        rwa [show N₁ + K' + (N₂ + K) = N₁ + N₂ + K + K' by abel] at hall
      · obtain ⟨Ps', hstep, hsoup⟩ := htail.handshake hM₂ hX hY
        refine ⟨P :: Ps', Step.parallel_cons hstep, fun K K' hK hK' => ?_⟩
        have hall := hP.cons (hsoup K K' hK hK')
        rwa [show M₁ + (N₂' + K + K') = M₁ + N₂' + K + K' by abel] at hall

/-- The constants of a soup move, alone and in pairs, as steps of their composition. -/
theorem offers (h : Soup Ps M) : Offers defs (stepsOfAll defs Ps) M := by
  induction h with
  | nil => exact Offers.nil _
  | inaction h ih =>
      have hall := Offers.cons nil.inaction h (Offers.nil _) ih
      rwa [zero_add] at hall
  | constant X h ih => exact Offers.cons (constant_singleton X) h (Offers.constant X) ih
  | exponent hP h ihP ih => exact Offers.cons hP.exponent_singleton h ihP.parallel.exponent ih
  | parallel hQ h ihQ ih => exact Offers.cons hQ.parallel_singleton h ihQ.parallel ih

/-- The constants of a process move, alone and in pairs, as steps of the process. -/
theorem offers_singleton (h : Soup [P] M) : Offers defs (stepsOf defs P) M := by
  cases h with
  | inaction h =>
      cases h
      exact Offers.nil _
  | constant X h =>
      cases h
      rw [add_zero]
      exact Offers.constant X
  | exponent hP h =>
      cases h
      rw [add_zero]
      exact hP.offers.parallel.exponent
  | parallel hQ h =>
      cases h
      rw [add_zero]
      exact hQ.offers.parallel

/-! ### Soups of the constructors -/

theorem compose_singleton : ∀ {Ps : List Term} {M : Multiset ConstantName}, Soup Ps M →
    Soup [Term.compose Ps] M
  | [], _, h => h.inaction
  | [_], _, h => h
  | _ :: _ :: _, _, h => h.parallel_singleton

/-- Constants side by side. -/
theorem constants : ∀ names : List ConstantName, Soup (names.map .constant) names
  | [] => nil
  | name :: names => (constants names).constant name

theorem components_of_singleton (h : Soup [P] M) : Soup P.components M := by
  cases h with
  | inaction h => exact h
  | constant X h => exact h.constant X
  | exponent hP h => exact hP.exponent h
  | parallel hQ h =>
      cases h
      rwa [add_zero]

/-- Copies of a process hold its constants as often. -/
theorem copiesOf {count : UInt64} {T : Term} (h : Soup [P] M) (hT : P.CopiesOf count T) :
    Soup [T] (count.toNat • M) := by
  cases hT with
  | one => rwa [show (1 : UInt64).toNat = 1 from rfl, one_smul]
  | many _ => exact (h.replicate count.toNat).exponent_singleton

end Soup
end PetriCcs
