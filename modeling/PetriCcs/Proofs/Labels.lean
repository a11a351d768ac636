import PetriCcs.Proofs.Names

/-! # Labels and their texts

A visible action is a lower-case letter followed by letters and digits of ASCII (`IsWord`).
`Label.parse?` reads exactly the texts of proper labels, and the text of a proper label reads back as
that label (`parse?_eq_some_iff`). -/

namespace PetriCcs

/-- A text that matches `^[a-z][A-Za-z0-9]*$`. -/
def IsWord (text : String) : Prop :=
  ∃ first rest, text.toList = first :: rest ∧ ('a' ≤ first ∧ first ≤ 'z') ∧
    ∀ c ∈ rest, ('a' ≤ c ∧ c ≤ 'z') ∨ ('A' ≤ c ∧ c ≤ 'Z') ∨ ('0' ≤ c ∧ c ≤ '9')

theorem isWordChar_iff {c : Char} : isWordChar c = true ↔
    ('a' ≤ c ∧ c ≤ 'z') ∨ ('A' ≤ c ∧ c ≤ 'Z') ∨ ('0' ≤ c ∧ c ≤ '9') := by
  simp [isWordChar, isLowerLetter, isUpperLetter, or_assoc]

namespace Label

theorem isVisibleAction_iff {text : String} : isVisibleAction text = true ↔ IsWord text := by
  unfold isVisibleAction IsWord
  cases text.toList with
  | nil => simp
  | cons first rest =>
      simp only [Bool.and_eq_true, List.all_eq_true, isWordChar_iff, isLowerLetter,
        decide_eq_true_eq, List.cons.injEq]
      constructor
      · rintro ⟨hfirst, hrest⟩
        exact ⟨first, rest, ⟨rfl, rfl⟩, hfirst, hrest⟩
      · rintro ⟨_, _, ⟨rfl, rfl⟩, hfirst, hrest⟩
        exact ⟨hfirst, hrest⟩

/-- A proper label is the internal one or a word. -/
theorem proper_iff {label : Label} :
    label.Proper ↔ label = .tau ∨ ∃ text, label = .visible text ∧ IsWord text := by
  cases label with
  | tau => simp [Proper]
  | visible text => simp [Proper, isVisibleAction_iff]

/-- The symbol of the internal action is no visible action. -/
theorem isVisibleAction_tauSymbol : isVisibleAction tauSymbol = false := by decide

/-- The texts that are read as a label are the texts of the proper labels. -/
theorem parse?_eq_some_iff {text : String} {label : Label} :
    parse? text = some label ↔ label.Proper ∧ label.text = text := by
  unfold parse?
  by_cases htau : text = tauSymbol
  · rw [if_pos htau]
    cases label with
    | tau => simp [Proper, Label.text, htau]
    | visible action =>
        simp only [reduceCtorEq, Option.some.injEq, false_iff, not_and]
        rintro hproper rfl
        have hvisible : isVisibleAction action = true := hproper
        have haction : action = tauSymbol := htau
        rw [haction, isVisibleAction_tauSymbol] at hvisible
        exact Bool.false_ne_true hvisible
  · rw [if_neg htau]
    cases label with
    | tau =>
        simp only [Proper, Label.text, true_and]
        split_ifs <;> simp [Ne.symm htau]
    | visible action =>
        simp only [Proper, Label.text]
        split_ifs with hvisible
        · constructor
          · intro heq
            cases heq
            exact ⟨hvisible, rfl⟩
          · rintro ⟨-, rfl⟩
            rfl
        · simp only [false_iff, not_and]
          rintro haction rfl
          exact hvisible haction

/-- A text is read as a label when it is the symbol of the internal action or a word. -/
theorem exists_parse?_iff {text : String} :
    (∃ label, parse? text = some label) ↔ text = tauSymbol ∨ IsWord text := by
  simp only [parse?_eq_some_iff, proper_iff]
  constructor
  · rintro ⟨label, rfl | ⟨word, rfl, hword⟩, rfl⟩
    · exact Or.inl rfl
    · exact Or.inr hword
  · rintro (rfl | hword)
    · exact ⟨.tau, Or.inl rfl, rfl⟩
    · exact ⟨.visible text, Or.inr ⟨text, rfl, hword⟩, rfl⟩

end Label
end PetriCcs
