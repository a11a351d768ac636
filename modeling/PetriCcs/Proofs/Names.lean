import PetriCcs.Ccs.Encoding
import PetriCcs.Proofs.Reachable

/-! # Names of an encoding

The names made from display names are proper names of the calculus, so none of them is refused
(`placeConstant_eq`, `generatorConstant_eq`, `syncName_eq`).  Distinct display names give distinct
names, the constants of places differ from those of transitions, and the name of a synchronisation
holds an underscore, which no visible label does (`syncKey_ne_of_shows`). -/

namespace PetriCcs

/-- The action that a label stands for: the internal one, or receiving on the visible name. -/
inductive Label.Shows : Label → Action → Prop where
  | tau : Shows .tau .internal
  | visible (name : ActionName) : Shows (.visible name.text) (.input name)

/-- A label that is internal or a letter followed by letters and digits. -/
def Label.Proper : Label → Prop
  | .tau => True
  | .visible action => isVisibleAction action = true

instance (label : Label) : Decidable label.Proper := by
  cases label
  · exact instDecidableTrue
  · exact inferInstanceAs (Decidable (_ = true))

/-- The labels of all transitions are proper. -/
def Net.ProperLabels (net : Net) : Prop :=
  ∀ transition ∈ net.transitions.toList, transition.label.Proper

instance (net : Net) : Decidable net.ProperLabels :=
  inferInstanceAs (Decidable (∀ transition ∈ net.transitions.toList, transition.label.Proper))

theorem ActionName.text_injective : Function.Injective ActionName.text := by
  rintro ⟨text, _⟩ ⟨text', _⟩ (rfl : text = text')
  rfl

namespace Encoding

/-! ### Validity -/

theorem isNameChar_of_isDigit {c : Char} (h : c.isDigit = true) : isNameChar c = true := by
  have hdigit : ('0' ≤ c && c ≤ '9') = true := h
  rw [isNameChar, isWordChar, hdigit, Bool.or_true, Bool.true_or]

/-- Digits continue a name. -/
theorem isName_append_number {isFirst : Char → Bool} {head letter : String}
    (h : isName isFirst (head ++ letter) = true) (n : ℕ) :
    isName isFirst (head ++ (letter ++ toString n)) = true := by
  have hdigits : (toString n).toList.all isNameChar = true := by
    rw [List.all_eq_true]
    intro c hc
    rw [Nat.toString_eq_repr, Nat.toList_repr] at hc
    exact isNameChar_of_isDigit (Nat.isDigit_of_mem_toDigits (by decide) (by decide) hc)
  rw [← String.append_assoc]
  unfold isName at h ⊢
  rw [String.toList_append]
  cases hlist : (head ++ letter).toList with
  | nil => simp [hlist] at h
  | cons first rest =>
      rw [hlist] at h
      obtain ⟨hfirst, hrest⟩ := Bool.and_eq_true_iff.1 h
      simp only [List.cons_append, List.all_append, hfirst, hrest, hdigits, Bool.and_self]

/-- The constant of a place. -/
def placeKey (place : Place) : ConstantName :=
  ⟨"X_" ++ place.displayName, isName_append_number (by decide) place.name.toNat⟩

/-- The constant of a transition without inputs. -/
def generatorKey (transition : Transition) : ConstantName :=
  ⟨"X_" ++ transition.displayName, isName_append_number (by decide) transition.name.toNat⟩

/-- The name of a synchronisation. -/
def syncKey (transition : Transition) : ActionName :=
  ⟨"s_" ++ transition.displayName, isName_append_number (by decide) transition.name.toNat⟩

theorem ofTerm_constantName (name : ConstantName) :
    ofTerm (ConstantName.ofString name.text) = .ok name := by
  rw [ConstantName.ofString, dif_pos name.valid]
  rfl

theorem ofTerm_actionName (name : ActionName) :
    ofTerm (ActionName.ofString name.text) = .ok name := by
  rw [ActionName.ofString, dif_pos name.valid]
  rfl

theorem placeConstant_eq (place : Place) : placeConstant place = .ok (placeKey place) :=
  ofTerm_constantName (placeKey place)

theorem generatorConstant_eq (transition : Transition) :
    generatorConstant transition = .ok (generatorKey transition) :=
  ofTerm_constantName (generatorKey transition)

theorem syncName_eq (transition : Transition) :
    syncName transition = .ok (syncKey transition) :=
  ofTerm_actionName (syncKey transition)

theorem isNameChar_of_isWordChar {c : Char} (h : isWordChar c = true) : isNameChar c = true := by
  rw [isNameChar, h, Bool.true_or]

/-- A visible action is the name of an action. -/
theorem isName_of_isVisibleAction {raw : String} (h : Label.isVisibleAction raw = true) :
    isName isLowerLetter raw = true := by
  unfold Label.isVisibleAction at h
  unfold isName
  cases hlist : raw.toList with
  | nil => simp [hlist] at h
  | cons first rest =>
      rw [hlist] at h
      obtain ⟨hfirst, hrest⟩ := Bool.and_eq_true_iff.1 h
      refine Bool.and_eq_true_iff.2 ⟨hfirst, List.all_eq_true.2 fun c hc => ?_⟩
      exact isNameChar_of_isWordChar (List.all_eq_true.1 hrest c hc)

/-- A proper label has an action, and the encoder finds it. -/
theorem labelAction_eq {label : Label} (h : label.Proper) :
    ∃ a, labelAction label = .ok a ∧ label.Shows a := by
  cases label with
  | tau => exact ⟨.internal, rfl, Label.Shows.tau⟩
  | visible action =>
      have hname := isName_of_isVisibleAction h
      refine ⟨.input ⟨action, hname⟩, ?_, Label.Shows.visible ⟨action, hname⟩⟩
      exact congrArg (Except.map Action.input) (ofTerm_actionName ⟨action, hname⟩)

theorem shows_unique {label : Label} {a a' : Action} (h : label.Shows a) (h' : label.Shows a') :
    a = a' := by
  cases h with
  | tau =>
      cases h'
      rfl
  | visible name =>
      obtain ⟨text, valid⟩ := name
      generalize hlabel : Label.visible text = label at h'
      cases h' with
      | tau => cases hlabel
      | visible name' =>
          obtain ⟨text', valid'⟩ := name'
          cases hlabel
          rfl

/-- No label sends. -/
theorem not_shows_co {label : Label} {s : ActionName} : ¬ label.Shows (.co s) := fun h => nomatch h

/-! ### Distinct names -/

theorem placeKey_inj {place place' : Place} (h : placeKey place = placeKey place') :
    place.displayName = place'.displayName :=
  String.append_right_inj "X_" |>.1 (congrArg ConstantName.text h)

theorem generatorKey_inj {transition transition' : Transition}
    (h : generatorKey transition = generatorKey transition') :
    transition.displayName = transition'.displayName :=
  String.append_right_inj "X_" |>.1 (congrArg ConstantName.text h)

theorem syncKey_inj {transition transition' : Transition}
    (h : syncKey transition = syncKey transition') :
    transition.displayName = transition'.displayName :=
  String.append_right_inj "s_" |>.1 (congrArg ActionName.text h)

/-- The constants of places start differently from those of transitions. -/
theorem placeKey_ne_generatorKey (place : Place) (transition : Transition) :
    placeKey place ≠ generatorKey transition := by
  intro h
  have hnames : "p" ++ toString place.name.toNat = "t" ++ toString transition.name.toNat :=
    String.append_right_inj "X_" |>.1 (congrArg ConstantName.text h)
  have hlist := congrArg String.toList hnames
  simp at hlist

theorem not_isWordChar_underscore : isWordChar '_' = false := by decide

/-- No proper label stands for an action on the name of a synchronisation. -/
theorem syncKey_ne_of_shows {label : Label} {name : ActionName} (hproper : label.Proper)
    (h : label.Shows (.input name)) (transition : Transition) : name ≠ syncKey transition := by
  cases h with
  | visible =>
      rintro rfl
      have hvisible : Label.isVisibleAction ("s_" ++ transition.displayName) = true := hproper
      unfold Label.isVisibleAction at hvisible
      rw [String.toList_append, show "s_".toList = ['s', '_'] by decide] at hvisible
      have hword := (Bool.and_eq_true_iff.1 hvisible).2
      have hunderscore := List.all_eq_true.1 hword '_' List.mem_cons_self
      rw [not_isWordChar_underscore] at hunderscore
      exact Bool.false_ne_true hunderscore

end Encoding
end PetriCcs
