import PetriCcs.Document.Import
import PetriCcs.Proofs.Digits
import PetriCcs.Proofs.Reachable

/-! # References in a document

A reference is the display name of a node: a letter and the decimal digits of a positive number of
32 bits.  `Document.parseReference` accepts exactly these and returns the number
(`parseReference_eq_ok_iff`, `IsReference.parse`). -/

namespace PetriCcs

/-- A letter followed by the decimal digits, none of them spare, of a positive number of 32 bits. -/
def IsReference (letter : Char) (reference : String) : Prop :=
  ∃ n : ℕ, 1 ≤ n ∧ n ≤ 4294967295 ∧ reference = String.singleton letter ++ toString n

namespace Document

theorem toList_reference (letter : Char) (n : ℕ) :
    (String.singleton letter ++ toString n).toList = letter :: Nat.toDigits 10 n := by
  rw [String.toList_append, Nat.toString_eq_repr, Nat.toList_repr, String.toList_singleton]
  rfl

/-- A name is read from its own digits and nothing else. -/
theorem parseReference_eq_ok_iff {letter : Char} {reference : String} {name : NameIndex} :
    parseReference letter reference = .ok name ↔
      0 < name ∧ reference = String.singleton letter ++ toString name.toNat := by
  constructor
  · intro hok
    unfold parseReference at hok
    simp only at hok
    split at hok
    · rename_i n hnumber
      cases hok
      have hvalue : ∃ value : ℕ, (0 < value ∧ value < UInt32.size ∧
          letter :: Nat.toDigits 10 value = reference.toList) ∧ value.toUInt32 = name := by
        split at hnumber
        · split at hnumber
          · obtain ⟨value, -, hvalue⟩ := Option.bind_eq_some_iff.1 hnumber
            split_ifs at hvalue with hvalid
            exact ⟨value, hvalid, Option.some.inj hvalue⟩
          · cases hnumber
        · cases hnumber
      obtain ⟨value, ⟨hpos, hsize, hdigits⟩, rfl⟩ := hvalue
      have hnat : value.toUInt32.toNat = value := UInt32.toNat_ofNat_of_lt' hsize
      refine ⟨?_, ?_⟩
      · rw [UInt32.lt_iff_toNat_lt, hnat]
        exact hpos
      · rw [hnat]
        exact String.toList_injective (by rw [toList_reference, hdigits])
    · cases hok
  · rintro ⟨hpos, rfl⟩
    have hnat : 0 < name.toNat := hpos
    have hnumber : name.toNat.toUInt32 = name := UInt32.ofNat_toNat
    rw [parseReference, toList_reference]
    simp [Text.natural?_ten_toDigits, hnat, name.toNat_lt_size, hnumber]

/-- What is not a reference is refused. -/
theorem parseReference_refused {letter : Char} {reference : String}
    (h : ¬ IsReference letter reference) :
    ∃ error, parseReference letter reference = .error error := by
  cases hparse : parseReference letter reference with
  | error error => exact ⟨error, rfl⟩
  | ok name =>
      obtain ⟨hpos, heq⟩ := parseReference_eq_ok_iff.1 hparse
      exact absurd ⟨name.toNat, hpos, Nat.le_of_lt_succ name.toNat_lt_size, heq⟩ h

end Document

/-- A reference is read, and spells the number read. -/
theorem IsReference.parse {letter : Char} {reference : String} (h : IsReference letter reference) :
    ∃ name : NameIndex, 0 < name ∧ reference = String.singleton letter ++ toString name.toNat ∧
      Document.parseReference letter reference = .ok name := by
  obtain ⟨n, hpos, hle, rfl⟩ := h
  have hnat : n.toUInt32.toNat = n := UInt32.toNat_ofNat_of_lt' (Nat.lt_succ_of_le hle)
  have hname : 0 < n.toUInt32 := by
    rw [UInt32.lt_iff_toNat_lt, hnat]
    exact hpos
  refine ⟨n.toUInt32, hname, by rw [hnat], ?_⟩
  rw [Document.parseReference_eq_ok_iff, hnat]
  exact ⟨hname, rfl⟩

end PetriCcs
