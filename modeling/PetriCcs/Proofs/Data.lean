import Mathlib.Tactic
import PetriCcs.Datum

/-! # Data without the names of records

Neither format writes the names of records, so what is read back is `Datum.unnamed`.  Lists and
records nest; `Datum.nestedInduction` has the hypothesis for every item and every field. -/

namespace PetriCcs
namespace Datum

/-- What stands in a field is smaller than the list of fields. -/
theorem sizeOf_snd_lt {fields : List (String × Datum)} {field : String × Datum}
    (h : field ∈ fields) : sizeOf field.2 < sizeOf fields := by
  obtain ⟨key, value⟩ := field
  have hlt := List.sizeOf_lt_of_mem h
  rw [Prod.mk.sizeOf_spec] at hlt
  show sizeOf value < sizeOf fields
  omega

/-- Induction over a datum, in a list or a record over everything in it. -/
@[elab_as_elim, induction_eliminator]
theorem nestedInduction {motive : Datum → Prop} (natural : ∀ n, motive (.natural n))
    (text : ∀ s, motive (.text s)) (boolean : ∀ b, motive (.boolean b))
    (list : ∀ items, (∀ item ∈ items, motive item) → motive (.list items))
    (record : ∀ name fields, (∀ field ∈ fields, motive field.2) → motive (.record name fields))
    (other : motive .other) : ∀ datum, motive datum
  | .natural n => natural n
  | .text s => text s
  | .boolean b => boolean b
  | .list items => list items fun item _ =>
      nestedInduction natural text boolean list record other item
  | .record name fields => record name fields fun field hfield =>
      have := sizeOf_snd_lt hfield
      nestedInduction natural text boolean list record other field.2
  | .other => other

mutual

/-- A datum with the names of its records left out, at any depth. -/
def unnamed : Datum → Datum
  | .list items => .list (unnamedItems items)
  | .record _ fields => .record none (unnamedFields fields)
  | datum => datum

def unnamedItems : List Datum → List Datum
  | [] => []
  | item :: rest => item.unnamed :: unnamedItems rest

def unnamedFields : List (String × Datum) → List (String × Datum)
  | [] => []
  | (key, value) :: rest => (key, value.unnamed) :: unnamedFields rest

end

theorem unnamedItems_eq_map : ∀ items, unnamedItems items = items.map unnamed
  | [] => rfl
  | item :: rest => congrArg (item.unnamed :: ·) (unnamedItems_eq_map rest)

theorem unnamedFields_eq_map : ∀ fields : List (String × Datum),
    unnamedFields fields = fields.map fun field => (field.1, field.2.unnamed)
  | [] => rfl
  | field :: rest => congrArg ((field.1, field.2.unnamed) :: ·) (unnamedFields_eq_map rest)

end Datum
end PetriCcs
