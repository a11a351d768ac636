import Mathlib.Data.List.Perm.Basic
import Mathlib.Tactic
import PetriCcs.Arena

/-! # Lookups in an arena

Every operation on an arena is described by what `get?` finds afterwards: `get?_push`,
`get?_update`, `get?_map` and `get?_swapRemove`.  A removal also permutes the list of values
(`toList_perm_swapRemove`). -/

namespace PetriCcs

open scoped List

/-- Filling a position with the last value and dropping that takes out the value at the position. -/
theorem perm_cons_set_dropLast {α : Type} {values : List α} {i : Nat} {value last : α}
    (hvalue : values[i]? = some value) (hlast : values.getLast? = some last) :
    values ~ value :: (values.set i last).dropLast := by
  obtain ⟨front, rfl⟩ := List.getLast?_eq_some_iff.1 hlast
  by_cases hi : i < front.length
  · have hget : front[i] = value := by
      rw [List.getElem?_append_left hi, List.getElem?_eq_getElem hi] at hvalue
      exact Option.some.inj hvalue
    rw [List.set_append_left _ _ hi, List.dropLast_concat]
    calc
      front ++ [last] ~ last :: front := List.perm_append_singleton last front
      _ ~ last :: front[i] :: front.eraseIdx i :=
        (List.getElem_cons_eraseIdx_perm hi).symm.cons last
      _ ~ front[i] :: last :: front.eraseIdx i := List.Perm.swap _ _ _
      _ ~ value :: front.set i last := by
        rw [hget]
        exact (List.set_perm_cons_eraseIdx hi last).symm.cons value
  · have hlen : i = front.length := by
      have := (List.getElem?_eq_some_iff.1 hvalue).1
      simp only [List.length_append, List.length_singleton] at this
      omega
    subst hlen
    rw [List.getElem?_concat_length] at hvalue
    obtain rfl := Option.some.inj hvalue
    simp

namespace Arena

variable {kind : Kind} {α : Type} {arena : Arena kind α} {id : Handle kind}

theorem contains_iff : arena.contains id = true ↔ id.owner = arena.owner ∧ id.index < arena.size := by
  simp [contains]

theorem contains_iff_get? : arena.contains id = true ↔ ∃ value, arena.get? id = some value := by
  rw [contains_iff, get?, size]
  by_cases howner : id.owner = arena.owner
  · rw [if_pos howner]
    simp [howner, Array.getElem?_eq_some_iff]
  · simp [howner]

theorem contains_of_get? {value : α} (h : arena.get? id = some value) : arena.contains id = true :=
  contains_iff_get?.2 ⟨value, h⟩

theorem get?_eq_none_iff : arena.get? id = none ↔ ¬ arena.contains id = true := by
  rw [contains_iff_get?]
  cases arena.get? id <;> simp

theorem owner_of_get? {value : α} (h : arena.get? id = some value) : id.owner = arena.owner :=
  (contains_iff.1 (contains_of_get? h)).1

@[simp] theorem get?_handleAt (position : Nat) :
    arena.get? (arena.handleAt position) = arena.items[position]? := by
  simp [get?, handleAt]

theorem handleAt_index (h : id.owner = arena.owner) : arena.handleAt id.index = id := by
  cases id
  simp_all [handleAt]

theorem get?_eq_items (h : id.owner = arena.owner) : arena.get? id = arena.items[id.index]? := by
  simp [get?, h]

@[simp] theorem get?_empty (owner : Nat) : (empty owner : Arena kind α).get? id = none := by
  simp [get?, empty]

theorem mem_toList_iff {value : α} : value ∈ arena.toList ↔ ∃ id, arena.get? id = some value := by
  rw [toList, Array.mem_toList_iff, Array.mem_iff_getElem?]
  constructor
  · rintro ⟨i, hi⟩
    exact ⟨arena.handleAt i, by rw [get?_handleAt, hi]⟩
  · rintro ⟨id, hid⟩
    rw [get?_eq_items (owner_of_get? hid)] at hid
    exact ⟨id.index, hid⟩

theorem mem_handles_iff : id ∈ arena.handles ↔ arena.contains id = true := by
  rw [contains_iff, handles, List.mem_map]
  constructor
  · rintro ⟨i, hi, rfl⟩
    exact ⟨rfl, List.mem_range.1 hi⟩
  · rintro ⟨howner, hindex⟩
    exact ⟨id.index, List.mem_range.2 hindex, handleAt_index howner⟩

theorem mem_entries_iff {value : α} :
    (id, value) ∈ arena.entries ↔ arena.get? id = some value := by
  simp only [entries, toList, List.mem_map, Prod.mk.injEq, Prod.exists, List.mem_zipIdx_iff_getElem?,
    Array.getElem?_toList]
  constructor
  · rintro ⟨_, i, hi, rfl, rfl⟩
    rw [get?_handleAt, hi]
  · intro h
    have howner := owner_of_get? h
    rw [get?_eq_items howner] at h
    exact ⟨value, id.index, h, handleAt_index howner, rfl⟩

theorem map_snd_entries (arena : Arena kind α) : arena.entries.map Prod.snd = arena.toList := by
  rw [entries, List.map_map]
  exact List.zipIdx_map_fst 0 arena.toList

/-- What depends on the positions in an arena and on what `f` shows of the values there. -/
theorem map_entries {β γ : Type} (arena : Arena kind α) (f : α → β) (g : ℕ → β → γ) :
    arena.entries.map (fun (id, value) => g id.index (f value)) =
      (arena.toList.map f).zipIdx.map fun (shown, position) => g position shown := by
  rw [entries, List.zipIdx_map, List.map_map, List.map_map]
  rfl

theorem nodup_handles (arena : Arena kind α) : arena.handles.Nodup := by
  refine List.nodup_range.map fun i j heq => ?_
  exact congrArg Handle.index heq

/-- Values that know their handle are stored once. -/
theorem nodup_toList {idOf : α → Handle kind}
    (h : ∀ {id value}, arena.get? id = some value → idOf value = id) : arena.toList.Nodup := by
  rw [List.nodup_iff_pairwise_ne, List.pairwise_iff_getElem]
  intro i j hi hj hlt heq
  have hget : ∀ {k} (hk : k < arena.toList.length),
      arena.get? (arena.handleAt k) = some arena.toList[k] := by
    intro k hk
    rw [get?_handleAt, ← Array.getElem?_toList]
    exact List.getElem?_eq_getElem hk
  have hid := h (hget hi)
  rw [heq, h (hget hj)] at hid
  have hindex : j = i := congrArg Handle.index hid
  omega

/-! ### Growing -/

@[simp] theorem owner_push (value : α) : (arena.push value).owner = arena.owner := rfl

@[simp] theorem toList_push (value : α) : (arena.push value).toList = arena.toList ++ [value] := by
  simp [toList, push]

theorem handles_push (value : α) :
    (arena.push value).handles = arena.handles ++ [arena.nextHandle] := by
  have hsize : (arena.push value).size = arena.size + 1 := Array.size_push value
  rw [handles, hsize, List.range_succ, List.map_append]
  rfl

theorem not_contains_nextHandle : ¬ arena.contains arena.nextHandle = true := by
  simp [contains_iff, nextHandle, handleAt]

theorem get?_push (value : α) :
    (arena.push value).get? id = if id = arena.nextHandle then some value else arena.get? id := by
  by_cases howner : id.owner = arena.owner
  · rw [@get?_eq_items _ _ (arena.push value) id howner, get?_eq_items howner]
    have hnext : id = arena.nextHandle ↔ id.index = arena.items.size := by
      simp [nextHandle, handleAt, size, Handle.ext_iff, howner]
    by_cases hlast : id.index = arena.items.size
    · rw [if_pos (hnext.2 hlast)]
      simp [push, hlast]
    · rw [if_neg (fun h => hlast (hnext.1 h))]
      simp [push, Array.getElem?_push, hlast]
  · have hne : id ≠ arena.nextHandle := by
      rintro rfl
      exact howner rfl
    rw [if_neg hne, get?, get?, if_neg howner, if_neg (by simpa using howner)]

/-! ### Changing values -/

theorem get?_map (f : α → α) : (arena.map f).get? id = (arena.get? id).map f := by
  by_cases howner : id.owner = arena.owner
  · simp [get?, map, howner]
  · simp [get?, map, howner]

theorem get?_retag (owner : Nat) :
    (arena.retag owner).get? id = if id.owner = owner then arena.items[id.index]? else none := rfl

@[simp] theorem size_map (f : α → α) : (arena.map f).size = arena.size := by
  simp [size, map]

theorem handles_map (f : α → α) : (arena.map f).handles = arena.handles := by
  rw [handles, size_map]
  rfl

@[simp] theorem toList_map (f : α → α) : (arena.map f).toList = arena.toList.map f := by
  simp [toList, map]

/-- Changing no value changes nothing. -/
theorem map_eq_self {f : α → α}
    (h : ∀ {id value}, arena.get? id = some value → f value = value) : arena.map f = arena := by
  have hitems : arena.items.map f = arena.items := by
    refine Array.ext Array.size_map fun i hi hi' => ?_
    have hget : arena.get? (arena.handleAt i) = some arena.items[i] := by
      rw [get?_handleAt]
      exact Array.getElem?_eq_getElem hi'
    rw [Array.getElem_map, h hget]
  rw [map, hitems]

/-- Changing one value is possible where there is one. -/
theorem update?_of_contains (f : α → α) (h : arena.contains id = true) :
    arena.update? id f = some { arena with items := arena.items.modify id.index f } := by
  rw [update?, if_pos h]

theorem get?_modify {f : α → α} {k : Handle kind} (h : id.owner = arena.owner) :
    ({ arena with items := arena.items.modify id.index f } : Arena kind α).get? k =
      if k = id then (arena.get? k).map f else arena.get? k := by
  by_cases howner : k.owner = arena.owner
  · have hk : k = id ↔ id.index = k.index := by
      rw [Handle.ext_iff, howner, h]
      simp [eq_comm]
    simp only [get?, howner, if_true, Array.getElem?_modify, hk]
  · have hne : k ≠ id := fun e => howner (e ▸ h)
    rw [if_neg hne, get?, get?, if_neg howner, if_neg howner]

/-- Changing one value keeps everything that the change does not affect. -/
theorem map_modify {f : α → α} (g : α → α) (i : Nat) (h : ∀ value, g (f value) = g value) :
    ({ arena with items := arena.items.modify i f } : Arena kind α).map g = arena.map g := by
  simp only [map, mk.injEq, true_and]
  apply Array.ext_getElem?
  intro j
  simp only [Array.getElem?_map, Array.getElem?_modify]
  split
  · cases arena.items[j]? <;> simp [h]
  · rfl

/-- Changing one value keeps a list of what the change does not affect. -/
theorem map_toList_modify {β : Type} {f : α → α} (g : α → β) (i : Nat)
    (h : ∀ value, g (f value) = g value) :
    ({ arena with items := arena.items.modify i f } : Arena kind α).toList.map g =
      arena.toList.map g := by
  apply List.ext_getElem?
  intro j
  simp only [toList, List.getElem?_map, Array.getElem?_toList, Array.getElem?_modify]
  split
  · cases arena.items[j]? <;> simp [h]
  · rfl

/-! ### Removing -/

/-- The handle of the last value. -/
def lastHandle (arena : Arena kind α) : Handle kind := arena.handleAt (arena.size - 1)

/-- An arena with a value has a last one. -/
theorem exists_get?_lastHandle {value : α} (h : arena.get? id = some value) :
    ∃ last, arena.get? arena.lastHandle = some last := by
  rw [← contains_iff_get?, contains_iff]
  have hindex := (contains_iff.1 (contains_of_get? h)).2
  refine ⟨rfl, ?_⟩
  simp only [lastHandle, handleAt]
  omega

/-- There are at most as many distinct handles of values as values. -/
theorem length_le_size {ids : List (Handle kind)} (hnodup : ids.Nodup)
    (h : ∀ id ∈ ids, arena.contains id = true) : ids.length ≤ arena.size := by
  have hsub : ids ⊆ arena.handles := fun id hid => mem_handles_iff.2 (h id hid)
  have hle := (List.subperm_of_subset hnodup hsub).length_le
  simpa [handles] using hle

theorem swapRemove?_eq {value : α} (h : arena.get? id = some value) :
    ∃ removal, arena.swapRemove? id = some removal ∧ removal.value = value ∧
      removal.movedFrom = (if arena.lastHandle = id then none else some arena.lastHandle) ∧
      removal.rest.owner = arena.owner ∧ removal.rest.size + 1 = arena.size ∧
      ∀ k, removal.rest.get? k =
        if k = arena.lastHandle then none
        else if k = id then arena.get? arena.lastHandle else arena.get? k := by
  obtain ⟨howner, hindex⟩ := contains_iff.1 (contains_of_get? h)
  have hpos : 0 < arena.items.size := Nat.lt_of_le_of_lt (Nat.zero_le _) hindex
  have hfinal : arena.items.size - 1 < arena.items.size := by omega
  have hback : arena.items.back? = some arena.items[arena.items.size - 1] := by
    rw [Array.back?_eq_getElem?, Array.getElem?_eq_getElem hfinal]
  have hlast : arena.get? arena.lastHandle = some arena.items[arena.items.size - 1] := by
    rw [lastHandle, get?_handleAt, size, Array.getElem?_eq_getElem hfinal]
  refine ⟨_, by rw [swapRemove?, h, hback], rfl, rfl, rfl, ?_, ?_⟩
  · simp only [size, Array.size_pop, Array.size_setIfInBounds]
    omega
  · intro k
    by_cases hk : k.owner = arena.owner
    · rw [hlast, get?_eq_items hk]
      simp only [get?, hk, if_true, Array.getElem?_pop, Array.getElem?_setIfInBounds,
        Array.size_setIfInBounds]
      have hkl : k = arena.lastHandle ↔ k.index = arena.items.size - 1 := by
        simp [lastHandle, handleAt, size, Handle.ext_iff, hk]
      have hki : k = id ↔ id.index = k.index := by
        rw [Handle.ext_iff, hk, howner]
        simp [eq_comm]
      simp only [hkl, hki]
      simp only [size] at hindex
      by_cases h1 : k.index = arena.items.size - 1
      · rw [if_pos h1, if_neg (by omega)]
      · rw [if_neg h1]
        by_cases h2 : id.index = k.index
        · rw [if_pos (by omega), if_pos h2, if_pos h2, if_pos (by omega)]
        · rw [if_neg h2, if_neg h2]
          by_cases h3 : k.index < arena.items.size - 1
          · rw [if_pos h3]
          · rw [if_neg h3, Array.getElem?_eq_none (by omega)]
    · have h1 : k ≠ arena.lastHandle := fun e => hk (e ▸ rfl)
      have h2 : k ≠ id := fun e => hk (e ▸ howner)
      rw [if_neg h1, if_neg h2, get?, get?, if_neg hk, if_neg hk]

/-- Values stored under their own handles still are after a removal, except for the value that moved
to the freed one. -/
theorem stored_of_moved {rest : Arena kind α} {last : Handle kind} {idOf : α → Handle kind}
    (hstored : ∀ {k value}, arena.get? k = some value → idOf value = k)
    (hget : ∀ k, rest.get? k =
      if k = last then none else if k = id then arena.get? last else arena.get? k)
    {k : Handle kind} {value : α} (hk : k ≠ id) (h : rest.get? k = some value) : idOf value = k := by
  rw [hget, if_neg hk] at h
  split_ifs at h
  exact hstored h

/-- The values of an arena are the removed one and those that are left. -/
theorem toList_perm_swapRemove {removal : Removal kind α} (h : arena.swapRemove? id = some removal) :
    arena.toList ~ removal.value :: removal.rest.toList := by
  rw [swapRemove?] at h
  split at h
  · rename_i value last hvalue hlast
    cases h
    rw [get?_eq_items (owner_of_get? hvalue)] at hvalue
    simpa [toList] using @perm_cons_set_dropLast _ arena.items.toList _ _ _
      (by simpa using hvalue) (by simpa using hlast)
  · cases h

end Arena
end PetriCcs
