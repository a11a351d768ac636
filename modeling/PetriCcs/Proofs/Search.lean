import Mathlib.Data.List.Basic
import Mathlib.Logic.Relation
import PetriCcs.Classification.Search

/-! # What a search meets

A search meets the vertices on the paths that begin with a pending vertex and stay inside what
remains (`Met`); a round moves one of them out of what remains and keeps the others met
(`met_erase_iff`).  With a round for every vertex nothing that could be met is left
(`mem_searchRounds_iff`), so a search in a closed set of vertices misses none of them exactly when
all of them are reachable from the start (`isEmpty_unreached_iff`). -/

namespace PetriCcs

variable {α : Type} {next : α → List α} {remaining pending vertices : List α} {start v x : α}

/-- The vertices on a path from a pending vertex inside what remains. -/
inductive Met (next : α → List α) (remaining pending : List α) : α → Prop where
  | pending {v : α} (hin : v ∈ remaining) (h : v ∈ pending) : Met next remaining pending v
  | step {u v : α} (h : Met next remaining pending u) (hin : v ∈ remaining) (hnext : v ∈ next u) :
      Met next remaining pending v

/-- Nothing is met when no pending vertex remains. -/
theorem Met.exists_pending (h : Met next remaining pending v) :
    ∃ u ∈ pending, u ∈ remaining := by
  induction h with
  | pending hin h => exact ⟨_, h, hin⟩
  | step _ _ _ ih => exact ih

/-- In a set of vertices that no edge leaves, what is met is what can be reached. -/
theorem met_singleton_iff (hclosed : ∀ u ∈ vertices, ∀ v ∈ next u, v ∈ vertices)
    (hstart : start ∈ vertices) :
    Met next vertices [start] v ↔ Relation.ReflTransGen (fun u v => v ∈ next u) start v := by
  constructor
  · intro h
    induction h with
    | pending _ h =>
        rw [List.mem_singleton.1 h]
    | step _ _ hnext ih => exact ih.tail hnext
  · intro h
    have hmet : v ∈ vertices ∧ Met next vertices [start] v := by
      induction h with
      | refl => exact ⟨hstart, Met.pending hstart (List.mem_singleton_self start)⟩
      | tail _ hnext ih =>
          have hin := hclosed _ ih.1 _ hnext
          exact ⟨hin, ih.2.step hin hnext⟩
    exact hmet.2

/-- The order of the pending vertices plays no part. -/
theorem met_comm {pending' : List α} :
    Met next remaining (pending ++ pending') v ↔ Met next remaining (pending' ++ pending) v := by
  have hswap : ∀ {xs ys : List α}, Met next remaining (xs ++ ys) v →
      Met next remaining (ys ++ xs) v := by
    intro xs ys h
    induction h with
    | pending hin h =>
        exact Met.pending hin (List.mem_append.2 (List.mem_append.1 h).symm)
    | step _ hin hnext ih => exact ih.step hin hnext
  exact ⟨hswap, hswap⟩

variable [DecidableEq α]

/-- Once a pending vertex is taken out and its successors are pending, the others are met as
before. -/
theorem met_erase_iff (hin : x ∈ remaining) (hpending : x ∈ pending) (hne : v ≠ x) :
    Met next (remaining.erase x) (next x ++ pending) v ↔ Met next remaining pending v := by
  constructor
  · intro h
    clear hne
    induction h with
    | pending hv h =>
        have hv := List.mem_of_mem_erase hv
        rcases List.mem_append.1 h with h | h
        · exact (Met.pending hin hpending).step hv h
        · exact Met.pending hv h
    | step _ hv hnext ih => exact ih.step (List.mem_of_mem_erase hv) hnext
  · intro h
    induction h with
    | pending hv h =>
        exact Met.pending ((List.mem_erase_of_ne hne).2 hv) (List.mem_append_right _ h)
    | @step u v _ hv hnext ih =>
        have hv := (List.mem_erase_of_ne hne).2 hv
        by_cases hu : u = x
        · -- the path goes through the vertex that was taken out: it restarts behind it
          exact Met.pending hv (List.mem_append_left _ (hu ▸ hnext))
        · exact (ih hu).step hv hnext

/-- The vertex of a round is pending and remains. -/
theorem mem_of_find?_contains (hfind : pending.find? remaining.contains = some x) :
    x ∈ remaining ∧ x ∈ pending :=
  ⟨List.contains_iff_mem.1 (List.find?_some hfind), List.mem_of_find?_eq_some hfind⟩

/-- A search that finds no vertex for a round meets no more. -/
theorem not_met_of_find?_eq_none (hfind : pending.find? remaining.contains = none) :
    ¬ Met next remaining pending v := by
  intro h
  obtain ⟨u, hu, hin⟩ := h.exists_pending
  exact List.find?_eq_none.1 hfind u hu (List.contains_iff_mem.2 hin)

/-- With a round for every vertex, what is left of a search is what it cannot meet. -/
theorem mem_searchRounds_iff {rounds : ℕ} (hnodup : remaining.Nodup)
    (hrounds : remaining.length ≤ rounds) :
    v ∈ searchRounds next rounds remaining pending ↔
      v ∈ remaining ∧ ¬ Met next remaining pending v := by
  induction rounds generalizing remaining pending with
  | zero =>
      rw [List.length_eq_zero_iff.1 (Nat.le_zero.1 hrounds)]
      simp [searchRounds]
  | succ rounds ih =>
      rw [searchRounds]
      cases hfind : pending.find? remaining.contains with
      | none => exact (and_iff_left (not_met_of_find?_eq_none hfind)).symm
      | some x =>
          obtain ⟨hin, hpending⟩ := mem_of_find?_contains hfind
          have hlength : (remaining.erase x).length ≤ rounds := by
            rw [List.length_erase_of_mem hin]
            omega
          show v ∈ searchRounds next rounds (remaining.erase x) (next x ++ pending) ↔ _
          rw [ih (hnodup.erase x) hlength, hnodup.mem_erase_iff]
          by_cases hv : v = x
          · rw [hv]
            simp [Met.pending hin hpending]
          · rw [met_erase_iff hin hpending hv]
            simp [hv]

/-- A search misses no vertex exactly when every vertex can be reached from the start. -/
theorem isEmpty_unreached_iff (hnodup : vertices.Nodup)
    (hclosed : ∀ u ∈ vertices, ∀ v ∈ next u, v ∈ vertices) (hstart : start ∈ vertices) :
    (unreached next vertices [start]).isEmpty = true ↔
      ∀ v ∈ vertices, Relation.ReflTransGen (fun u v => v ∈ next u) start v := by
  rw [List.isEmpty_iff, List.eq_nil_iff_forall_not_mem]
  refine forall_congr' fun v => ?_
  rw [unreached, mem_searchRounds_iff hnodup (Nat.le_refl _), met_singleton_iff hclosed hstart,
    not_and, not_not]

end PetriCcs
