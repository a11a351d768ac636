import Mathlib.Tactic
import PetriCcs.Files.Directory

/-! # Directories keep what is written

After a text is put at the place that a path leads to, the path leads to a file with that text
(`find_put`), so a file is read as it was written under its path (`read_of_write`).  The path may
go through directories and back: on its way it meets the place of the file only at its end
(`follow_name_cases`, `lookup_ne_none_of_isFolder`). -/

namespace PetriCcs
namespace Directory

variable {directory directory' : Directory} {place : List String} {text : String}

/-- The place of a file that is there or could be made. -/
def Target.place? : Target → Option (List String)
  | .file place _ | .vacant place => some place
  | .folder _ | .nothing _ => none

theorem lookup_put (directory : Directory) (place : List String) (text : String)
    (other : List String) : (directory.put place text).files.lookup other =
      if other = place then some text else directory.files.lookup other := by
  by_cases heq : other = place
  · subst heq
    rw [if_pos rfl, put, List.lookup_cons_self]
  · have hne : (other == place) = false := beq_eq_false_iff_ne.2 heq
    rw [if_neg heq, put, List.lookup_cons, hne]
    show (directory.files.filter (·.1 ≠ place)).lookup other = _
    induction directory.files with
    | nil => rfl
    | cons file files ih =>
        by_cases hfile : file.1 = place
        · have hother : (other == file.1) = false := hfile ▸ hne
          rw [List.filter_cons_of_neg (by simpa using hfile), ih, List.lookup_cons, hother]
        · rw [List.filter_cons_of_pos (by simpa using hfile), List.lookup_cons, List.lookup_cons, ih]

theorem isFolder_put (directory : Directory) (place : List String) (text : String)
    (other : List String) : (directory.put place text).isFolder other = directory.isFolder other :=
  rfl

section follow
variable {piece : List Char} {pieces : List (List Char)} {start : List String}

/-- A piece stays in its folder or goes up, whatever the directory holds, or is a name. -/
theorem follow_cons_cases (start : List String) (piece : List Char) (pieces : List (List Char)) :
    (∃ next, ∀ directory : Directory,
      directory.follow start (piece :: pieces) = directory.follow next pieces) ∨
    (¬ (piece = [] || piece = ['.']) = true ∧ piece ≠ ['.', '.']) := by
  by_cases hstay : (piece = [] || piece = ['.']) = true
  · exact .inl ⟨start, fun directory => by rw [follow, if_pos hstay]⟩
  by_cases hup : piece = ['.', '.']
  · exact .inl ⟨up start, fun directory => by rw [follow, if_neg hstay, if_pos hup]⟩
  · exact .inr ⟨hstay, hup⟩

/-- A name that leads to a place is the last piece, and no folder is there without a file, or leads
to a folder from which the other pieces lead on. -/
theorem follow_name_cases (hstay : ¬ (piece = [] || piece = ['.']) = true)
    (hup : piece ≠ ['.', '.'])
    (h : (directory.follow start (piece :: pieces)).place? = some place) :
    (pieces = [] ∧ start ++ [String.ofList piece] = place ∧
      (directory.isFolder place = true → directory.files.lookup place ≠ none)) ∨
    (directory.files.lookup (start ++ [String.ofList piece]) = none ∧
      directory.isFolder (start ++ [String.ofList piece]) = true ∧
      (directory.follow (start ++ [String.ofList piece]) pieces).place? = some place) := by
  rw [follow, if_neg hstay, if_neg hup] at h
  dsimp only at h
  cases hlookup : directory.files.lookup (start ++ [String.ofList piece]) with
  | some text =>
      rw [hlookup] at h
      cases pieces with
      | nil =>
          cases h
          exact .inl ⟨rfl, rfl, fun _ => hlookup ▸ Option.some_ne_none _⟩
      | cons _ _ => cases h
  | none =>
      rw [hlookup] at h
      by_cases hfolder : directory.isFolder (start ++ [String.ofList piece]) = true
      · exact .inr ⟨rfl, hfolder, by simpa only [if_pos hfolder] using h⟩
      · rw [if_neg hfolder] at h
        cases pieces with
        | nil =>
            cases h
            exact .inl ⟨rfl, rfl, fun hfolder' => absurd hfolder' hfolder⟩
        | cons _ _ => cases h

/-- A path leads to no folder without a file, when it leads to a place for a file. -/
theorem lookup_ne_none_of_isFolder (h : (directory.follow start pieces).place? = some place)
    (hfolder : directory.isFolder place = true) : directory.files.lookup place ≠ none := by
  induction pieces generalizing start with
  | nil => cases h
  | cons piece pieces ih =>
      obtain ⟨next, hnext⟩ | ⟨hstay, hup⟩ := follow_cons_cases start piece pieces
      · rw [hnext] at h
        exact ih h
      obtain ⟨-, -, hfree⟩ | ⟨-, -, hrest⟩ := follow_name_cases hstay hup h
      · exact hfree hfolder
      · exact ih hrest

/-- Following a path leads to what is put at the place it led to. -/
theorem follow_put (text : String) (h : (directory.follow start pieces).place? = some place) :
    (directory.put place text).follow start pieces = .file place text := by
  have hfree := lookup_ne_none_of_isFolder h
  induction pieces generalizing start with
  | nil => cases h
  | cons piece pieces ih =>
      obtain ⟨next, hnext⟩ | ⟨hstay, hup⟩ := follow_cons_cases start piece pieces
      · rw [hnext] at h ⊢
        exact ih h
      rw [follow, if_neg hstay, if_neg hup]
      dsimp only
      obtain ⟨rfl, rfl, -⟩ | ⟨hnone, hfolder, hrest⟩ := follow_name_cases hstay hup h
      · simp [lookup_put]
      · -- A folder on the way is not the place, which has a file where it has a folder.
        have hne : start ++ [String.ofList piece] ≠ place := by
          rintro rfl
          exact hfree hfolder hnone
        rw [lookup_put, if_neg hne, hnone, isFolder_put]
        simp only [hfolder, if_true]
        exact ih hrest

end follow

theorem find_put {path : String} (text : String) (h : (directory.find path).place? = some place) :
    (directory.put place text).find path = .file place text := by
  unfold find at h ⊢
  split at h
  · cases h
  · split_ifs at h ⊢ with hempty
    · cases h
    · exact follow_put text h

/-- A file holds what was written under its path. -/
theorem read_of_write {path : String} (h : directory.write path text = (.ok (), directory')) :
    directory'.read path = .ok text := by
  have hplace : ∃ place, (directory.find path).place? = some place ∧
      directory' = directory.put place text := by
    unfold write at h
    split at h
    case h_1 place old hfind => exact ⟨place, by rw [hfind]; rfl, (Prod.mk.inj h).2.symm⟩
    case h_2 place hfind => exact ⟨place, by rw [hfind]; rfl, (Prod.mk.inj h).2.symm⟩
    all_goals cases (Prod.mk.inj h).1
  obtain ⟨place, hplace, rfl⟩ := hplace
  rw [read, find_put text hplace]

end Directory
end PetriCcs
