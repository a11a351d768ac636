import PetriCcs.Proofs.NameTable

/-! # Histories of a name table

A table on its own takes any names: 0 and the largest one, names claimed twice, names given back that
nobody had.  `NameTable.after` is the table that a history leads to; `Held` and `GivenBack` are read off
the history alone.  `Recounts` is what a table remembers of its history: one move keeps it
(`Recounts.move`), and so does a whole history while the counter has room (`recounts_after`).  So a
table knows which names are in use, and it knows the smallest free one exactly as long as 0 was not
given back (`history_answers`, `zero_given_back`). -/

namespace PetriCcs.NameTable

/-- What can be done to a table. -/
inductive Move where
  | claim (name : NameIndex)
  | release (name : NameIndex)
  | clear
  deriving DecidableEq

def Move.apply (table : NameTable) : Move → NameTable
  | .claim name => table.claim name
  | .release name => table.release name
  | .clear => .empty

def Move.isClaim : Move → Bool
  | .claim _ => true
  | _ => false

/-- The table that a history leads to. -/
def after (moves : List Move) : NameTable := moves.foldl Move.apply .empty

/-- The number of claims in a history, repeated ones included. -/
def claims (moves : List Move) : ℕ := moves.countP Move.isClaim

/-- The move `start` was made where the history met a condition, and none of `ends` since. -/
def Since (start : Move) (ends : List Move) (met : List Move → Prop) (moves : List Move) : Prop :=
  ∃ before later, moves = before ++ start :: later ∧ met before ∧ ∀ move ∈ later, move ∉ ends

/-- A name is claimed and not given back since. -/
def Held (name : NameIndex) : List Move → Prop :=
  Since (.claim name) [.release name, .clear] fun _ => True

/-- A name in use was given back and is not claimed since. -/
def GivenBack (name : NameIndex) : List Move → Prop :=
  Since (.release name) [.claim name, .clear] (Held name)

/-! ### One move more -/

section Since

variable {start : Move} {ends moves : List Move} {met : List Move → Prop}

theorem not_since_nil : ¬ Since start ends met [] := by
  rintro ⟨before, later, heq, -⟩
  exact absurd (congrArg List.length heq) (by simp)

theorem since_concat (move : Move) : Since start ends met (moves ++ [move]) ↔
    (move = start ∧ met moves) ∨ (move ∉ ends ∧ Since start ends met moves) := by
  constructor
  · rintro ⟨before, later, heq, hmet, hlater⟩
    rcases List.eq_nil_or_concat later with rfl | ⟨front, last, rfl⟩
    · obtain ⟨rfl, hlast⟩ := List.append_inj' heq rfl
      exact Or.inl ⟨List.singleton_inj.1 hlast, hmet⟩
    · rw [List.concat_eq_append] at heq hlater
      rw [← List.cons_append, ← List.append_assoc] at heq
      obtain ⟨rfl, hlast⟩ := List.append_inj' heq rfl
      obtain rfl := List.singleton_inj.1 hlast
      exact Or.inr ⟨hlater move (by simp), before, front, rfl, hmet,
        fun next hnext => hlater next (List.mem_append_left _ hnext)⟩
  · rintro (⟨rfl, hmet⟩ | ⟨hmove, before, later, rfl, hmet, hlater⟩)
    · exact ⟨moves, [], rfl, hmet, fun next hnext => nomatch hnext⟩
    · refine ⟨before, later ++ [move], by simp, hmet, fun next hnext => ?_⟩
      rcases List.mem_append.1 hnext with hnext | hnext
      · exact hlater next hnext
      · rwa [List.mem_singleton.1 hnext]

theorem Since.start_mem (h : Since start ends met moves) : start ∈ moves := by
  obtain ⟨before, later, rfl, -⟩ := h
  exact List.mem_append_right _ List.mem_cons_self

end Since

section Moves

variable {moves : List Move} {name other : NameIndex}

theorem held_claim_iff : Held name (moves ++ [.claim other]) ↔ name = other ∨ Held name moves := by
  rw [Held, since_concat]
  simp [eq_comm]

theorem held_release_iff :
    Held name (moves ++ [.release other]) ↔ Held name moves ∧ name ≠ other := by
  rw [Held, since_concat]
  simp [eq_comm, and_comm]

theorem not_held_clear : ¬ Held name (moves ++ [.clear]) := by
  rw [Held, since_concat]
  simp

theorem givenBack_claim_iff :
    GivenBack name (moves ++ [.claim other]) ↔ GivenBack name moves ∧ name ≠ other := by
  rw [GivenBack, since_concat]
  simp [eq_comm, and_comm]

theorem givenBack_release_iff : GivenBack name (moves ++ [.release other]) ↔
    GivenBack name moves ∨ (name = other ∧ Held name moves) := by
  rw [GivenBack, since_concat]
  simp [eq_comm, or_comm]

theorem not_givenBack_clear : ¬ GivenBack name (moves ++ [.clear]) := by
  rw [GivenBack, since_concat]
  simp

end Moves

/-! ### What a table remembers -/

/-- The names in use are those held, and 0 is remembered as given back when it was. -/
structure Recounts (moves : List Move) (table : NameTable) : Prop where
  balanced : table.Balanced
  load_le : table.load ≤ claims moves
  used : ∀ name, name ∈ table.used ↔ Held name moves
  zero : 0 ∈ table.released ↔ GivenBack 0 moves

variable {moves : List Move} {table : NameTable}

theorem recounts_nil : Recounts [] .empty where
  balanced := sound_empty.balanced
  load_le := Nat.le_refl 0
  used := fun _ => iff_of_false List.not_mem_nil not_since_nil
  zero := iff_of_false List.not_mem_nil not_since_nil

/-- One move keeps the account, as long as a claim finds room. -/
theorem Recounts.move (h : Recounts moves table) {move : Move}
    (hroom : claims (moves ++ [move]) < 2 ^ 32 - 2) :
    Recounts (moves ++ [move]) (move.apply table) := by
  have hload := h.load_le
  have hcount : claims (moves ++ [move]) = claims moves + claims [move] := List.countP_append
  cases move with
  | claim name =>
      have hone : claims [.claim name] = 1 := rfl
      rw [hcount, hone] at hroom
      refine ⟨h.balanced.claim (by omega) name, ?_, fun other => ?_, ?_⟩
      · rw [hcount, hone]
        exact (load_claim_le table name).trans (Nat.succ_le_succ hload)
      · rw [held_claim_iff, ← h.used]
        exact mem_used_claim_iff
      · rw [givenBack_claim_iff, ← h.zero]
        exact h.balanced.mem_released_claim_iff
  | release name =>
      have hnone : claims [.release name] = 0 := rfl
      refine ⟨h.balanced.release name, ?_, fun other => ?_, ?_⟩
      · rw [hcount, hnone]
        exact (load_release_le table name).trans hload
      · rw [held_release_iff, ← h.used]
        exact mem_used_release_iff
      · -- the counter is above 0, so a 0 in use is always remembered
        rw [givenBack_release_iff, ← h.zero, ← h.used]
        refine mem_released_release_iff.trans (or_congr_right ?_)
        constructor
        · rintro ⟨rfl, hused, -⟩
          exact ⟨rfl, hused⟩
        · rintro ⟨rfl, hused⟩
          exact ⟨rfl, hused, h.balanced.next_pos⟩
  | clear =>
      exact ⟨sound_empty.balanced, Nat.zero_le _,
        fun _ => iff_of_false List.not_mem_nil not_held_clear,
        iff_of_false List.not_mem_nil not_givenBack_clear⟩

theorem recounts_after (moves : List Move) (hroom : claims moves < 2 ^ 32 - 2) :
    Recounts moves (after moves) := by
  induction moves using List.reverseRecOn with
  | nil => exact recounts_nil
  | append_singleton moves move ih =>
      have hcount : claims (moves ++ [move]) = claims moves + claims [move] := List.countP_append
      rw [after, List.foldl_append]
      exact (ih (by omega)).move hroom

/-! ### Answers of a table -/

/-- After any history a table answers which names are held.  Its first free name is the smallest
positive one that nobody holds, unless 0 was given back and is 0 then.  A hint is granted when
nobody holds it, and answered by the first free name otherwise. -/
theorem history_answers (hroom : claims moves < 2 ^ 32 - 2) :
    (∀ name, (after moves).isTaken name = true ↔ Held name moves) ∧
      (IsLeast {n : ℕ | 0 < n ∧ ∀ name, Held name moves → name.toNat ≠ n}
        (after moves).firstFree.toNat ↔ ¬ GivenBack 0 moves) ∧
      (GivenBack 0 moves → (after moves).firstFree = 0) ∧
      (after moves).resolve none = (after moves).firstFree ∧
      ∀ name, (¬ Held name moves → (after moves).resolve (some name) = name) ∧
        (Held name moves → (after moves).resolve (some name) = (after moves).firstFree) := by
  have h := recounts_after moves hroom
  refine ⟨fun name => isTaken_iff.trans (h.used name), ?_, fun hzero => ?_, rfl,
    fun name => ⟨fun hfree => ?_, fun hheld => ?_⟩⟩
  · rw [← h.zero, ← h.balanced.isFirstFree_iff]
    simp only [IsFirstFree, h.used]
  · have hpos := h.balanced.firstFree_pos_iff.not.2 (not_not_intro (h.zero.2 hzero))
    rwa [UInt32.pos_iff_ne_zero, not_not] at hpos
  · exact resolve_of_free fun hused => hfree ((h.used name).1 hused)
  · exact resolve_of_taken ((h.used name).2 hheld)

/-- A history with 0 and the largest name, a repeated claim, and a name given back that nobody had. -/
def crowded : List Move :=
  [.claim 0, .claim 4294967295, .claim 1, .claim 1, .release 7, .claim 3, .release 4294967295,
    .claim 2, .release 1, .claim 1]

theorem history_answers_crowded : claims crowded < 2 ^ 32 - 2 ∧ Held 3 crowded ∧
    ¬ Held 4294967295 crowded ∧ (after crowded).resolve (some 3) = 4 ∧
    (after crowded).resolve (some 4294967295) = 4294967295 ∧
    IsLeast {n : ℕ | 0 < n ∧ ∀ name, Held name crowded → name.toNat ≠ n} 4 := by
  have hroom : claims crowded < 2 ^ 32 - 2 := by decide
  have hnever : ¬ GivenBack 0 crowded := fun h => absurd h.start_mem (by decide)
  obtain ⟨htaken, hfirst, -, -, hresolve⟩ := history_answers hroom
  have hthree := (htaken 3).1 (by decide)
  have hlargest : ¬ Held 4294967295 crowded :=
    fun h => absurd ((htaken 4294967295).2 h) (by decide)
  exact ⟨hroom, hthree, hlargest, (hresolve 3).2 hthree, (hresolve _).1 hlargest, hfirst.2 hnever⟩

/-- Claiming 0 and giving it back makes 0 the first free name, though 1 is the smallest positive one. -/
theorem zero_given_back : claims [.claim 0, .release 0] < 2 ^ 32 - 2 ∧
    (after [.claim 0, .release 0]).firstFree = 0 ∧
    (after [.claim 0, .release 0]).resolve none = 0 ∧
    ¬ IsLeast {n : ℕ | 0 < n ∧ ∀ name, Held name [.claim 0, .release 0] → name.toNat ≠ n}
      (after [.claim 0, .release 0]).firstFree.toNat :=
  ⟨by decide, by decide, by decide, fun hleast => absurd hleast.1.1 (by decide)⟩

end PetriCcs.NameTable
