import Mathlib.Tactic
import PetriCcs.Sync.Pairing

/-! # Draws and pairing orders

A draw stays under its bound (`below_lt`), so a pairing order names two different positions of the
working list at every turn and merges it down to the number of places that stay
(`Pairing.order_shrinks`), whatever the random source yields. -/

namespace PetriCcs

namespace RandomSource

variable {σ : Type} [RandomSource σ]

/-- A word is one of `range` values. -/
theorem word_lt (source : σ) : (word.run source).1 < range :=
  (next source).1.toNat_lt

/-- A draw from its first word: where the fraction lies within one unit of the next number, the second
word decides. -/
theorem run_below (bound : ℕ) (source : σ) : (below bound).run source =
    StateT.run (if range - bound < (word.run source).1 * bound % range then (do
        let carry := (← word) * bound / range
        return if range ≤ (word.run source).1 * bound % range + carry then
          (word.run source).1 * bound / range + 1 else (word.run source).1 * bound / range)
      else pure ((word.run source).1 * bound / range) : StateM σ ℕ) (word.run source).2 := rfl

/-- Where a second word may round up, the first one left room for it. -/
theorem scaled_add_one_lt {drawn bound : ℕ} (hdrawn : drawn < range)
    (hround : range - bound < drawn * bound % range) : drawn * bound / range + 1 < bound := by
  have hpos : 0 < range := by decide
  have hsplit := Nat.div_add_mod (drawn * bound) range
  have hle : drawn * bound + bound ≤ range * bound := by
    calc
      drawn * bound + bound = (drawn + 1) * bound := by rw [Nat.add_mul, Nat.one_mul]
      _ ≤ range * bound := Nat.mul_le_mul_right bound hdrawn
  by_contra hnot
  have hwhole : range * (bound - 1) ≤ range * (drawn * bound / range) :=
    Nat.mul_le_mul_left range (Nat.sub_le_of_le_add (Nat.le_of_not_lt hnot))
  rw [Nat.mul_sub, Nat.mul_one] at hwhole
  omega

/-- A draw stays under its bound. -/
theorem below_lt {bound : ℕ} (hbound : 0 < bound) (source : σ) :
    ((below bound).run source).1 < bound := by
  have hword := word_lt source
  have hpos : 0 < range := by decide
  have hrun := run_below bound source
  set scaled := (word.run source).1 * bound with hscaled
  have hwhole : scaled / range < bound := by
    rw [hscaled, Nat.div_lt_iff_lt_mul hpos, Nat.mul_comm bound]
    exact Nat.mul_lt_mul_of_pos_right hword hbound
  rw [hrun]
  by_cases hround : range - bound < scaled % range
  · rw [if_pos hround]
    change (if range ≤ scaled % range + (word.run (word.run source).2).1 * bound / range then
      scaled / range + 1 else scaled / range) < bound
    split_ifs
    · exact scaled_add_one_lt hword hround
    · exact hwhole
  · rw [if_neg hround]
    exact hwhole

end RandomSource

namespace Pairing

variable {σ : Type} [RandomSource σ]

/-- Pairs of different positions that bring a list of some length down to `stay` places. -/
inductive Shrinks (stay : ℕ) : (len : ℕ) → List (ℕ × ℕ) → Prop where
  | done : Shrinks stay stay []
  | pair {top first second : ℕ} {pairs : List (ℕ × ℕ)} (hfirst : first ≤ top)
      (hsecond : second ≤ top) (hne : first ≠ second) (h : Shrinks stay top pairs) :
      Shrinks stay (top + 1) ((first, second) :: pairs)

/-- The first pair of an order names two of the places, and the rest is an order on one place less. -/
theorem Shrinks.of_cons {stay len first second : ℕ} {pairs : List (ℕ × ℕ)}
    (h : Shrinks stay len ((first, second) :: pairs)) :
    ∃ top, len = top + 1 ∧ first ≤ top ∧ second ≤ top ∧ first ≠ second ∧ Shrinks stay top pairs := by
  cases h with
  | pair hfirst hsecond hne hrest => exact ⟨_, rfl, hfirst, hsecond, hne, hrest⟩

theorem distinct_spec {top draw : ℕ} (first : ℕ) (hdraw : draw < top) :
    (distinct first draw).2 ≤ top ∧ (distinct first draw).1 ≠ (distinct first draw).2 := by
  unfold distinct
  split_ifs with hlt
  · exact ⟨by omega, by simp only [ne_eq]; omega⟩
  · exact ⟨by omega, by simp only [ne_eq]; omega⟩

theorem pair_spec {top : ℕ} (htop : 0 < top) (source : σ) :
    ((pair top).run source).1.1 ≤ top ∧ ((pair top).run source).1.2 ≤ top ∧
      ((pair top).run source).1.1 ≠ ((pair top).run source).1.2 := by
  have hfirst := RandomSource.below_lt (Nat.succ_pos top) source
  have hdraw := RandomSource.below_lt htop ((RandomSource.below (top + 1)).run source).2
  obtain ⟨hsecond, hne⟩ := distinct_spec ((RandomSource.below (top + 1)).run source).1 hdraw
  exact ⟨Nat.le_of_lt_succ hfirst, hsecond, hne⟩

theorem tops_succ {len keep : ℕ} (h : max keep 1 ≤ len) :
    tops (len + 1) keep = len :: tops len keep := by
  unfold tops
  rw [List.range_succ, List.drop_append_of_le_length (by rwa [List.length_range]),
    List.reverse_append]
  rfl

theorem tops_self (keep : ℕ) : tops (max keep 1) keep = [] := by
  unfold tops
  rw [List.drop_eq_nil_of_le (by rw [List.length_range]), List.reverse_nil]

/-- A pairing order merges a list down to the places that stay. -/
theorem order_shrinks (keep : ℕ) :
    ∀ (extra : ℕ) (source : σ),
      Shrinks (max keep 1) (max keep 1 + extra) ((order (max keep 1 + extra) keep).run source).1
  | 0, source => by
      rw [order, Nat.add_zero, tops_self]
      exact Shrinks.done
  | extra + 1, source => by
      have hlen : max keep 1 ≤ max keep 1 + extra := Nat.le_add_right _ _
      have htop : 0 < max keep 1 + extra := by omega
      obtain ⟨hfirst, hsecond, hne⟩ := pair_spec htop source
      have hrest := order_shrinks keep extra ((pair (max keep 1 + extra)).run source).2
      rw [order, ← Nat.add_assoc, tops_succ hlen, List.mapM_cons]
      exact Shrinks.pair hfirst hsecond hne hrest

end Pairing
end PetriCcs
