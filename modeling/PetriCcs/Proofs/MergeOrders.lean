import PetriCcs.Proofs.Pairing

/-! # Merge orders and their draws

A pairing order is admissible when it has the right length and each of its pairs names two different
positions of the list as it stands then (`Pairing.Admissible`).  `Pairing.orderBy` draws an order from
any kind of draws; `Pairing.order` draws it from words.  Orders drawn within the limits are admissible
(`admissible_orderBy`).  Conversely `drawsOf` finds the draws of an admissible order
(`orderBy_drawsOf`), the only ones within the limits (`eq_drawsOf`), and a source of words yields each of
them (`exists_words`).  So draws and merge orders correspond one to one (`merge_orders`). -/

namespace PetriCcs

namespace RandomSource

/-- Every number below a bound is drawn from some words. -/
theorem exists_words_below {bound value : ℕ} (hbound : bound ≤ range) (hvalue : value < bound) :
    ∃ words, ∀ rest, (below bound).run (WordList.mk (words ++ rest)) = (value, ⟨rest⟩) := by
  have hpos : 0 < range := by decide
  -- the least word that scales to the value
  set drawn := (value * range + (bound - 1)) / bound with hdrawn
  have hsplit := Nat.div_add_mod (value * range + (bound - 1)) bound
  have hmod := Nat.mod_lt (value * range + (bound - 1)) (Nat.zero_lt_of_lt hvalue)
  rw [← hdrawn, Nat.mul_comm] at hsplit
  have hlt : drawn < range := by
    have hle : value * range + range ≤ range * bound := by
      calc
        value * range + range = (value + 1) * range := by rw [Nat.add_mul, Nat.one_mul]
        _ ≤ bound * range := Nat.mul_le_mul_right range hvalue
        _ = range * bound := Nat.mul_comm bound range
    exact Nat.lt_of_mul_lt_mul_right (a := bound) (by omega)
  obtain ⟨fraction, hscaled, hfraction⟩ : ∃ fraction,
      drawn * bound = fraction + range * value ∧ fraction < bound :=
    ⟨drawn * bound - range * value, by rw [Nat.mul_comm range]; omega, by
      rw [Nat.mul_comm range]; omega⟩
  have hwhole : drawn * bound / range = value := by
    rw [hscaled, Nat.add_mul_div_left _ _ hpos, Nat.div_eq_of_lt (hfraction.trans_le hbound),
      Nat.zero_add]
  have hrest : drawn * bound % range = fraction := by
    rw [hscaled, Nat.add_mul_mod_self_left, Nat.mod_eq_of_lt (hfraction.trans_le hbound)]
  have hnat : drawn.toUInt32.toNat = drawn := UInt32.toNat_ofNat_of_lt' hlt
  have hword : ∀ words, word.run (WordList.mk (drawn.toUInt32 :: words)) = (drawn, ⟨words⟩) :=
    fun words => congrArg (·, WordList.mk words) hnat
  by_cases hround : range - bound < fraction
  · -- a second word 0 does not round up
    refine ⟨[drawn.toUInt32, 0], fun rest => ?_⟩
    rw [List.cons_append, run_below, hword, hrest, hwhole, if_pos hround]
    change ((if range ≤ fraction + 0 * bound / range then value + 1 else value), WordList.mk rest) = _
    rw [Nat.zero_mul, Nat.zero_div, Nat.add_zero, if_neg (Nat.not_le.2 (hfraction.trans_le hbound))]
  · refine ⟨[drawn.toUInt32], fun rest => ?_⟩
    rw [List.cons_append, run_below, hword, hrest, hwhole, if_neg hround]
    rfl

end RandomSource

namespace Pairing

variable {σ : Type}

/-- A pair for every merge down to the places that stay; the pair of a turn names two different
positions of the places left by then. -/
structure Admissible (len keep : ℕ) (pairs : List (ℕ × ℕ)) : Prop where
  length_eq : pairs.length = len - max keep 1
  apart : ∀ turn first second, pairs[turn]? = some (first, second) →
    first ≠ second ∧ first < len - turn ∧ second < len - turn

/-- The limits of the draws: at each turn the number of places left, then one less. -/
def limits (len keep : ℕ) : List ℕ :=
  (List.range (len - max keep 1)).flatMap fun turn => [len - turn, len - turn - 1]

/-- Two different positions up to `top`, from any kind of draws. -/
def pairBy (draw : ℕ → StateM σ ℕ) (top : ℕ) : StateM σ (ℕ × ℕ) := do
  let first ← draw (top + 1)
  let second ← draw top
  return distinct first second

/-- The merges that bring `len` places down to `keep`, from any kind of draws. -/
def orderBy (draw : ℕ → StateM σ ℕ) (len keep : ℕ) : StateM σ (List (ℕ × ℕ)) :=
  (tops len keep).mapM (pairBy draw)

/-- Draws listed beforehand; whatever the bound, the next one is taken. -/
def replay (_ : ℕ) : StateM (List ℕ) ℕ := fun draws => (draws.headD 0, draws.tail)

theorem order_eq_orderBy [RandomSource σ] (len keep : ℕ) :
    (order len keep : StateM σ (List (ℕ × ℕ))) = orderBy RandomSource.below len keep := rfl

/-! ### Turns -/

/-- Two different positions up to `top`. -/
def IsPair (pair : ℕ × ℕ) (top : ℕ) : Prop := pair.1 ≠ pair.2 ∧ pair.1 ≤ top ∧ pair.2 ≤ top

theorem tops_eq (len keep : ℕ) :
    tops len keep = (List.range (len - max keep 1)).map fun turn => len - turn - 1 := by
  refine List.ext_getElem (by simp [tops]) fun turn hleft hright => ?_
  simp only [tops, List.length_reverse, List.length_drop, List.length_range] at hleft
  simp only [tops, List.getElem_reverse, List.getElem_drop, List.getElem_range, List.getElem_map,
    List.length_drop, List.length_range]
  omega

theorem limits_eq (len keep : ℕ) :
    limits len keep = (tops len keep).flatMap fun top => [top + 1, top] := by
  rw [limits, tops_eq, List.flatMap_map]
  refine List.flatMap_congr fun turn hturn => ?_
  have hlt := List.mem_range.1 hturn
  rw [Nat.sub_add_cancel (by omega)]

theorem pos_of_mem_tops {len keep top : ℕ} (htop : top ∈ tops len keep) : 0 < top := by
  rw [tops_eq] at htop
  obtain ⟨turn, hturn, rfl⟩ := List.mem_map.1 htop
  have hlt := List.mem_range.1 hturn
  omega

theorem lt_of_mem_tops {len keep top : ℕ} (htop : top ∈ tops len keep) : top < len := by
  rw [tops_eq] at htop
  obtain ⟨turn, hturn, rfl⟩ := List.mem_map.1 htop
  have hlt := List.mem_range.1 hturn
  omega

/-- An order is admissible when each turn has its pair. -/
theorem admissible_iff {len keep : ℕ} {pairs : List (ℕ × ℕ)} :
    Admissible len keep pairs ↔ List.Forall₂ IsPair pairs (tops len keep) := by
  rw [tops_eq, List.forall₂_iff_get]
  simp only [List.length_map, List.length_range, List.get_eq_getElem, List.getElem_map,
    List.getElem_range, IsPair]
  constructor
  · intro h
    refine ⟨h.length_eq, fun turn hleft hright => ?_⟩
    obtain ⟨hne, hfirst, hsecond⟩ :=
      h.apart turn pairs[turn].1 pairs[turn].2 (List.getElem?_eq_getElem hleft)
    exact ⟨hne, by omega, by omega⟩
  · rintro ⟨hlength, hpairs⟩
    refine ⟨hlength, fun turn first second hturn => ?_⟩
    obtain ⟨hleft, heq⟩ := List.getElem?_eq_some_iff.1 hturn
    obtain ⟨hne, hfirst, hsecond⟩ := hpairs turn hleft (hlength ▸ hleft)
    rw [heq] at hne hfirst hsecond
    exact ⟨hne, by omega, by omega⟩

/-! ### From draws to pairs -/

theorem isPair_distinct {top first draw : ℕ} (hfirst : first < top + 1) (hdraw : draw < top) :
    IsPair (distinct first draw) top := by
  obtain ⟨hsecond, hne⟩ := distinct_spec first hdraw
  exact ⟨hne, Nat.le_of_lt_succ hfirst, hsecond⟩

/-- The positions of a turn, from its two draws. -/
theorem run_pairBy {draw : ℕ → StateM σ ℕ} {top first second : ℕ} {state state' state'' : σ}
    (hfirst : (draw (top + 1)).run state = (first, state'))
    (hsecond : (draw top).run state' = (second, state'')) :
    (pairBy draw top).run state = (distinct first second, state'') := by
  have hrun : (pairBy draw top).run state = (distinct ((draw (top + 1)).run state).1
      ((draw top).run ((draw (top + 1)).run state).2).1,
      ((draw top).run ((draw (top + 1)).run state).2).2) := rfl
  rw [hrun, hfirst, hsecond]

theorem run_mapM_cons {α β : Type} (f : α → StateM σ β) (a : α) (as : List α) (state : σ) :
    ((a :: as).mapM f).run state =
      (((f a).run state).1 :: ((as.mapM f).run ((f a).run state).2).1,
        ((as.mapM f).run ((f a).run state).2).2) := by
  rw [List.mapM_cons]
  rfl

/-- Draws within their bounds make an admissible order. -/
theorem admissible_orderBy {draw : ℕ → StateM σ ℕ}
    (hdraw : ∀ bound, 0 < bound → ∀ state, ((draw bound).run state).1 < bound) (len keep : ℕ)
    (state : σ) : Admissible len keep ((orderBy draw len keep).run state).1 := by
  rw [admissible_iff, orderBy]
  have hpos : ∀ top ∈ tops len keep, 0 < top := fun top => pos_of_mem_tops
  generalize tops len keep = turns at hpos
  induction turns generalizing state with
  | nil => exact List.Forall₂.nil
  | cons top rest ih =>
      rw [run_mapM_cons]
      refine List.Forall₂.cons ?_ (ih _ fun top htop => hpos top (List.mem_cons_of_mem _ htop))
      exact isPair_distinct (hdraw (top + 1) (Nat.succ_pos top) state)
        (hdraw top (hpos top List.mem_cons_self) _)

/-! ### From pairs to draws -/

/-- The second draw of a pair: the positions after the first one count one less. -/
def secondDraw (pair : ℕ × ℕ) : ℕ := if pair.2 < pair.1 then pair.2 else pair.2 - 1

/-- The draws of an order. -/
def drawsOf (pairs : List (ℕ × ℕ)) : List ℕ := pairs.flatMap fun pair => [pair.1, secondDraw pair]

theorem distinct_secondDraw {pair : ℕ × ℕ} (hne : pair.1 ≠ pair.2) :
    distinct pair.1 (secondDraw pair) = pair := by
  unfold distinct secondDraw
  refine Prod.ext rfl ?_
  by_cases hlt : pair.2 < pair.1
  · rw [if_pos hlt]
    exact if_pos hlt
  · rw [if_neg hlt]
    have hge : ¬ pair.2 - 1 < pair.1 := by omega
    simp only [if_neg hge]
    omega

theorem secondDraw_lt {pair : ℕ × ℕ} {top : ℕ} (h : IsPair pair top) : secondDraw pair < top := by
  obtain ⟨hne, hfirst, hsecond⟩ := h
  unfold secondDraw
  split_ifs <;> omega

/-- The draw that was read as a position is found again. -/
theorem secondDraw_distinct (first draw : ℕ) : secondDraw (distinct first draw) = draw := by
  unfold secondDraw distinct
  by_cases hlt : draw < first
  · simp only [if_pos hlt]
  · have hge : ¬ draw + 1 < first := by omega
    simp only [if_neg hlt, if_neg hge, Nat.add_sub_cancel]

/-- The draws of an order make the order again, and none of them is left. -/
theorem replay_drawsOf {pairs : List (ℕ × ℕ)} {turns : List ℕ}
    (h : List.Forall₂ IsPair pairs turns) :
    (turns.mapM (pairBy replay)).run (drawsOf pairs) = (pairs, []) := by
  induction h with
  | nil => rfl
  | @cons pair top pairs turns hpair _ ih =>
      have hrun : (pairBy replay top).run (drawsOf (pair :: pairs)) = (pair, drawsOf pairs) :=
        congrArg (·, drawsOf pairs) (distinct_secondDraw hpair.1)
      rw [run_mapM_cons, hrun, ih]

theorem drawsOf_lt {pairs : List (ℕ × ℕ)} {turns : List ℕ} (h : List.Forall₂ IsPair pairs turns) :
    List.Forall₂ (· < ·) (drawsOf pairs) (turns.flatMap fun top => [top + 1, top]) := by
  induction h with
  | nil => exact List.Forall₂.nil
  | cons hpair _ ih =>
      exact List.Forall₂.cons (Nat.lt_succ_of_le hpair.2.1)
        (List.Forall₂.cons (secondDraw_lt hpair) ih)

/-- Draws within the limits are those of the order that they make. -/
theorem eq_drawsOf {draws turns : List ℕ}
    (h : List.Forall₂ (· < ·) draws (turns.flatMap fun top => [top + 1, top])) :
    draws = drawsOf ((turns.mapM (pairBy replay)).run draws).1 := by
  induction turns generalizing draws with
  | nil =>
      cases h
      rfl
  | cons top turns ih =>
      rw [List.flatMap_cons, List.cons_append, List.cons_append, List.nil_append] at h
      obtain ⟨first, tail, -, htail, rfl⟩ := List.forall₂_cons_right_iff.1 h
      obtain ⟨draw, rest, -, hrest, rfl⟩ := List.forall₂_cons_right_iff.1 htail
      have hrun : (pairBy replay top).run (first :: draw :: rest) = (distinct first draw, rest) := rfl
      rw [run_mapM_cons, hrun, drawsOf, List.flatMap_cons, secondDraw_distinct]
      exact congrArg (first :: draw :: ·) (ih hrest)

/-- A source of words yields the pairs of all turns. -/
theorem exists_words {pairs : List (ℕ × ℕ)} {turns : List ℕ} (h : List.Forall₂ IsPair pairs turns)
    (hturns : ∀ top ∈ turns, top < RandomSource.range) :
    ∃ words, ∀ rest, (turns.mapM pair).run (WordList.mk (words ++ rest)) = (pairs, ⟨rest⟩) := by
  induction h with
  | nil => exact ⟨[], fun rest => rfl⟩
  | @cons drawn top pairs turns hpair _ ih =>
      obtain ⟨later, hlater⟩ := ih fun top htop => hturns top (List.mem_cons_of_mem _ htop)
      have htop := hturns top List.mem_cons_self
      obtain ⟨front, hfront⟩ := RandomSource.exists_words_below htop (Nat.lt_succ_of_le hpair.2.1)
      obtain ⟨back, hback⟩ := RandomSource.exists_words_below htop.le (secondDraw_lt hpair)
      refine ⟨front ++ (back ++ later), fun rest => ?_⟩
      have hrun : (pair top).run (WordList.mk (front ++ (back ++ (later ++ rest)))) =
          (distinct drawn.1 (secondDraw drawn), ⟨later ++ rest⟩) :=
        run_pairBy (hfront _) (hback _)
      rw [distinct_secondDraw hpair.1] at hrun
      rw [run_mapM_cons, List.append_assoc, List.append_assoc, hrun, hlater]

/-! ### Draws and orders -/

/-- Draws within their bounds make an admissible order, those from a source of words among them.  Each
admissible order is made by exactly one list of draws within the limits; as far as words reach, some
source of words makes it. -/
theorem merge_orders (len keep : ℕ) :
    (∀ {σ : Type} (draw : ℕ → StateM σ ℕ),
        (∀ bound, 0 < bound → ∀ state, ((draw bound).run state).1 < bound) →
        ∀ state, Admissible len keep ((orderBy draw len keep).run state).1) ∧
      (∀ {σ : Type} [RandomSource σ] (source : σ),
        Admissible len keep ((order len keep).run source).1) ∧
      (∀ pairs, Admissible len keep pairs → ∃! draws,
        List.Forall₂ (· < ·) draws (limits len keep) ∧
          ((orderBy replay len keep).run draws).1 = pairs) ∧
      (len ≤ 2 ^ 32 → ∀ pairs, Admissible len keep pairs →
        ∃ words, ((order len keep).run (WordList.mk words)).1 = pairs) := by
  refine ⟨fun draw hdraw state => admissible_orderBy hdraw len keep state, fun source => ?_,
    fun pairs h => ?_, fun hlen pairs h => ?_⟩
  · rw [order_eq_orderBy]
    exact admissible_orderBy (fun bound hbound => RandomSource.below_lt hbound) len keep source
  · rw [admissible_iff] at h
    rw [limits_eq]
    refine ⟨drawsOf pairs, ⟨drawsOf_lt h, congrArg Prod.fst (replay_drawsOf h)⟩, ?_⟩
    rintro draws ⟨hlimits, rfl⟩
    exact eq_drawsOf hlimits
  · obtain ⟨words, hwords⟩ := exists_words (admissible_iff.1 h)
      fun top htop => (lt_of_mem_tops htop).trans_le hlen
    have hrun := hwords []
    rw [List.append_nil] at hrun
    exact ⟨words, congrArg Prod.fst hrun⟩

theorem merge_orders_six : Admissible 6 2 [(5, 0), (0, 4), (3, 1), (2, 0)] ∧
    limits 6 2 = [6, 5, 5, 4, 4, 3, 3, 2] ∧
    ((orderBy replay 6 2).run [5, 0, 0, 3, 3, 1, 2, 0]).1 = [(5, 0), (0, 4), (3, 1), (2, 0)] ∧
    (∃! draws, List.Forall₂ (· < ·) draws (limits 6 2) ∧
      ((orderBy replay 6 2).run draws).1 = [(5, 0), (0, 4), (3, 1), (2, 0)]) ∧
    (∃ words, ((order 6 2).run (WordList.mk words)).1 = [(5, 0), (0, 4), (3, 1), (2, 0)]) ∧
    Admissible 6 2 ((orderBy (fun _ => pure 0 : ℕ → StateM Unit ℕ) 6 2).run ()).1 := by
  obtain ⟨hdrawn, -, hunique, hwords⟩ := merge_orders 6 2
  have hpairs : List.Forall₂ IsPair [(5, 0), (0, 4), (3, 1), (2, 0)] [5, 4, 3, 2] :=
    .cons ⟨by decide, by decide, by decide⟩ (.cons ⟨by decide, by decide, by decide⟩
      (.cons ⟨by decide, by decide, by decide⟩ (.cons ⟨by decide, by decide, by decide⟩ .nil)))
  have h : Admissible 6 2 [(5, 0), (0, 4), (3, 1), (2, 0)] := admissible_iff.2 hpairs
  exact ⟨h, by decide, by decide, hunique _ h, hwords (by decide) _ h,
    hdrawn (fun _ => pure 0) (fun _ hbound _ => hbound) ()⟩

end Pairing
end PetriCcs
