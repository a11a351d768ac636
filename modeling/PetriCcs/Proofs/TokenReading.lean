import PetriCcs.Proofs.Tokens

/-! # Reading tokens from the end

A list of tokens is read from its end with a stack of levels, one for each parenthesis that is closed
and not yet opened, so that an exponent is known before its base and a guard finds the operand that
it stands before.  Reading the tokens of a term gives the term with nested compositions spliced
(`Joined.readTokens_tokens`), so terms have the same tokens exactly when they are the same after
splicing (`tokens_eq_iff`). -/

namespace PetriCcs

/-- The operands of a level from the last one up to the token that is read, whether a plus stands
between them, and the exponent of the operand to come. -/
structure Level where
  operands : List Term := []
  sums : Bool := false
  power : Option UInt64 := none

namespace Level

/-- One more operand in front. -/
def push (level : Level) (P : Term) : Level where
  operands := (match level.power with
    | none => P
    | some count => .exponent P count) :: level.operands
  sums := level.sums
  power := none

/-- Something before the first operand. -/
def lead (level : Level) (f : Term → Term) : Level :=
  { level with operands := level.operands.modifyHead f }

/-- An operand of a choice, which is guarded. -/
def toSummand : Term → Summand
  | .guarded action continuation => (action, continuation)
  | process => (.internal, process)

/-- What a level stands for when it is read to its beginning. -/
def term (level : Level) : Term :=
  match level.operands with
  | [P] => P
  | Ps => if level.sums then .choice (Ps.map toSummand) else .parallel Ps

/-- The operands of a term in front. -/
def add (level : Level) : Term → Level
  | .choice summands =>
    ⟨(summands.map fun summand => .guarded summand.1 summand.2) ++ level.operands, true, none⟩
  | .parallel components => ⟨components ++ level.operands, level.sums, none⟩
  | P => level.push P

end Level

/-- Reads the token before those that have been read. -/
def readToken : Token → List Level → List Level
  | .closing, levels => {} :: levels
  | .opening, inner :: level :: levels => level.push inner.term :: levels
  | .inaction, level :: levels => level.push .inaction :: levels
  | .constant name, level :: levels => level.push (.constant name) :: levels
  | .guard action, level :: levels => level.lead (.guarded action) :: levels
  | .restriction name, level :: levels => level.lead (.restriction name) :: levels
  | .power count, level :: levels => { level with power := some count } :: levels
  | .plus, level :: levels => { level with sums := true } :: levels
  | _, levels => levels

/-- The term that a list of tokens stands for. -/
def readTokens (tokens : List Token) : Term := ((tokens.foldr readToken [{}]).headD {}).term

namespace Term

variable {P : Term} {Ps Qs : List Term} {summands : List Summand} {sums : Bool}
  {power : Option UInt64} {levels : List Level}

/-- A level that holds nothing but the operands of a term stands for the term. -/
theorem term_add : ∀ {P : Term}, P.JoinsTwo → (({} : Level).add P).term = P
  | .choice (_ :: _ :: _), _ => by simp [Level.add, Level.term, Level.toSummand, Function.comp_def]
  | .parallel (_ :: _ :: _), _ => by simp [Level.add, Level.term]
  | .choice [], h | .choice [_], h | .parallel [], h | .parallel [_], h =>
      absurd h (Nat.not_le_of_lt (by simp))
  | .inaction, _ | .guarded _ _, _ | .exponent _ _, _ | .restriction _ _, _ | .constant _, _ => rfl

/-- The tokens of a term are read as its operands. -/
def Reads (P : Term) : Prop := ∀ (Qs : List Term) (sums : Bool) (levels : List Level),
  P.tokens.foldr readToken (⟨Qs, sums, none⟩ :: levels) =
    Level.add ⟨Qs, sums, none⟩ P.spliced :: levels

/-! ### Operands -/

/-- Between parentheses a term is one operand, also under an exponent. -/
theorem Reads.group (h : P.Reads) (hjoined : P.Joined) :
    (groupTokens true P.tokens).foldr readToken (⟨Qs, sums, power⟩ :: levels) =
      Level.push ⟨Qs, sums, power⟩ P.spliced :: levels := by
  rw [groupTokens, if_pos rfl, List.cons_append, List.foldr_cons, List.foldr_append]
  show readToken .opening (P.tokens.foldr readToken ({} :: ⟨Qs, sums, power⟩ :: levels)) = _
  -- the level that the closing parenthesis began holds nothing but the term
  rw [h [] false]
  show Level.push ⟨Qs, sums, power⟩ (({} : Level).add P.spliced).term :: levels = _
  rw [term_add hjoined.joinsTwo_spliced]

theorem Reads.body (h : P.Reads) (hjoined : P.Joined) :
    (groupTokens P.groupedInBody P.tokens).foldr readToken (⟨Qs, sums, none⟩ :: levels) =
      ⟨P.spliced :: Qs, sums, none⟩ :: levels := by
  cases P with
  | choice _ | parallel _ => exact h.group hjoined
  | inaction | guarded _ _ | exponent _ _ | restriction _ _ | constant _ => exact h Qs sums levels

theorem Reads.base (h : P.Reads) (hjoined : P.Joined) {count : UInt64} :
    (groupTokens P.groupedInExponent P.tokens).foldr readToken
        (⟨Qs, sums, some count⟩ :: levels) =
      ⟨.exponent P.spliced count :: Qs, sums, none⟩ :: levels := by
  cases P with
  | inaction | constant _ => rfl
  | guarded _ _ | choice _ | parallel _ | exponent _ _ | restriction _ _ => exact h.group hjoined

/-- A component of a composition is as many operands as it has strands. -/
theorem Reads.strand (h : P.Reads) (hjoined : P.Joined) :
    P.strandTokens.foldr readToken (⟨Qs, sums, none⟩ :: levels) =
      ⟨P.spliced.strands ++ Qs, sums, none⟩ :: levels := by
  cases P with
  | choice _ | restriction _ _ => exact h.group hjoined
  | parallel _ | inaction | guarded _ _ | exponent _ _ | constant _ => exact h Qs sums levels

/-! ### Lists of operands -/

theorem Reads.guarded (h : P.Reads) (hjoined : P.Joined) (a : Action) :
    (guarded a P).tokens.foldr readToken (⟨Qs, sums, none⟩ :: levels) =
      ⟨.guarded a P.spliced :: Qs, sums, none⟩ :: levels := by
  rw [tokens, List.foldr_cons, h.body hjoined]
  rfl

theorem foldr_summands : ∀ {summands : List Summand}, summands ≠ [] →
    (∀ summand ∈ summands, summand.2.Reads ∧ summand.2.Joined) →
      ([Token.plus].intercalate (summandTokens summands)).foldr readToken
          (⟨Qs, sums, none⟩ :: levels) =
        ⟨(splicedSummands summands).map (fun summand => .guarded summand.1 summand.2) ++ Qs,
          sums || decide (2 ≤ summands.length), none⟩ :: levels
  | [], hne, _ => absurd rfl hne
  | [(a, P)], _, h => by
      obtain ⟨hreads, hjoined⟩ := h _ List.mem_cons_self
      rw [summandTokens_eq_map, List.map_singleton, List.intercalate_singleton,
        hreads.guarded hjoined]
      simp [splicedSummands]
  | (a, P) :: summand :: summands, _, h => by
      obtain ⟨⟨hreads, hjoined⟩, hrest⟩ := List.forall_mem_cons.1 h
      have ih := foldr_summands (List.cons_ne_nil summand summands) hrest
      rw [summandTokens_eq_map, List.map_cons, List.intercalate_cons_of_ne_nil (by simp),
        ← summandTokens_eq_map, List.foldr_append, List.foldr_append, ih]
      show (guarded a P).tokens.foldr readToken (⟨_, true, none⟩ :: levels) = _
      rw [hreads.guarded hjoined]
      simp [splicedSummands]

theorem foldr_components : ∀ {Ps : List Term}, (∀ P ∈ Ps, P.Reads ∧ P.Joined) →
    ([Token.bar].intercalate (componentTokens Ps)).foldr readToken (⟨Qs, sums, none⟩ :: levels) =
      ⟨splicedStrands Ps ++ Qs, sums, none⟩ :: levels
  | [], _ => rfl
  | [P], h => by
      obtain ⟨hreads, hjoined⟩ := h P List.mem_cons_self
      rw [componentTokens_eq_map, List.map_singleton, List.intercalate_singleton,
        hreads.strand hjoined, splicedStrands_eq_flatMap, List.flatMap_singleton]
  | P :: Q :: Ps, h => by
      obtain ⟨⟨hreads, hjoined⟩, hrest⟩ := List.forall_mem_cons.1 h
      rw [componentTokens_eq_map, List.map_cons, List.intercalate_cons_of_ne_nil (by simp),
        ← componentTokens_eq_map, List.foldr_append, List.foldr_append, foldr_components hrest]
      show P.strandTokens.foldr readToken (⟨_, sums, none⟩ :: levels) = _
      rw [hreads.strand hjoined, ← List.append_assoc]
      rfl

/-! ### Terms -/

/-- Reading the tokens of a term adds its operands, those of nested compositions one by one. -/
theorem Joined.reads (h : P.Joined) : P.Reads := by
  induction P using nestedInduction with
  | inaction | constant _ => exact fun Qs sums levels => rfl
  | guarded a P ih =>
      have hjoined := joined_guarded.1 h
      exact fun Qs sums levels => (ih hjoined).guarded hjoined a
  | choice summands ih =>
      obtain ⟨hlength, hall⟩ := joined_choice.1 h
      intro Qs sums levels
      have hne : summands ≠ [] := List.ne_nil_of_length_pos (Nat.lt_of_lt_of_le Nat.two_pos hlength)
      rw [tokens, foldr_summands hne fun summand hsummand =>
        ⟨ih summand hsummand (hall summand hsummand), hall summand hsummand⟩, decide_eq_true hlength,
        Bool.or_true]
      rfl
  | parallel Ps ih =>
      have hall := (joined_parallel.1 h).2
      intro Qs sums levels
      rw [tokens, foldr_components fun P hP => ⟨ih P hP (hall P hP), hall P hP⟩]
      rfl
  | exponent P count ih =>
      have hjoined := joined_exponent.1 h
      intro Qs sums levels
      rw [tokens, List.foldr_append]
      exact (ih hjoined).base hjoined
  | restriction s P ih =>
      have hjoined := joined_restriction.1 h
      intro Qs sums levels
      rw [tokens, List.foldr_cons, (ih hjoined).body hjoined]
      rfl

/-- What is read from the tokens of a term is the term with nested compositions spliced. -/
theorem Joined.readTokens_tokens (h : P.Joined) : readTokens P.tokens = P.spliced := by
  rw [readTokens, h.reads [] false []]
  exact term_add h.joinsTwo_spliced

/-- Terms have the same tokens exactly when they are the same after splicing. -/
theorem tokens_eq_iff {Q : Term} (hP : P.Joined) (hQ : Q.Joined) :
    P.tokens = Q.tokens ↔ P.spliced = Q.spliced := by
  constructor
  · intro heq
    rw [← hP.readTokens_tokens, heq, hQ.readTokens_tokens]
  · intro heq
    rw [← hP.tokens_spliced, heq, hQ.tokens_spliced]

end Term
end PetriCcs
