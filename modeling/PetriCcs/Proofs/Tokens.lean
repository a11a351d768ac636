import Mathlib.Data.List.Chain
import PetriCcs.Ccs.Printer
import PetriCcs.Proofs.Splicing

/-! # The tokens of a printed term

In every style a term is printed as the spelling of one list of tokens (`toList_print`): how a token
looks is the style's, which tokens there are and where parentheses stand is the term's.  Splicing
nested compositions does not change the tokens (`Joined.tokens_spliced`), and a token that ends an
operand is never followed by one that begins an operand (`spaced_tokens`). -/

namespace PetriCcs

/-- A token of a printed term.  The dot after an action belongs to the guard. -/
inductive Token where
  | inaction
  | constant (name : ConstantName)
  | guard (action : Action)
  | restriction (name : ActionName)
  | power (count : UInt64)
  | plus
  | bar
  | opening
  | closing

/-- A token in a style. -/
def TermStyle.spell (style : TermStyle) : Token → String
  | .inaction => "0"
  | .constant name => style.name name.text
  | .guard action => style.action action ++ "."
  | .restriction name => style.restriction name.text
  | .power count => style.exponent count
  | .plus => " + "
  | .bar => style.parallel
  | .opening => "("
  | .closing => ")"

/-- The characters of a list of tokens in a style. -/
def TermStyle.letters (style : TermStyle) (tokens : List Token) : List Char :=
  tokens.flatMap fun token => (style.spell token).toList

namespace TermStyle

variable (style : TermStyle)

theorem letters_append (ts us : List Token) :
    style.letters (ts ++ us) = style.letters ts ++ style.letters us :=
  List.flatMap_append

theorem letters_cons (t : Token) (ts : List Token) :
    style.letters (t :: ts) = (style.spell t).toList ++ style.letters ts :=
  List.flatMap_cons

theorem letters_singleton (t : Token) : style.letters [t] = (style.spell t).toList :=
  List.append_nil _

theorem letters_intercalate (t : Token) : ∀ tss : List (List Token),
    style.letters ([t].intercalate tss) =
      (style.spell t).toList.intercalate (tss.map style.letters)
  | [] => rfl
  | [ts] => by rw [List.intercalate_singleton, List.map_singleton, List.intercalate_singleton]
  | ts :: us :: tss => by
      rw [List.intercalate_cons_cons, letters_append, letters_append, letters_singleton,
        letters_intercalate t (us :: tss)]
      exact List.intercalate_cons_cons.symm

end TermStyle

namespace Term

/-- Tokens between parentheses when they are needed. -/
def groupTokens (needed : Bool) (tokens : List Token) : List Token :=
  if needed then .opening :: tokens ++ [.closing] else tokens

mutual

/-- What a term is printed as. -/
def tokens : Term → List Token
  | .inaction => [.inaction]
  | .guarded action continuation =>
    .guard action :: groupTokens continuation.groupedInBody continuation.tokens
  | .choice summands => [Token.plus].intercalate (summandTokens summands)
  | .parallel components => [Token.bar].intercalate (componentTokens components)
  | .exponent base count => groupTokens base.groupedInExponent base.tokens ++ [.power count]
  | .restriction name body => .restriction name :: groupTokens body.groupedInBody body.tokens
  | .constant name => [.constant name]

def summandTokens : List (Action × Term) → List (List Token)
  | [] => []
  | (action, continuation) :: summands =>
    (.guard action :: groupTokens continuation.groupedInBody continuation.tokens)
      :: summandTokens summands

def componentTokens : List Term → List (List Token)
  | [] => []
  | component :: components =>
    groupTokens component.groupedInParallel component.tokens :: componentTokens components

end

/-- A term as a component of a composition. -/
def strandTokens (P : Term) : List Token := groupTokens P.groupedInParallel P.tokens

variable {P : Term} {Ps : List Term}

theorem summandTokens_eq_map (summands : List Summand) :
    summandTokens summands = summands.map fun summand => (guarded summand.1 summand.2).tokens := by
  induction summands with
  | nil => rfl
  | cons summand summands ih => rw [summandTokens, ih, List.map_cons, tokens]

theorem componentTokens_eq_map (Ps : List Term) : componentTokens Ps = Ps.map strandTokens := by
  induction Ps with
  | nil => rfl
  | cons P Ps ih => rw [componentTokens, ih, List.map_cons, strandTokens]

/-! ### Printing -/

section printing
variable (style : TermStyle)

open TermStyle

theorem toList_group (needed : Bool) {text : String} {ts : List Token}
    (h : text.toList = style.letters ts) :
    (group needed text).toList = style.letters (groupTokens needed ts) := by
  cases needed with
  | false => exact h
  | true =>
      show ("(" ++ text ++ ")").toList = style.letters (.opening :: ts ++ [.closing])
      rw [String.toList_append, String.toList_append, h, List.cons_append, letters_cons,
        letters_append, letters_singleton, ← List.append_assoc]
      rfl

mutual

/-- A printed term is its tokens spelled one after the other. -/
theorem toList_print : ∀ P : Term, (P.print style).toList = style.letters P.tokens
  | .inaction | .constant _ => by
      rw [tokens, letters_singleton]
      rfl
  | .guarded a P => by
      rw [print, tokens, letters_cons, String.toList_append, toList_group style _ (toList_print P)]
      rfl
  | .choice summands => by
      rw [print, tokens, letters_intercalate, String.toList_intercalate, toList_printSummands]
      rfl
  | .parallel Ps => by
      rw [print, tokens, letters_intercalate, String.toList_intercalate, toList_printComponents]
      rfl
  | .exponent P count => by
      rw [print, tokens, letters_append, letters_singleton, String.toList_append,
        toList_group style _ (toList_print P)]
      rfl
  | .restriction s P => by
      rw [print, tokens, letters_cons, String.toList_append, toList_group style _ (toList_print P)]
      rfl

theorem toList_printSummands : ∀ summands : List (Action × Term),
    (printSummands style summands).map String.toList = (summandTokens summands).map style.letters
  | [] => rfl
  | (a, P) :: summands => by
      rw [printSummands, summandTokens, List.map_cons, List.map_cons, toList_printSummands summands,
        letters_cons, String.toList_append, toList_group style _ (toList_print P)]
      rfl

theorem toList_printComponents : ∀ Ps : List Term,
    (printComponents style Ps).map String.toList = (componentTokens Ps).map style.letters
  | [] => rfl
  | P :: Ps => by
      rw [printComponents, componentTokens, List.map_cons, List.map_cons, toList_printComponents Ps,
        toList_group style _ (toList_print P)]

end

end printing

/-! ### Splicing -/

theorem groupedInBody_spliced (P : Term) : P.spliced.groupedInBody = P.groupedInBody := by
  cases P <;> rfl

theorem groupedInExponent_spliced (P : Term) :
    P.spliced.groupedInExponent = P.groupedInExponent := by
  cases P <;> rfl

theorem groupedInParallel_spliced (P : Term) :
    P.spliced.groupedInParallel = P.groupedInParallel := by
  cases P <;> rfl

/-- A composition stands in another one as its components do. -/
theorem strandTokens_eq (P : Term) :
    P.strandTokens = [Token.bar].intercalate (P.strands.map strandTokens) := by
  cases P with
  | parallel Ps =>
      show (parallel Ps).tokens = _
      rw [tokens, componentTokens_eq_map, strands]
  | inaction | guarded _ _ | choice _ | exponent _ _ | restriction _ _ | constant _ =>
      exact List.intercalate_singleton.symm

theorem intercalate_append {α : Type} (sep : List α) {yss : List (List α)} (hyss : yss ≠ []) :
    ∀ {xss : List (List α)}, xss ≠ [] →
      sep.intercalate (xss ++ yss) = sep.intercalate xss ++ sep ++ sep.intercalate yss
  | [], h => absurd rfl h
  | [xs], _ => by
      rw [List.singleton_append, List.intercalate_cons_of_ne_nil hyss, List.intercalate_singleton]
  | xs :: xs' :: xss, _ => by
      have ih := intercalate_append sep hyss (List.cons_ne_nil xs' xss)
      show sep.intercalate (xs :: xs' :: (xss ++ yss)) = _
      rw [List.intercalate_cons_cons, List.intercalate_cons_cons, ← List.cons_append, ih]
      simp only [List.append_assoc]

/-- Joining in groups comes to the same as joining at once. -/
theorem intercalate_flatten {α : Type} (sep : List α) : ∀ {xsss : List (List (List α))},
    (∀ xss ∈ xsss, xss ≠ []) →
      sep.intercalate xsss.flatten = sep.intercalate (xsss.map sep.intercalate)
  | [], _ => rfl
  | [xss], _ => by
      rw [List.flatten_singleton, List.map_singleton, List.intercalate_singleton]
  | xss :: yss :: xsss, h => by
      obtain ⟨hxss, hrest⟩ := List.forall_mem_cons.1 h
      have hne : (yss :: xsss).flatten ≠ [] := fun hnil =>
        hrest yss List.mem_cons_self (List.flatten_eq_nil_iff.1 hnil yss List.mem_cons_self)
      rw [List.flatten_cons, intercalate_append sep hne hxss, intercalate_flatten sep hrest]
      exact List.intercalate_cons_cons.symm

theorem Joined.tokens_spliced (h : P.Joined) : P.spliced.tokens = P.tokens := by
  induction P using nestedInduction with
  | inaction | constant _ => rfl
  | guarded a P ih =>
      rw [spliced, tokens, tokens, groupedInBody_spliced, ih (joined_guarded.1 h)]
  | exponent P count ih =>
      rw [spliced, tokens, tokens, groupedInExponent_spliced, ih (joined_exponent.1 h)]
  | restriction s P ih =>
      rw [spliced, tokens, tokens, groupedInBody_spliced, ih (joined_restriction.1 h)]
  | choice summands ih =>
      rw [spliced, tokens, tokens, splicedSummands_eq_map, summandTokens_eq_map,
        summandTokens_eq_map, List.map_map]
      refine congrArg _ (List.map_congr_left fun summand hsummand => ?_)
      show (guarded _ _).tokens = _
      rw [tokens, tokens, groupedInBody_spliced,
        ih summand hsummand ((joined_choice.1 h).2 summand hsummand)]
  | parallel Ps ih =>
      -- the bars inside a nested composition and those around it are the same
      have hall := (joined_parallel.1 h).2
      have hsame : ∀ P ∈ Ps, P.spliced.strandTokens = P.strandTokens := fun P hP => by
        rw [strandTokens, groupedInParallel_spliced, ih P hP (hall P hP), strandTokens]
      rw [spliced, tokens, tokens, componentTokens_eq_map, componentTokens_eq_map,
        splicedStrands_eq_flatMap, List.map_flatMap, List.flatMap_def, intercalate_flatten,
        List.map_map]
      · refine congrArg _ (List.map_congr_left fun P hP => ?_)
        exact (strandTokens_eq P.spliced).symm.trans (hsame P hP)
      · rw [List.forall_mem_map]
        intro P hP hnil
        exact (hall P hP).strands_spliced_ne_nil (List.map_eq_nil_iff.1 hnil)

/-! ### Spacing -/

end Term

/-- A token that an operand may end with. -/
def Token.ends : Token → Bool
  | .inaction | .constant _ | .power _ | .closing => true
  | _ => false

/-- A token that an operand may begin with. -/
def Token.begins : Token → Bool
  | .inaction | .constant _ | .guard _ | .restriction _ | .opening => true
  | _ => false

/-- Where an operand ends, none begins at once. -/
def Spaced (tokens : List Token) : Prop :=
  tokens.IsChain fun t u => t.ends = true → u.begins = false

namespace Spaced

variable {t : Token} {ts us : List Token}

theorem singleton (t : Token) : Spaced [t] := List.isChain_singleton t

theorem cons (h : Spaced ts) (ht : t.ends = false) : Spaced (t :: ts) := by
  refine List.isChain_cons.2 ⟨fun u _ hends => ?_, h⟩
  rw [ht] at hends
  cases hends

theorem concat (h : Spaced ts) (ht : t.begins = false) : Spaced (ts ++ [t]) :=
  List.IsChain.append h (singleton t) fun _ _ _ hu _ => Option.some.inj hu ▸ ht

theorem append (h : Spaced ts) (h' : Spaced (t :: us)) (ht : t.begins = false) :
    Spaced (ts ++ t :: us) :=
  List.IsChain.append h h' fun _ _ _ hu _ => Option.some.inj hu ▸ ht

theorem groupTokens (h : Spaced ts) (needed : Bool) : Spaced (Term.groupTokens needed ts) := by
  cases needed with
  | false => exact h
  | true => exact (h.cons rfl).concat rfl

theorem intercalate (hbegins : t.begins = false) (hends : t.ends = false) :
    ∀ {tss : List (List Token)}, (∀ ts ∈ tss, Spaced ts) → Spaced ([t].intercalate tss)
  | [], _ => List.isChain_nil
  | [ts], h => by
      rw [List.intercalate_singleton]
      exact h ts List.mem_cons_self
  | ts :: us :: tss, h => by
      obtain ⟨hts, hrest⟩ := List.forall_mem_cons.1 h
      rw [List.intercalate_cons_cons, List.append_assoc, List.singleton_append]
      exact hts.append ((intercalate hbegins hends hrest).cons hends) hbegins

end Spaced

/-- Between two operands of a printed term stands a plus or a bar. -/
theorem Term.spaced_tokens (P : Term) : Spaced P.tokens := by
  induction P using Term.nestedInduction with
  | inaction | constant _ => exact Spaced.singleton _
  | guarded a P ih => exact (ih.groupTokens _).cons rfl
  | exponent P count ih => exact (ih.groupTokens _).concat rfl
  | restriction s P ih => exact (ih.groupTokens _).cons rfl
  | choice summands ih =>
      rw [tokens, summandTokens_eq_map]
      refine Spaced.intercalate rfl rfl (List.forall_mem_map.2 fun summand hsummand => ?_)
      exact ((ih summand hsummand).groupTokens _).cons rfl
  | parallel Ps ih =>
      rw [tokens, componentTokens_eq_map]
      exact Spaced.intercalate rfl rfl
        (List.forall_mem_map.2 fun P hP => (ih P hP).groupTokens _)

end PetriCcs
