import PetriCcs.Ccs.Term

/-! # Printed terms

A term is printed on one line.  How names, actions, exponents, restrictions and the parallel bar
look is a record; the plain style writes text, the rich one an HTML fragment.  Where parentheses
stand does not depend on the style: around a choice or a composition after a guard or a
restriction, around a choice or a restriction inside a composition, and around everything but
inaction and constants under an exponent. -/

namespace PetriCcs

/-- How the parts of a term look. -/
structure TermStyle where
  name : String → String
  action : Action → String
  exponent : UInt64 → String
  restriction : String → String
  parallel : String

/-- The choice between the two styles. -/
inductive RenderStyle where
  | plain
  | rich
  deriving DecidableEq

namespace TermStyle

def plainAction : Action → String
  | .input name => name.text ++ "?"
  | .co name => name.text ++ "!"
  | .internal => "τ"

/-- Text: `s_t1!`, `X_p1^2`, `(νs_t1)`. -/
def plain : TermStyle where
  name := id
  action := plainAction
  exponent count := "^" ++ toString count.toNat
  restriction name := "(ν" ++ name ++ ")"
  parallel := " ∥ "

/-- What follows the first underscore of a name becomes a subscript, unless it is empty. -/
def subscripted (name : String) : String :=
  let (base, index) := name.toList.span (· ≠ '_')
  match index with
  | _ :: c :: rest => String.ofList base ++ "<sub>" ++ String.ofList (c :: rest) ++ "</sub>"
  | _ => name

def richAction : Action → String
  | .input name => subscripted name.text
  | .co name =>
    "<span style=\"text-decoration: overline\">" ++ subscripted name.text ++ "</span>"
  | .internal => "&tau;"

/-- HTML: subscripts, overlined sending actions, superscripts. -/
def rich : TermStyle where
  name := subscripted
  action := richAction
  exponent count := "<sup>" ++ toString count.toNat ++ "</sup>"
  restriction name := "(&nu;" ++ subscripted name ++ ")"
  parallel := " &#8741; "

def ofStyle : RenderStyle → TermStyle
  | .plain => plain
  | .rich => rich

end TermStyle

namespace Term

/-- Whether a term is put in parentheses after a guard or a restriction. -/
def groupedInBody : Term → Bool
  | .choice _ | .parallel _ => true
  | _ => false

/-- Whether a term is put in parentheses inside a composition. -/
def groupedInParallel : Term → Bool
  | .choice _ | .restriction _ _ => true
  | _ => false

/-- Whether a term is put in parentheses under an exponent. -/
def groupedInExponent : Term → Bool
  | .inaction | .constant _ => false
  | _ => true

/-- Parentheses when they are needed. -/
def group (needed : Bool) (text : String) : String := if needed then "(" ++ text ++ ")" else text

mutual

/-- A term in a style. -/
def print (style : TermStyle) : Term → String
  | .inaction => "0"
  | .guarded action continuation =>
    style.action action ++ "." ++ group continuation.groupedInBody (print style continuation)
  | .choice summands => " + ".intercalate (printSummands style summands)
  | .parallel components => style.parallel.intercalate (printComponents style components)
  | .exponent base count =>
    group base.groupedInExponent (print style base) ++ style.exponent count
  | .restriction name body =>
    style.restriction name.text ++ group body.groupedInBody (print style body)
  | .constant name => style.name name.text

def printSummands (style : TermStyle) : List (Action × Term) → List String
  | [] => []
  | (action, continuation) :: summands =>
    (style.action action ++ "." ++ group continuation.groupedInBody (print style continuation))
      :: printSummands style summands

def printComponents (style : TermStyle) : List Term → List String
  | [] => []
  | component :: components =>
    group component.groupedInParallel (print style component) :: printComponents style components

end

/-- A term in one of the two styles. -/
def render (process : Term) (style : RenderStyle) : String :=
  process.print (TermStyle.ofStyle style)

end Term
end PetriCcs
