/-! # Random sources

A source yields one word after another.  `below bound` draws a number under a bound: it scales a
word to the bound and, when the fraction that is cut off lies within one unit of the next number,
a second word decides whether to round up.  A bound up to `2 ^ 32` is never exceeded. -/

namespace PetriCcs

/-- A state that yields words. -/
class RandomSource (σ : Type) where
  next : σ → UInt32 × σ

namespace RandomSource

variable {σ : Type} [RandomSource σ]

/-- The next word of the source. -/
def word : StateM σ Nat := fun source =>
  let (drawn, source) := next source
  (drawn.toNat, source)

/-- Number of values of a word. -/
def range : Nat := UInt32.size

/-- A number below `bound`, from one word or two. -/
def below (bound : Nat) : StateM σ Nat := do
  let scaled := (← word) * bound
  let whole := scaled / range
  let fraction := scaled % range
  if range - bound < fraction then
    let carry := (← word) * bound / range
    return if range ≤ fraction + carry then whole + 1 else whole
  else
    return whole

end RandomSource

/-- A source that yields the listed words and then zeros. -/
structure WordList where
  words : List UInt32

instance : RandomSource WordList where
  next source :=
    match source.words with
    | [] => (0, source)
    | word :: words => (word, ⟨words⟩)

end PetriCcs
