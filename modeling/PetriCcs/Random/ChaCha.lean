import PetriCcs.Random.Source

/-! # The ChaCha stream

A random source from a number: the seed is stretched to a key of eight words, and the stream is
that of the ChaCha block function with twelve rounds, a counter of two words and a nonce of
zeros. -/

namespace PetriCcs
namespace ChaCha

/-- The sixteen words of a block. -/
abbrev Block := Vector UInt32 16

def rotateLeft (word amount : UInt32) : UInt32 :=
  (word <<< amount) ||| (word >>> (32 - amount))

/-- Mixes four words of a block in place. -/
def quarterRound (a b c d : Fin 16) (block : Block) : Block :=
  let step (x y z : Fin 16) (amount : UInt32) (block : Block) : Block :=
    let block := block.set x (block[x] + block[y])
    block.set z (rotateLeft (block[z] ^^^ block[x]) amount)
  step c d b 7 (step a b d 8 (step c d b 12 (step a b d 16 block)))

/-- A round over the columns and a round over the diagonals. -/
def doubleRound (block : Block) : Block :=
  let columns := quarterRound 3 7 11 15 <| quarterRound 2 6 10 14 <|
    quarterRound 1 5 9 13 <| quarterRound 0 4 8 12 block
  quarterRound 3 4 9 14 <| quarterRound 2 7 8 13 <|
    quarterRound 1 6 11 12 <| quarterRound 0 5 10 15 columns

/-- The block before the rounds: constants, key, counter, nonce. -/
def start (key : Vector UInt32 8) (counter : UInt64) : Block :=
  #v[0x61707865, 0x3320646e, 0x79622d32, 0x6b206574,
    key[0], key[1], key[2], key[3], key[4], key[5], key[6], key[7],
    counter.toUInt32, (counter >>> 32).toUInt32, 0, 0]

/-- The block of the stream at a counter: six double rounds, then the block before them added. -/
def block (key : Vector UInt32 8) (counter : UInt64) : Block :=
  let first := start key counter
  Vector.zipWith (· + ·) ((List.range 6).foldl (fun block _ => doubleRound block) first) first

/-- One step of the generator that stretches a seed: its new state and its output word. -/
def stretch (state : UInt64) : UInt64 × UInt32 :=
  let state := state * 6364136223846793005 + 11634580027462260723
  let word := (((state >>> 18) ^^^ state) >>> 27).toUInt32
  let amount := (state >>> 59).toUInt32
  (state, rotateLeft word ((32 - amount) % 32))

/-- The first `count` output words from a state. -/
def stretchWords : (count : Nat) → UInt64 → List UInt32
  | 0, _ => []
  | count + 1, state =>
    let (state, word) := stretch state
    word :: stretchWords count state

/-- The key of a seed. -/
def keyOfSeed (seed : UInt64) : Vector UInt32 8 :=
  Vector.ofFn fun i => (stretchWords 8 seed).getD i 0

/-- A position in a stream: the words left of a block and the counter of the next block. -/
structure Stream where
  key : Vector UInt32 8
  counter : UInt64 := 0
  pending : List UInt32 := []

/-- The beginning of the stream of a seed. -/
def Stream.ofSeed (seed : UInt64) : Stream := { key := keyOfSeed seed }

instance : RandomSource Stream where
  next stream :=
    match stream.pending with
    | word :: pending => (word, { stream with pending })
    | [] =>
      let words := (block stream.key stream.counter).toList
      (words.headD 0, { stream with counter := stream.counter + 1, pending := words.tail })

end ChaCha
end PetriCcs
