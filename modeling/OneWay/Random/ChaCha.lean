import OneWay.Random.Source

/-!
# The seeded random source

Words come from the ChaCha stream cipher with twelve rounds, a zero nonce and a 64-bit block
counter that starts at 0. The key is expanded from a 64-bit seed by a permuted congruential
generator. A 64-bit draw takes two words of the stream, the lower half first.
-/

namespace OneWay.ChaCha

/-- The sixteen words of a block, or of the state that it is computed from. -/
abbrev Block := Vector UInt32 16

/-- Rotates a word to the left. -/
def rotateLeft (x n : UInt32) : UInt32 := (x <<< n) ||| (x >>> (32 - n))

/-- Rotates a word to the right. -/
def rotateRight (x n : UInt32) : UInt32 := if n = 0 then x else (x >>> n) ||| (x <<< (32 - n))

/-- Mixes four words of a block. -/
def quarterRound (b : Block) (i j k l : Fin 16) : Block :=
  let x := b.get i
  let y := b.get j
  let z := b.get k
  let w := b.get l
  let x := x + y
  let w := rotateLeft (w ^^^ x) 16
  let z := z + w
  let y := rotateLeft (y ^^^ z) 12
  let x := x + y
  let w := rotateLeft (w ^^^ x) 8
  let z := z + w
  let y := rotateLeft (y ^^^ z) 7
  (((b.set i x).set j y).set k z).set l w

/-- Mixes the columns and then the diagonals. -/
def doubleRound (b : Block) : Block :=
  let b := quarterRound b 0 4 8 12
  let b := quarterRound b 1 5 9 13
  let b := quarterRound b 2 6 10 14
  let b := quarterRound b 3 7 11 15
  let b := quarterRound b 0 5 10 15
  let b := quarterRound b 1 6 11 12
  let b := quarterRound b 2 7 8 13
  quarterRound b 3 4 9 14

/-- The key of a stream. -/
abbrev Key := Vector UInt32 8

/-- The state that a block is computed from. -/
def blockStart (key : Key) (counter : UInt64) : Block :=
  #v[0x61707865, 0x3320646e, 0x79622d32, 0x6b206574,
    key[0], key[1], key[2], key[3], key[4], key[5], key[6], key[7],
    counter.toUInt32, (counter >>> 32).toUInt32, 0, 0]

/-- The block with a given number. -/
def block (key : Key) (counter : UInt64) : Block :=
  let start := blockStart key counter
  let mixed := (List.range 6).foldl (fun b _ => doubleRound b) start
  Vector.zipWith (· + ·) mixed start

/-! ### Expanding a seed -/

/-- The next state of the generator that expands a seed. -/
def expandStep (state : UInt64) : UInt64 :=
  state * 6364136223846793005 + 11634580027462260723

/-- The word that the generator gives at a state. -/
def expandWord (state : UInt64) : UInt32 :=
  rotateRight ((((state >>> 18) ^^^ state) >>> 27).toUInt32) ((state >>> 59).toUInt32)

/-- The states of the generator after one, two, … steps. -/
def expandStates : Nat → UInt64 → List UInt64
  | 0, _ => []
  | n + 1, state => expandStep state :: expandStates n (expandStep state)

/-- The key of a seed. -/
def keyOfSeed (seed : UInt64) : Key :=
  let words := (expandStates 8 seed).map expandWord
  Vector.ofFn fun i => words.getD i 0

/-! ### The stream -/

/-- A position in the stream of a key. -/
structure Stream where
  key : Key
  /-- The number of the next block. -/
  counter : UInt64
  /-- The words of the present block that are not drawn yet. -/
  pending : List UInt32

/-- The stream of a seed. -/
def ofSeed (seed : UInt64) : Stream := ⟨keyOfSeed seed, 0, []⟩

/-- Draws one word. -/
def Stream.next (s : Stream) : UInt32 × Stream :=
  match s.pending with
  | w :: l => (w, { s with pending := l })
  | [] =>
    let words := block s.key s.counter
    (words[0], ⟨s.key, s.counter + 1, words.toList.drop 1⟩)

/-- The number of words after which the block counter is back at its start and the stream repeats
itself. -/
def period : Nat := 0x100000000000000000

/-- A draw of one of three looks through a period. If all its words are passed over, so are all
later ones, and what is given then does not matter. -/
instance : RandomSource Stream where
  next64 s :=
    let (low, s) := s.next
    let (high, s) := s.next
    ((high.toUInt64 <<< 32) ||| low.toUInt64, s)
  oneOfThree s := (RandomSource.firstThird? Stream.next period s).getD (0, s)

end OneWay.ChaCha
