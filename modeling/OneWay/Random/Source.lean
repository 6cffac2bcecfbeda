/-!
# Random sources

A random source is a state from which random values are drawn one after another. What draws from
a source passes its new state on, so a computation is a function of the source.

* `coin` gives true with a given probability.
* `oneOfThree` gives 0, 1 or 2 with equal probability.
-/

namespace OneWay

/-- States from which random values are drawn. -/
class RandomSource (σ : Type) where
  /-- Draws a 64-bit word. -/
  next64 : σ → UInt64 × σ
  /-- Draws 0, 1 or 2: what `third?` makes of the first word that it does not pass over. A source
  has such a word among those to come. -/
  oneOfThree : σ → Nat × σ

/-- Why a simulation stops. -/
inductive SimulationFault where
  /-- An operand is outside the registers. -/
  | outOfRange
  /-- A number that should be a probability is none. -/
  | badProbability
  deriving DecidableEq, Repr

namespace RandomSource

variable {σ : Type}

/-- The number of 64-bit words, out of all, for which an event of probability `p` occurs. -/
def threshold (p : Float) : UInt64 := (p * 18446744073709551616.0).toUInt64

/-- True with probability `p`. A certain event draws nothing. -/
def coin [RandomSource σ] (p : Float) (s : σ) : Except SimulationFault (Bool × σ) :=
  if p == 1.0 then .ok (true, s)
  else if 0.0 ≤ p && p < 1.0 then
    let (word, s) := next64 s
    .ok (word < threshold p, s)
  else .error .badProbability

/-- The third of its range that a 32-bit word lies in. A word whose scaled fraction lies in the
last quarter is passed over, which makes the three equally likely. -/
def third? (word : UInt32) : Option Nat :=
  let scaled := word.toNat * 3
  if scaled % 0x100000000 < 0xC0000000 then some (scaled / 0x100000000) else none

/-- The third of the first word that is not passed over, if there is one among the next `tries`. -/
def firstThird? (next : σ → UInt32 × σ) : Nat → σ → Option (Nat × σ)
  | 0, _ => none
  | tries + 1, s =>
    let (word, s) := next s
    match third? word with
    | some k => some (k, s)
    | none => firstThird? next tries s

end RandomSource

/-- A source that gives recorded words in order and zeros after them, and counts the draws. -/
structure Recorded where
  words : List UInt64
  drawn : Nat := 0

namespace Recorded

/-- Draws a word. -/
def next (s : Recorded) : UInt64 × Recorded :=
  match s.words with
  | [] => (0, { s with drawn := s.drawn + 1 })
  | w :: l => (w, ⟨l, s.drawn + 1⟩)

/-- Draws 0, 1 or 2. A zero, which follows the recorded words, is not passed over. -/
def third : List UInt64 → Nat → Nat × Recorded
  | [], drawn => (0, ⟨[], drawn + 1⟩)
  | w :: l, drawn =>
    match RandomSource.third? w.toUInt32 with
    | some k => (k, ⟨l, drawn + 1⟩)
    | none => third l (drawn + 1)

instance : RandomSource Recorded where
  next64 := next
  oneOfThree s := third s.words s.drawn

end Recorded

end OneWay
