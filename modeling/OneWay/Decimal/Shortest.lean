/-!
# The fewest digits that read back

A finite binary64 number is `significand * 2 ^ exponent` up to its sign. `Magnitude` holds the
two parts, and `Magnitude.num` and `Magnitude.den` the same value as a quotient of naturals, the
form in which digits are selected and places are rounded.

`Magnitude.shortest` is the decimal with the fewest significant digits among those that round to
the given binary64 number; of several with that many digits it is the nearest to the exact value,
and the tie rule decides between two that are equally near.

All comparisons are between naturals: no step rounds.
-/

namespace OneWay.Decimal

/-! ### The exact value behind a binary64 number -/

/-- The size of a finite binary64 number: `significand * 2 ^ exponent`. -/
structure Magnitude where
  significand : Nat
  exponent : Int
  /-- The number below is half as far away as the number above. -/
  tightBelow : Bool
  deriving DecidableEq, Repr

namespace Magnitude

/-- The size of a finite number. The infinities and NaN have none; their bits read as if finite. -/
def ofFloat (x : Float) : Magnitude :=
  let bits : Nat := x.toBits.toNat
  let field : Nat := bits / 0x10000000000000 % 0x800
  let fraction : Nat := bits % 0x10000000000000
  if field = 0 then
    { significand := fraction, exponent := -1074, tightBelow := false }
  else
    { significand := 0x10000000000000 + fraction, exponent := (field : Int) - 1075,
      tightBelow := fraction == 0 && field != 1 }

/-- The numerator of the value in lowest powers of two. -/
def num (m : Magnitude) : Nat := m.significand * Nat.pow 2 m.exponent.toNat

/-- The denominator of the value, a power of two. -/
def den (m : Magnitude) : Nat := Nat.pow 2 (-m.exponent).toNat

end Magnitude

/-- Whether the sign bit is set, for zeros as well. -/
def isNegative (x : Float) : Bool := x.toBits ≥ 0x8000000000000000

/-! ### Selecting digits -/

/-- Which of two equally near decimals to take. -/
inductive Tie where
  /-- The one whose last digit is even. -/
  | even
  /-- The larger one. -/
  | up
  deriving DecidableEq, Repr

/-- The number `digits * 10 ^ exponent`. -/
structure Scaled where
  digits : Nat
  exponent : Int
  deriving DecidableEq, Repr

/-- Compares `d` with `quarters * 2 ^ (exponent - 2)` exactly. -/
def Scaled.compareQuarters (d : Scaled) (quarters : Nat) (exponent : Int) : Ordering :=
  compare (d.digits * Nat.pow 10 d.exponent.toNat * Nat.pow 2 (2 - exponent).toNat)
    (quarters * Nat.pow 2 (exponent - 2).toNat * Nat.pow 10 (-d.exponent).toNat)

namespace Magnitude

/-- Whether `d` is among the reals that round to `m`: between the midpoints towards the two
neighbours of `m`, the midpoints themselves included exactly when the significand is even. -/
def readsBack (m : Magnitude) (d : Scaled) : Bool :=
  let low := 4 * m.significand - if m.tightBelow then 1 else 2
  let high := 4 * m.significand + 2
  let ends := m.significand % 2 == 0
  let above := d.compareQuarters low m.exponent
  let below := d.compareQuarters high m.exponent
  (above == .gt || ends && above == .eq) && (below == .lt || ends && below == .eq)

/-- The exponent of the leading decimal digit: the largest `k` with `10 ^ k` at most the value.
Of zero it is zero. -/
def leading (m : Magnitude) : Int :=
  if m.significand = 0 then 0
  else if m.den ≤ m.num then ((Nat.toDigits 10 (m.num / m.den)).length : Int) - 1
  else
    let len := (Nat.toDigits 10 (m.den / m.num)).length
    if m.den ≤ m.num * Nat.pow 10 (len - 1) then -((len - 1 : Nat) : Int) else -(len : Int)

/-- The largest multiple of `10 ^ grid` that is at most the value, in units of `10 ^ grid`. -/
def floorOn (m : Magnitude) (grid : Int) : Nat :=
  m.num * Nat.pow 10 (-grid).toNat / (m.den * Nat.pow 10 grid.toNat)

/-- The decimals with `count` digits that read back: of the two neighbours of the value on that
grid the nearer, if both do. -/
def candidate (m : Magnitude) (tie : Tie) (count : Nat) : Option Scaled :=
  let grid := m.leading - count + 1
  let below : Scaled := ⟨m.floorOn grid, grid⟩
  let above : Scaled := ⟨below.digits + 1, grid⟩
  match m.readsBack below, m.readsBack above with
  | false, false => none
  | true, false => some below
  | false, true => some above
  | true, true =>
    let middle : Scaled := ⟨2 * below.digits + 1, grid⟩
    match middle.compareQuarters (8 * m.significand) m.exponent with
    | .gt => some below
    | .lt => some above
    | .eq =>
      match tie with
      | .up => some above
      | .even => some (if below.digits % 2 = 0 then below else above)

/-- The value itself as a decimal. -/
def exactly (m : Magnitude) : Scaled :=
  ⟨m.num * Nat.pow 5 (-m.exponent).toNat, -(-m.exponent).toNat⟩

/-- The fewest digits that read back. Seventeen always suffice. -/
def shortest (m : Magnitude) (tie : Tie) : Scaled :=
  ((List.range 17).findSome? fun n => m.candidate tie (n + 1)).getD m.exactly

end Magnitude

end OneWay.Decimal
