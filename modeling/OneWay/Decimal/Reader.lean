/-!
# Reading decimal numerals

A `Numeral` is a sign, the digits before and after a point, and a power of ten. A `Reader` makes
a binary64 number of it, an infinity if the numeral lies beyond the largest finite number. There
are two:

* `Reader.nearest` gives the number nearest to the value of the numeral.
* `Reader.quick` keeps the digits that 64 bits hold and scales them by a power of ten in binary64
  arithmetic. Each operation rounds, so a numeral with many digits or a large exponent can come
  out a little off the nearest number.

A zero keeps its sign.
-/

namespace OneWay.Decimal

/-- The value of a run of decimal digits. -/
def ofDigits (digits : List Char) : Nat :=
  digits.foldl (fun n c => 10 * n + (c.toNat - '0'.toNat)) 0

/-- The number `± whole.fraction * 10 ^ exponent`. -/
structure Numeral where
  negative : Bool
  /-- The digits before the point. -/
  whole : List Char
  /-- The digits after the point. -/
  fraction : List Char
  exponent : Int
  deriving DecidableEq, Repr

/-- How numerals are turned into numbers. -/
abbrev Reader := Numeral → Float

/-! ### The nearest number -/

/-- The binary64 number nearest to `digits * 10 ^ exponent`. Numerals far outside the range are
settled by their number of digits, so that no huge power is formed for them. -/
def nearestMagnitude (digits : Nat) (exponent : Int) : Float :=
  let top := exponent + ((Nat.toDigits 10 digits).length : Int)
  if digits = 0 || top < -400 then 0.0
  else if 400 < top then 1.0 / 0.0
  else Float.ofScientific digits (exponent < 0) exponent.natAbs

/-- The binary64 number nearest to `± digits * 10 ^ exponent`. -/
def nearest (negative : Bool) (digits : Nat) (exponent : Int) : Float :=
  if negative then -nearestMagnitude digits exponent else nearestMagnitude digits exponent

/-- The number nearest to a numeral. -/
def Reader.nearest : Reader := fun n =>
  Decimal.nearest n.negative (ofDigits (n.whole ++ n.fraction)) (n.exponent - n.fraction.length)

/-! ### The quick reader -/

/-- Appends digits to a significand as long as 64 bits hold it. The second number counts the
digits that are left over. -/
def fill (significand : Nat) : List Char → Nat × Nat
  | [] => (significand, 0)
  | c :: digits =>
    let next := 10 * significand + (c.toNat - '0'.toNat)
    if next < 0x10000000000000000 then fill next digits else (significand, digits.length + 1)

/-- The number `f / 10 ^ k`, rounded after each operation. The powers of ten end at 308, so a larger
one is divided off in parts. -/
def scaledDown (f : Float) (k : Nat) : Float :=
  if k ≤ 308 then f / nearestMagnitude 1 k
  else if f == 0.0 then f
  else scaledDown (f / 1e308) (k - 308)
termination_by k
decreasing_by omega

/-- The number `f * 10 ^ exponent`, rounded after each operation. -/
def scaled (f : Float) (exponent : Int) : Float :=
  if exponent < 0 then scaledDown f exponent.natAbs
  else if f == 0.0 then f
  else if exponent ≤ 308 then f * nearestMagnitude 1 exponent
  else 1.0 / 0.0

/-- The digits that 64 bits hold, scaled to their places. -/
def Reader.quick : Reader := fun n =>
  let (significand, skipped) := fill 0 n.whole
  let (significand, ignored) := fill significand n.fraction
  let exponent := n.exponent + skipped - ((n.fraction.length - ignored : Nat) : Int)
  let f := scaled (nearestMagnitude significand 0) exponent
  if n.negative then -f else f

end OneWay.Decimal
