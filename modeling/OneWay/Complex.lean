import OneWay.Decimal.Shortest

/-!
# Complex numbers over binary64

Sums and products are formed part by part, each operation rounded on its own, in the order in
which they are written here. The absolute value is rounded once, from the exact sum of squares.
-/

namespace OneWay

/-- A complex number. -/
structure Complex where
  re : Float
  im : Float
  deriving DecidableEq, Repr, Inhabited

namespace Complex

/-- The number 0. -/
def zero : Complex := ⟨0.0, 0.0⟩

/-- The number 1. -/
def one : Complex := ⟨1.0, 0.0⟩

/-- The imaginary unit. -/
def I : Complex := ⟨0.0, 1.0⟩

instance : Add Complex := ⟨fun a b => ⟨a.re + b.re, a.im + b.im⟩⟩

instance : Sub Complex := ⟨fun a b => ⟨a.re - b.re, a.im - b.im⟩⟩

instance : Neg Complex := ⟨fun a => ⟨-a.re, -a.im⟩⟩

instance : Mul Complex := ⟨fun a b => ⟨a.re * b.re - a.im * b.im, a.re * b.im + a.im * b.re⟩⟩

/-- A real multiple. -/
def scale (r : Float) (a : Complex) : Complex := ⟨r * a.re, r * a.im⟩

/-- A complex number times a real one. -/
def scaled (a : Complex) (r : Float) : Complex := ⟨a.re * r, a.im * r⟩

/-- A complex number divided by a real one. -/
def divReal (a : Complex) (r : Float) : Complex := ⟨a.re / r, a.im / r⟩

/-- The square of the absolute value. -/
def normSq (a : Complex) : Float := a.re * a.re + a.im * a.im

/-- Twice the square root of a natural number, with a one added where the root is not whole. Cut
down to fewer binary places it rounds as the exact root does. -/
def twiceRoot (n : Nat) : Nat :=
  let r := n.sqrt
  if r * r = n then 2 * r else 2 * r + 1

/-- The binary64 number nearest to `√(x² + y²)` for finite `x` and `y`. The squares are added
exactly, in units of `4 ^ e`, and brought to a size at which the root has some sixty binary
places. -/
def hypotenuse (x y : Float) : Float :=
  let m := Decimal.Magnitude.ofFloat x
  let n := Decimal.Magnitude.ofFloat y
  let e := min m.exponent n.exponent
  let a := m.significand * Nat.pow 2 (m.exponent - e).toNat
  let b := n.significand * Nat.pow 2 (n.exponent - e).toNat
  let sum := a * a + b * b
  if sum = 0 then 0.0
  else
    let half : Int := (sum.log2 / 2 : Nat) - 60
    let whole := if half < 0 then sum * Nat.pow 4 half.natAbs else sum / Nat.pow 4 half.toNat
    let lost := 0 < half && sum % Nat.pow 4 half.toNat ≠ 0
    let root := twiceRoot whole ||| (if lost then 1 else 0)
    (Float.ofNat root).scaleB (e + half - 1)

/-- The absolute value. -/
def norm (a : Complex) : Float :=
  if a.re.isInf || a.im.isInf then 1.0 / 0.0
  else if a.re.isNaN || a.im.isNaN then 0.0 / 0.0
  else hypotenuse a.re a.im

/-- The argument. -/
def arg (a : Complex) : Float := Float.atan2 a.im a.re

/-- Both parts are finite. -/
def isFinite (a : Complex) : Bool := a.re.isFinite && a.im.isFinite

end Complex

end OneWay
