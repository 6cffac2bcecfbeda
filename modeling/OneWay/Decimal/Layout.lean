import OneWay.Decimal.Shortest

/-!
# How the selected digits are written

A `Layout` says which numbers are written positionally, whether an integral number keeps a `.0`,
and how a tie between two shortest decimals goes. There are two: `Layout.document` for numbers
in documents and `Layout.message` for numbers in messages.

`fixed places x` is the exact value of `x` rounded to `places` decimals, an exact half going to
the even neighbour. The sign bit is written even where every digit is zero.
-/

namespace OneWay.Decimal

/-- The decisions of a number format. -/
structure Layout where
  /-- Whether a number whose leading digit has this exponent is written without an exponent. -/
  positional : Int → Bool
  /-- Whether a positional integral number ends in `.0`. -/
  pointZero : Bool
  tie : Tie

/-- Documents write `0.00001` and `1000000000000000.0`, but `1e-6` and `1e+16`. -/
def Layout.document : Layout where
  positional e := -5 ≤ e && e ≤ 15
  pointZero := true
  tie := .even

/-- Messages never use an exponent and write integral numbers without a point. -/
def Layout.message : Layout where
  positional _ := true
  pointZero := false
  tie := .up

/-- The digits of a decimal without zeros at the end. -/
def Scaled.significant (d : Scaled) : List Char :=
  ((Nat.toDigits 10 d.digits).reverse.dropWhile (· == '0')).reverse

/-- Positional notation for digits whose first has the exponent `e`. -/
def Layout.positionally (layout : Layout) (digits : List Char) (e : Int) : List Char :=
  if e < 0 then
    "0.".toList ++ List.replicate ((-e).toNat - 1) '0' ++ digits
  else
    let whole := e.toNat + 1
    if digits.length ≤ whole then
      digits ++ List.replicate (whole - digits.length) '0'
        ++ if layout.pointZero then ".0".toList else []
    else digits.take whole ++ '.' :: digits.drop whole

/-- Scientific notation for digits whose first has the exponent `e`. -/
def scientifically (digits : List Char) (e : Int) : List Char :=
  let fraction := digits.drop 1
  digits.take 1 ++ (if fraction.isEmpty then [] else '.' :: fraction)
    ++ 'e' :: (if e < 0 then '-' else '+') :: Nat.toDigits 10 e.natAbs

/-- A finite number. -/
def Layout.finite (layout : Layout) (x : Float) : String :=
  let m := Magnitude.ofFloat x
  let sign := if isNegative x then ['-'] else []
  if m.significand = 0 then String.ofList (sign ++ layout.positionally ['0'] 0)
  else
    let d := m.shortest layout.tie
    let e := d.exponent + ((Nat.toDigits 10 d.digits).length : Int) - 1
    String.ofList <| sign ++
      if layout.positional e then layout.positionally d.significant e
      else scientifically d.significant e

/-- A number as messages show it. -/
def inMessage (x : Float) : String :=
  if x.isNaN then "NaN"
  else if x.isInf then (if isNegative x then "-inf" else "inf")
  else Layout.message.finite x

/-! ### A fixed number of decimal places -/

/-- The quotient `num / den` rounded to the nearest natural, a half going to the even one. -/
def roundHalfEven (num den : Nat) : Nat :=
  let q := num / den
  let r := 2 * (num % den)
  if r < den then q
  else if den < r then q + 1
  else q + q % 2

/-- The decimal digits of `n`, with zeros in front up to `width` characters. -/
def padded (width n : Nat) : List Char :=
  let digits := Nat.toDigits 10 n
  List.replicate (width - digits.length) '0' ++ digits

/-- The text of `scaled / 10 ^ places` with exactly `places` decimals. -/
def placed (places scaled : Nat) : String :=
  let digits := padded (places + 1) scaled
  let whole := digits.take (digits.length - places)
  let rest := digits.drop (digits.length - places)
  String.ofList (if places = 0 then whole else whole ++ '.' :: rest)

/-- A number with exactly `places` decimals. -/
def fixed (places : Nat) (x : Float) : String :=
  let sign := if isNegative x then "-" else ""
  if x.isNaN then "NaN"
  else if x.isInf then sign ++ "inf"
  else
    let m := Magnitude.ofFloat x
    sign ++ placed places (roundHalfEven (m.num * Nat.pow 10 places) m.den)

end OneWay.Decimal
