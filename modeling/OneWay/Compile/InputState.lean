import OneWay.Complex
import OneWay.Decimal.Layout
import OneWay.Datum.Record

/-!
# Input states

The state of an input node is given by its two amplitudes. `InputState.check` accepts two finite
amplitudes whose squares sum to 1 within `InputState.tolerance`, and `InputState.angles` are the
angles of the rotation that prepares the state from 0, up to a global phase.
-/

namespace OneWay

/-- The amplitudes of a state. -/
structure InputState where
  amplitudes : List Complex
  deriving DecidableEq, Repr, Inhabited

/-- What can be wrong with an input state. -/
inductive InputStateFault where
  /-- The node is no input node. -/
  | notAnInput
  | wrongDimension (count : Nat)
  | nonFinite
  | notNormalized (norm : Float)
  deriving DecidableEq, Repr

/-- The fault in words. -/
def InputStateFault.message : InputStateFault → String
  | .notAnInput => "node is not an input node"
  | .wrongDimension n => s!"expected 2 amplitudes, got {n}"
  | .nonFinite => "amplitudes must be finite"
  | .notNormalized x => s!"state is not normalized (norm² = {Decimal.inMessage x})"

namespace InputState

/-- The binary64 number nearest to the square root of one half. -/
def sqrtHalf : Float := Float.ofBits 0x3FE6A09E667F3BCD

/-- The state 0. -/
def zero : InputState := ⟨[.one, .zero]⟩

/-- The state 1. -/
def one : InputState := ⟨[.zero, .one]⟩

/-- The even superposition of 0 and 1. -/
def plus : InputState := ⟨[⟨sqrtHalf, 0.0⟩, ⟨sqrtHalf, 0.0⟩]⟩

/-- The even superposition of 0 and 1 with opposite signs. -/
def minus : InputState := ⟨[⟨sqrtHalf, 0.0⟩, -⟨sqrtHalf, 0.0⟩]⟩

/-- How far the squared norm may be from 1, and below which an amplitude counts as zero. -/
def tolerance : Float := 1e-6

/-- The sum of the squared absolute values. -/
def normSq (s : InputState) : Float := s.amplitudes.foldl (fun acc a => acc + a.normSq) 0.0

/-- Accepts a normalised state of one qubit. -/
def check (s : InputState) : Except InputStateFault Unit :=
  if s.amplitudes.length ≠ 2 then .error (.wrongDimension s.amplitudes.length)
  else if s.amplitudes.any fun a => !a.isFinite then .error .nonFinite
  else if (s.normSq - 1.0).abs > tolerance then .error (.notNormalized s.normSq)
  else .ok ()

/-- The two angles of the rotation that prepares the state with amplitudes `α` and `β`. Where one
of them vanishes the relative phase is global and the second angle is 0. -/
def anglesOf (α β : Complex) : Float × Float :=
  let theta := 2.0 * Float.atan2 β.norm α.norm
  let phi := if β.norm < tolerance || α.norm < tolerance then 0.0 else β.arg - α.arg
  (theta, phi)

/-- The two angles of the rotation that prepares the state; zero for other dimensions. -/
def angles (s : InputState) : Float × Float :=
  match s.amplitudes with
  | α :: β :: _ => anglesOf α β
  | _ => (0.0, 0.0)

/-- A state as a value: a list of real and imaginary parts. -/
def toJson (s : InputState) : Json :=
  .ofList (fun a => .arr [.real a.re, .real a.im]) s.amplitudes

/-- Reads a state of any dimension. -/
def ofDatum? (v : Datum) : Option InputState :=
  (v.list? (Datum.pair? Datum.real? Datum.real?)).map fun l => ⟨l.map fun (re, im) => ⟨re, im⟩⟩

end InputState

end OneWay
