import OneWay.Circuit.Gate
import OneWay.Complex
import OneWay.Random.Source
import OneWay.State.Kernel

/-!
# State vectors

The state of `n` wires is a vector of `2 ^ n` amplitudes. Gates act on it through the kernels,
and measurement, reset and damping draw from a random source and leave a normalised state.
-/

namespace OneWay

/-- The functions of an angle that gates are made of. -/
structure Trigonometry where
  cos : Float → Float
  sin : Float → Float

/-- Cosine and sine as the machine computes them. -/
def Trigonometry.machine : Trigonometry := ⟨Float.cos, Float.sin⟩

/-- The complex number of absolute value 1 with a given argument. -/
def Trigonometry.unit (t : Trigonometry) (angle : Float) : Complex :=
  ⟨1.0 * t.cos angle, 1.0 * t.sin angle⟩

/-- The amplitudes of a state. -/
abbrev Amplitudes := Array Complex

namespace Amplitudes

/-- The state in which all of `n` wires are 0. -/
def ground (n : Nat) : Amplitudes :=
  (Array.replicate (1 <<< n) Complex.zero).set 0 .one <| by
    rw [Array.size_replicate, Nat.one_shiftLeft]
    exact Nat.two_pow_pos n

/-! ### Gates -/

/-- One over the square root of 2, as the machine computes it. -/
def invSqrt2 : Float := 1.0 / Float.sqrt 2.0

/-- What a gate on one wire does to the amplitudes of 0 and 1 on that wire, where it mixes
them. -/
def mixing? (t : Trigonometry) : Gate → Option (Complex → Complex → Complex × Complex)
  | .x => some fun a b => (b, a)
  | .y => some fun a b => (-Complex.I * b, Complex.I * a)
  | .h => some fun a b => ((a + b).scale invSqrt2, (a - b).scale invSqrt2)
  | .rx theta =>
    let c := t.cos (theta / 2.0)
    let s : Complex := ⟨0.0, -t.sin (theta / 2.0)⟩
    some fun a b => (a.scale c + s * b, s * a + b.scale c)
  | .ry theta =>
    let c := t.cos (theta / 2.0)
    let s := t.sin (theta / 2.0)
    some fun a b => (a.scale c - b.scale s, a.scale s + b.scale c)
  | .u theta phi lambda =>
    let c := t.cos (theta / 2.0)
    let s := t.sin (theta / 2.0)
    let el := t.unit lambda
    let ep := t.unit phi
    let epl := t.unit (phi + lambda)
    some fun a b => (a.scale c - el.scaled s * b, ep.scaled s * a + epl.scaled c * b)
  | _ => none

/-- Multiplies the amplitudes with bit `q` set by a phase. -/
def phase (t : Trigonometry) (q : Nat) (angle : Float) (v : Amplitudes) : Amplitudes :=
  let e := t.unit angle
  Kernel.onEach (fun i a => if i.testBit q then a * e else a) v

/-- Negates the amplitudes with bit `q` set. -/
def negateOn (q : Nat) (v : Amplitudes) : Amplitudes :=
  Kernel.onEach (fun i a => if i.testBit q then -a else a) v

/-- Applies a gate to one wire. -/
def applySingle (t : Trigonometry) (g : Gate) (q : Nat) (v : Amplitudes) : Option Amplitudes :=
  match mixing? t g with
  | some f => Kernel.onPairs f q v
  | none =>
    match g with
    | .z => some (negateOn q v)
    | .s => some (phase t q (Angle.pi / 2.0) v)
    | .sdg => some (phase t q (-Angle.pi / 2.0) v)
    | .p theta => some (phase t q theta v)
    | .rz theta =>
      let e₀ := t.unit (-theta / 2.0)
      let e₁ := t.unit (theta / 2.0)
      some (Kernel.onEach (fun i a => if i.testBit q then a * e₁ else a * e₀) v)
    | _ => some v

/-- Applies a gate to two wires. -/
def applyDouble (g : Gate) (a b : Nat) (v : Amplitudes) : Option Amplitudes :=
  match g with
  | .cx => Kernel.exchange a b v
  | .cz => some (Kernel.onEach (fun i x => if i.testBit a && i.testBit b then -x else x) v)
  | _ => some v

/-- Applies a gate to the first wires of a list, as many as it needs. -/
def apply (t : Trigonometry) (g : Gate) (qubits : List Nat) (v : Amplitudes) :
    Except SimulationFault Amplitudes :=
  let result :=
    match g, qubits with
    | .i, _ => some v
    | .cx, a :: b :: _ | .cz, a :: b :: _ => applyDouble g a b v
    | .cx, _ | .cz, _ => none
    | _, q :: _ => applySingle t g q v
    | _, [] => none
  match result with
  | some v => .ok v
  | none => .error .outOfRange

/-! ### Measurement -/

/-- The sum of the squared absolute values of the amplitudes whose index passes a test. -/
def weight (keep : Nat → Bool) (v : Amplitudes) : Float :=
  v.toList.zipIdx.foldl (fun acc e => if keep e.2 then acc + e.1.normSq else acc) 0.0

/-- The probability of reading 1 on a wire. -/
def probabilityOne (q : Nat) (v : Amplitudes) : Float := weight (·.testBit q) v

/-- The nearest number between 0 and 1. -/
def clamp (x : Float) : Float := if x < 0.0 then 0.0 else if x > 1.0 then 1.0 else x

/-- Divides by the norm, unless that is not positive. -/
def normalize (v : Amplitudes) : Amplitudes :=
  let norm := (weight (fun _ => true) v).sqrt
  if norm > 0.0 then v.map (·.divReal norm) else v

/-- Keeps the branch in which a wire reads `outcome`. -/
def project (q : Nat) (outcome : Bool) (v : Amplitudes) : Amplitudes :=
  normalize (Kernel.onEach (fun i a => if i.testBit q = outcome then a else .zero) v)

variable {σ : Type} [RandomSource σ]

/-- Reads a wire and keeps the branch that was read. -/
def measure (q : Nat) (v : Amplitudes) (s : σ) :
    Except SimulationFault (Bool × Amplitudes × σ) := do
  let (outcome, s) ← RandomSource.coin (clamp (probabilityOne q v)) s
  pure (outcome, project q outcome v, s)

/-- Returns a wire to 0: reads it and flips a 1. -/
def reset (q : Nat) (v : Amplitudes) (s : σ) : Except SimulationFault (Amplitudes × σ) := do
  let (outcome, v, s) ← measure q v s
  if outcome then
    match Kernel.onPairs (fun a b => (b, a)) q v with
    | some v => pure (v, s)
    | none => throw .outOfRange
  else pure (v, s)

/-- One random step of amplitude damping: either the wire decays from 1 to 0, or the amplitudes
of 1 shrink. -/
def damp (q : Nat) (gamma : Float) (v : Amplitudes) (s : σ) :
    Except SimulationFault (Amplitudes × σ) := do
  let (jump, s) ← RandomSource.coin (clamp (gamma * probabilityOne q v)) s
  if jump then
    match Kernel.lower .zero q v with
    | some v => pure (normalize v, s)
    | none => throw .outOfRange
  else
    let keep := (1.0 - gamma).sqrt
    let v := Kernel.onEach (fun i a => if i.testBit q then a.scaled keep else a) v
    pure (normalize v, s)

end Amplitudes

end OneWay
