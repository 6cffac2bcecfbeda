/-!
# Gates and parity conditions

A `Gate` is one of the unitary operators of the circuit language. A `Condition` lets a gate act
only where the parity of some classical bits is as demanded. A `GateUse` is a gate together with
its optional label and condition.
-/

namespace OneWay

/-- A quantum wire, by its index. -/
abbrev Qubit := Nat

/-- A classical bit, by its index. -/
abbrev Bit := Nat

/-- The binary64 number nearest to π. -/
def Angle.pi : Float := Float.ofBits 0x400921FB54442D18

/-- A unitary operator on one or two wires; angles are in radians. -/
inductive Gate where
  | i
  | x
  | y
  | z
  | h
  | s
  /-- The inverse of `s`. -/
  | sdg
  | rx (theta : Float)
  | ry (theta : Float)
  | rz (theta : Float)
  /-- A phase on the state 1. -/
  | p (theta : Float)
  /-- The general rotation by three Euler angles. -/
  | u (theta phi lambda : Float)
  /-- Flips the second wire where the first is 1. -/
  | cx
  /-- Flips the phase where both wires are 1. -/
  | cz
  deriving DecidableEq, Repr, Inhabited

namespace Gate

/-- The name of a gate. -/
def name : Gate → String
  | .i => "id"
  | .x => "x"
  | .y => "y"
  | .z => "z"
  | .h => "h"
  | .s => "s"
  | .sdg => "sdg"
  | .rx _ => "rx"
  | .ry _ => "ry"
  | .rz _ => "rz"
  | .p _ => "p"
  | .u .. => "u"
  | .cx => "cx"
  | .cz => "cz"

/-- Number of wires. -/
def arity : Gate → Nat
  | .cx | .cz => 2
  | _ => 1

/-- The angles. -/
def parameters : Gate → List Float
  | .rx a | .ry a | .rz a | .p a => [a]
  | .u a b c => [a, b, c]
  | _ => []

/-- Whether the gate is the identity or a Pauli operator. -/
def isPauli : Gate → Bool
  | .i | .x | .y | .z => true
  | _ => false

end Gate

/-- A demand on classical bits: their parity equals `parity`. -/
structure Condition where
  bits : List Bit
  parity : Bool
  deriving DecidableEq, Repr, Inhabited

namespace Condition

/-- Whether the demand is met. Bits beyond the register count as 0. -/
def holds (c : Condition) (register : Array Bool) : Bool :=
  c.bits.foldl (fun acc b => acc ^^ register.getD b false) false == c.parity

/-- The condition as an equation. -/
def text (c : Condition) : String :=
  let target := if c.parity then "1" else "0"
  if c.bits.isEmpty then "0 == " ++ target
  else " ^ ".intercalate (c.bits.map fun b => s!"c{b}") ++ " == " ++ target

end Condition

/-- A gate as it stands in a circuit. -/
structure GateUse where
  gate : Gate
  label : Option String := none
  condition : Option Condition := none
  deriving DecidableEq, Repr, Inhabited

/-- Whether the gate depends on classical bits. -/
def GateUse.isConditioned (g : GateUse) : Bool := g.condition.isSome

end OneWay
