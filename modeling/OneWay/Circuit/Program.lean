import OneWay.Circuit.Basic

/-!
# Circuits as OpenQASM 3 programs

A program is a header, the declarations of the registers that are not empty, and one statement a
line. A gate with a condition stands in a block of its own:

    if ((c[0] ^ c[2]) == 1) {
      x q[1];
    }

A condition without bits is settled here: it always holds or never does. Labels are not written,
and a snapshot becomes a comment.

An angle is written as a multiple of π with a small denominator where it is one, up to a
tolerance, and with six decimals otherwise.
-/

namespace OneWay

/-- Why a circuit has no program. -/
inductive ProgramFault where
  /-- An instruction of the circuit is at fault. -/
  | circuit (fault : CircuitFault)
  /-- An angle cannot be written. -/
  | nonFiniteAngle (gate : String) (value : Float)
  deriving DecidableEq, Repr

/-- The fault in words. -/
def ProgramFault.message : ProgramFault → String
  | .circuit f => "Circuit error: " ++ f.message
  | .nonFiniteAngle g x => s!"Gate '{g}' has non-finite angle {Decimal.inMessage x}"

namespace Angle

/-- The multiple `numer / denom` of π, where `negative` tells the sign. -/
def fractionText (negative : Bool) (numer denom : Nat) : String :=
  let sign := if negative then "-" else ""
  let multiple := if numer = 1 then "pi" else s!"{numer}*pi"
  if denom = 1 then sign ++ multiple else s!"{sign}{multiple}/{denom}"

/-- The angle as a multiple of `π / denom`, if it is within the tolerance of one and that
multiple is at most 16. -/
def fraction? (angle : Float) (denom : Nat) : Option String :=
  let numer := angle * Float.ofNat denom / pi
  let rounded := numer.round
  if (numer - rounded).abs < 1e-9 && rounded.abs ≤ 16.0 then
    some (fractionText (rounded < 0.0) rounded.abs.toUInt64.toNat denom)
  else none

/-- An angle as programs show it. -/
def text (angle : Float) : String :=
  if angle.abs < 1e-10 then "0"
  else ([1, 2, 4, 8].findSome? (fraction? angle)).getD (Decimal.fixed 6 angle)

end Angle

namespace Circuit

/-- A wire of the quantum register. -/
def qubitText (q : Qubit) : String := s!"q[{q}]"

/-- A bit of the classical register. -/
def bitText (b : Bit) : String := s!"c[{b}]"

/-- Several wires. -/
def qubitsText (qubits : List Qubit) : String := ", ".intercalate (qubits.map qubitText)

/-- The name of a gate in a program; the general rotation is the built-in `U`. -/
def gateWord : Gate → String
  | .u .. => "U"
  | g => g.name

/-- The statement that applies a gate. -/
def gateStatement (g : Gate) (qubits : List Qubit) : Except ProgramFault String :=
  match g.parameters.find? (! ·.isFinite) with
  | some bad => .error (.nonFiniteAngle g.name bad)
  | none =>
    .ok <|
      if g.parameters.isEmpty then s!"{gateWord g} {qubitsText qubits};"
      else
        let angles := ", ".intercalate (g.parameters.map Angle.text)
        s!"{gateWord g}({angles}) {qubitsText qubits};"

/-- The test of a condition; none if it always holds. -/
def testText? (c : Condition) : Option String :=
  let target := if c.parity then "1" else "0"
  match c.bits with
  | [] => if c.parity then some "false" else none
  | [b] => some s!"{bitText b} == {target}"
  | bits =>
    let parity := " ^ ".intercalate (bits.map bitText)
    some s!"({parity}) == {target}"

/-- The lines of a statement under a condition. -/
def conditioned (condition : Option Condition) (statement : String) : List String :=
  match condition.bind testText? with
  | some test => [s!"if ({test}) " ++ "\x7b", "  " ++ statement, "\x7d"]
  | none => [statement]

/-- The lines of an instruction. -/
def instructionLines (inst : Instruction) : Except ProgramFault (List String) :=
  match inst.action with
  | .gate g => (gateStatement g.gate inst.qubits).map (conditioned g.condition)
  | .measure =>
    .ok ((inst.qubits.zip inst.bits).map fun (q, b) => s!"{bitText b} = measure {qubitText q};")
  | .reset => .ok (inst.qubits.map fun q => s!"reset {qubitText q};")
  | .barrier =>
    .ok [if inst.qubits.isEmpty then "barrier;" else s!"barrier {qubitsText inst.qubits};"]
  | .snapshot => .ok [s!"// @pragma save_statevector {qubitsText inst.qubits};"]

/-- The lines of several instructions. -/
def bodyLines : List Instruction → Except ProgramFault (List String)
  | [] => .ok []
  | inst :: l => do
    let first ← instructionLines inst
    let others ← bodyLines l
    pure (first ++ others)

/-- The header and the declarations. -/
def headLines (c : Circuit) : List String :=
  ["OPENQASM 3.0;", "include \"stdgates.inc\";", ""]
    ++ (if 0 < c.numQubits then [s!"qubit[{c.numQubits}] q;"] else [])
    ++ (if 0 < c.numBits then [s!"bit[{c.numBits}] c;"] else [])
    ++ (if 0 < c.numQubits ∨ 0 < c.numBits then [""] else [])

/-- The program of a circuit. -/
def program (c : Circuit) : Except ProgramFault String := do
  match c.validate with
  | .error f => throw (.circuit f)
  | .ok () => pure ()
  let body ← bodyLines c.instructions.toList
  pure (String.join ((c.headLines ++ body).map (· ++ "\n")))

end Circuit

end OneWay
