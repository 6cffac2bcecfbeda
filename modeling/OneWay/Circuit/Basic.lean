import OneWay.Sorted.Map
import OneWay.Circuit.Gate
import OneWay.Decimal.Layout

/-!
# Circuits

A circuit has a quantum and a classical register and a list of instructions. `Circuit.fault?`
says what is wrong with an instruction in a circuit, and `Circuit.append` adds an instruction
that has no fault.
-/

namespace OneWay

/-- What an instruction does to its wires. -/
inductive Action where
  /-- Apply a gate. -/
  | gate (g : GateUse)
  /-- Measure each wire into the classical bit at the same position. -/
  | measure
  /-- Return each wire to the state 0. -/
  | reset
  /-- Keep the instructions before and after apart. -/
  | barrier
  /-- Record the amplitudes in a simulation. -/
  | snapshot
  deriving DecidableEq, Repr, Inhabited

/-- An action on given wires and classical bits. -/
structure Instruction where
  action : Action
  qubits : List Qubit
  bits : List Bit := []
  deriving DecidableEq, Repr, Inhabited

namespace Instruction

/-- The name of an instruction: that of its gate, if it has one. -/
def name (inst : Instruction) : String :=
  match inst.action with
  | .gate g => g.gate.name
  | .measure => "measure"
  | .reset => "reset"
  | .barrier => "barrier"
  | .snapshot => "save_statevector"

/-- The gate of an instruction. -/
def gateUse? (inst : Instruction) : Option GateUse :=
  match inst.action with
  | .gate g => some g
  | _ => none

/-- The condition of an instruction. -/
def condition? (inst : Instruction) : Option Condition := inst.gateUse?.bind (·.condition)

/-- The classical bits that an instruction reads. -/
def conditionBits (inst : Instruction) : List Bit :=
  match inst.condition? with
  | some c => c.bits
  | none => []

/-- Whether the instruction applies a gate. -/
def isGate (inst : Instruction) : Bool := inst.gateUse?.isSome

/-- Whether the instruction depends on classical bits. -/
def isConditioned (inst : Instruction) : Bool := inst.condition?.isSome

/-- Whether the instruction leaves the state and the registers alone. -/
def isPassive (inst : Instruction) : Bool :=
  match inst.action with
  | .barrier | .snapshot => true
  | _ => false

end Instruction

/-- What can be wrong with an instruction in a circuit, or with a noise parameter. -/
inductive CircuitFault where
  /-- A wire outside the quantum register. -/
  | qubitNotFound (qubit : Qubit) (gate : Option String)
  /-- A bit outside the classical register. -/
  | bitNotFound (bit : Bit) (gate : Option String)
  /-- A gate on the wrong number of wires. -/
  | qubitCount (gate : String) (expected got : Nat)
  /-- A measurement of some wires into another number of bits. -/
  | measureArity (qubits bits : Nat)
  /-- A wire that stands twice in one instruction. -/
  | duplicateQubit (qubit : Qubit) (gate : Option String)
  /-- A noise parameter that is no probability. -/
  | noiseParameter (channel : String) (value : Float)
  deriving DecidableEq, Repr

namespace CircuitFault

/-- The gate that a fault concerns, in parentheses. -/
def context : Option String → String
  | some g => s!" (gate: {g})"
  | none => ""

/-- The fault in words. -/
def message : CircuitFault → String
  | .qubitNotFound q g => s!"Qubit q{q} not found in circuit{context g}"
  | .bitNotFound c g => s!"Classical bit c{c} not found in circuit{context g}"
  | .qubitCount g e n => s!"Gate '{g}' requires {e} qubits, got {n}"
  | .measureArity q c => s!"Measurement targets {q} qubits but {c} classical bits"
  | .duplicateQubit q g => s!"Duplicate qubit q{q} in operation{context g}"
  | .noiseParameter c x => s!"Invalid noise parameter for {c}: {Decimal.inMessage x}"

end CircuitFault

/-- A circuit: its registers and its instructions in order. -/
structure Circuit where
  name : String
  numQubits : Nat
  numBits : Nat
  instructions : Array Instruction
  deriving DecidableEq, Repr, Inhabited

namespace Circuit

/-- A circuit without instructions. -/
def ofSize (name : String) (numQubits numBits : Nat) : Circuit := ⟨name, numQubits, numBits, #[]⟩

/-! ### Faults of instructions -/

/-- The first entry of a list that stands in it before. -/
def firstRepeated? : List Qubit → List Qubit → Option Qubit
  | _, [] => none
  | seen, q :: l => if seen.contains q then some q else firstRepeated? (q :: seen) l

/-- The fault of an instruction with the wrong number of operands. -/
def arityFault? (inst : Instruction) : Option CircuitFault :=
  match inst.action with
  | .gate g =>
    if inst.qubits.length = g.gate.arity then none
    else some (.qubitCount g.gate.name g.gate.arity inst.qubits.length)
  | .measure =>
    if inst.qubits.length = inst.bits.length then none
    else some (.measureArity inst.qubits.length inst.bits.length)
  | _ => none

/-- The first fault of an instruction: in the number of its operands, in its wires, in the
classical bits that it writes or reads, or by a repeated wire. -/
def fault? (c : Circuit) (inst : Instruction) : Option CircuitFault :=
  let gate := inst.gateUse?.map (·.gate.name)
  (arityFault? inst).or <|
  (inst.qubits.findSome? fun q =>
    if q < c.numQubits then none else some (.qubitNotFound q gate)).or <|
  ((inst.bits ++ inst.conditionBits).findSome? fun b =>
    if b < c.numBits then none else some (.bitNotFound b gate)).or <|
  (firstRepeated? [] inst.qubits).map fun q => .duplicateQubit q gate

/-- Accepts a circuit whose instructions have no fault. -/
def validate (c : Circuit) : Except CircuitFault Unit :=
  match c.instructions.toList.findSome? c.fault? with
  | some f => .error f
  | none => .ok ()

/-! ### Building circuits -/

/-- Adds a wire and gives its index. -/
def addQubit (c : Circuit) : Qubit × Circuit :=
  (c.numQubits, { c with numQubits := c.numQubits + 1 })

/-- Adds a classical bit and gives its index. -/
def addBit (c : Circuit) : Bit × Circuit :=
  (c.numBits, { c with numBits := c.numBits + 1 })

/-- The circuit with one instruction more, if the instruction has no fault in it. -/
def append (c : Circuit) (inst : Instruction) : Except CircuitFault Circuit :=
  match c.fault? inst with
  | some f => .error f
  | none => .ok { c with instructions := c.instructions.push inst }

/-- Appends a gate with its label and condition. -/
def appendUse (c : Circuit) (g : GateUse) (qubits : List Qubit) : Except CircuitFault Circuit :=
  c.append ⟨.gate g, qubits, []⟩

/-- Appends a plain gate. -/
def appendGate (c : Circuit) (g : Gate) (qubits : List Qubit) : Except CircuitFault Circuit :=
  c.appendUse { gate := g } qubits

/-- Appends the measurement of a wire. -/
def measure (c : Circuit) (q : Qubit) (b : Bit) : Except CircuitFault Circuit :=
  c.append ⟨.measure, [q], [b]⟩

/-- Appends the reset of a wire. -/
def reset (c : Circuit) (q : Qubit) : Except CircuitFault Circuit :=
  c.append ⟨.reset, [q], []⟩

/-- Appends a barrier. -/
def barrier (c : Circuit) (qubits : List Qubit) : Except CircuitFault Circuit :=
  c.append ⟨.barrier, qubits, []⟩

/-- Appends a snapshot of all wires. -/
def snapshot (c : Circuit) : Except CircuitFault Circuit :=
  c.append ⟨.snapshot, List.range c.numQubits, []⟩

/-! ### Statistics -/

/-- Number of instructions. -/
def numOps (c : Circuit) : Nat := c.instructions.size

/-- Number of gates. -/
def numGates (c : Circuit) : Nat := c.instructions.toList.countP Instruction.isGate

/-- How often each instruction name occurs. -/
def countOps (c : Circuit) : SortedMap String Nat :=
  c.instructions.toList.foldl (fun m inst => m.insertWith (· + ·) inst.name 1) ∅

/-- Whether some gate depends on classical bits. -/
def hasConditions (c : Circuit) : Bool := c.instructions.toList.any Instruction.isConditioned

/-- Whether one of the instructions uses a wire that is in `measured` or that an earlier one of
them measures. Barriers and snapshots use no wire. -/
def reusesMeasured (measured : List Qubit) : List Instruction → Bool
  | [] => false
  | inst :: l =>
    if inst.isPassive then reusesMeasured measured l
    else
      inst.qubits.any measured.contains ||
        reusesMeasured (if inst.action = .measure then inst.qubits ++ measured else measured) l

/-- Whether a measured wire is used again. -/
def hasMidCircuitMeasurement (c : Circuit) : Bool := reusesMeasured [] c.instructions.toList

end Circuit

end OneWay
