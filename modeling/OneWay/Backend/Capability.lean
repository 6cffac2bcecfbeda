import OneWay.Backend.Fault
import OneWay.Circuit.Basic
import OneWay.Datum.Record

/-!
# What a backend can run

`Capabilities.violations` lists every way in which a circuit exceeds the capabilities of a
backend: the number of wires, the number of operations, gates outside the gate set, conditioned
gates, and measurements or resets before the end.
-/

namespace OneWay

/-- The gates of a backend, by name. -/
structure GateSet where
  singleQubit : List String
  twoQubit : List String
  /-- The gates that need no decomposition; all, if none are named. -/
  native : List String := []
  deriving DecidableEq, Repr, Inhabited

namespace GateSet

/-- Every gate of the circuit language. -/
def universal : GateSet where
  singleQubit := ["id", "x", "y", "z", "h", "s", "sdg", "rx", "ry", "rz", "p", "u"]
  twoQubit := ["cx", "cz"]

/-- Rotations and Clifford gates with `cz` as the only gate on two wires. -/
def czNative : GateSet where
  singleQubit := ["x", "z", "h", "s", "sdg", "rx", "ry", "rz"]
  twoQubit := ["cz"]
  native := ["rx", "rz", "cz"]

/-- Whether a gate is in the set. -/
def contains (g : GateSet) (name : String) : Bool :=
  g.singleQubit.contains name || g.twoQubit.contains name

/-- Whether a gate needs no decomposition. -/
def isNative (g : GateSet) (name : String) : Bool :=
  if g.native.isEmpty then g.contains name else g.native.contains name

/-- A gate set as a value. -/
def toJson (g : GateSet) : Json :=
  .ofFields [
    some ("single_qubit", .ofList .str g.singleQubit),
    some ("two_qubit", .ofList .str g.twoQubit),
    if g.native.isEmpty then none else some ("native", .ofList .str g.native)]

/-- Reads a gate set. -/
def ofDatum? (v : Datum) : Option GateSet :=
  match v.record? ["single_qubit", "two_qubit", "native"] with
  | some [single, two, native] => do
    pure {
      singleQubit := ← Datum.required (Datum.list? Datum.string?) single
      twoQubit := ← Datum.required (Datum.list? Datum.string?) two
      native := ← Datum.optional [] (Datum.list? Datum.string?) native }
  | _ => none

end GateSet

/-- The outcome of checking a circuit against a backend. -/
inductive Validation where
  | valid
  | invalid (reasons : List String)
  /-- The circuit would run after a change of gates. -/
  | needsTranspilation (details : String)
  deriving DecidableEq, Repr

namespace Validation

/-- Whether the circuit can be submitted as it is. -/
def isValid : Validation → Bool
  | .valid => true
  | _ => false

/-- The fault of a circuit that cannot be submitted. -/
def toExcept : Validation → Except BackendFault Unit
  | .valid => .ok ()
  | .invalid reasons => .error (.invalidCircuit ("; ".intercalate reasons))
  | .needsTranspilation details => .error (.unsupported details)

end Validation

/-- A way in which a circuit exceeds a backend. -/
inductive Violation where
  | qubits (used available : Nat)
  | operations (used allowed : Nat)
  | gate (name : String)
  | conditions
  | midCircuit
  deriving DecidableEq, Repr

/-- The violation in words. -/
def Violation.text : Violation → String
  | .qubits u a => s!"circuit uses {u} qubits, backend has {a}"
  | .operations u a => s!"circuit has {u} operations, backend allows {a}"
  | .gate g => s!"gate '{g}' is not in the backend gate set"
  | .conditions => "classically conditioned gates require dynamic circuits"
  | .midCircuit => "mid-circuit measurement or reset is not supported"

/-- What a backend offers. -/
structure Capabilities where
  name : String
  numQubits : Nat
  gateSet : GateSet
  maxShots : Nat
  /-- The largest number of operations in a circuit, if there is a limit. -/
  maxOps : Option Nat := none
  isSimulator : Bool
  features : List String := []
  deriving DecidableEq, Repr, Inhabited

namespace Capabilities

/-- The feature of conditioned gates. -/
def dynamicCircuits : String := "dynamic_circuits"

/-- The feature of measurements and resets before the end. -/
def midCircuitMeasurement : String := "mid_circuit_measurement"

/-- The feature of snapshots. -/
def statevector : String := "statevector"

/-- The feature of noise models. -/
def noise : String := "noise"

/-- The capabilities of a simulator. -/
def simulator (numQubits : Nat) : Capabilities where
  name := "simulator"
  numQubits := numQubits
  gateSet := .universal
  maxShots := 100000
  isSimulator := true
  features := [statevector, dynamicCircuits, midCircuitMeasurement, noise]

/-- Whether a feature is offered. -/
def supports (c : Capabilities) (feature : String) : Bool := c.features.contains feature

/-- The capabilities with a feature. -/
def withFeature (c : Capabilities) (feature : String) : Capabilities :=
  if c.supports feature then c else { c with features := c.features ++ [feature] }

/-- The capabilities without a feature. -/
def withoutFeature (c : Capabilities) (feature : String) : Capabilities :=
  { c with features := c.features.filter (· ≠ feature) }

/-! ### Checking circuits -/

/-- The names of the gates outside the gate set, in the order of their first use. -/
def unsupportedGates (c : Capabilities) (instructions : List Instruction) : List String :=
  instructions.foldl (fun names inst =>
    match inst.action with
    | .gate g =>
      if c.gateSet.contains g.gate.name || names.contains g.gate.name then names
      else names ++ [g.gate.name]
    | _ => names) []

/-- Whether a circuit with `numQubits` wires resets a wire or applies a gate to a wire that is in
`measured` or that an earlier instruction measures. -/
def actsMidCircuit (numQubits : Nat) (measured : List Qubit) : List Instruction → Bool
  | [] => false
  | inst :: l =>
    match inst.action with
    | .gate _ =>
      inst.qubits.any measured.contains || actsMidCircuit numQubits measured l
    | .measure =>
      actsMidCircuit numQubits (inst.qubits.filter (· < numQubits) ++ measured) l
    | .reset => true
    | _ => actsMidCircuit numQubits measured l

/-- Every way in which a circuit exceeds the capabilities. -/
def violations (c : Capabilities) (circuit : Circuit) : List Violation :=
  let instructions := circuit.instructions.toList
  (if c.numQubits < circuit.numQubits then [.qubits circuit.numQubits c.numQubits] else [])
    ++ (match c.maxOps with
        | some limit => if limit < circuit.numOps then [.operations circuit.numOps limit] else []
        | none => [])
    ++ (c.unsupportedGates instructions).map .gate
    ++ (if circuit.hasConditions && !c.supports dynamicCircuits then [.conditions] else [])
    ++ (if actsMidCircuit circuit.numQubits [] instructions
            && !c.supports midCircuitMeasurement then [.midCircuit] else [])

/-- Checks a circuit. -/
def check (c : Capabilities) (circuit : Circuit) : Validation :=
  match c.violations circuit with
  | [] => .valid
  | vs => .invalid (vs.map Violation.text)

/-! ### Documents -/

/-- Capabilities as a value. -/
def toJson (c : Capabilities) : Json :=
  .ofFields [
    some ("name", .str c.name),
    some ("num_qubits", .nat c.numQubits),
    some ("gate_set", c.gateSet.toJson),
    some ("max_shots", .nat c.maxShots),
    c.maxOps.map fun n => ("max_circuit_ops", .nat n),
    some ("is_simulator", .bool c.isSimulator),
    if c.features.isEmpty then none else some ("features", .ofList .str c.features)]

/-- Reads capabilities. -/
def ofDatum? (v : Datum) : Option Capabilities :=
  match v.record? ["name", "num_qubits", "gate_set", "max_shots", "max_circuit_ops",
      "is_simulator", "features"] with
  | some [name, qubits, gates, shots, ops, simulator, features] => do
    pure {
      name := ← Datum.required Datum.string? name
      numQubits := ← Datum.required Datum.nat32? qubits
      gateSet := ← Datum.required GateSet.ofDatum? gates
      maxShots := ← Datum.required Datum.nat32? shots
      maxOps := ← Datum.optional none (Datum.nullable? Datum.nat32?) ops
      isSimulator := ← Datum.required Datum.bool? simulator
      features := ← Datum.optional [] (Datum.list? Datum.string?) features }
  | _ => none

end Capabilities

/-- Whether a backend takes jobs. -/
structure Availability where
  isAvailable : Bool
  /-- Number of jobs that wait. -/
  queueDepth : Option Nat
  /-- How long a new job would wait. -/
  waitMillis : Option Nat
  message : Option String
  deriving DecidableEq, Repr

/-- A backend without a queue. -/
def Availability.always : Availability := ⟨true, some 0, some 0, none⟩

/-- A backend that takes no jobs. -/
def Availability.never (reason : String) : Availability := ⟨false, none, none, some reason⟩

end OneWay
