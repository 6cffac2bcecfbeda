import OneWay.Compile.Compiled
import OneWay.Compile.InputState
import OneWay.Pattern.Validity

/-!
# Compiling patterns into circuits

A `Draft` is the circuit that the commands read so far have produced, with the wires and classical
bits given out. `Draft.command` is the effect of one command on it, and `Pattern.compile` folds it
over the commands of a pattern.

A node gets its wire when a command first acts on it, and is prepared there: an input node in its
given state, any other node in the plus state. A measurement becomes a rotation and a measurement
of the wire; what depends on earlier outcomes becomes Pauli gates under parity conditions.
-/

namespace OneWay

/-- Why a pattern cannot be compiled. -/
inductive CompileFault where
  | pattern (fault : PatternFault)
  | inputState (node : Node) (fault : InputStateFault)
  | circuit (fault : CircuitFault)
  deriving DecidableEq, Repr

namespace CompileFault

/-- The fault in words. -/
def message : CompileFault → String
  | .pattern f => "Malformed pattern: " ++ f.message
  | .inputState n f => s!"Invalid input state for node {n.toNat}: {f.message}"
  | .circuit f => "Circuit construction failed: " ++ f.message

/-- The fault and what caused it, outermost first. -/
def chain (e : CompileFault) : List String :=
  match e with
  | .pattern f => [e.message, f.message]
  | .inputState .. => [e.message]
  | .circuit f => [e.message, f.message]

end CompileFault

/-! ### Clifford operators as gates

Each single-qubit Clifford operator is a product of at most four of the gates X, Y, Z, H, S and
the inverse of S, given in the order in which they are applied.
-/

namespace Clifford

/-- The gates of each operator. -/
def decompositions : Vector (List Gate) 24 :=
  #v[
    [],
    [.x],
    [.y],
    [.z],
    [.s],
    [.sdg],
    [.h],
    [.sdg, .h, .sdg],
    [.h, .x],
    [.sdg, .y],
    [.sdg, .x],
    [.h, .y],
    [.h, .z],
    [.sdg, .h, .sdg, .y],
    [.sdg, .h, .s],
    [.sdg, .h, .sdg, .x],
    [.sdg, .h],
    [.sdg, .h, .y],
    [.sdg, .h, .z],
    [.sdg, .h, .x],
    [.h, .s],
    [.h, .sdg],
    [.h, .x, .sdg],
    [.h, .x, .s]]

/-- The gates whose product is the operator, in the order in which they are applied. -/
def gates (c : Clifford) : List Gate := decompositions.get c

end Clifford

/-! ### Drafts -/

/-- What a pattern is compiled with. -/
structure CompileContext where
  pattern : Pattern
  /-- The states of input nodes that are not in the plus state. -/
  inputs : SortedMap Node InputState
  options : CompileOptions

/-- A circuit under construction. -/
structure Draft where
  circuit : Circuit
  /-- The wires given out. -/
  wires : SortedMap Node Qubit
  /-- The classical bits given out. -/
  register : SortedMap Node Bit
  /-- The nodes that were measured. -/
  measured : SortedSet Node
  /-- The wires of measured nodes that may be given out again. -/
  free : SortedSet Qubit
  deriving Repr, Inhabited

namespace Draft

/-- Nothing compiled yet. -/
def start : Draft := ⟨.ofSize "mbqc_pattern" 0 0, ∅, ∅, ∅, ∅⟩

/-! ### Emitting instructions -/

/-- Appends an instruction. -/
def emit (d : Draft) (inst : Instruction) : Except CompileFault Draft :=
  match d.circuit.append inst with
  | .ok circuit => .ok { d with circuit }
  | .error f => .error (.circuit f)

/-- Appends a gate. -/
def emitGate (d : Draft) (g : GateUse) (qubits : List Qubit) : Except CompileFault Draft :=
  d.emit ⟨.gate g, qubits, []⟩

/-- Appends several plain gates on one wire. -/
def emitGates (d : Draft) (wire : Qubit) : List Gate → Except CompileFault Draft
  | [] => .ok d
  | g :: l => do (← d.emitGate { gate := g } [wire]).emitGates wire l

/-- Measures the wire of a node into a new classical bit. -/
def emitMeasure (d : Draft) (node : Node) (wire : Qubit) : Except CompileFault Draft := do
  let (bit, circuit) := d.circuit.addBit
  let d ← { d with circuit }.emit ⟨.measure, [wire], [bit]⟩
  pure { d with register := d.register.insert node bit }

/-! ### Wires -/

/-- A wire in the state 0: the least free one, reset, or a new one. -/
def claim (d : Draft) : Except CompileFault (Qubit × Draft) :=
  match d.free.popMin? with
  | some (wire, free) => do
    let d ← { d with free }.emit ⟨.reset, [wire], []⟩
    pure (wire, d)
  | none =>
    let (wire, circuit) := d.circuit.addQubit
    .ok (wire, { d with circuit })

/-- The gate that prepares a node. -/
def preparation (ctx : CompileContext) (node : Node) : GateUse :=
  let gate :=
    match ctx.inputs.get? node with
    | some state => Gate.u state.angles.1 state.angles.2 0.0
    | none => .h
  { gate, label := some "prep" }

/-- Gives a node its wire and prepares it there. -/
def allocate (ctx : CompileContext) (d : Draft) (node : Node) :
    Except CompileFault (Qubit × Draft) := do
  let (wire, d) ← d.claim
  let d ← d.emitGate (preparation ctx node) [wire]
  pure (wire, { d with wires := d.wires.insert node wire })

/-- Refuses a node that was measured. -/
def unmeasured (d : Draft) (node : Node) (location : Location) : Except CompileFault Unit :=
  if d.measured.contains node then .error (.pattern (.alreadyMeasured node location)) else .ok ()

/-- The wire of a node, which gets one if it has none. -/
def wireOf (ctx : CompileContext) (d : Draft) (node : Node) (location : Location) :
    Except CompileFault (Qubit × Draft) := do
  d.unmeasured node location
  match d.wires.get? node with
  | some wire => pure (wire, d)
  | none => allocate ctx d node

/-! ### Outcomes -/

/-- The classical bits of a domain and the parity of its outcomes that are known beforehand. -/
def parityOf (ctx : CompileContext) (d : Draft) (node : Node) (location : Location) :
    List Node → Except CompileFault (List Bit × Bool)
  | [] => .ok ([], false)
  | n :: l =>
    match d.register.get? n, ctx.pattern.results.get? n with
    | some bit, _ => do
      let (bits, known) ← d.parityOf ctx node location l
      pure (bit :: bits, known)
    | none, some outcome => do
      let (bits, known) ← d.parityOf ctx node location l
      pure (bits, outcome ^^ known)
    | none, none => .error (.pattern (.unmeasuredDomain node n location))

/-- A Pauli gate that acts where the parity of a domain is odd. -/
def feedForward (ctx : CompileContext) (d : Draft) (pauli : Gate) (wire : Qubit) (node : Node)
    (domain : Domain) (location : Location) : Except CompileFault Draft := do
  let (bits, known) ← d.parityOf ctx node location domain.toList
  if bits.isEmpty then
    if known then d.emitGate { gate := pauli } [wire] else pure d
  else d.emitGate { gate := pauli, condition := some ⟨bits, !known⟩ } [wire]

/-- The gates that turn the axis of a measurement into the computational one. -/
def rotation (plane : Plane) (angle : Float) : List Gate :=
  let theta := angle * Angle.pi
  let turn (g : Gate) : List Gate := if theta == 0.0 then [] else [g]
  match plane with
  | .xy => turn (.rz (-theta)) ++ [.h]
  | .yz => turn (.rx theta)
  | .xz => turn (.ry (-theta))

/-! ### Commands -/

/-- The effect of the command at an index. -/
def command (ctx : CompileContext) (d : Draft) (c : Command) (index : Nat) :
    Except CompileFault Draft :=
  let location := Location.command index
  match c with
  | .prepare n => do
    d.unmeasured n location
    if d.wires.contains n then throw (.pattern (.alreadyPrepared n location))
    let (_, d) ← allocate ctx d n
    pure d
  | .entangle a b => do
    let (wa, d) ← wireOf ctx d a location
    let (wb, d) ← wireOf ctx d b location
    d.emitGate { gate := .cz } [wa, wb]
  | .measure n plane angle s t => do
    let (wire, d) ← wireOf ctx d n location
    let d ← feedForward ctx d .x wire n s location
    let d ← feedForward ctx d .z wire n t location
    let d ← d.emitGates wire (rotation plane angle)
    let d ← d.emitMeasure n wire
    pure { d with
      measured := d.measured.insert n
      free := if ctx.options.qubitReuse then d.free.insert wire else d.free }
  | .correctX n domain => do
    let (wire, d) ← wireOf ctx d n location
    feedForward ctx d .x wire n domain location
  | .correctZ n domain => do
    let (wire, d) ← wireOf ctx d n location
    feedForward ctx d .z wire n domain location
  | .clifford n c => do
    let (wire, d) ← wireOf ctx d n location
    d.emitGates wire c.gates

/-- The effect of commands from an index on. -/
def commands (ctx : CompileContext) (d : Draft) : List Command → Nat → Except CompileFault Draft
  | [], _ => .ok d
  | c :: l, i => do commands ctx (← command ctx d c i) l (i + 1)

/-- Gives the input nodes their wires. -/
def allocateAll (ctx : CompileContext) (d : Draft) : List Node → Except CompileFault Draft
  | [] => .ok d
  | n :: l => do
    let (_, d) ← allocate ctx d n
    allocateAll ctx d l

/-! ### The end of a pattern -/

/-- Gives output nodes that no command acted on a wire; they stay in the state 0. -/
def claimOutputs (d : Draft) : List Node → Except CompileFault Draft
  | [] => .ok d
  | n :: l =>
    if d.wires.contains n then d.claimOutputs l
    else do
      let (wire, d) ← d.claim
      { d with wires := d.wires.insert n wire }.claimOutputs l

/-- Gives a node a new wire unless it has one. -/
def claimRest (d : Draft) (n : Node) : Draft :=
  if d.wires.contains n then d
  else
    let (wire, circuit) := d.circuit.addQubit
    { d with circuit, wires := d.wires.insert n wire }

/-- Measures output nodes. -/
def measureOutputs (d : Draft) : List (Node × Qubit) → Except CompileFault Draft
  | [] => .ok d
  | (n, wire) :: l => do (← d.emitMeasure n wire).measureOutputs l

/-- Completes a draft whose commands are compiled. -/
def finish (ctx : CompileContext) (d : Draft) : Except CompileFault Compiled := do
  let outputs := ctx.pattern.outputs
  let d ← d.claimOutputs outputs
  let d := if ctx.options.qubitReuse then d else ctx.pattern.nodes.toList.foldl claimRest d
  let d ← if ctx.options.saveStatevector then
      d.emit ⟨.snapshot, List.range d.circuit.numQubits, []⟩
    else pure d
  let outputQubits := outputs.map fun n => d.wires.getD n 0
  let d ← if ctx.options.measureOutputs then d.measureOutputs (outputs.zip outputQubits)
    else pure d
  pure {
    circuit := d.circuit
    wires := d.wires
    register := d.register
    outputs
    outputQubits
    options := ctx.options }

end Draft

/-- Accepts states of input nodes that can be prepared. -/
def checkInputs (p : Pattern) : List (Node × InputState) → Except CompileFault Unit
  | [] => .ok ()
  | (n, state) :: l =>
    if p.isInput n then
      match state.check with
      | .error f => .error (.inputState n f)
      | .ok () => checkInputs p l
    else .error (.inputState n .notAnInput)

/-- Compiles a pattern. -/
def Pattern.compile (p : Pattern) (inputs : SortedMap Node InputState := ∅)
    (options : CompileOptions := {}) : Except CompileFault Compiled := do
  match p.validate with
  | .error f => throw (.pattern f)
  | .ok () => pure ()
  checkInputs p inputs.entries
  let ctx : CompileContext := ⟨p, inputs, options⟩
  let d ← Draft.allocateAll ctx .start p.inputs
  let d ← Draft.commands ctx d p.commands 0
  d.finish ctx

end OneWay
