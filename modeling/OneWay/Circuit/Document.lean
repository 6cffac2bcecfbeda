import OneWay.Circuit.Basic
import OneWay.Json.Printer
import OneWay.Datum.Record

/-!
# Circuit documents

Gates and actions are written as their name alone, or as an object of the name and the angles or
the gate. Labels, conditions and classical bits are left out where there are none.
-/

namespace OneWay

namespace Gate

/-- A gate as a value. -/
def toJson : Gate → Json
  | .i => .str "I"
  | .x => .str "X"
  | .y => .str "Y"
  | .z => .str "Z"
  | .h => .str "H"
  | .s => .str "S"
  | .sdg => .str "Sdg"
  | .rx a => .obj [("Rx", .real a)]
  | .ry a => .obj [("Ry", .real a)]
  | .rz a => .obj [("Rz", .real a)]
  | .p a => .obj [("P", .real a)]
  | .u a b c => .obj [("U", .arr [.real a, .real b, .real c])]
  | .cx => .str "CX"
  | .cz => .str "CZ"

/-- The gate without angles of a given name. -/
def plain? : String → Option Gate
  | "I" => some .i
  | "X" => some .x
  | "Y" => some .y
  | "Z" => some .z
  | "H" => some .h
  | "S" => some .s
  | "Sdg" => some .sdg
  | "CX" => some .cx
  | "CZ" => some .cz
  | _ => none

/-- The gate with angles of a given name. -/
def rotated? (name : String) (payload : Datum) : Option Gate :=
  match name with
  | "Rx" => payload.real?.map .rx
  | "Ry" => payload.real?.map .ry
  | "Rz" => payload.real?.map .rz
  | "P" => payload.real?.map .p
  | "U" =>
    match payload.list? Datum.real? with
    | some [a, b, c] => some (.u a b c)
    | _ => none
  | _ => none

/-- Reads a gate. -/
def ofDatum? (v : Datum) : Option Gate :=
  match v.variant? with
  | some (name, none) => plain? name
  | some (name, some .null) => plain? name
  | some (name, some payload) => rotated? name payload
  | none => none

end Gate

namespace Condition

/-- A condition as a value. -/
def toJson (c : Condition) : Json :=
  .obj [("clbits", .ofList .nat c.bits), ("parity", .bool c.parity)]

/-- Reads a condition. -/
def ofDatum? (v : Datum) : Option Condition :=
  match v.record? ["clbits", "parity"] with
  | some [bits, parity] => do
    pure ⟨← Datum.required (Datum.list? Datum.nat32?) bits, ← Datum.required Datum.bool? parity⟩
  | _ => none

end Condition

namespace GateUse

/-- A gate with its label and condition as a value. -/
def toJson (g : GateUse) : Json :=
  .ofFields [
    some ("kind", g.gate.toJson),
    g.label.map fun l => ("label", .str l),
    g.condition.map fun c => ("condition", c.toJson)]

/-- Reads a gate with its label and condition. -/
def ofDatum? (v : Datum) : Option GateUse :=
  match v.record? ["kind", "label", "condition"] with
  | some [kind, label, condition] => do
    pure {
      gate := ← Datum.required Gate.ofDatum? kind
      label := ← Datum.optional none (Datum.nullable? Datum.string?) label
      condition := ← Datum.optional none (Datum.nullable? Condition.ofDatum?) condition }
  | _ => none

end GateUse

namespace Action

/-- An action as a value. -/
def toJson : Action → Json
  | .gate g => .obj [("Gate", g.toJson)]
  | .measure => .str "Measure"
  | .reset => .str "Reset"
  | .barrier => .str "Barrier"
  | .snapshot => .str "SaveStatevector"

/-- The action without a gate of a given name. -/
def plain? : String → Option Action
  | "Measure" => some .measure
  | "Reset" => some .reset
  | "Barrier" => some .barrier
  | "SaveStatevector" => some .snapshot
  | _ => none

/-- Reads an action. -/
def ofDatum? (v : Datum) : Option Action :=
  match v.variant? with
  | some (name, none) => plain? name
  | some ("Gate", some payload) => (GateUse.ofDatum? payload).map .gate
  | some (name, some .null) => plain? name
  | _ => none

end Action

namespace Instruction

/-- An instruction as a value. -/
def toJson (inst : Instruction) : Json :=
  .ofFields [
    some ("kind", inst.action.toJson),
    some ("qubits", .ofList .nat inst.qubits),
    if inst.bits.isEmpty then none else some ("clbits", .ofList .nat inst.bits)]

/-- Reads an instruction. -/
def ofDatum? (v : Datum) : Option Instruction :=
  match v.record? ["kind", "qubits", "clbits"] with
  | some [kind, qubits, bits] => do
    pure {
      action := ← Datum.required Action.ofDatum? kind
      qubits := ← Datum.required (Datum.list? Datum.nat32?) qubits
      bits := ← Datum.optional [] (Datum.list? Datum.nat32?) bits }
  | _ => none

end Instruction

namespace Circuit

/-- A circuit as a value. -/
def toJson (c : Circuit) : Json :=
  .obj [("name", .str c.name), ("num_qubits", .nat c.numQubits), ("num_clbits", .nat c.numBits),
    ("instructions", .ofList Instruction.toJson c.instructions.toList)]

/-- Reads a circuit. Its instructions may have faults. -/
def ofDatum? (v : Datum) : Option Circuit :=
  match v.record? ["name", "num_qubits", "num_clbits", "instructions"] with
  | some [name, qubits, bits, instructions] => do
    pure {
      name := ← Datum.required Datum.string? name
      numQubits := ← Datum.required Datum.nat32? qubits
      numBits := ← Datum.required Datum.nat32? bits
      instructions := (← Datum.required (Datum.list? Instruction.ofDatum?) instructions).toArray }
  | _ => none

end Circuit

end OneWay
