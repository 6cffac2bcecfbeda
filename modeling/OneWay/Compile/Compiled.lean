import OneWay.Circuit.Document
import OneWay.Compile.Options
import OneWay.Pattern.Document

/-!
# Compiled patterns

A compiled pattern is a circuit together with what is needed to read its results: the wire of
each node and the classical bit of each measured node.
-/

namespace OneWay

/-- A circuit and the tables that relate it to the nodes of its pattern. -/
structure Compiled where
  circuit : Circuit
  /-- The wire of each node. -/
  wires : SortedMap Node Qubit
  /-- The classical bit of each measured node. -/
  register : SortedMap Node Bit
  /-- The output nodes in register order. -/
  outputs : List Node
  /-- The wires of the output nodes. -/
  outputQubits : List Qubit
  options : CompileOptions
  deriving DecidableEq, Repr, Inhabited

namespace Compiled

/-- Number of wires. -/
def qubitCount (c : Compiled) : Nat := c.circuit.numQubits

/-- Number of classical bits. -/
def bitCount (c : Compiled) : Nat := c.circuit.numBits

/-- The classical bits of the output nodes, if each of them has one. -/
def outputBits? (c : Compiled) : Option (List Bit) := Datum.readAll c.register.get? c.outputs

/-- A table by node as a value. -/
def tableJson (t : SortedMap Node Nat) : Json :=
  .obj (t.entries.map fun (n, i) => (Node.key n, .nat i))

/-- Reads a table by node. -/
def table? (v : Datum) : Option (SortedMap Node Nat) :=
  (v.table? Node.ofKey? Datum.nat32?).map SortedMap.ofList

/-- A compiled pattern as a value. -/
def toJson (c : Compiled) : Json :=
  .obj [("circuit", c.circuit.toJson), ("node_to_qubit", tableJson c.wires),
    ("classical_register", tableJson c.register),
    ("output_nodes", .ofList Node.toJson c.outputs),
    ("output_qubits", .ofList .nat c.outputQubits), ("options", c.options.toJson)]

/-- Reads a compiled pattern. -/
def ofDatum? (v : Datum) : Option Compiled :=
  match v.record? ["circuit", "node_to_qubit", "classical_register", "output_nodes",
      "output_qubits", "options"] with
  | some [circuit, wires, register, outputs, qubits, options] => do
    pure {
      circuit := ← Datum.required Circuit.ofDatum? circuit
      wires := ← Datum.required table? wires
      register := ← Datum.required table? register
      outputs := ← Datum.required (Datum.list? Node.ofDatum?) outputs
      outputQubits := ← Datum.required (Datum.list? Datum.nat32?) qubits
      options := ← Datum.required CompileOptions.ofDatum? options }
  | _ => none

/-- The document of a compiled pattern. -/
def document (c : Compiled) : String := c.toJson.pretty

/-- Reads the document of a compiled pattern. -/
def ofDocument? (reader : Decimal.Reader) (text : String) : Option Compiled :=
  (Json.read reader text).bind ofDatum?

end Compiled

end OneWay
