import OneWay.Datum.Record

/-!
# Compile options
-/

namespace OneWay

/-- What the compiler is to do beyond the commands of a pattern. -/
structure CompileOptions where
  /-- Measure the output nodes at the end. -/
  measureOutputs : Bool := false
  /-- Record the amplitudes before the outputs are measured. -/
  saveStatevector : Bool := false
  /-- Give the wires of measured nodes to new ones. -/
  qubitReuse : Bool := false
  deriving DecidableEq, Repr, Inhabited

namespace CompileOptions

/-- The options for running a pattern: its outputs are measured. -/
def forExecution : CompileOptions := { measureOutputs := true }

/-- Options as a value. -/
def toJson (o : CompileOptions) : Json :=
  .obj [("measure_outputs", .bool o.measureOutputs),
    ("save_statevector", .bool o.saveStatevector), ("qubit_reuse", .bool o.qubitReuse)]

/-- Reads options; those that are absent are off. -/
def ofDatum? (v : Datum) : Option CompileOptions :=
  match v.record? ["measure_outputs", "save_statevector", "qubit_reuse"] with
  | some [m, s, r] => do
    pure {
      measureOutputs := ← Datum.optional false Datum.bool? m
      saveStatevector := ← Datum.optional false Datum.bool? s
      qubitReuse := ← Datum.optional false Datum.bool? r }
  | _ => none

/-- The options as a record with named fields. -/
def outline (o : CompileOptions) : String :=
  "CompileOptions \x7b measure_outputs: " ++ toString o.measureOutputs ++ ", save_statevector: "
    ++ toString o.saveStatevector ++ ", qubit_reuse: " ++ toString o.qubitReuse ++ " \x7d"

end CompileOptions

end OneWay
