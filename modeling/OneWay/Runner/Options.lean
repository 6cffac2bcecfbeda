import OneWay.Backend.Config
import OneWay.Compile.Options
import OneWay.Noise.Model

/-!
# Settings of a run

`RunnerOptions` say how a pattern is compiled and how often it is run. A `RunConfig` holds
everything that a run needs, the backend and its settings included.
-/

namespace OneWay

/-- How patterns are compiled and run. -/
structure RunnerOptions where
  compile : CompileOptions := .forExecution
  shots : Nat := 1024
  deriving DecidableEq, Repr, Inhabited

namespace RunnerOptions

/-- Options as a value. -/
def toJson (o : RunnerOptions) : Json :=
  .obj [("compile", o.compile.toJson), ("shots", .nat o.shots)]

/-- Reads options. -/
def ofDatum? (v : Datum) : Option RunnerOptions :=
  match v.record? ["compile", "shots"] with
  | some [compile, shots] => do
    pure {
      compile := ← Datum.optional .forExecution CompileOptions.ofDatum? compile
      shots := ← Datum.optional 1024 Datum.nat32? shots }
  | _ => none

/-- The options as a record with named fields. -/
def outline (o : RunnerOptions) : String :=
  "RunnerOptions \x7b compile: " ++ o.compile.outline ++ ", shots: " ++ toString o.shots
    ++ " \x7d"

end RunnerOptions

/-- Everything that a run needs. -/
structure RunConfig where
  /-- The name of the backend. -/
  backend : String := "simulator"
  shots : Nat := 1024
  seed : Option UInt64 := none
  /-- The largest number of wires that the simulator takes. -/
  maxQubits : Option Nat := none
  /-- Whether the whole classical register is reported, not only the outputs. -/
  raw : Bool := false
  compile : CompileOptions := .forExecution
  noise : Option NoiseModel := none
  deriving DecidableEq, Repr, Inhabited

namespace RunConfig

/-- A seed as a value. -/
def seedJson (seed : UInt64) : Json := .nat seed.toNat

/-- Reads a seed. -/
def seed? (v : Datum) : Option UInt64 := v.nat64?.map UInt64.ofNat

/-- The settings of the backend. -/
def backendConfig (c : RunConfig) : BackendConfig :=
  let settings := [("seed", c.seed.map seedJson), ("max_qubits", c.maxQubits.map Json.nat),
    ("noise", c.noise.map NoiseModel.toJson)]
  settings.foldl (fun config (key, v?) =>
    match v? with
    | some v => config.withExtra key v
    | none => config) { name := c.backend }

/-- The options of the runner. -/
def runnerOptions (c : RunConfig) : RunnerOptions := { compile := c.compile, shots := c.shots }

/-- Settings as a value. -/
def toJson (c : RunConfig) : Json :=
  .obj [("backend", .str c.backend), ("shots", .nat c.shots),
    ("seed", .ofOption seedJson c.seed), ("max_qubits", .ofOption .nat c.maxQubits),
    ("raw", .bool c.raw), ("compile", c.compile.toJson),
    ("noise", .ofOption NoiseModel.toJson c.noise)]

/-- Reads settings that have some levels to nest in; those that are absent keep their defaults. -/
def ofDatum? (levels : Nat) (v : Datum) : Option RunConfig :=
  match v.record? ["backend", "shots", "seed", "max_qubits", "raw", "compile", "noise"] with
  | some [backend, shots, seed, maxQubits, raw, compile, noise] => do
    pure {
      backend := ← Datum.optional "simulator" Datum.string? backend
      shots := ← Datum.optional 1024 Datum.nat32? shots
      seed := ← Datum.optional none (Datum.nullable? seed?) seed
      maxQubits := ← Datum.optional none (Datum.nullable? Datum.nat32?) maxQubits
      raw := ← Datum.optional false Datum.bool? raw
      compile := ← Datum.optional .forExecution CompileOptions.ofDatum? compile
      noise := ← Datum.optional none (Datum.nullable? (NoiseModel.ofDatum? (levels - 1))) noise }
  | _ => none

end RunConfig

end OneWay
