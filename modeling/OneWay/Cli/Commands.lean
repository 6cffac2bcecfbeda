import OneWay.Backend.Registry
import OneWay.Cli.Arguments
import OneWay.Cli.Host
import OneWay.Cli.Report
import OneWay.Circuit.Depth
import OneWay.Circuit.Program
import OneWay.Pattern.Space
import OneWay.Runner.Basic
import OneWay.Yaml.Shape

/-!
# The commands

Each command works on any `Host`. A command that fails gives its fault and what caused it,
outermost first. `Cli.execute` carries out the arguments of the program and gives the exit code.
-/

namespace OneWay.Cli

variable {m : Type → Type} [Monad m] [Host m]

/-- What a command does: actions on the host that may fail with a fault and its
causes. -/
abbrev Procedure (m : Type → Type) := ExceptT (List String) m

/-- Prints a text. -/
def say (text : String) : Procedure m Unit := ExceptT.lift (Host.print text)

/-- Goes on with a value, or fails with the texts of the fault. -/
def orFail {ε α : Type} (texts : ε → List String) : Except ε α → Procedure m α
  | .ok a => pure a
  | .error e => throw (texts e)

/-! ### Files -/

/-- The content of a file. -/
def load (path : String) : Procedure m String := do
  match ← ExceptT.lift (Host.readFile path) with
  | .missing => throw ["File not found: " ++ path]
  | .unreadable reason => throw ["Failed to read file: " ++ path, reason]
  | .text content => pure content

/-- Writes a file. -/
def save (path content : String) : Procedure m Unit := do
  match ← ExceptT.lift (Host.writeFile path content) with
  | some reason => throw ["Failed to write file: " ++ path, reason]
  | none => pure ()

/-- The pattern in a file. -/
def loadPattern (path : String) : Procedure m Pattern := do
  match Pattern.ofDocument? .quick (← load path) with
  | some p => pure p
  | none => throw ["Invalid pattern in " ++ path, "not a pattern document"]

/-- A kind of settings that can be read from a file. -/
structure SettingsFormat (α : Type) where
  shape : Yaml.Shape
  /-- Reads the settings, which have some levels to nest in. -/
  ofDatum? : Nat → Datum → Option α

/-- The settings in a file; the extension tells the format. -/
def loadSettings {α : Type} (format : SettingsFormat α) (path : String) : Procedure m α := do
  let content ← load path
  let extension := (Path.extension? path).getD ""
  if extension = "json" then
    match (Json.read .quick content).bind (format.ofDatum? Json.maxDepth) with
    | some a => pure a
    | none => throw ["Invalid JSON in " ++ path, "not a settings document"]
  else if extension = "yaml" || extension = "yml" then
    match (Yaml.parse content).bind fun d =>
        (d.resolve? format.shape).bind (format.ofDatum? Yaml.Document.maxDepth) with
    | some a => pure a
    | none => throw ["Invalid YAML in " ++ path, "not a settings document"]
  else
    throw [s!"Unsupported config format '.{extension}' (expected .yaml, .yml or .json)"]

/-- What is expected of a noise model. -/
def noiseShape : Yaml.Shape :=
  .record [("single_qubit", false, .list (.tagged "type")),
    ("two_qubit", false, .list (.tagged "type")), ("readout_error", false, .real)]

/-- Noise models in files. -/
def noiseFormat : SettingsFormat NoiseModel := ⟨noiseShape, NoiseModel.ofDatum?⟩

/-- Settings of runs in files. -/
def runFormat : SettingsFormat RunConfig where
  shape := .record [("backend", false, .text), ("shots", false, .natural),
    ("seed", true, .natural), ("max_qubits", true, .natural), ("raw", false, .truth),
    ("compile", false, .record [("measure_outputs", false, .truth),
      ("save_statevector", false, .truth), ("qubit_reuse", false, .truth)]),
    ("noise", true, noiseShape)]
  ofDatum? := RunConfig.ofDatum?

/-! ### Compiling -/

/-- The text in which a compiled pattern is saved; the extension tells the format. -/
def compiledText (compiled : Compiled) (path : String) : Except ProgramFault String :=
  if Path.extension? path = some "json" then .ok compiled.document
  else compiled.circuit.program

/-- The texts of a fault of writing a program. -/
def programTexts : ProgramFault → List String
  | .circuit f => [ProgramFault.message (.circuit f), f.message]
  | f => [f.message]

/-- Compiles a pattern into a file, or prints its program. -/
def compile (input : String) (output : Option String) (options : CompileOptions) :
    Procedure m Unit := do
  match output with
  | none =>
    let pattern ← loadPattern input
    let compiled ← orFail CompileFault.chain (pattern.compile ∅ options)
    say (← orFail programTexts compiled.circuit.program)
  | some path =>
    say s!"→ Compiling {input}\n"
    let pattern ← loadPattern input
    say (s!"  Loaded: {pattern.nodes.size} nodes, {pattern.commands.length} commands, "
      ++ s!"max space {pattern.maxSpace}\n")
    let compiled ← orFail CompileFault.chain (pattern.compile ∅ options)
    let depth := compiled.circuit.depth?.getD 0
    say "✓ Compilation complete\n"
    say (s!"  Result: {compiled.qubitCount} qubits, {compiled.bitCount} clbits, "
      ++ s!"{compiled.circuit.numOps} ops, depth {depth}\n")
    save path (← orFail programTexts (compiledText compiled path))
    say s!"  Output: {path}\n"

/-! ### Running -/

/-- The backends that are known. -/
def registry : Registry := Registry.register {} "simulator"

/-- The settings of a run: those in a file, changed by those on the command line. -/
def runConfig (shots seed : Option Nat) (raw : Bool) (noise config : Option String) :
    Procedure m RunConfig := do
  let base ←
    match config with
    | some path => loadSettings runFormat path
    | none => pure {}
  let noise ←
    match noise with
    | some path => do pure (some (← loadSettings noiseFormat path))
    | none => pure base.noise
  pure { base with shots := shots.getD base.shots, seed := (seed.map UInt64.ofNat).or base.seed,
                   raw := base.raw || raw, noise }

/-- Runs a pattern and reports the outcomes. -/
def run (input : String) (config : RunConfig) : Procedure m Unit := do
  say s!"→ Running {input} on {config.backend} ({config.shots} shots)\n"
  let pattern ← loadPattern input
  let machine := Machine.native (← ExceptT.lift Host.entropy)
  let simulator ← orFail (fun f => [BackendFault.message f])
    (registry.create machine config.backendConfig)
  let runner : Runner (Simulator ChaCha.Stream) := ⟨simulator, config.runnerOptions⟩
  if config.noise.any (! ·.isIdeal) then say "  Noise model: enabled\n"
  let compiled ← orFail RunnerFault.chain (runner.compile pattern)
  let depth := compiled.circuit.depth?.getD 0
  say (s!"  Compiled: {compiled.qubitCount} qubits, {compiled.circuit.numOps} ops, "
    ++ s!"depth {depth}\n")
  let start ← ExceptT.lift Host.clock
  let (answer, runner) := runner.submit compiled config.shots
  let job ← orFail RunnerFault.chain answer
  let counts ← orFail RunnerFault.chain (job.wait config.raw runner.backend).1
  let stop ← ExceptT.lift Host.clock
  let label := if config.raw then "classical register" else "output node"
  say (report counts label (stop - start))

/-! ### Descriptions -/

/-- The word for a truth value. -/
def yesNo (b : Bool) : String := if b then "yes" else "no"

/-- The description of a backend. -/
def backendText (name : String) (s : Simulator ChaCha.Stream) : String :=
  let c := s.capabilities
  let mark := if (Backend.availability s).isAvailable then "●" else "○"
  let place := if c.isSimulator then "(local)" else ""
  let gates := ", ".intercalate c.gateSet.native
  let dynamic := yesNo (c.supports Capabilities.dynamicCircuits)
  let noise := yesNo (c.supports Capabilities.noise)
  s!"  {mark} {name} {place}\n    Qubits: {c.numQubits}\n    Max shots: {c.maxShots}\n"
    ++ s!"    Gates: {gates}\n    Dynamic circuits: {dynamic}, noise: {noise}\n\n"

/-- Lists the backends. -/
def backends : Procedure m Unit := do
  say "mbq Available backends:\n\n"
  for name in registry.names do
    let s ← orFail (fun f => [BackendFault.message f]) (registry.create .native { name })
    say (backendText name s)

/-- The version of the program. -/
def versionNumber : String := "0.4.0"

/-- The description of the program. -/
def versionText : String :=
  s!"mbq v{versionNumber} - measurement-based pattern compiler\n\nComponents:\n"
    ++ "  mbq-pattern      Measurement pattern model\n"
    ++ "  mbq-compile      Pattern to circuit compiler\n"
    ++ "  mbq-qasm3        OpenQASM 3 emitter\n"
    ++ "  mbq-hal          Backend abstraction\n"
    ++ "  mbq-runner       Pattern execution\n"
    ++ "  mbq-adapter-sim  Local statevector simulator\n\nLicense: Apache-2.0\n"

/-- How the program is used. -/
def helpText : String :=
  "mbq - compile measurement-based quantum patterns to gate circuits and run them\n\n"
    ++ "Usage: mbq [OPTIONS] <COMMAND>\n\nCommands:\n"
    ++ "  compile   Compile a pattern into a gate circuit\n"
    ++ "  run       Compile a pattern and run it on a backend\n"
    ++ "  backends  List available backends\n"
    ++ "  version   Show version information\n"
    ++ "  help      Print this message\n\nOptions:\n"
    ++ "  -v, --verbose...  Increase verbosity\n"
    ++ "  -h, --help        Print help\n"
    ++ "  -V, --version     Print version\n"

/-! ### The program -/

/-- Carries out an invocation. -/
def perform : Invocation → Procedure m Unit
  | .compile input output measureOutputs qubitReuse =>
    compile input output { measureOutputs, qubitReuse }
  | .run input shots seed raw noise config => do
    run input (← runConfig shots seed raw noise config)
  | .backends => backends
  | .version => say versionText
  | .versionNumber => say s!"mbq {versionNumber}\n"
  | .help => say helpText

/-- Carries out the arguments of the program and gives the exit code: 2 for arguments that make
no sense, 1 for a command that fails. -/
def execute (arguments : List String) : m UInt32 := do
  match Invocation.ofArguments arguments with
  | .error f =>
    Host.printError s!"error: {f.message}\n"
    pure 2
  | .ok invocation =>
    match ← (perform invocation).run with
    | .ok () => pure 0
    | .error texts =>
      let text := ": ".intercalate texts
      Host.printError s!"Error: {text}\n"
      pure 1

end OneWay.Cli
