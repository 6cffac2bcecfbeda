import OneWay.Backend.Basic
import OneWay.Backend.Config
import OneWay.Noise.Model
import OneWay.Random.ChaCha
import OneWay.Simulation.Shot

/-!
# The local simulator

A simulator runs a job as soon as it is submitted, so every job that it names has ended. With a
seed, every submission starts from the same random source. Cosine, sine and the random sources are
those of a `Machine`, and nothing else about it is used.
-/

namespace OneWay

/-- What a simulator takes from the machine that it runs on. -/
structure Machine (σ : Type) where
  trigonometry : Trigonometry
  /-- The random source of a seed. -/
  seeded : UInt64 → σ
  /-- The random source of a submission without a seed, by its number. -/
  unseeded : Nat → σ

/-- The machine at hand. Sources without a seed start from `entropy`. -/
def Machine.native (entropy : UInt64 := 0) : Machine ChaCha.Stream where
  trigonometry := .machine
  seeded := ChaCha.ofSeed
  unseeded n := ChaCha.ofSeed (entropy + UInt64.ofNat n)

/-- A local simulator. -/
structure Simulator (σ : Type) where
  machine : Machine σ
  config : BackendConfig
  capabilities : Capabilities
  maxQubits : Nat
  noise : NoiseModel := .ideal
  seed : Option UInt64 := none
  jobs : JobTable := {}

namespace Simulator

variable {σ : Type}

/-- The number of wires that a simulator takes unless told otherwise. -/
def defaultMaxQubits : Nat := 20

/-- The largest number of wires that a simulator can take. -/
def supportedQubits : Nat := 30

/-- A simulator of at most a number of wires. -/
def ofMaxQubits (machine : Machine σ) (n : Nat) : Simulator σ :=
  let limit := min n supportedQubits
  { machine
    config := { name := "simulator" }
    capabilities := .simulator limit
    maxQubits := limit }

/-- Accepts a noise model whose parameters are probabilities. -/
def checkNoise (m : NoiseModel) : Except BackendFault Unit :=
  match m.validate with
  | .error f => .error (.configuration f.message)
  | .ok () => .ok ()

/-- The largest number of wires that settings ask for. -/
def maxQubitsOf (config : BackendConfig) : Except BackendFault Nat := do
  match ← config.nat? "max_qubits" with
  | some n =>
    if supportedQubits < n then
      throw (.configuration
        s!"max_qubits {n} exceeds the simulator limit of {supportedQubits}")
    else pure n
  | none => pure defaultMaxQubits

/-- The noise model in settings. -/
def noiseOf (config : BackendConfig) : Except BackendFault NoiseModel :=
  match config.extra.get? "noise" with
  | some v =>
    match NoiseModel.ofDatum? Json.maxDepth v.datum with
    | some m => .ok m
    | none => .error .serialization
  | none => .ok .ideal

/-- The simulator of settings. -/
def ofConfig (machine : Machine σ) (config : BackendConfig) :
    Except BackendFault (Simulator σ) := do
  let maxQubits ← maxQubitsOf config
  let seed ← config.nat? "seed"
  let noise ← noiseOf config
  checkNoise noise
  pure {
    machine
    config
    capabilities := { Capabilities.simulator maxQubits with name := config.name }
    maxQubits
    noise
    seed := seed.map UInt64.ofNat }

/-! ### Checks -/

/-- The gates of a circuit that have an angle which is not finite. -/
def nonFiniteReasons (c : Circuit) : List String :=
  c.instructions.toList.filterMap fun inst =>
    match inst.action with
    | .gate g =>
      if g.gate.parameters.any (! ·.isFinite) then
        some s!"Gate '{g.gate.name}' has a non-finite angle"
      else none
    | _ => none

/-- Checks a circuit. -/
def validate (s : Simulator σ) (c : Circuit) : Validation :=
  match c.validate with
  | .error f => .invalid [f.message]
  | .ok () =>
    match nonFiniteReasons c with
    | [] => s.capabilities.check c
    | reasons => .invalid reasons

/-- Accepts a job that can be run. -/
def accept (s : Simulator σ) (c : Circuit) (shots : Nat) : Except BackendFault Unit := do
  let most := s.capabilities.maxShots
  if shots = 0 ∨ most < shots then
    throw (.invalidShots s!"{shots} shots requested, simulator accepts 1..={most}")
  if s.maxQubits < c.numQubits then
    throw (.circuitTooLarge
      s!"Circuit has {c.numQubits} qubits but simulator only supports {s.maxQubits}")
  (s.validate c).toExcept
  checkNoise s.noise

/-! ### Running -/

/-- The random source of the next submission. -/
def source (s : Simulator σ) : σ :=
  match s.seed with
  | some seed => s.machine.seeded seed
  | none => s.machine.unseeded s.jobs.taken

/-- Takes a job, runs it and stores its result. -/
def submit [RandomSource σ] (c : Circuit) (shots : Nat) (s : Simulator σ) :
    Except BackendFault JobId × Simulator σ :=
  match s.accept c shots with
  | .error f => (.error f, s)
  | .ok () =>
    let (id, jobs) := s.jobs.enter s.config.name c shots
    match c.simulate s.machine.trigonometry s.noise shots s.source with
    | .error f => (.error (.simulation f), { s with jobs })
    | .ok (result, _) => (.ok id, { s with jobs := jobs.close id result })

instance [RandomSource σ] : Backend (Simulator σ) where
  name s := s.config.name
  capabilities s := s.capabilities
  availability _ := .always
  submit := submit
  status id s := (s.jobs.status id, s)
  result id s := (s.jobs.result id, s)
  cancel id s :=
    let (answer, jobs) := s.jobs.cancel id
    (answer, { s with jobs })

end Simulator

end OneWay
