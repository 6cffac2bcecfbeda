import OneWay.Circuit.Basic
import OneWay.Noise.Model
import OneWay.Simulation.Counts
import OneWay.State.Vector

/-!
# Simulating circuits shot by shot

A shot runs the instructions on a fresh state: measurements collapse the state and write the
classical register, conditioned gates read it, and noise acts after every gate that was applied.
The first snapshot of the first shot is kept.

All shots of a simulation draw from one random source.
-/

namespace OneWay

/-- The state of a shot. -/
structure Shot (σ : Type) where
  amplitudes : Amplitudes
  register : Array Bool
  /-- The amplitudes at the first snapshot. -/
  snapshot : Option Amplitudes
  source : σ

namespace Shot

variable {σ : Type} [RandomSource σ]

/-- The start of a shot. -/
def start (c : Circuit) (source : σ) : Shot σ where
  amplitudes := .ground c.numQubits
  register := Array.replicate c.numBits false
  snapshot := none
  source := source

/-! ### Noise -/

/-- Applies a plain gate to one wire. -/
def flip (t : Trigonometry) (g : Gate) (q : Qubit) (s : Shot σ) :
    Except SimulationFault (Shot σ) := do
  pure { s with amplitudes := ← s.amplitudes.apply t g [q] }

/-- One random step of a channel on a wire. -/
def disturb (t : Trigonometry) (channel : NoiseChannel) (q : Qubit) (s : Shot σ) :
    Except SimulationFault (Shot σ) :=
  match channel.kind with
  | .amplitudeDamping => do
    let (amplitudes, source) ← s.amplitudes.damp q channel.strength s.source
    pure { s with amplitudes, source }
  | .depolarizing => do
    let (hit, source) ← RandomSource.coin channel.strength s.source
    if hit then
      let (which, source) := RandomSource.oneOfThree source
      flip t (if which = 0 then .x else if which = 1 then .y else .z) q { s with source }
    else pure { s with source }
  | .bitFlip => do
    let (hit, source) ← RandomSource.coin channel.strength s.source
    if hit then flip t .x q { s with source } else pure { s with source }
  | .phaseFlip => do
    let (hit, source) ← RandomSource.coin channel.strength s.source
    if hit then flip t .z q { s with source } else pure { s with source }

/-- Every channel on every wire, wire by wire. -/
def disturbAll (t : Trigonometry) (channels : List NoiseChannel) (qubits : List Qubit)
    (s : Shot σ) : Except SimulationFault (Shot σ) :=
  qubits.foldlM (fun s q => channels.foldlM (fun s c => disturb t c q s) s) s

/-- The bit that is read where `outcome` was measured. -/
def readout (error : Float) (outcome : Bool) (source : σ) :
    Except SimulationFault (Bool × σ) := do
  if error > 0.0 then
    let (wrong, source) ← RandomSource.coin error source
    pure (outcome ^^ wrong, source)
  else pure (outcome, source)

/-! ### Instructions -/

/-- Measures a wire into a classical bit. -/
def measure (noise : NoiseModel) (q : Qubit) (b : Bit) (s : Shot σ) :
    Except SimulationFault (Shot σ) := do
  let (outcome, amplitudes, source) ← s.amplitudes.measure q s.source
  let (bit, source) ← readout noise.readoutError outcome source
  if h : b < s.register.size then
    pure { s with amplitudes, source, register := s.register.set b bit h }
  else throw .outOfRange

/-- Returns a wire to 0. -/
def reset (q : Qubit) (s : Shot σ) : Except SimulationFault (Shot σ) := do
  let (amplitudes, source) ← s.amplitudes.reset q s.source
  pure { s with amplitudes, source }

/-- Applies a gate and the noise that follows it. -/
def gate (t : Trigonometry) (noise : NoiseModel) (g : Gate) (qubits : List Qubit) (s : Shot σ) :
    Except SimulationFault (Shot σ) := do
  let amplitudes ← s.amplitudes.apply t g qubits
  let channels := if qubits.length = 1 then noise.singleQubit else noise.twoQubit
  disturbAll t channels qubits { s with amplitudes }

/-- The effect of an instruction. -/
def step (t : Trigonometry) (noise : NoiseModel) (s : Shot σ) (inst : Instruction) :
    Except SimulationFault (Shot σ) :=
  match inst.action with
  | .gate g =>
    match g.condition with
    | some c => if c.holds s.register then s.gate t noise g.gate inst.qubits else .ok s
    | none => s.gate t noise g.gate inst.qubits
  | .measure => (inst.qubits.zip inst.bits).foldlM (fun s (q, b) => s.measure noise q b) s
  | .reset => inst.qubits.foldlM (fun s q => s.reset q) s
  | .snapshot =>
    .ok (if s.snapshot.isNone then { s with snapshot := some s.amplitudes } else s)
  | .barrier => .ok s

/-- One shot of a circuit. -/
def run (t : Trigonometry) (noise : NoiseModel) (c : Circuit) (source : σ) :
    Except SimulationFault (Shot σ) :=
  c.instructions.toList.foldlM (step t noise) (start c source)

/-- The classical register as a bitstring. -/
def bitstring (s : Shot σ) : String :=
  String.ofList (s.register.toList.map fun b => if b then '1' else '0')

end Shot

/-- What several shots have yielded, and the source for the next. -/
structure Tally (σ : Type) where
  counts : Counts
  source : σ

namespace Circuit

variable {σ : Type} [RandomSource σ]

/-- Runs further shots, whose snapshots are not kept. -/
def repeatShots (t : Trigonometry) (noise : NoiseModel) (c : Circuit) :
    Nat → Tally σ → Except SimulationFault (Tally σ)
  | 0, tally => .ok tally
  | n + 1, tally => do
    let shot ← Shot.run t noise c tally.source
    repeatShots t noise c n ⟨tally.counts.add shot.bitstring 1, shot.source⟩

/-- Simulates a circuit. -/
def simulate (t : Trigonometry) (noise : NoiseModel) (c : Circuit) (shots : Nat) (source : σ) :
    Except SimulationFault (ExecutionResult × σ) :=
  match shots with
  | 0 => .ok ({ counts := ∅, shots := 0 }, source)
  | n + 1 => do
    let first ← Shot.run t noise c source
    let tally ← repeatShots t noise c n ⟨(∅ : Counts).add first.bitstring 1, first.source⟩
    pure ({ counts := tally.counts, shots, statevector := first.snapshot }, tally.source)

end Circuit

end OneWay
