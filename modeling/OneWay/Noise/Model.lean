import OneWay.Circuit.Basic
import OneWay.Decimal.Layout
import OneWay.Datum.Record

/-!
# Noise models

A noise model lists the channels that act after gates on one and on two wires, and the
probability that a measured bit is read wrongly.
-/

namespace OneWay

/-- A kind of noise on one wire. -/
inductive NoiseKind where
  /-- One of the three Pauli operators, each equally likely. -/
  | depolarizing
  /-- The Pauli operator X. -/
  | bitFlip
  /-- The Pauli operator Z. -/
  | phaseFlip
  /-- Decay from the state 1 to the state 0. -/
  | amplitudeDamping
  deriving DecidableEq, Repr, Inhabited

namespace NoiseKind

/-- The name of a kind. -/
def name : NoiseKind → String
  | .depolarizing => "depolarizing"
  | .bitFlip => "bit_flip"
  | .phaseFlip => "phase_flip"
  | .amplitudeDamping => "amplitude_damping"

/-- The kind of a given name. -/
def ofName? : String → Option NoiseKind
  | "depolarizing" => some .depolarizing
  | "bit_flip" => some .bitFlip
  | "phase_flip" => some .phaseFlip
  | "amplitude_damping" => some .amplitudeDamping
  | _ => none

/-- The name of the parameter in documents. -/
def parameterName : NoiseKind → String
  | .amplitudeDamping => "gamma"
  | _ => "p"

/-- The symbol of the parameter in messages. -/
def parameterSymbol : NoiseKind → String
  | .amplitudeDamping => "γ"
  | _ => "p"

end NoiseKind

/-- Whether a number is a probability. -/
def isProbability (x : Float) : Bool := x.isFinite && 0.0 ≤ x && x ≤ 1.0

/-- The fault of a noise parameter that is no probability. -/
def parameterFault? (name : String) (x : Float) : Option CircuitFault :=
  if isProbability x then none else some (.noiseParameter name x)

/-- Noise of some kind and strength. -/
structure NoiseChannel where
  kind : NoiseKind
  strength : Float
  deriving DecidableEq, Repr, Inhabited

namespace NoiseChannel

/-- The channel with four decimals of its strength. -/
def text (c : NoiseChannel) : String :=
  s!"{c.kind.name}({c.kind.parameterSymbol}={Decimal.fixed 4 c.strength})"

/-- The fault of a channel whose strength is no probability. -/
def fault? (c : NoiseChannel) : Option CircuitFault := parameterFault? c.kind.name c.strength

/-- A channel as a value. -/
def toJson (c : NoiseChannel) : Json :=
  .obj [("type", .str c.kind.name), (c.kind.parameterName, .real c.strength)]

/-- Reads a channel that has some levels to nest in. -/
def ofDatum? (levels : Nat) (v : Datum) : Option NoiseChannel :=
  match v.tagged? levels "type" with
  | some (name, fields) =>
    match NoiseKind.ofName? name with
    | some kind =>
      match fields.record? [kind.parameterName] with
      | some [strength] => (Datum.required Datum.real? strength).map (⟨kind, ·⟩)
      | _ => none
    | none => none
  | none => none

end NoiseChannel

/-- The noise of a device. -/
structure NoiseModel where
  /-- Channels on the wire of a gate on one wire. -/
  singleQubit : List NoiseChannel := []
  /-- Channels on each wire of a gate on two wires. -/
  twoQubit : List NoiseChannel := []
  /-- The probability that a measured bit is read wrongly. -/
  readoutError : Float := 0.0
  deriving DecidableEq, Repr, Inhabited

namespace NoiseModel

/-- No noise. -/
def ideal : NoiseModel := {}

/-- Depolarizing noise of one strength after gates on one wire and of another after gates on
two. -/
def depolarizing (p₁ p₂ : Float) : NoiseModel :=
  { singleQubit := [⟨.depolarizing, p₁⟩], twoQubit := [⟨.depolarizing, p₂⟩] }

/-- All channels. -/
def channels (m : NoiseModel) : List NoiseChannel := m.singleQubit ++ m.twoQubit

/-- Whether no noise can arise. -/
def isIdeal (m : NoiseModel) : Bool :=
  m.channels.all (·.strength == 0.0) && m.readoutError == 0.0

/-- Accepts a model whose parameters are probabilities. -/
def validate (m : NoiseModel) : Except CircuitFault Unit :=
  match (m.channels.findSome? NoiseChannel.fault?).or
      (parameterFault? "readout_error" m.readoutError) with
  | some f => .error f
  | none => .ok ()

/-- A model as a value. -/
def toJson (m : NoiseModel) : Json :=
  .obj [("single_qubit", .ofList NoiseChannel.toJson m.singleQubit),
    ("two_qubit", .ofList NoiseChannel.toJson m.twoQubit),
    ("readout_error", .real m.readoutError)]

/-- Reads a model that has some levels to nest in; what is absent is free of noise. -/
def ofDatum? (levels : Nat) (v : Datum) : Option NoiseModel :=
  let channels? := Datum.list? (NoiseChannel.ofDatum? (levels - 2))
  match v.record? ["single_qubit", "two_qubit", "readout_error"] with
  | some [single, two, readout] => do
    pure {
      singleQubit := ← Datum.optional [] channels? single
      twoQubit := ← Datum.optional [] channels? two
      readoutError := ← Datum.optional 0.0 Datum.real? readout }
  | _ => none

end NoiseModel

end OneWay
