import OneWay.Backend.Basic
import OneWay.Backend.Capability
import OneWay.Backend.Config
import OneWay.Backend.Fault
import OneWay.Backend.Job
import OneWay.Backend.Registry
import OneWay.Backend.Scripted
import OneWay.Backend.Simulator
import OneWay.Circuit.Basic
import OneWay.Circuit.Depth
import OneWay.Circuit.Document
import OneWay.Circuit.Gate
import OneWay.Circuit.Program
import OneWay.Cli.Arguments
import OneWay.Cli.Commands
import OneWay.Cli.Host
import OneWay.Cli.Path
import OneWay.Cli.Report
import OneWay.Compile.Compiled
import OneWay.Compile.Draft
import OneWay.Compile.InputState
import OneWay.Compile.Options
import OneWay.Complex
import OneWay.Datum.Basic
import OneWay.Datum.Record
import OneWay.Decimal.Layout
import OneWay.Decimal.Reader
import OneWay.Decimal.Shortest
import OneWay.Json.Basic
import OneWay.Json.Parser
import OneWay.Json.Printer
import OneWay.Main
import OneWay.Noise.Model
import OneWay.Pattern.Basic
import OneWay.Pattern.Command
import OneWay.Pattern.Document
import OneWay.Pattern.Fault
import OneWay.Pattern.Space
import OneWay.Pattern.Validity
import OneWay.Proofs.Backend.Interleaving
import OneWay.Proofs.Backend.Job
import OneWay.Proofs.Backend.Simulator
import OneWay.Proofs.Binary64
import OneWay.Proofs.Circuit.Angle
import OneWay.Proofs.Circuit.MidCircuit
import OneWay.Proofs.Circuit.Validity
import OneWay.Proofs.Compile.Acceptance
import OneWay.Proofs.Compile.Admission
import OneWay.Proofs.Compile.Angles
import OneWay.Proofs.Compile.Correspondence
import OneWay.Proofs.Compile.Invariant
import OneWay.Proofs.Compile.Meaning
import OneWay.Proofs.Compile.MidCircuit
import OneWay.Proofs.Compile.Outcomes
import OneWay.Proofs.Compile.Register
import OneWay.Proofs.Compile.Reuse
import OneWay.Proofs.Compile.Script
import OneWay.Proofs.Compile.Space
import OneWay.Proofs.Compile.Wires
import OneWay.Proofs.Datum
import OneWay.Proofs.Decimal.Nearest
import OneWay.Proofs.Decimal.Shortest
import OneWay.Proofs.Json.Number
import OneWay.Proofs.Json.Plain
import OneWay.Proofs.Json.ReadBack
import OneWay.Proofs.Pattern.Document
import OneWay.Proofs.Pattern.Validity
import OneWay.Proofs.Program.Reader
import OneWay.Proofs.Program.RoundTrip
import OneWay.Proofs.Program.Spelling
import OneWay.Proofs.Random
import OneWay.Proofs.Rounding
import OneWay.Proofs.Runner.Conservation
import OneWay.Proofs.Simulation.Completion
import OneWay.Proofs.Simulation.Control
import OneWay.Proofs.State
import OneWay.Random.ChaCha
import OneWay.Random.Source
import OneWay.Runner.Basic
import OneWay.Runner.Options
import OneWay.Runner.Outcome
import OneWay.Simulation.Counts
import OneWay.Simulation.Shot
import OneWay.Sorted.Map
import OneWay.Sorted.Set
import OneWay.State.Kernel
import OneWay.State.Vector
import OneWay.Text.Casing
import OneWay.Text.Lowercase
import OneWay.Text.Printable
import OneWay.Yaml.Cursor
import OneWay.Yaml.Lexer
import OneWay.Yaml.Node
import OneWay.Yaml.Scalar
import OneWay.Yaml.Shape
import OneWay.Yaml.Token
import OneWay.Proofs.Circuit.Document
import OneWay.Proofs.Compile.Document
import OneWay.Proofs.Circuit.Builder
import OneWay.Proofs.Circuit.Depth
import OneWay.Proofs.Simulation.Access
import OneWay.Proofs.Pattern.Renaming
import OneWay.Proofs.Compile.Renaming
import OneWay.Proofs.Pattern.Diagnosis
import OneWay.Proofs.Circuit.CriticalPath
import OneWay.Proofs.Runner.Marginal
import OneWay.Proofs.Value
import OneWay.Proofs.Accuracy
import OneWay.Proofs.State.Entries
import OneWay.Proofs.State.Mass
import OneWay.Proofs.State.Weight
import OneWay.Proofs.Trigonometry
import OneWay.Proofs.State.Growth
import OneWay.Proofs.State.Drift
import OneWay.Proofs.Simulation.Sampling
import OneWay.Proofs.Backend.Sampling
import OneWay.Proofs.Backend.LifeCycle
import OneWay.Proofs.Pattern.Closure
import OneWay.Proofs.Backend.Capability
import OneWay.Proofs.Backend.Polling
import OneWay.Proofs.State.Action
import OneWay.Proofs.State.Entangling
import OneWay.Proofs.Json.Canonical
import OneWay.Proofs.Noise
import OneWay.Proofs.Runner.Settings
import OneWay.Proofs.Sign
import OneWay.Proofs.State.Collapse
import OneWay.Proofs.Compile.Snapshot
