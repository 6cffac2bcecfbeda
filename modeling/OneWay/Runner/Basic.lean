import OneWay.Backend.Basic
import OneWay.Runner.Options
import OneWay.Runner.Outcome

/-!
# Running patterns

A `Runner` compiles patterns and submits them to a backend. A `PatternJob` is the handle of a
submitted pattern; it keeps the compiled pattern, so that counts can be reported by output node.
The backend's state is passed along.
-/

namespace OneWay

/-- A backend and the options with which patterns are run on it. -/
structure Runner (σ : Type) where
  backend : σ
  options : RunnerOptions := {}

/-- A submitted pattern. -/
structure PatternJob where
  id : JobId
  compiled : Compiled
  deriving Repr

namespace PatternJob

variable {σ : Type} [Backend σ]

/-- The counts to report: those of the register, or those of the output nodes. -/
def present (job : PatternJob) (raw : Bool) (counts : Counts) : Except RunnerFault Counts :=
  if raw then .ok counts else job.compiled.outcomes counts

/-- Wraps the answer of a backend. -/
def ofBackend {α : Type} (answer : Except BackendFault α × σ) : Except RunnerFault α × σ :=
  (answer.1.mapError .backend, answer.2)

/-- The status of the job. -/
def status (job : PatternJob) (s : σ) : Except RunnerFault JobStatus × σ :=
  ofBackend (Backend.status job.id s)

/-- Whether the job has ended. -/
def isDone (job : PatternJob) (s : σ) : Except RunnerFault Bool × σ :=
  let (answer, s) := job.status s
  (answer.map JobStatus.isTerminal, s)

/-- The counts of the job, none while it is pending. -/
def retrieve (job : PatternJob) (raw : Bool) (s : σ) : Except RunnerFault (Option Counts) × σ :=
  match job.status s with
  | (.error f, s) => (.error f, s)
  | (.ok .queued, s) | (.ok .running, s) => (.ok none, s)
  | (.ok (.failed m), s) => (.error (.backend (.jobFailed m)), s)
  | (.ok .cancelled, s) => (.error (.backend .jobCancelled), s)
  | (.ok .completed, s) =>
    match ofBackend (Backend.result job.id s) with
    | (.error f, s) => (.error f, s)
    | (.ok result, s) => ((job.present raw result.counts).map some, s)

/-- Waits for the job to end and gives its counts. -/
def wait (job : PatternJob) (raw : Bool) (s : σ) : Except RunnerFault Counts × σ :=
  match ofBackend (Backend.wait job.id s) with
  | (.error f, s) => (.error f, s)
  | (.ok result, s) => (job.present raw result.counts, s)

/-- Cancels the job. -/
def cancel (job : PatternJob) (s : σ) : Except RunnerFault Unit × σ :=
  ofBackend (Backend.cancel job.id s)

/-- The handle as a record with named fields. -/
def outline (job : PatternJob) (s : σ) : String :=
  "PatternJob \x7b backend: " ++ Text.quoted (Backend.name s) ++ ", id: JobId("
    ++ Text.quoted job.id ++ "), .. \x7d"

end PatternJob

namespace Runner

variable {σ : Type} [Backend σ]

/-- Compiles a pattern. Its outputs are measured whatever the options say. -/
def compile (r : Runner σ) (p : Pattern) (inputs : SortedMap Node InputState := ∅) :
    Except RunnerFault Compiled :=
  (p.compile inputs { r.options.compile with measureOutputs := true }).mapError .compile

/-- Submits a compiled pattern. -/
def submit (r : Runner σ) (c : Compiled) (shots : Nat) :
    Except RunnerFault PatternJob × Runner σ :=
  let (answer, backend) := Backend.submit c.circuit shots r.backend
  ((answer.map fun id => ⟨id, c⟩).mapError .backend, { r with backend })

/-- Compiles a pattern, submits it and waits for its counts. -/
def run (r : Runner σ) (p : Pattern) (inputs : SortedMap Node InputState := ∅)
    (raw : Bool := false) : Except RunnerFault Counts × Runner σ :=
  match r.compile p inputs with
  | .error f => (.error f, r)
  | .ok compiled =>
    match r.submit compiled r.options.shots with
    | (.error f, r) => (.error f, r)
    | (.ok job, r) =>
      let (answer, backend) := job.wait raw r.backend
      (answer, { r with backend })

/-- The runner as a record with named fields. -/
def outline (r : Runner σ) : String :=
  "PatternRunner \x7b backend: " ++ Text.quoted (Backend.name r.backend) ++ ", options: "
    ++ r.options.outline ++ " \x7d"

end Runner

end OneWay
