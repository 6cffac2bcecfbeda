import OneWay.Backend.Fault
import OneWay.Circuit.Basic
import OneWay.Simulation.Counts

/-!
# Jobs

The status of a job only moves forward: it is queued, then running, then completed, failed or
cancelled. A `JobRecord` is what a backend remembers of a job, and a `JobTable` holds the records
of a backend by their identifiers.
-/

namespace OneWay

/-- The identifier of a job. -/
abbrev JobId := String

/-- A reading of the clock. -/
abbrev Instant := Nat

/-- Where a job is in its life. -/
inductive JobStatus where
  | queued
  | running
  | completed
  | failed (reason : String)
  | cancelled
  deriving DecidableEq, Repr, Inhabited

namespace JobStatus

/-- The stage of a status: before, during or after the run. -/
def stage : JobStatus → Nat
  | .queued => 0
  | .running => 1
  | .completed | .failed _ | .cancelled => 2

/-- Whether the job has ended. -/
def isTerminal (s : JobStatus) : Bool := s.stage == 2

/-- Whether the job has ended with counts. -/
def isSuccess : JobStatus → Bool
  | .completed => true
  | _ => false

/-- Whether `next` is a later stage. -/
def precedes (s next : JobStatus) : Bool := s.stage < next.stage

/-- The status in words. -/
def text : JobStatus → String
  | .queued => "queued"
  | .running => "running"
  | .completed => "completed"
  | .failed m => "failed: " ++ m
  | .cancelled => "cancelled"

/-- A status as a value. -/
def toJson : JobStatus → Json
  | .failed m => .obj [("failed", .str m)]
  | s => .str s.text

end JobStatus

/-- What is remembered of a job. -/
structure JobRecord where
  id : JobId
  /-- The backend that took the job. -/
  backend : String
  shots : Nat
  numQubits : Nat
  status : JobStatus := .queued
  /-- When the job reached a terminal status. -/
  finishedAt : Option Instant := none
  result? : Option ExecutionResult := none
  deriving DecidableEq, Repr, Inhabited

namespace JobRecord

/-- The record of a new job. -/
def ofCircuit (id : JobId) (backend : String) (c : Circuit) (shots : Nat) : JobRecord :=
  { id, backend, shots, numQubits := c.numQubits }

/-- Whether the job has a time at which it ended. -/
def finished (r : JobRecord) : Bool := r.finishedAt.isSome

/-- Moves a job to a later stage, and notes the time if it ends there. A move that leads nowhere
leaves the record alone and answers `false`. Who keeps no clock leaves out the time. -/
def advance (r : JobRecord) (next : JobStatus) (now : Instant := 0) : Bool × JobRecord :=
  if r.status.precedes next then
    (true, { r with
      status := next
      finishedAt := if next.isTerminal then some now else r.finishedAt })
  else (false, r)

/-- Completes a job with its result, unless it has ended before. -/
def complete (r : JobRecord) (result : ExecutionResult) (now : Instant := 0) :
    Bool × JobRecord :=
  match r.advance .completed now with
  | (true, r) => (true, { r with result? := some result })
  | (false, r) => (false, r)

/-- The result of a job, or the fault that its status amounts to. -/
def result (r : JobRecord) : Except BackendFault ExecutionResult :=
  match r.status, r.result? with
  | .completed, some result => .ok result
  | .failed m, _ => .error (.jobFailed m)
  | .cancelled, _ => .error .jobCancelled
  | _, _ => .error (.jobNotCompleted r.id)

end JobRecord

/-- The jobs of a backend. -/
structure JobTable where
  records : SortedMap JobId JobRecord := ∅
  /-- Number of jobs taken, which numbers the next one. -/
  taken : Nat := 0
  deriving DecidableEq, Repr, Inhabited

namespace JobTable

/-- The hexadecimal digits of a number, with zeros in front. -/
def hex (width n : Nat) : String :=
  let digits := Nat.toDigits 16 n
  String.ofList (List.replicate (width - digits.length) '0' ++ digits)

/-- The identifier of the job with a given number. -/
def idOf (n : Nat) : JobId := "00000000-0000-4000-8000-" ++ hex 12 n

/-- Takes a job, which starts to run. -/
def enter (t : JobTable) (backend : String) (c : Circuit) (shots : Nat) : JobId × JobTable :=
  let id := idOf t.taken
  let record := ((JobRecord.ofCircuit id backend c shots).advance .running).2
  (id, { records := t.records.insert id record, taken := t.taken + 1 })

/-- Completes a job. -/
def close (t : JobTable) (id : JobId) (result : ExecutionResult) : JobTable :=
  match t.records.get? id with
  | some r => { t with records := t.records.insert id (r.complete result).2 }
  | none => t

/-- The status of a job. -/
def status (t : JobTable) (id : JobId) : Except BackendFault JobStatus :=
  match t.records.get? id with
  | some r => .ok r.status
  | none => .error (.jobNotFound id)

/-- The result of a job. -/
def result (t : JobTable) (id : JobId) : Except BackendFault ExecutionResult :=
  match t.records.get? id with
  | some r => r.result
  | none => .error (.jobNotFound id)

/-- Cancels a job; one that has ended stays as it is. -/
def cancel (t : JobTable) (id : JobId) : Except BackendFault Unit × JobTable :=
  match t.records.get? id with
  | some r => (.ok (), { t with records := t.records.insert id (r.advance .cancelled).2 })
  | none => (.error (.jobNotFound id), t)

end JobTable

end OneWay
