import OneWay.Backend.Capability
import OneWay.Backend.Job

/-!
# Backends

A backend takes circuits as jobs and answers for their status and results. What a client does
with it is a function of the backend's state: every request gives an answer and the new state.

`Backend.wait` polls the status of a job until it is decided, at most `Backend.maxPolls` times.
-/

namespace OneWay

/-- States of a device or simulator that runs circuits. -/
class Backend (σ : Type) where
  name : σ → String
  capabilities : σ → Capabilities
  availability : σ → Availability
  /-- Takes a circuit to be run a number of times. -/
  submit : Circuit → Nat → σ → Except BackendFault JobId × σ
  status : JobId → σ → Except BackendFault JobStatus × σ
  result : JobId → σ → Except BackendFault ExecutionResult × σ
  cancel : JobId → σ → Except BackendFault Unit × σ

namespace Backend

variable {σ : Type} [Backend σ]

/-- How often the status of a job is asked for. -/
def maxPolls : Nat := 600

/-- Asks for the status at most a number of times, and for the result once the job is
completed. -/
def waitWithin (id : JobId) : Nat → σ → Except BackendFault ExecutionResult × σ
  | 0, s => (.error (.timeout id), s)
  | polls + 1, s =>
    match status id s with
    | (.error f, s) => (.error f, s)
    | (.ok .completed, s) => result id s
    | (.ok (.failed m), s) => (.error (.jobFailed m), s)
    | (.ok .cancelled, s) => (.error .jobCancelled, s)
    | (.ok .queued, s) | (.ok .running, s) => waitWithin id polls s

/-- Waits for a job to end. -/
def wait (id : JobId) (s : σ) : Except BackendFault ExecutionResult × σ :=
  waitWithin id maxPolls s

/-- Submits a circuit and waits for its result. -/
def run (c : Circuit) (shots : Nat) (s : σ) : Except BackendFault ExecutionResult × σ :=
  match submit c shots s with
  | (.error f, s) => (.error f, s)
  | (.ok id, s) => wait id s

end Backend

end OneWay
