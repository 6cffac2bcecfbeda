import OneWay.Random.Source

/-!
# Faults of backends
-/

namespace OneWay

/-- Why a backend refuses or fails a request. -/
inductive BackendFault where
  | unavailable (reason : String)
  | submissionFailed (reason : String)
  /-- The job ended without counts. -/
  | jobFailed (reason : String)
  | jobCancelled
  | jobNotFound (id : String)
  /-- The result of a job that has none yet. -/
  | jobNotCompleted (id : String)
  | invalidCircuit (reason : String)
  /-- A setting that cannot be read. -/
  | serialization
  | configuration (reason : String)
  /-- The job did not end while it was waited for. -/
  | timeout (id : String)
  | circuitTooLarge (reason : String)
  | unsupported (reason : String)
  | invalidShots (reason : String)
  | backend (reason : String)
  /-- The simulation itself broke off. -/
  | simulation (fault : SimulationFault)
  deriving DecidableEq, Repr

/-- The fault in words. -/
def BackendFault.message : BackendFault → String
  | .unavailable m => "Backend not available: " ++ m
  | .submissionFailed m => "Job submission failed: " ++ m
  | .jobFailed m => "Job failed: " ++ m
  | .jobCancelled => "Job cancelled"
  | .jobNotFound id => "Job not found: " ++ id
  | .jobNotCompleted id => s!"Job {id} has not completed"
  | .invalidCircuit m => "Invalid circuit: " ++ m
  | .serialization => "Serialization error"
  | .configuration m => "Configuration error: " ++ m
  | .timeout id => "Timeout waiting for job " ++ id
  | .circuitTooLarge m => "Circuit exceeds backend capabilities: " ++ m
  | .unsupported m => "Unsupported feature: " ++ m
  | .invalidShots m => "Invalid shots: " ++ m
  | .backend m => "Backend error: " ++ m
  | .simulation _ => "Simulation broke off"

end OneWay
