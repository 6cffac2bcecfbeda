import OneWay.Backend.Basic

/-!
# A backend that follows a script

A scripted backend answers each question for a status with the next entry of a script; the last
entry repeats. It stands in for a remote device where the client's side is what matters.
-/

namespace OneWay

/-- A backend that follows a script. -/
structure Scripted where
  /-- The statuses to answer with. -/
  script : List JobStatus
  /-- The counts of the result, if there is one. -/
  counts : Option Counts := none
  /-- The fault of every submission. -/
  refusal : Option BackendFault := none
  /-- How often a status was asked for. -/
  polls : Nat := 0

namespace Scripted

/-- Answers with the next entry of the script. -/
def poll (s : Scripted) : JobStatus × Scripted :=
  let s := { s with polls := s.polls + 1 }
  match s.script with
  | [] => (.queued, s)
  | [status] => (status, s)
  | status :: rest => (status, { s with script := rest })

instance : Backend Scripted where
  name _ := "scripted"
  capabilities _ := .simulator 2
  availability _ := .always
  submit _ _ s :=
    match s.refusal with
    | some f => (.error f, s)
    | none => (.ok "job-1", s)
  status _ s := let (status, s) := s.poll; (.ok status, s)
  result id s :=
    match s.counts with
    | some counts => (.ok { counts, shots := counts.total }, s)
    | none => (.error (.jobNotCompleted id), s)
  cancel _ s := (.ok (), { s with script := [.cancelled] })

end Scripted

end OneWay
