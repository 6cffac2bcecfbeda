import OneWay.Proofs.Backend.Job

/-!
# The life of a job record

Two calls change the record of a job: one asks for a status, the other brings the result. A call is
heeded iff the status that it asks for belongs to a later stage (`JobStatus.Before`), and changes
nothing otherwise (`JobRecord.Event.perform_of_before`, `JobRecord.Event.perform_of_not_before`).

A record is `JobRecord.Open` until a call ends the job. After that no call changes it
(`JobRecord.after_of_ended`), so at most one call of a history has ended the job, and status, time
and result are those of that call (`JobRecord.EndsAt.after_eq`). `JobRecord.lifeCycle` says this of
every history of a new record.
-/

namespace OneWay

namespace JobStatus

variable {s t : JobStatus}

/-- The statuses of a job that has ended. -/
inductive Ended : JobStatus → Prop where
  | completed : Ended .completed
  | failed (reason : String) : Ended (.failed reason)
  | cancelled : Ended .cancelled

/-- The first status belongs to an earlier stage than the second: a queued job has yet to run, and
a job that is queued or runs has yet to end. -/
inductive Before : JobStatus → JobStatus → Prop where
  | run : Before .queued .running
  | endQueued {s : JobStatus} (h : s.Ended) : Before .queued s
  | endRunning {s : JobStatus} (h : s.Ended) : Before .running s

theorem isTerminal_iff : s.isTerminal = true ↔ s.Ended := by
  constructor
  · intro h
    cases s with
    | completed => exact .completed
    | failed reason => exact .failed reason
    | cancelled => exact .cancelled
    | _ => simp [isTerminal, stage] at h
  · intro h
    cases h <;> rfl

instance (s : JobStatus) : Decidable s.Ended :=
  decidable_of_iff (s.isTerminal = true) isTerminal_iff

theorem Ended.stage_eq (h : s.Ended) : s.stage = 2 := by
  cases h <;> rfl

/-- What is not over can end. -/
theorem before_of_ended (hs : ¬ s.Ended) (ht : t.Ended) : s.Before t := by
  cases s with
  | queued => exact .endQueued ht
  | running => exact .endRunning ht
  | completed => exact absurd .completed hs
  | failed reason => exact absurd (.failed reason) hs
  | cancelled => exact absurd .cancelled hs

theorem Ended.not_before (h : s.Ended) : ¬ s.Before t := by
  intro hbefore
  cases hbefore <;> cases h

theorem precedes_iff : s.precedes t = true ↔ s.Before t := by
  rw [precedes, decide_eq_true_iff]
  constructor
  · intro hlt
    by_cases ht : t.Ended
    · refine before_of_ended (fun hs => ?_) ht
      rw [hs.stage_eq, ht.stage_eq] at hlt
      omega
    · -- a status that is no end and not the first one is that of a running job
      cases t with
      | queued => exact absurd hlt (Nat.not_lt_zero _)
      | running =>
        cases s with
        | queued => exact .run
        | _ => simp [stage] at hlt
      | completed => exact absurd .completed ht
      | failed reason => exact absurd (.failed reason) ht
      | cancelled => exact absurd .cancelled ht
  · intro h
    cases h with
    | run => decide
    | endQueued ht =>
      rw [ht.stage_eq]
      decide
    | endRunning ht =>
      rw [ht.stage_eq]
      decide

end JobStatus

namespace JobRecord

/-! ### Calls -/

/-- A call on a record. -/
inductive Call where
  /-- Ask for a status. -/
  | advance (next : JobStatus)
  /-- Bring the result. -/
  | complete (result : ExecutionResult)
  deriving DecidableEq, Repr

namespace Call

/-- The status that a call asks for. -/
def target : Call → JobStatus
  | .advance next => next
  | .complete _ => .completed

/-- The result that a call brings. -/
def result? : Call → Option ExecutionResult
  | .advance _ => none
  | .complete result => some result

theorem result?_of_not_ended {call : Call} (h : ¬ call.target.Ended) : call.result? = none := by
  cases call with
  | advance next => rfl
  | complete result => exact absurd .completed h

/-- What a request for the result is answered once a call has ended the job. -/
def answer (id : JobId) : Call → Except BackendFault ExecutionResult
  | .complete result => .ok result
  | .advance (.failed reason) => .error (.jobFailed reason)
  | .advance .cancelled => .error .jobCancelled
  | .advance _ => .error (.jobNotCompleted id)

end Call

/-- A call and the time at which it is made. -/
structure Event where
  call : Call
  time : Instant
  deriving DecidableEq, Repr

/-- What an event answers and what it makes of a record. -/
def Event.perform (e : Event) (r : JobRecord) : Bool × JobRecord :=
  match e.call with
  | .advance next => r.advance next e.time
  | .complete result => r.complete result e.time

variable {r : JobRecord} {e : Event} {events : List Event} {i : Nat}

theorem advance_of_before {next : JobStatus} (h : r.status.Before next) (now : Instant) :
    r.advance next now = (true, { r with
      status := next, finishedAt := if next.isTerminal then some now else r.finishedAt }) := by
  rw [advance, if_pos (JobStatus.precedes_iff.mpr h)]

theorem advance_of_not_before {next : JobStatus} (h : ¬ r.status.Before next) (now : Instant) :
    r.advance next now = (false, r) := by
  rw [advance, if_neg fun hprecedes => h (JobStatus.precedes_iff.mp hprecedes)]

/-- **A call that leads forward** is heeded. An end is noted with its time, and a result is
kept. -/
theorem Event.perform_of_before (h : r.status.Before e.call.target) :
    e.perform r = (true, { r with
      status := e.call.target
      finishedAt := if e.call.target.isTerminal then some e.time else r.finishedAt
      result? := e.call.result?.or r.result? }) := by
  obtain ⟨call, time⟩ := e
  cases call with
  | advance next => exact advance_of_before h time
  | complete result =>
    have hnext : r.status.Before .completed := h
    show r.complete result time = _
    rw [complete, advance_of_before hnext]
    rfl

/-- **A call that leads nowhere** changes nothing. -/
theorem Event.perform_of_not_before (h : ¬ r.status.Before e.call.target) :
    e.perform r = (false, r) := by
  obtain ⟨call, time⟩ := e
  cases call with
  | advance next => exact advance_of_not_before h time
  | complete result =>
    have hnext : ¬ r.status.Before .completed := h
    show r.complete result time = _
    rw [complete, advance_of_not_before hnext]

theorem Event.perform_fst (e : Event) (r : JobRecord) :
    (e.perform r).1 = true ↔ r.status.Before e.call.target := by
  by_cases h : r.status.Before e.call.target
  · simp [perform_of_before h, h]
  · simp [perform_of_not_before h, h]

theorem Event.id_perform (e : Event) (r : JobRecord) : (e.perform r).2.id = r.id := by
  by_cases h : r.status.Before e.call.target
  · rw [perform_of_before h]
  · rw [perform_of_not_before h]

/-! ### Histories -/

/-- The record after some events. -/
def after (r : JobRecord) (events : List Event) : JobRecord :=
  events.foldl (fun r e => (e.perform r).2) r

theorem after_append (r : JobRecord) (events later : List Event) :
    r.after (events ++ later) = (r.after events).after later :=
  List.foldl_append

theorem after_take_succ (r : JobRecord) (he : events[i]? = some e) :
    r.after (events.take (i + 1)) = (e.perform (r.after (events.take i))).2 := by
  rw [List.take_add_one, he, after_append]
  rfl

theorem id_after (r : JobRecord) (events : List Event) : (r.after events).id = r.id := by
  induction events generalizing r with
  | nil => rfl
  | cons e events ih => exact (ih (e.perform r).2).trans (e.id_perform r)

/-- A job that has ended keeps its record. -/
theorem after_of_ended (h : r.status.Ended) (events : List Event) : r.after events = r := by
  induction events with
  | nil => rfl
  | cons e events ih =>
    show (e.perform r).2.after events = r
    rw [Event.perform_of_not_before h.not_before]
    exact ih

/-- A job that has not ended: there is no time of its end, and no result. -/
structure Open (r : JobRecord) : Prop where
  status : ¬ r.status.Ended
  finishedAt : r.finishedAt = none
  result? : r.result? = none

theorem open_ofCircuit (id : JobId) (backend : String) (c : Circuit) (shots : Nat) :
    (ofCircuit id backend c shots).Open where
  status := by
    intro h
    cases h
  finishedAt := rfl
  result? := rfl

/-- A call for an end ends an open job. -/
theorem Open.perform_of_ended (h : r.Open) (he : e.call.target.Ended) :
    e.perform r = (true, { r with
      status := e.call.target, finishedAt := some e.time, result? := e.call.result? }) := by
  rw [Event.perform_of_before (JobStatus.before_of_ended h.status he),
    if_pos (JobStatus.isTerminal_iff.mpr he), h.result?, Option.or_none]

/-- Any other call leaves it open. -/
theorem Open.perform_of_not_ended (h : r.Open) (he : ¬ e.call.target.Ended) :
    (e.perform r).2.Open := by
  by_cases hbefore : r.status.Before e.call.target
  · have hterminal : ¬ e.call.target.isTerminal = true := fun ht =>
      he (JobStatus.isTerminal_iff.mp ht)
    rw [Event.perform_of_before hbefore, if_neg hterminal, Call.result?_of_not_ended he,
      Option.none_or]
    exact ⟨he, h.finishedAt, h.result?⟩
  · rw [Event.perform_of_not_before hbefore]
    exact h

/-! ### The event that ends a job -/

/-- The event with the number `i` moves the record into a status in which the job has ended. -/
def EndsAt (r : JobRecord) (events : List Event) (i : Nat) (e : Event) : Prop :=
  events[i]? = some e ∧ ¬ (r.after (events.take i)).status.Ended ∧
    (r.after (events.take (i + 1))).status.Ended

instance (r : JobRecord) (events : List Event) (i : Nat) (e : Event) :
    Decidable (r.EndsAt events i e) :=
  inferInstanceAs (Decidable (_ ∧ _ ∧ _))

/-- **A history** keeps a record open up to the event that ends the job. -/
theorem Open.open_or_endsAt (h : r.Open) (events : List Event) (k : Nat) :
    (r.after (events.take k)).Open ∨ ∃ i < k, ∃ e, r.EndsAt events i e := by
  induction k with
  | zero => exact .inl h
  | succ k ih =>
    rcases ih with hopen | ⟨i, hi, hend⟩
    · cases he : events[k]? with
      | none =>
        have hlen : events.length ≤ k := List.getElem?_eq_none_iff.mp he
        rw [List.take_of_length_le hlen] at hopen
        rw [List.take_of_length_le (by omega)]
        exact .inl hopen
      | some e =>
        by_cases hended : e.call.target.Ended
        · refine .inr ⟨k, Nat.lt_succ_self k, e, he, hopen.status, ?_⟩
          rw [after_take_succ r he, hopen.perform_of_ended hended]
          exact hended
        · rw [after_take_succ r he]
          exact .inl (hopen.perform_of_not_ended hended)
    · exact .inr ⟨i, Nat.lt_succ_of_lt hi, hend⟩

/-- No later event changes anything. -/
theorem EndsAt.after_take (hend : r.EndsAt events i e) {j : Nat} (hj : i < j) :
    r.after (events.take j) = r.after (events.take (i + 1)) := by
  obtain ⟨k, rfl⟩ : ∃ k, j = i + 1 + k := ⟨j - (i + 1), by omega⟩
  rw [List.take_add, after_append, after_of_ended hend.2.2]

theorem EndsAt.eq_of_endsAt (hend : r.EndsAt events i e) {j : Nat} {e' : Event}
    (hend' : r.EndsAt events j e') : j = i := by
  -- of two such events the later one would find the job ended
  have hnot : ∀ {i j : Nat} {e e' : Event}, r.EndsAt events i e → r.EndsAt events j e' →
      ¬ i < j := by
    intro i j e e' hi hj hlt
    apply hj.2.1
    rw [hi.after_take hlt]
    exact hi.2.2
  have h₁ := hnot hend hend'
  have h₂ := hnot hend' hend
  omega

theorem EndsAt.open_before (h : r.Open) (hend : r.EndsAt events i e) :
    (r.after (events.take i)).Open := by
  rcases h.open_or_endsAt events i with hopen | ⟨j, hj, e', hend'⟩
  · exact hopen
  · have := hend'.eq_of_endsAt hend
    omega

/-- The event that ends a job asks for an end. -/
theorem EndsAt.target_ended (h : r.Open) (hend : r.EndsAt events i e) : e.call.target.Ended := by
  by_contra hnot
  have hopen := (hend.open_before h).perform_of_not_ended hnot
  rw [← after_take_succ r hend.1] at hopen
  exact hopen.status hend.2.2

/-- **The end**: status, time and result are those of the event that ended the job. -/
theorem EndsAt.after_eq (h : r.Open) (hend : r.EndsAt events i e) :
    r.after events = { r.after (events.take i) with
      status := e.call.target, finishedAt := some e.time, result? := e.call.result? } := by
  obtain ⟨hi, -⟩ := List.getElem?_eq_some_iff.mp hend.1
  have hlast := hend.after_take hi
  rw [List.take_length, after_take_succ r hend.1,
    (hend.open_before h).perform_of_ended (hend.target_ended h)] at hlast
  exact hlast

/-- A job is open after a history, or some event of the history has ended it. -/
theorem Open.after_open_or_endsAt (h : r.Open) (events : List Event) :
    (r.after events).Open ∨ ∃ i e, r.EndsAt events i e := by
  rcases h.open_or_endsAt events events.length with hopen | ⟨i, -, e, hend⟩
  · rw [List.take_length] at hopen
    exact .inl hopen
  · exact .inr ⟨i, e, hend⟩

/-! ### Results -/

theorem Open.result_eq (h : r.Open) : r.result = .error (.jobNotCompleted r.id) := by
  unfold result
  cases hstatus : r.status with
  | queued => rfl
  | running => rfl
  | completed => exact absurd (hstatus ▸ .completed) h.status
  | failed reason => exact absurd (hstatus ▸ .failed reason) h.status
  | cancelled => exact absurd (hstatus ▸ .cancelled) h.status

theorem EndsAt.result_eq (h : r.Open) (hend : r.EndsAt events i e) :
    (r.after events).result = e.call.answer r.id := by
  have hended := hend.target_ended h
  rw [hend.after_eq h, ← id_after r (events.take i)]
  obtain ⟨call, time⟩ := e
  cases call with
  | complete result => rfl
  | advance next => cases hended <;> rfl

/-- A result other than that of a job without one comes from the event that ended the job. -/
theorem Open.result_after_eq_iff (h : r.Open) {answer : Except BackendFault ExecutionResult}
    (hanswer : answer ≠ .error (.jobNotCompleted r.id)) :
    (r.after events).result = answer ↔
      ∃ i e, r.EndsAt events i e ∧ e.call.answer r.id = answer := by
  constructor
  · intro hresult
    rcases h.after_open_or_endsAt events with hopen | ⟨i, e, hend⟩
    · rw [hopen.result_eq, id_after] at hresult
      exact absurd hresult.symm hanswer
    · exact ⟨i, e, hend, (hend.result_eq h).symm.trans hresult⟩
  · rintro ⟨i, e, hend, rfl⟩
    exact hend.result_eq h

/-- An answer other than that of a job without a result tells which call ended the job. -/
theorem Call.eq_of_answer_eq {id : JobId} {call call' : Call}
    (hanswer : call.answer id ≠ .error (.jobNotCompleted id))
    (heq : call'.answer id = call.answer id) : call' = call := by
  cases call with
  | complete result =>
    cases call' with
    | complete result' => simpa [answer] using heq
    | advance next' => cases next' <;> simp [answer] at heq
  | advance next =>
    cases call' with
    | complete result' => cases next <;> simp [answer] at heq
    | advance next' =>
      cases next with
      | failed reason => cases next' <;> simp_all [answer]
      | cancelled => cases next' <;> simp_all [answer]
      | _ => exact absurd rfl hanswer

theorem Open.result_after_eq_iff_call (h : r.Open) (call : Call)
    (hanswer : call.answer r.id ≠ .error (.jobNotCompleted r.id)) :
    (r.after events).result = call.answer r.id ↔ ∃ i time, r.EndsAt events i ⟨call, time⟩ := by
  rw [h.result_after_eq_iff hanswer]
  constructor
  · rintro ⟨i, ⟨call', time⟩, hend, heq⟩
    obtain rfl : call' = call := Call.eq_of_answer_eq hanswer heq
    exact ⟨i, time, hend⟩
  · rintro ⟨i, time, hend⟩
    exact ⟨i, ⟨call, time⟩, hend, rfl⟩

/-- Of the calls that end a job, one leaves it without a result and without a reason. -/
theorem Call.answer_eq_jobNotCompleted_iff {id : JobId} {call : Call} (h : call.target.Ended) :
    call.answer id = .error (.jobNotCompleted id) ↔ call = .advance .completed := by
  cases call with
  | complete result => simp [answer]
  | advance next => cases h <;> simp [answer]

theorem Open.result_after_eq_jobNotCompleted_iff (h : r.Open) :
    (r.after events).result = .error (.jobNotCompleted r.id) ↔
      ∀ i e, r.EndsAt events i e → e.call = .advance .completed := by
  constructor
  · intro hresult i e hend
    rw [hend.result_eq h] at hresult
    exact (Call.answer_eq_jobNotCompleted_iff (hend.target_ended h)).mp hresult
  · intro hcalls
    rcases h.after_open_or_endsAt events with hopen | ⟨i, e, hend⟩
    · rw [hopen.result_eq, id_after]
    · rw [hend.result_eq h, hcalls i e hend]
      rfl

theorem Open.finishedAt_after_eq_some_iff (h : r.Open) {time : Instant} :
    (r.after events).finishedAt = some time ↔ ∃ i call, r.EndsAt events i ⟨call, time⟩ := by
  constructor
  · intro htime
    rcases h.after_open_or_endsAt events with hopen | ⟨i, ⟨call, time'⟩, hend⟩
    · rw [hopen.finishedAt] at htime
      cases htime
    · rw [hend.after_eq h] at htime
      obtain rfl : time' = time := Option.some.inj htime
      exact ⟨i, call, hend⟩
  · rintro ⟨i, call, hend⟩
    rw [hend.after_eq h]

theorem Open.isSome_finishedAt_after_iff (h : r.Open) (events : List Event) :
    (r.after events).finishedAt.isSome = true ↔ (r.after events).status.Ended := by
  rcases h.after_open_or_endsAt events with hopen | ⟨i, e, hend⟩
  · simp [hopen.finishedAt, hopen.status]
  · simp [hend.after_eq h, hend.target_ended h]

/-- **The life of a job record**: whatever events a new record has seen, a next call is heeded iff
the status that it asks for belongs to a later stage. A call that is heeded brings that status, and
one that is not changes nothing. At most one event ends the job, and none after it changes the
record. There is a time of the end iff the job has ended, and it is the time of that event. The
result is the one that the event brought, the fault tells a failure with its reason or a
cancellation, and in every other case the job is said not to have completed. -/
theorem lifeCycle (id : JobId) (backend : String) (c : Circuit) (shots : Nat)
    (events : List Event) :
    let start := ofCircuit id backend c shots
    let r := start.after events
    (∀ e : Event, ((e.perform r).1 = true ↔ r.status.Before e.call.target) ∧
      ((e.perform r).1 = true → (e.perform r).2.status = e.call.target) ∧
      ((e.perform r).1 = false → (e.perform r).2 = r)) ∧
    (∀ i e, start.EndsAt events i e →
      (∀ j e', start.EndsAt events j e' → j = i) ∧
      ∀ j, i < j → start.after (events.take j) = start.after (events.take (i + 1))) ∧
    (r.finishedAt.isSome = true ↔ r.status.Ended) ∧
    (∀ time, r.finishedAt = some time ↔ ∃ i call, start.EndsAt events i ⟨call, time⟩) ∧
    (∀ result, r.result = .ok result ↔
      ∃ i time, start.EndsAt events i ⟨.complete result, time⟩) ∧
    (∀ reason, r.result = .error (.jobFailed reason) ↔
      ∃ i time, start.EndsAt events i ⟨.advance (.failed reason), time⟩) ∧
    (r.result = .error .jobCancelled ↔
      ∃ i time, start.EndsAt events i ⟨.advance .cancelled, time⟩) ∧
    (r.result = .error (.jobNotCompleted id) ↔
      ∀ i e, start.EndsAt events i e → e.call = .advance .completed) := by
  intro start r
  have h : start.Open := open_ofCircuit id backend c shots
  refine ⟨fun e => ⟨e.perform_fst r, fun htrue => ?_, fun hfalse => ?_⟩, fun i e hend => ⟨?_, ?_⟩,
    h.isSome_finishedAt_after_iff events, fun time => h.finishedAt_after_eq_some_iff, ?_, ?_, ?_,
    h.result_after_eq_jobNotCompleted_iff⟩
  · rw [Event.perform_of_before ((e.perform_fst r).mp htrue)]
  · have hnot : ¬ r.status.Before e.call.target := by
      rw [← e.perform_fst r, hfalse]
      decide
    rw [Event.perform_of_not_before hnot]
  · intro j e' hend'
    exact hend.eq_of_endsAt hend'
  · intro j hj
    exact hend.after_take hj
  · intro result
    exact h.result_after_eq_iff_call (.complete result) (by simp [Call.answer])
  · intro reason
    exact h.result_after_eq_iff_call (.advance (.failed reason)) (by simp [Call.answer])
  · exact h.result_after_eq_iff_call (.advance .cancelled) (by simp [Call.answer])

/-- The third event cancels a running job. The result and the failure that come later change
nothing, and the time of the end stays that of the cancellation. -/
theorem lifeCycle_cancelled :
    let start := ofCircuit "job-1" "simulator" (.ofSize "pair" 3 0) 100
    let events : List Event := [⟨.advance .running, 2⟩, ⟨.advance .queued, 3⟩,
      ⟨.advance .cancelled, 5⟩, ⟨.complete ⟨∅, 100, none⟩, 7⟩, ⟨.advance (.failed "late"), 9⟩]
    start.EndsAt events 2 ⟨.advance .cancelled, 5⟩ ∧
      (∀ j e, start.EndsAt events j e → j = 2) ∧
      start.after (events.take 5) = start.after (events.take 3) ∧
      (start.after events).finishedAt = some 5 ∧
      (start.after events).result = .error .jobCancelled := by
  intro start events
  have hend : start.EndsAt events 2 ⟨.advance .cancelled, 5⟩ := by decide
  obtain ⟨-, hone, -, htime, -, -, hcancelled, -⟩ :=
    lifeCycle "job-1" "simulator" (.ofSize "pair" 3 0) 100 events
  obtain ⟨hunique, hkept⟩ := hone 2 _ hend
  exact ⟨hend, hunique, hkept 5 (by decide), (htime 5).mpr ⟨2, _, hend⟩,
    hcancelled.mpr ⟨2, 5, hend⟩⟩

end JobRecord

end OneWay
