import OneWay.Backend.Basic
import OneWay.Proofs.Backend.LifeCycle

/-!
# Waiting for a job

A client that waits asks for the status of its job again and again. What it is told is up to the
backend: any answers may come in any order. The first answer that is a fault, or the status of a job
that has ended, settles the wait (`Backend.Decisive`), and what was answered before it does not
matter.

Which requests a client makes is seen by putting a backend that notes them in front of the one that
answers them (`Backend.Logged`). `Backend.wait_settles` says of every backend what a client is told,
and after which requests.
-/

namespace OneWay.Backend

variable {σ : Type}

/-! ### Requests -/

/-- A request to a backend. -/
inductive Request where
  | submit (c : Circuit) (shots : Nat)
  | status (id : JobId)
  | result (id : JobId)
  | cancel (id : JobId)

/-- A backend and the requests that it was sent, in their order. -/
structure Logged (σ : Type) where
  backend : σ
  requests : List Request := []

namespace Logged

/-- The backend in another state, after more requests. -/
def after (s : Logged σ) (backend : σ) (requests : List Request) : Logged σ :=
  ⟨backend, s.requests ++ requests⟩

theorem after_after (s : Logged σ) (b b' : σ) (l l' : List Request) :
    (s.after b l).after b' l' = s.after b' (l ++ l') := by
  simp [after]

/-- Notes a request and passes it on. -/
def pass {α : Type} (request : Request) (answer : σ → α × σ) (s : Logged σ) : α × Logged σ :=
  ((answer s.backend).1, s.after (answer s.backend).2 [request])

instance [Backend σ] : Backend (Logged σ) where
  name s := name s.backend
  capabilities s := capabilities s.backend
  availability s := availability s.backend
  submit c shots := pass (.submit c shots) (submit c shots)
  status id := pass (.status id) (status id)
  result id := pass (.result id) (result id)
  cancel id := pass (.cancel id) (cancel id)

end Logged

/-! ### Answers -/

variable [Backend σ]

/-- The backend once it was asked for the status of a job some number of times. -/
def afterPolls (id : JobId) : Nat → σ → σ
  | 0, s => s
  | k + 1, s => afterPolls id k (status id s).2

/-- What a backend that is asked for the status of a job again and again answers, counted from 0. -/
def answer (id : JobId) (s : σ) (k : Nat) : Except BackendFault JobStatus :=
  (status id (afterPolls id k s)).1

/-- The answers that settle a wait. -/
inductive Decisive : Except BackendFault JobStatus → Prop where
  | fault (f : BackendFault) : Decisive (.error f)
  | ended {status : JobStatus} (h : status.Ended) : Decisive (.ok status)

/-- The first of the answers that settles a wait. -/
structure FirstDecisive (id : JobId) (s : σ) (k : Nat) : Prop where
  decisive : Decisive (answer id s k)
  first : ∀ j < k, ¬ Decisive (answer id s j)

/-- What a wait comes to after the answer that settles it: what the client is told, the state of the
backend, and the requests that are made then. -/
inductive Settled (id : JobId) (s : σ) :
    Except BackendFault JobStatus → Except BackendFault ExecutionResult → σ → List Request → Prop
  | fault (f : BackendFault) : Settled id s (.error f) (.error f) s []
  | failed (reason : String) :
    Settled id s (.ok (.failed reason)) (.error (.jobFailed reason)) s []
  | cancelled : Settled id s (.ok .cancelled) (.error .jobCancelled) s []
  | completed : Settled id s (.ok .completed) (result id s).1 (result id s).2 [.result id]

/-! ### Waiting -/

variable {id : JobId} {s : Logged σ}

theorem status_logged (id : JobId) (s : Logged σ) :
    status id s = (answer id s.backend 0, s.after (status id s.backend).2 [.status id]) := rfl

theorem result_logged (id : JobId) (s : Logged σ) :
    result id s
      = ((result id s.backend).1, s.after (result id s.backend).2 [.result id]) := rfl

/-- A decisive answer to the first poll settles a wait. -/
theorem waitWithin_of_decisive (n : Nat) (h : Decisive (answer id s.backend 0)) :
    ∃ told b last, Settled id (status id s.backend).2 (answer id s.backend 0) told b last ∧
      waitWithin id (n + 1) s = (told, s.after b (.status id :: last)) := by
  rw [waitWithin, status_logged]
  cases hanswer : answer id s.backend 0 with
  | error f => exact ⟨_, _, _, .fault f, rfl⟩
  | ok status =>
    rw [hanswer] at h
    cases h with
    | ended h =>
      cases h with
      | completed =>
        -- the only ending after which there is one more request
        refine ⟨_, _, _, .completed, ?_⟩
        simp only [result_logged, Logged.after_after]
        rfl
      | failed reason => exact ⟨_, _, _, .failed reason, rfl⟩
      | cancelled => exact ⟨_, _, _, .cancelled, rfl⟩

/-- Any other answer to the first poll makes no difference but that a poll is gone. -/
theorem waitWithin_of_not_decisive (n : Nat) (h : ¬ Decisive (answer id s.backend 0)) :
    waitWithin id (n + 1) s
      = waitWithin id n (s.after (status id s.backend).2 [.status id]) := by
  rw [waitWithin, status_logged]
  cases hanswer : answer id s.backend 0 with
  | error f => exact absurd (hanswer ▸ .fault f) h
  | ok status =>
    rw [hanswer] at h
    cases status with
    | queued | running => rfl
    | completed => exact absurd (.ended .completed) h
    | failed reason => exact absurd (.ended (.failed reason)) h
    | cancelled => exact absurd (.ended .cancelled) h

/-- A wait is **settled** by the first decisive answer, if it comes in time. -/
theorem waitWithin_of_firstDecisive {n k : Nat} (hk : k < n) (h : FirstDecisive id s.backend k) :
    ∃ told b last,
      Settled id (afterPolls id (k + 1) s.backend) (answer id s.backend k) told b last ∧
      waitWithin id n s = (told, s.after b (List.replicate (k + 1) (.status id) ++ last)) := by
  -- on the number of answers before the decisive one; the polls that are allowed only outlast them
  induction k generalizing n s with
  | zero =>
    obtain ⟨n, rfl⟩ := Nat.exists_eq_succ_of_ne_zero (Nat.ne_of_gt hk)
    exact waitWithin_of_decisive n h.decisive
  | succ k ih =>
    obtain ⟨n, rfl⟩ := Nat.exists_eq_succ_of_ne_zero (Nat.ne_of_gt (Nat.zero_lt_of_lt hk))
    -- after the first poll, the answers that are left come one place earlier
    have hrest : FirstDecisive id (s.after (status id s.backend).2 [.status id]).backend k :=
      ⟨h.decisive, fun j hj => h.first (j + 1) (Nat.succ_lt_succ hj)⟩
    obtain ⟨told, b, last, hsettled, hwait⟩ := ih (Nat.lt_of_succ_lt_succ hk) hrest
    refine ⟨told, b, last, hsettled, ?_⟩
    rw [waitWithin_of_not_decisive n (h.first 0 (Nat.succ_pos k)), hwait, Logged.after_after]
    rfl

/-- A wait without a decisive answer uses up its polls. -/
theorem waitWithin_of_undecided {n : Nat} (h : ∀ k < n, ¬ Decisive (answer id s.backend k)) :
    waitWithin id n s
      = (.error (.timeout id),
        s.after (afterPolls id n s.backend) (List.replicate n (.status id))) := by
  induction n generalizing s with
  | zero => simp [waitWithin, afterPolls, Logged.after]
  | succ n ih =>
    have hrest := ih (s := s.after (status id s.backend).2 [.status id])
      fun k hk => h (k + 1) (Nat.succ_lt_succ hk)
    rw [waitWithin_of_not_decisive n (h 0 (Nat.succ_pos n)), hrest, Logged.after_after]
    rfl

/-- The log is kept on the side: who waits is told the same without it. -/
theorem waitWithin_logged (id : JobId) (n : Nat) (s : Logged σ) :
    waitWithin id n s.backend = ((waitWithin id n s).1, (waitWithin id n s).2.backend) := by
  induction n generalizing s with
  | zero => rfl
  | succ n ih =>
    rw [waitWithin, waitWithin, status_logged]
    -- both waits are told the same, and go on with the same backend
    have hanswer : status id s.backend = (answer id s.backend 0, (status id s.backend).2) := rfl
    rw [hanswer]
    cases answer id s.backend 0 with
    | error f => rfl
    | ok status =>
      cases status with
      | queued | running => exact ih (s.after _ [.status id])
      | _ => rfl

theorem submit_logged (c : Circuit) (shots : Nat) (s : Logged σ) :
    submit c shots s = ((submit c shots s.backend).1,
      s.after (submit c shots s.backend).2 [.submit c shots]) := rfl

theorem run_of_refused {c : Circuit} {shots : Nat} {f : BackendFault} {b : σ}
    (h : submit c shots s.backend = (.error f, b)) :
    run c shots s = (.error f, s.after b [.submit c shots]) := by
  rw [run, submit_logged, h]

theorem run_of_submitted {c : Circuit} {shots : Nat} {b : σ}
    (h : submit c shots s.backend = (.ok id, b)) :
    run c shots s = wait id (s.after b [.submit c shots]) := by
  rw [run, submit_logged, h]

theorem run_logged (c : Circuit) (shots : Nat) (s : Logged σ) :
    run c shots s.backend = ((run c shots s).1, (run c shots s).2.backend) := by
  rcases hsubmit : submit c shots s.backend with ⟨f | id, b⟩
  · rw [run_of_refused hsubmit, run, hsubmit]
    rfl
  · rw [run_of_submitted hsubmit, run, hsubmit]
    exact waitWithin_logged id maxPolls (s.after b [.submit c shots])

/-- **Waiting**: the first decisive answer settles a wait, if it is one of the first 600, and nothing
but the status is asked for before it. Without such an answer the wait ends after 600 polls, and no
result is asked for. A run that is refused polls nothing, and any other is a wait for the job that
was submitted. Who keeps no log is told the same. -/
theorem wait_settles (s : Logged σ) :
    (∀ id, ∀ k < 600, FirstDecisive id s.backend k → ∃ told b last,
      Settled id (afterPolls id (k + 1) s.backend) (answer id s.backend k) told b last ∧
      wait id s = (told, s.after b (List.replicate (k + 1) (.status id) ++ last))) ∧
    (∀ id, (∀ k < 600, ¬ Decisive (answer id s.backend k)) →
      wait id s = (.error (.timeout id),
        s.after (afterPolls id 600 s.backend) (List.replicate 600 (.status id)))) ∧
    (∀ c shots f b, submit c shots s.backend = (.error f, b) →
      run c shots s = (.error f, s.after b [.submit c shots])) ∧
    (∀ c shots id b, submit c shots s.backend = (.ok id, b) →
      run c shots s = wait id (s.after b [.submit c shots])) ∧
    (∀ id, wait id s.backend = ((wait id s).1, (wait id s).2.backend)) ∧
    ∀ c shots, run c shots s.backend = ((run c shots s).1, (run c shots s).2.backend) := by
  refine ⟨fun id k hk h => waitWithin_of_firstDecisive hk h,
    fun id h => waitWithin_of_undecided h, ?_, ?_, ?_, ?_⟩
  · exact fun c shots f b h => run_of_refused h
  · exact fun c shots id b h => run_of_submitted h
  · exact fun id => waitWithin_logged id maxPolls s
  · exact fun c shots => run_logged c shots s

/-! ### Histories -/

/-- A backend whose answers are given beforehand. -/
structure History where
  submission : Except BackendFault JobId := .ok "job-1"
  /-- The answers to the questions for a status, one after the other. -/
  answers : Nat → Except BackendFault JobStatus
  outcome : Except BackendFault ExecutionResult
  /-- How many of the answers have been given. -/
  polls : Nat := 0

namespace History

instance : Backend History where
  name _ := "history"
  capabilities _ := .simulator 1
  availability _ := .always
  submit _ _ h := (h.submission, h)
  status _ h := (h.answers h.polls, { h with polls := h.polls + 1 })
  result _ h := (h.outcome, h)
  cancel _ h := (.ok (), h)

theorem afterPolls_eq (id : JobId) (k : Nat) (h : History) :
    afterPolls id k h = { h with polls := h.polls + k } := by
  induction k generalizing h with
  | zero => rfl
  | succ k ih =>
    show afterPolls id k { h with polls := h.polls + 1 } = _
    rw [ih]
    simp only [Nat.add_assoc, Nat.add_comm 1 k]

/-- Every sequence of answers is that of some backend. -/
theorem answer_eq (id : JobId) (k : Nat) (h : History) :
    answer id h k = h.answers (h.polls + k) := by
  rw [answer, afterPolls_eq]
  rfl

/-- A job that is now running and now queued, until it is completed. -/
def restless (n : Nat) : History where
  answers k := .ok (if n ≤ k then .completed else if k % 2 = 0 then .running else .queued)
  outcome := .ok { counts := .ofPairs [("1", 10)], shots := 10 }

theorem answer_restless_of_le {n k : Nat} (h : n ≤ k) (id : JobId) :
    answer id (restless n) k = .ok .completed := by
  simp [answer_eq, restless, h]

theorem not_decisive_restless {n k : Nat} (h : k < n) (id : JobId) :
    ¬ Decisive (answer id (restless n) k) := by
  have hanswer : answer id (restless n) k = .ok (if k % 2 = 0 then .running else .queued) := by
    simp [answer_eq, restless, Nat.not_le.mpr h]
  rw [hanswer]
  rintro (_ | hended)
  split at hended <;> cases hended

/-- A job that is completed at the last poll has a result, and one poll later it has none. -/
theorem wait_restless :
    wait "job-1" (⟨restless 599, []⟩ : Logged History)
      = (.ok { counts := .ofPairs [("1", 10)], shots := 10 },
        ⟨{ restless 599 with polls := 600 },
          List.replicate 600 (.status "job-1") ++ [.result "job-1"]⟩) ∧
    wait "job-1" (⟨restless 600, []⟩ : Logged History)
      = (.error (.timeout "job-1"),
        ⟨{ restless 600 with polls := 600 }, List.replicate 600 (.status "job-1")⟩) := by
  constructor
  · have hlast : answer "job-1" (restless 599) 599 = .ok .completed :=
      answer_restless_of_le (Nat.le_refl 599) _
    have hfirst : FirstDecisive "job-1" (restless 599) 599 :=
      ⟨hlast ▸ .ended .completed, fun j hj => not_decisive_restless hj _⟩
    obtain ⟨told, b, last, hsettled, hwait⟩ :=
      (wait_settles ⟨restless 599, []⟩).1 "job-1" 599 (by decide) hfirst
    rw [hlast] at hsettled
    rw [afterPolls_eq] at hsettled
    cases hsettled
    exact hwait
  · have hwait := (wait_settles ⟨restless 600, []⟩).2.1 "job-1"
      fun k hk => not_decisive_restless hk _
    rw [afterPolls_eq] at hwait
    exact hwait

end History

end OneWay.Backend
