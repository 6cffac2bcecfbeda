import OneWay.Proofs.Backend.Simulator

/-!
# Interleaved requests to a simulator

A submission accesses the jobs of a simulator twice: it enters its job, computes the result, and
stores it. Requests of other callers can come in between. A `SharedSimulator` is a simulator
together with the submissions that are between their two accesses, `SharedSimulator.Step` is one
access by any caller, and `SharedSimulator.Run` is any interleaving of accesses.

What a job comes to depends on the accesses so far and on nothing else: `Fate.after` computes it.
`SharedSimulator.Sound` says that the records of the jobs are what the fates describe. One access
keeps it (`SharedSimulator.Sound.step`), hence so does every run.
-/

namespace OneWay

/-! ### Accesses -/

/-- One atomic access to the jobs of a simulator. -/
inductive Access where
  /-- A submission that was accepted enters its job. -/
  | enter (id : JobId) (c : Circuit) (shots : Nat)
  /-- A submission stores its result. -/
  | store (id : JobId) (result : ExecutionResult)
  /-- A submission is refused. -/
  | refuse (c : Circuit) (shots : Nat)
  | cancel (id : JobId)
  | status (id : JobId)
  | result (id : JobId)
  deriving DecidableEq

/-- The job that an access is about. -/
def Access.job? : Access → Option JobId
  | .enter id .. | .store id _ | .cancel id | .status id | .result id => some id
  | .refuse .. => none

/-- Whether an access only asks, or is refused. -/
def Access.isQuery : Access → Bool
  | .refuse .. | .status _ | .result _ => true
  | _ => false

/-- A simulator and the submissions whose results are being computed. -/
structure SharedSimulator (σ : Type) where
  simulator : Simulator σ
  inFlight : List (JobId × Circuit × Nat) := []

namespace SharedSimulator

variable {σ : Type} [RandomSource σ]

/-- One access by some caller. -/
inductive Step : SharedSimulator σ → Access → SharedSimulator σ → Prop
  | enter {d : SharedSimulator σ} {c : Circuit} {shots : Nat}
    (h : d.simulator.accept c shots = .ok ()) :
    Step d (.enter (d.simulator.enter c shots).1 c shots)
      ⟨(d.simulator.enter c shots).2, ((d.simulator.enter c shots).1, c, shots) :: d.inFlight⟩
  | store {d : SharedSimulator σ} {id : JobId} {c : Circuit} {shots : Nat}
    {result : ExecutionResult} (h : (id, c, shots) ∈ d.inFlight)
    (hresult : d.simulator.Computes c shots result) :
    Step d (.store id result) ⟨d.simulator.store id result, d.inFlight.filter (·.1 ≠ id)⟩
  | refuse {d : SharedSimulator σ} {c : Circuit} {shots : Nat} {f : BackendFault}
    (h : d.simulator.accept c shots = .error f) :
    Step d (.refuse c shots) { d with simulator := (d.simulator.submit c shots).2 }
  | cancel (d : SharedSimulator σ) (id : JobId) :
    Step d (.cancel id) { d with simulator := (Backend.cancel id d.simulator).2 }
  | status (d : SharedSimulator σ) (id : JobId) :
    Step d (.status id) { d with simulator := (Backend.status id d.simulator).2 }
  | result (d : SharedSimulator σ) (id : JobId) :
    Step d (.result id) { d with simulator := (Backend.result id d.simulator).2 }

/-- Several accesses, one after another. -/
inductive Run : SharedSimulator σ → List Access → SharedSimulator σ → Prop
  | nil (d : SharedSimulator σ) : Run d [] d
  | cons {d d' d'' : SharedSimulator σ} {a : Access} {l : List Access} (h : Step d a d')
    (h' : Run d' l d'') :
    Run d (a :: l) d''

end SharedSimulator

/-! ### Fates -/

/-- What has become of a job. -/
inductive Fate where
  | unknown
  | running
  | cancelled
  | completed (result : ExecutionResult)
  deriving DecidableEq

namespace Fate

/-- The fate of a job after an access. -/
def next (id : JobId) : Fate → Access → Fate
  | .unknown, .enter x .. => if x = id then .running else .unknown
  | .running, .cancel x => if x = id then .cancelled else .running
  | .running, .store x result => if x = id then .completed result else .running
  | f, _ => f

/-- The fate of a job after several accesses. -/
def after (id : JobId) (f : Fate) (l : List Access) : Fate := l.foldl (next id) f

theorem after_append (id : JobId) (f : Fate) (l l' : List Access) :
    f.after id (l ++ l') = (f.after id l).after id l' := List.foldl_append

theorem after_cons (id : JobId) (f : Fate) (a : Access) (l : List Access) :
    f.after id (a :: l) = (f.next id a).after id l := rfl

/-- Accesses to other jobs change nothing. -/
theorem next_of_ne {id : JobId} {a : Access} (h : a.job? ≠ some id) (f : Fate) :
    f.next id a = f := by
  cases f <;> cases a <;> simp_all [next, Access.job?]

/-- Questions change nothing. -/
theorem next_of_isQuery {id : JobId} {a : Access} (h : a.isQuery = true) (f : Fate) :
    f.next id a = f := by
  cases f <;> cases a <;> first | rfl | cases h

/-- The record of a job has the fate. -/
def Describes (id : JobId) : Fate → Option JobRecord → Prop
  | .unknown, record? => record? = none
  | .running, record? =>
    ∃ r, record? = some r ∧ r.id = id ∧ r.status = .running ∧ r.result? = none
  | .cancelled, record? => ∃ r, record? = some r ∧ r.status = .cancelled
  | .completed result, record? =>
    ∃ r, record? = some r ∧ r.status = .completed ∧ r.result? = some result

/-- The answer to a request for the status. -/
def status (id : JobId) : Fate → Except BackendFault JobStatus
  | .unknown => .error (.jobNotFound id)
  | .running => .ok .running
  | .cancelled => .ok .cancelled
  | .completed _ => .ok .completed

/-- The answer to a request for the result. -/
def result (id : JobId) : Fate → Except BackendFault ExecutionResult
  | .unknown => .error (.jobNotFound id)
  | .running => .error (.jobNotCompleted id)
  | .cancelled => .error .jobCancelled
  | .completed result => .ok result

variable {id : JobId} {t : JobTable} {f : Fate}

theorem Describes.result_eq (h : f.Describes id (t.records.get? id)) :
    t.result id = f.result id := by
  unfold JobTable.result JobRecord.result
  cases f with
  | unknown =>
    have hnone : t.records.get? id = none := h
    rw [hnone, result]
  | running =>
    obtain ⟨r, hr, hid, hstatus, -⟩ := h
    simp only [hr, hid, hstatus, result]
  | cancelled =>
    obtain ⟨r, hr, hstatus⟩ := h
    simp only [hr, hstatus, result]
  | completed result =>
    obtain ⟨r, hr, hstatus, hresult⟩ := h
    simp only [hr, hstatus, hresult, Fate.result]

/-- Cancelling a job does to its record what it does to its fate. -/
theorem Describes.cancel (h : f.Describes id (t.records.get? id)) :
    (f.next id (.cancel id)).Describes id ((t.cancel id).2.records.get? id) := by
  rw [JobTable.get?_cancel, if_pos rfl]
  cases f with
  | unknown =>
    have hnone : t.records.get? id = none := h
    rw [hnone]
    rfl
  | running =>
    obtain ⟨r, hr, -, hstatus, -⟩ := h
    rw [hr, next, if_pos rfl, Option.map_some, JobRecord.advance_cancelled_of_running hstatus]
    exact ⟨_, rfl, rfl⟩
  | cancelled =>
    obtain ⟨r, hr, hstatus⟩ := h
    rw [hr, Option.map_some, JobRecord.advance_of_isTerminal (by rw [hstatus]; rfl)]
    exact ⟨r, rfl, hstatus⟩
  | completed result =>
    obtain ⟨r, hr, hstatus, hresult⟩ := h
    rw [hr, Option.map_some, JobRecord.advance_of_isTerminal (by rw [hstatus]; rfl)]
    exact ⟨r, rfl, hstatus, hresult⟩

/-- Storing a result does to a record what it does to its fate. -/
theorem Describes.close (h : f.Describes id (t.records.get? id)) (late : ExecutionResult) :
    (f.next id (.store id late)).Describes id ((t.close id late).records.get? id) := by
  rw [JobTable.get?_close, if_pos rfl]
  cases f with
  | unknown =>
    have hnone : t.records.get? id = none := h
    rw [hnone]
    rfl
  | running =>
    obtain ⟨r, hr, -, hstatus, -⟩ := h
    rw [hr, next, if_pos rfl, Option.map_some, JobRecord.complete_of_running hstatus]
    exact ⟨_, rfl, rfl, rfl⟩
  | cancelled =>
    obtain ⟨r, hr, hstatus⟩ := h
    rw [hr, Option.map_some, JobRecord.complete_of_isTerminal (by rw [hstatus]; rfl)]
    exact ⟨r, rfl, hstatus⟩
  | completed result =>
    obtain ⟨r, hr, hstatus, hresult⟩ := h
    rw [hr, Option.map_some, JobRecord.complete_of_isTerminal (by rw [hstatus]; rfl)]
    exact ⟨r, rfl, hstatus, hresult⟩

end Fate

namespace SharedSimulator

section Sound

variable {σ : Type} {d : SharedSimulator σ}

/-- The jobs have fates: their records are what the fates describe, the identifiers to come are not
in use, and the submissions in flight are of jobs that were entered and have no result. -/
structure Sound (fate : JobId → Fate) (d : SharedSimulator σ) : Prop where
  fresh : ∀ k, d.simulator.jobs.taken ≤ k → fate (JobTable.idOf k) = .unknown
  described : ∀ id, (fate id).Describes id (d.simulator.jobs.records.get? id)
  inFlight : ∀ e ∈ d.inFlight, fate e.1 = .running ∨ fate e.1 = .cancelled

theorem sound_start (hjobs : d.simulator.jobs = {}) (hnone : d.inFlight = []) :
    Sound (fun _ => .unknown) d where
  fresh := fun _ _ => rfl
  described := fun id => by rw [hjobs]; rfl
  inFlight := fun e he => by rw [hnone] at he; cases he

theorem Sound.query {fate : JobId → Fate} (h : Sound fate d) {a : Access}
    (ha : a.isQuery = true) : Sound (fun id => (fate id).next id a) d := by
  simpa only [Fate.next_of_isQuery ha] using h

end Sound

variable {σ : Type} [RandomSource σ] {d d' : SharedSimulator σ} {a : Access}

/-- An access changes the record of its own job at most. -/
theorem Step.frame (h : Step d a d') {x : JobId} (hx : a.job? ≠ some x) :
    d'.simulator.jobs.records.get? x = d.simulator.jobs.records.get? x := by
  cases h with
  | enter haccept =>
    refine (JobTable.get?_enter ..).trans (if_neg ?_)
    rintro rfl
    exact hx rfl
  | store hmem hresult =>
    refine (JobTable.get?_close ..).trans (if_neg ?_)
    rintro rfl
    exact hx rfl
  | refuse hrefused => rw [Simulator.submit_of_refused hrefused]
  | cancel id =>
    refine (JobTable.get?_cancel ..).trans (if_neg ?_)
    rintro rfl
    exact hx rfl
  | status id => rfl
  | result id => rfl

/-- **One access** does to the records what it does to the fates. -/
theorem Sound.step {fate : JobId → Fate} (h : Sound fate d) (hstep : Step d a d') :
    Sound (fun id => (fate id).next id a) d' := by
  have hframe : ∀ x, a.job? ≠ some x →
      ((fate x).next x a).Describes x (d'.simulator.jobs.records.get? x) := by
    intro x hx
    rw [Fate.next_of_ne hx, hstep.frame hx]
    exact h.described x
  cases hstep with
  | @enter c shots haccept =>
    -- the new job was not known, so that no other job is touched
    have hnew : fate (d.simulator.enter c shots).1 = .unknown := h.fresh _ (Nat.le_refl _)
    refine ⟨fun k hk => ?_, fun x => ?_, fun e he => ?_⟩
    · have hne : (d.simulator.enter c shots).1 ≠ JobTable.idOf k := by
        intro heq
        have htaken : d.simulator.jobs.taken = k := JobTable.idOf_injective heq
        have hlt : d.simulator.jobs.taken + 1 ≤ k := hk
        omega
      rw [Fate.next_of_ne (by simpa [Access.job?] using hne)]
      exact h.fresh k (Nat.le_of_succ_le hk)
    · by_cases hx : (d.simulator.enter c shots).1 = x
      · subst hx
        rw [hnew, Fate.next, if_pos rfl]
        exact ⟨_, (JobTable.get?_enter ..).trans (if_pos rfl), rfl, rfl, rfl⟩
      · exact hframe x (by simpa [Access.job?] using hx)
    · rcases List.mem_cons.mp he with rfl | he
      · rw [hnew]
        exact .inl (if_pos rfl)
      · have hne : (d.simulator.enter c shots).1 ≠ e.1 := by
          intro heq
          rw [heq] at hnew
          have := h.inFlight e he
          simp [hnew] at this
        rw [Fate.next_of_ne (by simpa [Access.job?] using hne)]
        exact h.inFlight e he
  | @store id c shots result hmem hresult =>
    refine ⟨fun k hk => ?_, fun x => ?_, fun e he => ?_⟩
    · have hk' : fate (JobTable.idOf k) = .unknown := by
        refine h.fresh k ?_
        rwa [← JobTable.taken_close d.simulator.jobs id result]
      rw [hk']
      rfl
    · by_cases hx : id = x
      · subst hx
        exact (h.described id).close result
      · exact hframe x (by simpa [Access.job?] using hx)
    · obtain ⟨he, hne⟩ := List.mem_filter.mp he
      have hne' : id ≠ e.1 := fun heq => by simp [heq] at hne
      rw [Fate.next_of_ne (by simpa [Access.job?] using hne')]
      exact h.inFlight e he
  | refuse hrefused =>
    rw [Simulator.submit_of_refused hrefused]
    exact h.query rfl
  | cancel id =>
    refine ⟨fun k hk => ?_, fun x => ?_, fun e he => ?_⟩
    · have hk' : fate (JobTable.idOf k) = .unknown := by
        refine h.fresh k ?_
        rwa [← JobTable.taken_cancel d.simulator.jobs id]
      rw [hk']
      rfl
    · by_cases hx : id = x
      · subst hx
        exact (h.described id).cancel
      · exact hframe x (by simpa [Access.job?] using hx)
    · rcases h.inFlight e he with hrun | hcan
      · rw [hrun]
        by_cases hid : id = e.1
        · exact .inr (if_pos hid)
        · exact .inl (if_neg hid)
      · rw [hcan]
        exact .inr rfl
  | status id | result id => exact h.query rfl

/-- **A run** does to the records what it does to the fates. -/
theorem Sound.run {fate : JobId → Fate} (h : Sound fate d) {l : List Access} (hrun : Run d l d') :
    Sound (fun id => (fate id).after id l) d' := by
  induction hrun generalizing fate with
  | nil d => exact h
  | cons hstep hrest ih => exact ih (h.step hstep)

section Start

variable {l₀ l₁ l₂ : List Access} {id : JobId} (hstart : Sound (fun _ => .unknown) d)
include hstart

end Start

end SharedSimulator

end OneWay
