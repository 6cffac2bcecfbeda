import OneWay.Proofs.Backend.Job
import OneWay.Proofs.Circuit.Angle
import OneWay.Proofs.Simulation.Control

/-!
# Submissions to a simulator

A submission enters a job, computes its result and stores it (`Simulator.submit_cases`), and a
client that waits for the job then gets the result (`Simulator.wait_store`).

A simulator that was built (`Simulator.Built`) has the capabilities of its number of wires: it
accepts every valid circuit on that many wires whose angles are finite
(`Simulator.Built.accept_eq_ok`).
-/

namespace OneWay

/-- A machine whose random words are given beforehand. It knows no angles. -/
def Machine.scripted (words : List UInt64) : Machine Recorded where
  trigonometry := ⟨fun _ => 1.0, fun _ => 0.0⟩
  seeded _ := ⟨words, 0⟩
  unseeded _ := ⟨words, 0⟩

namespace Simulator

variable {σ : Type}

/-! ### Submissions -/

/-- The first access of a submission: its job is entered, and starts to run. -/
def enter (s : Simulator σ) (c : Circuit) (shots : Nat) : JobId × Simulator σ :=
  let (id, jobs) := s.jobs.enter s.config.name c shots
  (id, { s with jobs })

/-- The second access of a submission: the result is stored. -/
def store (s : Simulator σ) (id : JobId) (result : ExecutionResult) : Simulator σ :=
  { s with jobs := s.jobs.close id result }

/-- The simulator may compute the result for a circuit: some random source leads to it. -/
def Computes [RandomSource σ] (s : Simulator σ) (c : Circuit) (shots : Nat)
    (result : ExecutionResult) : Prop :=
  ∃ source rest : σ,
    c.simulate s.machine.trigonometry s.noise shots source = .ok (result, rest)

theorem submit_of_refused [RandomSource σ] {s : Simulator σ} {c : Circuit} {shots : Nat}
    {f : BackendFault} (h : s.accept c shots = .error f) : s.submit c shots = (.error f, s) := by
  rw [submit, h]

theorem submit_of_simulate [RandomSource σ] {s : Simulator σ} {c : Circuit} {shots : Nat}
    (haccept : s.accept c shots = .ok ()) {result : ExecutionResult} {rest : σ}
    (hsim : c.simulate s.machine.trigonometry s.noise shots s.source = .ok (result, rest)) :
    s.submit c shots
      = (.ok (s.enter c shots).1, (s.enter c shots).2.store (s.enter c shots).1 result) := by
  simp [submit, haccept, hsim, enter, store]

/-- What a submission does: it is refused, or breaks off between its accesses, or is done. -/
theorem submit_cases [RandomSource σ] (s : Simulator σ) (c : Circuit) (shots : Nat) :
    (∃ f, s.submit c shots = (.error f, s)) ∨
    (∃ f, s.submit c shots = (.error (.simulation f), (s.enter c shots).2)) ∨
    s.accept c shots = .ok () ∧ ∃ result, s.Computes c shots result ∧
      s.submit c shots
        = (.ok (s.enter c shots).1, (s.enter c shots).2.store (s.enter c shots).1 result) := by
  cases haccept : s.accept c shots with
  | error f => exact .inl ⟨f, submit_of_refused haccept⟩
  | ok _ =>
    refine .inr ?_
    cases hsim : c.simulate s.machine.trigonometry s.noise shots s.source with
    | error f => exact .inl ⟨f, by simp [submit, haccept, hsim, enter]⟩
    | ok r => exact .inr ⟨rfl, r.1, ⟨_, _, hsim⟩, submit_of_simulate haccept hsim⟩

/-- Who waits for a job whose result was stored gets the result. -/
theorem wait_store [RandomSource σ] (s : Simulator σ) (c : Circuit) (shots : Nat)
    (result : ExecutionResult) :
    (Backend.wait (s.enter c shots).1
      ((s.enter c shots).2.store (s.enter c shots).1 result)).1 = .ok result := by
  set id := (s.enter c shots).1
  set done := (s.enter c shots).2.store id result
  have hrecord : done.jobs.records.get? id = some {
      id, backend := s.config.name, shots, numQubits := c.numQubits, status := .completed,
      finishedAt := some 0, result? := some result } := by
    have henter : (s.enter c shots).2.jobs.records.get? id = _ :=
      (JobTable.get?_enter ..).trans (if_pos rfl)
    refine (JobTable.get?_close ..).trans ((if_pos rfl).trans ?_)
    rw [henter]
    rfl
  have hstatus : Backend.status id done = (.ok .completed, done) := by
    show (done.jobs.status id, done) = _
    rw [JobTable.status, hrecord]
  have hresult : Backend.result id done = (.ok result, done) := by
    show (done.jobs.result id, done) = _
    rw [JobTable.result, hrecord]
    rfl
  show (Backend.waitWithin id (599 + 1) done).1 = _
  rw [Backend.waitWithin, hstatus]
  simp only [hresult]

/-! ### Acceptance -/

section Built

variable [RandomSource σ]

/-- The simulators that can be built: of a number of wires or of settings, with any noise and any
seed, and after any requests. -/
inductive Built : Simulator σ → Prop
  | ofMaxQubits (machine : Machine σ) (n : Nat) : Built (.ofMaxQubits machine n)
  | ofConfig {machine : Machine σ} {config : BackendConfig} {s : Simulator σ}
    (h : ofConfig machine config = .ok s) : Built s
  | withNoise {s : Simulator σ} (h : Built s) (noise : NoiseModel) : Built { s with noise }
  | withSeed {s : Simulator σ} (h : Built s) (seed : UInt64) : Built { s with seed := some seed }
  | submit {s : Simulator σ} (h : Built s) (c : Circuit) (shots : Nat) : Built (s.submit c shots).2
  | cancel {s : Simulator σ} (h : Built s) (id : JobId) : Built (Backend.cancel id s).2

variable {s : Simulator σ}

/-- A submission touches nothing but the jobs. -/
theorem exists_jobs_submit (s : Simulator σ) (c : Circuit) (shots : Nat) :
    ∃ jobs, (s.submit c shots).2 = { s with jobs } := by
  rcases s.submit_cases c shots with ⟨f, hs⟩ | ⟨f, hs⟩ | ⟨-, result, -, hs⟩
  · exact ⟨s.jobs, by rw [hs]⟩
  · exact ⟨_, by rw [hs]; rfl⟩
  · exact ⟨_, by rw [hs]; rfl⟩

theorem Built.capabilities_eq (h : s.Built) :
    s.capabilities = { Capabilities.simulator s.maxQubits with name := s.config.name } := by
  induction h with
  | ofMaxQubits machine n => rfl
  | ofConfig h =>
    obtain ⟨maxQubits, -, h⟩ := bind_eq_ok_iff.mp h
    obtain ⟨seed, -, h⟩ := bind_eq_ok_iff.mp h
    obtain ⟨noise, -, h⟩ := bind_eq_ok_iff.mp h
    obtain ⟨_, -, h⟩ := bind_eq_ok_iff.mp h
    rw [← Except.ok.inj h]
  | withNoise _ noise ih => exact ih
  | withSeed _ seed ih => exact ih
  | @submit s' _ c shots ih =>
    obtain ⟨jobs, hs⟩ := exists_jobs_submit s' c shots
    rw [hs]
    exact ih
  | cancel _ id ih => exact ih

/-- A simulator supports every gate. -/
theorem unsupportedGates_universal {caps : Capabilities} (h : caps.gateSet = .universal)
    (l : List Instruction) : caps.unsupportedGates l = [] := by
  have hall : ∀ g : Gate, caps.gateSet.contains g.name = true := by
    rw [h]
    intro g
    cases g <;> rfl
  unfold Capabilities.unsupportedGates
  induction l with
  | nil => rfl
  | cons inst l ih =>
    rw [List.foldl_cons]
    cases inst.action with
    | gate g => simpa only [hall, Bool.true_or, if_true] using ih
    | _ => exact ih

/-- **Capabilities**: nothing in a circuit exceeds a simulator but the number of its wires. -/
theorem Built.check_eq_valid (h : s.Built) {c : Circuit} (hwires : c.numQubits ≤ s.maxQubits) :
    s.capabilities.check c = .valid := by
  have hqubits : ¬ s.capabilities.numQubits < c.numQubits := by
    rw [h.capabilities_eq]
    exact Nat.not_lt.mpr hwires
  have hops : s.capabilities.maxOps = none := by rw [h.capabilities_eq]; rfl
  have hgates : ∀ l, s.capabilities.unsupportedGates l = [] :=
    unsupportedGates_universal (by rw [h.capabilities_eq]; rfl)
  have hdynamic : s.capabilities.supports Capabilities.dynamicCircuits = true := by
    rw [h.capabilities_eq]
    rfl
  have hmid : s.capabilities.supports Capabilities.midCircuitMeasurement = true := by
    rw [h.capabilities_eq]
    rfl
  have hviolations : s.capabilities.violations c = [] := by
    simp [Capabilities.violations, hqubits, hops, hgates, hdynamic, hmid]
  rw [Capabilities.check, hviolations]

/-- **Acceptance**: a simulator takes every valid circuit with finite angles on few enough wires. -/
theorem Built.accept_eq_ok (h : s.Built) {c : Circuit} (hc : c.validate = .ok ())
    (hwires : c.numQubits ≤ s.maxQubits) (hangles : c.HasFiniteAngles)
    (hnoise : checkNoise s.noise = .ok ()) {shots : Nat} (hpos : 1 ≤ shots)
    (hmost : shots ≤ 100000) : s.accept c shots = .ok () := by
  have hvalid : s.validate c = .valid := by
    rw [validate, hc, nonFiniteReasons_eq_nil_iff.mpr hangles]
    exact h.check_eq_valid hwires
  have hshots : ¬ (shots = 0 ∨ s.capabilities.maxShots < shots) := by
    rw [h.capabilities_eq]
    show ¬ (shots = 0 ∨ 100000 < shots)
    omega
  unfold accept
  simp only [if_neg hshots, if_neg (Nat.not_lt.mpr hwires), hvalid, hnoise]
  rfl

end Built

end Simulator

end OneWay
