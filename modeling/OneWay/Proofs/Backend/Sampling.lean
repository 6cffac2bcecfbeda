import OneWay.Proofs.Backend.Simulator
import OneWay.Proofs.Simulation.Overflow
import OneWay.Proofs.Simulation.Sampling

/-!
# Jobs that are accepted and sampled

A simulator that accepts a job runs it. It tosses coins on the way, and a coin that is tossed with
what is no probability stops it. The checks before the job see that every angle is finite, but not
what the gates compute from the angles: steady circuits run to the end, and circuits that measure a
wire after a sum of phases overflowed on it never do.
-/

namespace OneWay

namespace Simulator

variable {σ : Type} {s : Simulator σ} {c : Circuit}

theorem le_of_maxQubitsOf {config : BackendConfig} {n : Nat} (h : maxQubitsOf config = .ok n) :
    n ≤ supportedQubits := by
  obtain ⟨most, -, h⟩ := bind_eq_ok_iff.mp h
  cases most with
  | none =>
    cases h
    decide
  | some m =>
    simp only at h
    split at h
    · cases h
    · next hle =>
      cases h
      exact Nat.not_lt.mp hle

/-- What a simulator has checked of a job that it accepts. -/
theorem of_accept {shots : Nat} (h : s.accept c shots = .ok ()) :
    s.validate c = .valid ∧ checkNoise s.noise = .ok () := by
  unfold accept at h
  simp only at h
  split at h
  · cases h
  · split at h
    · cases h
    · obtain ⟨_, hvalid, hnoise⟩ := bind_eq_ok_iff.mp h
      refine ⟨?_, hnoise⟩
      cases hcheck : s.validate c with
      | valid => rfl
      | _ =>
        rw [hcheck] at hvalid
        cases hvalid

variable [RandomSource σ]

/-- No simulator takes more wires than are supported. -/
theorem Built.maxQubits_le (h : s.Built) : s.maxQubits ≤ supportedQubits := by
  induction h with
  | ofMaxQubits machine n => exact Nat.min_le_right ..
  | ofConfig h =>
    obtain ⟨maxQubits, hmost, h⟩ := bind_eq_ok_iff.mp h
    obtain ⟨seed, -, h⟩ := bind_eq_ok_iff.mp h
    obtain ⟨noise, -, h⟩ := bind_eq_ok_iff.mp h
    obtain ⟨_, -, h⟩ := bind_eq_ok_iff.mp h
    rw [← Except.ok.inj h]
    exact le_of_maxQubitsOf hmost
  | withNoise _ noise ih => exact ih
  | withSeed _ seed ih => exact ih
  | @submit s' _ c shots ih =>
    obtain ⟨jobs, hs⟩ := exists_jobs_submit s' c shots
    rw [hs]
    exact ih
  | cancel _ id ih => exact ih

/-- What a simulator has checked of a circuit that it finds valid. -/
theorem Built.of_validate (h : s.Built) (hvalid : s.validate c = .valid) :
    c.validate = .ok () ∧ c.HasFiniteAngles ∧ c.numQubits ≤ 30 := by
  unfold validate at hvalid
  split at hvalid
  · cases hvalid
  · next hc =>
    split at hvalid
    · next hreasons =>
      refine ⟨hc, nonFiniteReasons_eq_nil_iff.mp hreasons, ?_⟩
      have hwires : ¬ s.capabilities.numQubits < c.numQubits := by
        intro hlt
        simp [Capabilities.check, Capabilities.violations, hlt] at hvalid
      rw [h.capabilities_eq] at hwires
      exact (Nat.not_lt.mp hwires).trans h.maxQubits_le
    · cases hvalid

/-- **Sampling**: where the gates of a valid circuit keep the state in range, every coin of a
simulation is tossed with a probability, whatever the noise, the shots and the random source, and an
accepted job gets its result. Phases of ordinary size keep it in range, and so do finite sums of
phases in a circuit of few instructions. A sum of phases that overflows does not: if the wire is
measured next, every simulation stops at a coin. -/
theorem Built.sampling (hs : s.Built) (ht : s.machine.trigonometry.Accurate)
    (hvalid : s.validate c = .valid) {noise : NoiseModel} (hnoise : checkNoise noise = .ok ()) :
    (c.Steady → ∀ (shots : Nat) (source : σ),
      ∃ r, c.simulate s.machine.trigonometry noise shots source = .ok r) ∧
    (c.Steady → ∀ shots : Nat, s.accept c shots = .ok () → ∃ id, (s.submit c shots).1 = .ok id) ∧
    ((∀ inst ∈ c.instructions.toList, inst.HasModestPhases) → c.instructions.size ≤ 2 ^ 50 →
      c.Steady) ∧
    (c.HasFinitePhaseSums → c.instructions.size ≤ 512 → c.Steady) ∧
    (∀ (before after : List Instruction) (theta phi lambda : Float) (q : Qubit) (b : Bit),
      c.instructions.toList = before ++
        ⟨.gate { gate := .u theta phi lambda }, [q], []⟩ :: ⟨.measure, [q], [b]⟩ :: after →
      (phi + lambda).isFinite = false → noise.singleQubit = [] → ∀ (shots : Nat) (source : σ),
        c.simulate s.machine.trigonometry noise (shots + 1) source = .error .badProbability) := by
  obtain ⟨hc, hangles, hn⟩ := hs.of_validate hvalid
  have hsteady : c.Steady → ∀ {m : NoiseModel}, checkNoise m = .ok () → ∀ shots (source : σ),
      ∃ r, c.simulate s.machine.trigonometry m shots source = .ok r := by
    intro hsteady m hm shots source
    obtain ⟨r, hr, -⟩ := Circuit.gives_simulate (fun source =>
      Shot.gives_run ht (checkNoise_eq_ok_iff.mp hm) hn hc hangles hsteady source) shots source
    exact ⟨r, hr⟩
  refine ⟨fun h => hsteady h hnoise, ?_, Circuit.steady_of_modest hangles,
    Circuit.steady_of_few, ?_⟩
  · intro h shots haccept
    obtain ⟨⟨result, rest⟩, hsim⟩ := hsteady h (of_accept haccept).2 shots s.source
    exact ⟨_, congrArg Prod.fst (submit_of_simulate haccept hsim)⟩
  · intro before after theta phi lambda q b hlist hsum hsingle shots source
    exact Circuit.simulate_overflow ht hsingle hc hsum hlist shots source

/-- A machine whose random words are all 0. -/
noncomputable def quiet : Machine Recorded := { Machine.scripted [] with trigonometry := .ideal }

/-- A general gate with phases of very different size, on a wire that is entangled, measured and
reset. -/
def swing : Circuit :=
  { Circuit.ofSize "swing" 2 1 with
    instructions := #[⟨.gate { gate := .h }, [0], []⟩, ⟨.gate { gate := .cx }, [0, 1], []⟩,
      ⟨.gate { gate := .u 0.5 1e308 (-3.25) }, [1], []⟩, ⟨.measure, [1], [0]⟩, ⟨.reset, [0], []⟩] }

/-- A general gate with phases whose sum overflows. -/
def overturn : Circuit :=
  { Circuit.ofSize "overturn" 1 1 with
    instructions := #[⟨.gate { gate := .x }, [0], []⟩,
      ⟨.gate { gate := .u 0.0 1e308 1e308 }, [0], []⟩, ⟨.measure, [0], [0]⟩] }

/-- All kinds of noise. -/
def storm : NoiseModel where
  singleQubit := [⟨.depolarizing, 0.1⟩, ⟨.amplitudeDamping, 1.0⟩]
  twoQubit := [⟨.bitFlip, 0.5⟩, ⟨.phaseFlip, 5e-324⟩]
  readoutError := 0.25

theorem steady_swing : swing.Steady := by
  refine Circuit.steady_of_few (fun inst hinst => ?_) (by decide)
  fin_cases hinst
  · trivial
  · trivial
  · show Float.isFinite (1e308 + -3.25) = true
    decide +kernel
  · trivial
  · trivial

/-- Steady circuits are sampled whatever the noise, and a sum of phases that overflows is not. -/
theorem sampling_swing_overturn :
    (∀ (shots : Nat) (source : Recorded), ∃ r, swing.simulate .ideal storm shots source = .ok r) ∧
    (∃ id, ((Simulator.ofMaxQubits quiet 2).submit swing 100).1 = .ok id) ∧
    (Simulator.ofMaxQubits quiet 2).validate overturn = .valid ∧
    ∀ (shots : Nat) (source : Recorded),
      overturn.simulate .ideal .ideal (shots + 1) source = .error .badProbability := by
  have hbuilt : (Simulator.ofMaxQubits quiet 2).Built := .ofMaxQubits quiet 2
  have hswing : (Simulator.ofMaxQubits quiet 2).validate swing = .valid := by decide +kernel
  have hoverturn : (Simulator.ofMaxQubits quiet 2).validate overturn = .valid := by decide +kernel
  have hstorm : checkNoise storm = .ok () := by decide +kernel
  have hideal : checkNoise .ideal = .ok () := by decide +kernel
  have haccept : (Simulator.ofMaxQubits quiet 2).accept swing 100 = .ok () := by decide +kernel
  obtain ⟨hsimulate, hsubmit, -, -, -⟩ := hbuilt.sampling Trigonometry.accurate_ideal hswing hstorm
  obtain ⟨-, -, -, -, hfails⟩ := hbuilt.sampling Trigonometry.accurate_ideal hoverturn hideal
  refine ⟨hsimulate steady_swing, hsubmit steady_swing 100 haccept, hoverturn, ?_⟩
  exact hfails [⟨.gate { gate := .x }, [0], []⟩] [] 0.0 1e308 1e308 0 0 rfl (by decide +kernel) rfl

end Simulator

end OneWay
