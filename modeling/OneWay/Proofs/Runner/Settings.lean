import OneWay.Backend.Registry
import OneWay.Proofs.Noise
import OneWay.Proofs.Simulation.Control
import OneWay.Runner.Options

/-!
# Settings of a run on their way to the simulator

The settings of a run are typed; on their way to a backend they pass through a map of free-form
values, where the seed, the number of wires and the noise have names of their own. The simulator reads
them out of the map again: every seed and every noise model that it accepts arrive as they were
(`Registry.create_backendConfig`).
-/

namespace OneWay

/-! ### The map -/

theorem BackendConfig.get?_withExtra (config : BackendConfig) (key x : String) (v : Json) :
    (config.withExtra key v).extra.get? x
      = if x = key then some v.canonical else config.extra.get? x :=
  SortedMap.get?_insert ..

/-- A value other than `null` counts as a number if it is one of 64 bits. -/
theorem BackendConfig.nat?_eq_ok_iff_read {config : BackendConfig} {key : String} {v : Json}
    (h : config.extra.get? key = some v) (hv : v ≠ .null) {n? : Option Nat} :
    config.nat? key = .ok n? ↔ n?.isSome ∧ v.datum.nat64? = n? := by
  unfold nat?
  split
  · next hget =>
    rw [h] at hget
    cases hget
  · next hget => exact absurd (Option.some.inj (h.symm.trans hget)) hv
  · next w _ hget =>
    obtain rfl := Option.some.inj (h.symm.trans hget)
    split
    · next n hread =>
      rw [hread, Except.ok.injEq]
      exact ⟨fun heq => ⟨heq ▸ rfl, heq⟩, And.right⟩
    · next hread =>
      rw [hread]
      constructor
      · intro heq
        cases heq
      · rintro ⟨hsome, rfl⟩
        cases hsome

/-- A natural number among the settings is read if it has 64 bits. -/
theorem BackendConfig.nat?_eq_ok_iff {config : BackendConfig} {key : String} {n : Nat}
    (h : config.extra.get? key = some (.nat n)) {n? : Option Nat} :
    config.nat? key = .ok n? ↔ n < 0x10000000000000000 ∧ n? = some n := by
  rw [nat?_eq_ok_iff_read h Json.noConfusion]
  by_cases hn : n < 0x10000000000000000
  · have hread : (Json.nat n).datum.nat64? = some n := Datum.natBelow?_nat hn
    rw [hread]
    constructor
    · rintro ⟨-, rfl⟩
      exact ⟨hn, rfl⟩
    · rintro ⟨-, rfl⟩
      exact ⟨rfl, rfl⟩
  · have hread : (Json.nat n).datum.nat64? = none := Datum.natBelow?_nat_of_le (Nat.not_lt.mp hn)
    rw [hread]
    constructor
    · rintro ⟨hsome, rfl⟩
      cases hsome
    · exact fun h => absurd h.1 hn

theorem BackendConfig.nat?_of_absent {config : BackendConfig} {key : String}
    (h : config.extra.get? key = none) : config.nat? key = .ok none := by
  unfold nat?
  rw [h]

namespace RunConfig

variable (c : RunConfig)

theorem name_backendConfig : c.backendConfig.name = c.backend := by
  unfold backendConfig
  cases c.seed <;> cases c.maxQubits <;> cases c.noise <;> rfl

/-- What the map holds under each of the three names. -/
theorem get?_backendConfig :
    c.backendConfig.extra.get? "seed" = c.seed.map seedJson ∧
    c.backendConfig.extra.get? "max_qubits" = c.maxQubits.map Json.nat ∧
    c.backendConfig.extra.get? "noise" = c.noise.map fun m => m.toJson.canonical := by
  unfold backendConfig
  cases c.seed <;> cases c.maxQubits <;> cases c.noise <;>
    simp [BackendConfig.get?_withExtra, SortedMap.get?_empty, Json.canonical, seedJson, Json.nat]

/-! ### Reading the map -/

/-- Every seed is read back: it is a 64-bit number. -/
theorem nat?_seed : c.backendConfig.nat? "seed" = .ok (c.seed.map UInt64.toNat) := by
  have hget := c.get?_backendConfig.1
  cases hseed : c.seed with
  | none =>
    rw [hseed] at hget
    exact BackendConfig.nat?_of_absent hget
  | some seed =>
    rw [hseed] at hget
    exact (BackendConfig.nat?_eq_ok_iff hget).mpr ⟨seed.toNat_lt, rfl⟩

/-- The number of wires is read back if the simulator supports it. -/
theorem maxQubitsOf_eq_ok_iff {n : Nat} :
    Simulator.maxQubitsOf c.backendConfig = .ok n ↔
      (∀ most ∈ c.maxQubits, most ≤ 30) ∧ n = c.maxQubits.getD 20 := by
  have hget := c.get?_backendConfig.2.1
  rw [Simulator.maxQubitsOf, bind_eq_ok_iff]
  cases hmost : c.maxQubits with
  | none =>
    rw [hmost] at hget
    rw [BackendConfig.nat?_of_absent hget]
    constructor
    · rintro ⟨_, ⟨⟩, ⟨⟩⟩
      exact ⟨fun _ h => (Option.not_mem_none _ h).elim, rfl⟩
    · rintro ⟨-, rfl⟩
      exact ⟨none, rfl, rfl⟩
  | some most =>
    rw [hmost] at hget
    simp only [BackendConfig.nat?_eq_ok_iff hget]
    constructor
    · rintro ⟨_, ⟨-, rfl⟩, h⟩
      simp only at h
      split at h
      · cases h
      · next hle =>
        cases h
        exact ⟨fun _ h => Option.mem_some_iff.mp h ▸ Nat.not_lt.mp hle, rfl⟩
    · rintro ⟨hle, hn⟩
      -- a number that the simulator supports is small enough for the map
      have hmost : most ≤ 30 := hle most rfl
      have hsupported : ¬ Simulator.supportedQubits < most := Nat.not_lt.mpr hmost
      refine ⟨some most, ⟨by omega, rfl⟩, ?_⟩
      simp only
      rw [if_neg hsupported, hn]
      rfl

/-- The noise is read back and accepted if its parameters are probabilities. -/
theorem noiseOf_eq_ok_iff {m : NoiseModel} :
    (Simulator.noiseOf c.backendConfig = .ok m ∧ Simulator.checkNoise m = .ok ()) ↔
      (∀ noise ∈ c.noise, noise.validate = .ok ()) ∧ m = c.noise.getD .ideal := by
  unfold Simulator.noiseOf
  rw [c.get?_backendConfig.2.2, Simulator.checkNoise_eq_ok_iff]
  cases c.noise with
  | none =>
    constructor
    · rintro ⟨⟨⟩, -⟩
      exact ⟨fun _ h => (Option.not_mem_none _ h).elim, rfl⟩
    · rintro ⟨-, rfl⟩
      exact ⟨rfl, NoiseModel.validate_ideal⟩
  | some noise =>
    have hlevels : 3 ≤ Json.maxDepth := by decide
    simp only [Option.map_some, NoiseModel.ofDatum?_canonical noise hlevels]
    by_cases hfinite : noise.isFinite = true
    · rw [if_pos hfinite]
      constructor
      · rintro ⟨⟨⟩, hvalid⟩
        exact ⟨fun _ h => Option.mem_some_iff.mp h ▸ hvalid, rfl⟩
      · rintro ⟨hvalid, hm⟩
        rw [hm]
        exact ⟨rfl, hvalid noise rfl⟩
    · -- a parameter that is not finite is lost in the map, and would not be accepted
      rw [if_neg hfinite]
      constructor
      · rintro ⟨⟨⟩, -⟩
      · rintro ⟨hvalid, -⟩
        exact absurd (NoiseModel.isFinite_of_validate (hvalid noise rfl)) hfinite

end RunConfig

namespace Simulator

variable {σ : Type}

/-- The simulator that the settings of a run ask for. -/
def ofRunConfig (machine : Machine σ) (c : RunConfig) : Simulator σ where
  machine
  config := c.backendConfig
  capabilities := { Capabilities.simulator (c.maxQubits.getD 20) with name := c.backend }
  maxQubits := c.maxQubits.getD 20
  noise := c.noise.getD .ideal
  seed := c.seed

/-- The simulator is built iff it supports the number of wires and accepts the noise. -/
theorem ofConfig_backendConfig {machine : Machine σ} {c : RunConfig} {s : Simulator σ} :
    ofConfig machine c.backendConfig = .ok s ↔
      ((∀ n ∈ c.maxQubits, n ≤ 30) ∧ ∀ m ∈ c.noise, m.validate = .ok ()) ∧
        s = ofRunConfig machine c := by
  -- in the map the seed is a plain number
  have hseed : (c.seed.map UInt64.toNat).map UInt64.ofNat = c.seed := by
    cases c.seed <;> simp
  unfold ofConfig
  simp only [bind_eq_ok_iff, c.maxQubitsOf_eq_ok_iff, c.nat?_seed]
  constructor
  · rintro ⟨n, ⟨hwires, rfl⟩, _, ⟨⟩, m, hread, _, hcheck, h⟩
    obtain ⟨hnoise, rfl⟩ := c.noiseOf_eq_ok_iff.mp ⟨hread, hcheck⟩
    refine ⟨⟨hwires, hnoise⟩, ?_⟩
    rw [← Except.ok.inj h, ofRunConfig, hseed, c.name_backendConfig]
  · rintro ⟨⟨hwires, hnoise⟩, rfl⟩
    obtain ⟨hread, hcheck⟩ := c.noiseOf_eq_ok_iff.mpr ⟨hnoise, rfl⟩
    refine ⟨_, ⟨hwires, rfl⟩, _, rfl, _, hread, (), hcheck, ?_⟩
    rw [ofRunConfig, hseed, c.name_backendConfig]
    rfl

end Simulator

namespace Registry

variable {σ : Type}

/-- A backend without defaults is built from the settings as they are. -/
theorem create_of_no_defaults {r : Registry} {machine : Machine σ} {config : BackendConfig}
    (h : r.entries.get? config.name = some ∅) :
    r.create machine config = Simulator.ofConfig machine config := by
  rw [create, h]
  rfl

/-- **Settings of a run**: the simulator of a name that has no defaults is built iff the number of
wires is one that it supports and the parameters of the noise are probabilities. Seed, number of
wires and noise are those of the run, or the defaults where the run gives none. -/
theorem create_backendConfig {r : Registry} (machine : Machine σ) {c : RunConfig}
    (h : r.entries.get? c.backend = some ∅) :
    ((∃ s, r.create machine c.backendConfig = .ok s) ↔
      (∀ n ∈ c.maxQubits, n ≤ 30) ∧ ∀ m ∈ c.noise, m.validate = .ok ()) ∧
    ∀ s, r.create machine c.backendConfig = .ok s →
      s.seed = c.seed ∧ s.maxQubits = c.maxQubits.getD 20 ∧
      s.capabilities.numQubits = s.maxQubits ∧ s.noise = c.noise.getD .ideal := by
  rw [← c.name_backendConfig] at h
  simp only [create_of_no_defaults h, Simulator.ofConfig_backendConfig]
  refine ⟨⟨?_, fun hc => ⟨_, hc, rfl⟩⟩, ?_⟩
  · rintro ⟨s, hc, -⟩
    exact hc
  · rintro s ⟨-, rfl⟩
    exact ⟨rfl, rfl, rfl, rfl⟩

theorem get?_register (r : Registry) (name : String) (defaults : SortedMap String Json) :
    (r.register name defaults).entries.get? name = some defaults :=
  (SortedMap.get?_insert ..).trans (if_pos rfl)

/-- A run with the largest seed, the largest number of wires and channels of all kinds. -/
def busy : RunConfig where
  seed := some 18446744073709551615
  maxQubits := some 30
  noise := some {
    singleQubit := [⟨.depolarizing, 0.1⟩, ⟨.amplitudeDamping, 1.0⟩]
    twoQubit := [⟨.phaseFlip, 5e-324⟩, ⟨.bitFlip, -0.0⟩]
    readoutError := 0.25 }

/-- The settings of a busy run arrive, and one wire more or a parameter that is no number is
refused. -/
theorem create_backendConfig_busy :
    (∃ s, (register {} "simulator").create Machine.native busy.backendConfig = .ok s ∧
      s.seed = some 18446744073709551615 ∧ s.maxQubits = 30 ∧ s.capabilities.numQubits = 30 ∧
      some s.noise = busy.noise) ∧
    (¬ ∃ s, (register {} "simulator").create Machine.native
      { busy with maxQubits := some 31 }.backendConfig = .ok s) ∧
    ¬ ∃ s, (register {} "simulator").create Machine.native
      { busy with noise := some { readoutError := 0.0 / 0.0 } }.backendConfig = .ok s := by
  have hknown : (register {} "simulator").entries.get? "simulator" = some ∅ := get?_register ..
  refine ⟨?_, ?_, ?_⟩
  · obtain ⟨hbuilt, hkept⟩ := create_backendConfig (c := busy) Machine.native hknown
    have hnoise : ∀ m ∈ busy.noise, m.validate = .ok () := by decide +kernel
    obtain ⟨s, hs⟩ := hbuilt.mpr ⟨by decide, hnoise⟩
    obtain ⟨hseed, hwires, hqubits, hm⟩ := hkept s hs
    exact ⟨s, hs, hseed, hwires, hqubits.trans hwires, congrArg some hm⟩
  · rw [(create_backendConfig Machine.native hknown).1]
    exact fun h => absurd (h.1 31 rfl) (by decide)
  · rw [(create_backendConfig Machine.native hknown).1]
    exact fun h => absurd (h.2 _ rfl) (by decide +kernel)

end Registry

end OneWay
