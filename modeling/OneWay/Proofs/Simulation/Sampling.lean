import Mathlib.Analysis.Complex.ExponentialBounds
import OneWay.Proofs.Noise
import OneWay.Proofs.Simulation.Completion
import OneWay.Proofs.State.Drift

/-!
# Coins are tossed with probabilities

A shot tosses coins with numbers that it computes from the amplitudes. Measurements, resets and
damping leave a state of the mass `2 ^ 33` at most, noise that flips keeps the mass, and a gate
multiplies it by its growth (`Shot.Tame.step`). So the mass along a shot is bounded by the product
of what the gates do (`Shot.gives_run`), and while that leaves the weights within the range of
binary64 every coin is tossed with a probability: the simulation has a result
(`Circuit.gives_simulate`).
-/

namespace OneWay

open Binary64

/-! ### Computations that do not fail -/

/-- The computation gives a value with a property. -/
def Gives {α : Type} (P : α → Prop) (x : Except SimulationFault α) : Prop := ∃ a, x = .ok a ∧ P a

namespace Gives

variable {α β : Type} {P : α → Prop} {Q : β → Prop}

theorem bind {x : Except SimulationFault α} {f : α → Except SimulationFault β} (hx : Gives P x)
    (hf : ∀ a, P a → Gives Q (f a)) : Gives Q (x >>= f) := by
  obtain ⟨a, rfl, ha⟩ := hx
  exact hf a ha

/-- What every step keeps, a run keeps. -/
theorem foldlM {f : α → β → Except SimulationFault α} {l : List β}
    (h : ∀ b ∈ l, ∀ a, P a → Gives P (f a b)) {a : α} (ha : P a) : Gives P (l.foldlM f a) := by
  induction l generalizing a with
  | nil => exact ⟨a, rfl, ha⟩
  | cons b l ih =>
    rw [List.foldlM_cons]
    refine bind (h b (List.mem_cons_self ..) a ha) fun a' ha' => ?_
    exact ih (fun c hc => h c (List.mem_cons_of_mem _ hc)) ha'

theorem coin {σ : Type} [RandomSource σ] {p : Float} (hp : Amplitudes.IsChance p) (s : σ) :
    Gives (fun _ => True) (RandomSource.coin p s) := by
  obtain ⟨r, hr⟩ := hp.exists_coin s
  exact ⟨r, hr, trivial⟩

end Gives

/-! ### Noise models -/

theorem isChance_of_isProbability {p : Float} (h : isProbability p = true) :
    Amplitudes.IsChance p := by
  unfold isProbability at h
  rw [Bool.and_eq_true, Bool.and_eq_true, decide_eq_true_iff, decide_eq_true_iff] at h
  obtain ⟨⟨hfinite, hnonneg⟩, hle⟩ := h
  rw [le_iff_value finite_zero hfinite, value_zero] at hnonneg
  rw [le_iff_value hfinite finite_one, value_one] at hle
  exact ⟨hfinite, hnonneg, hle⟩

/-- The parameters of a noise model that is accepted are probabilities. -/
theorem NoiseModel.isChance_of_validate {m : NoiseModel} (h : m.validate = .ok ()) :
    (∀ channel ∈ m.channels, Amplitudes.IsChance channel.strength) ∧
      Amplitudes.IsChance m.readoutError := by
  obtain ⟨hchannels, hreadout⟩ := validate_eq_ok_iff.mp h
  exact ⟨fun channel hmem => isChance_of_isProbability (hchannels channel hmem),
    isChance_of_isProbability hreadout⟩

/-! ### Circuits -/

namespace Instruction

/-- By how much the error of the sum of its phases lets the gate, if there is one, change the
mass. -/
noncomputable def drift (inst : Instruction) : ℝ :=
  match inst.action with
  | .gate g => g.gate.drift
  | _ => 0

/-- The factor by which an instruction changes the mass at most. -/
noncomputable def growth (inst : Instruction) : ℝ := 1 + inst.drift + slack

/-- The phases of the gate have a sum that is finite, if there is one. -/
def HasFinitePhaseSum (inst : Instruction) : Prop :=
  match inst.action with
  | .gate g => g.gate.HasFinitePhaseSum
  | _ => True

/-- The phases of the gate are some hundred turns at most, if there is one. -/
def HasModestPhases (inst : Instruction) : Prop :=
  match inst.action with
  | .gate g => g.gate.HasModestPhases
  | _ => True

theorem HasModestPhases.drift_le {inst : Instruction} (h : inst.HasModestPhases)
    (hangles : inst.HasFiniteAngles) :
    inst.HasFinitePhaseSum ∧ inst.drift ≤ 2 ^ (-41 : Int) := by
  unfold HasModestPhases at h
  unfold HasFiniteAngles at hangles
  unfold HasFinitePhaseSum drift
  cases haction : inst.action with
  | gate g =>
    rw [haction] at h hangles
    exact Gate.HasModestPhases.drift_le h hangles
  | _ => exact ⟨trivial, (zpow_pos two_pos _).le⟩

theorem drift_nonneg (inst : Instruction) : 0 ≤ inst.drift := by
  unfold drift
  split
  · exact Gate.drift_nonneg _
  · exact le_rfl

theorem drift_le_one (inst : Instruction) : inst.drift ≤ 1 := by
  unfold drift
  split
  · exact Gate.drift_le_one _
  · exact zero_le_one

theorem one_le_growth (inst : Instruction) : 1 ≤ inst.growth := by
  unfold growth
  linarith [inst.drift_nonneg, slack_pos]

end Instruction

namespace Circuit

/-- By how much the errors of the sums of phases let a circuit change the mass. -/
noncomputable def drift (c : Circuit) : ℝ := (c.instructions.toList.map Instruction.drift).sum

/-- The phases of every gate have a sum that is finite. -/
def HasFinitePhaseSums (c : Circuit) : Prop :=
  ∀ inst ∈ c.instructions.toList, inst.HasFinitePhaseSum

/-- The gates of a circuit keep the mass of a state within the range of the numbers. -/
structure Steady (c : Circuit) : Prop where
  phases : c.HasFinitePhaseSums
  drift_le : c.drift ≤ 512
  size_le : c.instructions.size ≤ 2 ^ 50

theorem drift_le_mul_size {c : Circuit} {d : ℝ}
    (h : ∀ inst ∈ c.instructions.toList, inst.drift ≤ d) : c.drift ≤ c.instructions.size * d := by
  have hsum := List.sum_le_card_nsmul (c.instructions.toList.map Instruction.drift) d (by
    intro r hr
    obtain ⟨inst, hinst, rfl⟩ := List.mem_map.mp hr
    exact h inst hinst)
  rwa [List.length_map, nsmul_eq_mul, Array.length_toList] at hsum

/-- Circuits are steady if their phases are of ordinary size. -/
theorem steady_of_modest {c : Circuit} (hangles : c.HasFiniteAngles)
    (hphases : ∀ inst ∈ c.instructions.toList, inst.HasModestPhases)
    (hsize : c.instructions.size ≤ 2 ^ 50) : c.Steady where
  phases := fun inst hinst => ((hphases inst hinst).drift_le (hangles inst hinst)).1
  drift_le := by
    have hsize' : (c.instructions.size : ℝ) ≤ 2 ^ 50 := by exact_mod_cast hsize
    calc c.drift ≤ c.instructions.size * 2 ^ (-41 : Int) :=
          drift_le_mul_size fun inst hinst =>
            ((hphases inst hinst).drift_le (hangles inst hinst)).2
      _ ≤ 2 ^ 50 * 2 ^ (-41 : Int) := mul_le_mul_of_nonneg_right hsize' (by positivity)
      _ = 512 := by norm_num
  size_le := hsize

/-- Circuits with few instructions are steady if the sums of their phases are finite. -/
theorem steady_of_few {c : Circuit} (hphases : c.HasFinitePhaseSums)
    (hsize : c.instructions.size ≤ 512) : c.Steady where
  phases := hphases
  drift_le := by
    calc c.drift ≤ c.instructions.size * 1 := drift_le_mul_size fun inst _ => inst.drift_le_one
      _ ≤ 512 := by
          rw [mul_one]
          exact_mod_cast hsize
  size_le := hsize.trans (by norm_num)

end Circuit

theorem one_le_prod_growth (l : List Instruction) : 1 ≤ (l.map Instruction.growth).prod := by
  induction l with
  | nil => exact le_rfl
  | cons inst l ih =>
    rw [List.map_cons, List.prod_cons]
    exact one_le_mul_of_one_le_of_one_le inst.one_le_growth ih

/-- What a list of instructions does to the mass, from its drift and its length. -/
theorem prod_growth_le_exp (l : List Instruction) :
    (l.map Instruction.growth).prod
      ≤ Real.exp ((l.map Instruction.drift).sum + l.length * slack) := by
  induction l with
  | nil => simp
  | cons inst l ih =>
    rw [List.map_cons, List.prod_cons, List.map_cons, List.sum_cons, List.length_cons]
    calc inst.growth * (l.map Instruction.growth).prod
        ≤ Real.exp (inst.drift + slack) *
            Real.exp ((l.map Instruction.drift).sum + l.length * slack) := by
          refine mul_le_mul ?_ ih ?_ (Real.exp_pos _).le
          · have := Real.add_one_le_exp (inst.drift + slack)
            unfold Instruction.growth
            linarith
          · exact zero_le_one.trans (one_le_prod_growth l)
      _ = _ := by
          rw [← Real.exp_add]
          congr 1
          push_cast
          ring

/-- `e ^ 9` is less than `2 ^ 13`. -/
theorem exp_le_two_zpow : Real.exp 640 ≤ 2 ^ (937 : Int) := by
  have hnine : Real.exp 9 ≤ 2 ^ (13 : Int) := by
    have hpow : Real.exp 9 = Real.exp 1 ^ 9 := by rw [← Real.exp_nat_mul]; norm_num
    rw [hpow]
    calc Real.exp 1 ^ 9 ≤ 2.7182818286 ^ 9 :=
          pow_le_pow_left₀ (Real.exp_pos _).le Real.exp_one_lt_d9.le 9
      _ ≤ 2 ^ (13 : Int) := by norm_num
  calc Real.exp 640 ≤ Real.exp (72 * 9) := Real.exp_le_exp.mpr (by norm_num)
    _ = Real.exp 9 ^ 72 := by rw [← Real.exp_nat_mul]; norm_num
    _ ≤ (2 ^ (13 : Int)) ^ 72 := pow_le_pow_left₀ (Real.exp_pos _).le hnine 72
    _ = 2 ^ (936 : Int) := by rw [← zpow_natCast, ← zpow_mul]; rfl
    _ ≤ 2 ^ (937 : Int) := zpow_le_zpow_right₀ one_le_two (by decide)

/-! ### Shots -/

/-- The ground state has the mass 1. -/
theorem Amplitudes.within_ground (n : Nat) : (ground n).Within 1 := by
  have hentry : ∀ i, (ground n).getD i .zero = if 0 = i then .one else .zero := by
    intro i
    rw [ground, Kernel.getD_set]
    congr 1
    rw [Array.getD_eq_getD_getElem?, Array.getElem?_replicate]
    split <;> rfl
  constructor
  · refine forall_mem_of_getD fun i _ => ?_
    rw [hentry]
    split
    · exact Complex.isFinite_iff.mpr ⟨finite_one, finite_zero⟩
    · exact Complex.isFinite_zero
  · rw [mass_eq_sum, Finset.sum_eq_single 0]
    · rw [hentry, if_pos rfl, Complex.mass]
      show toReal 1.0 ^ 2 + toReal 0.0 ^ 2 ≤ 1
      rw [toReal_zero, toReal, value_one]
      norm_num
    · intro i _ hi
      rw [hentry, if_neg hi.symm, Complex.mass_zero]
    · intro hrange
      exact absurd (Finset.mem_range.mpr (by rw [size_ground]; exact Nat.two_pow_pos n)) hrange

namespace Shot

variable {σ : Type} {c : Circuit} {s : Shot σ} {B : ℝ} {t : Trigonometry} {noise : NoiseModel}

/-- A shot that has the sizes of the circuit and a state of bounded mass. -/
structure Tame (c : Circuit) (B : ℝ) (s : Shot σ) : Prop where
  sized : s.Sized c
  within : s.amplitudes.Within B

theorem tame_start (c : Circuit) (source : σ) : (start c source).Tame c (2 ^ 33) :=
  ⟨sized_start c source, (Amplitudes.within_ground _).mono (by norm_num)⟩

theorem Tame.mono {B' : ℝ} (h : s.Tame c B) (hB : B ≤ B') : s.Tame c B' :=
  ⟨h.sized, h.within.mono hB⟩

namespace Tame

theorem flip (h : s.Tame c B) (hB : B ≤ 2 ^ (970 : Int)) {g : Gate} (hg : g = .x ∨ g = .y ∨ g = .z)
    {q : Qubit} (hq : q < c.numQubits) : Gives (Tame c B) (s.flip t g q) := by
  obtain ⟨w, happly, hw, hwithin⟩ := h.within.apply_pauli (t := t) hB hg hq h.sized.amplitudes
  unfold Shot.flip
  rw [happly]
  exact ⟨_, rfl, ⟨hw.trans h.sized.amplitudes, h.sized.register⟩, hwithin⟩

variable [RandomSource σ]

/-- **Noise** whose strength is a probability does not raise the bound. -/
theorem disturb (h : s.Tame c B) (hlow : 2 ^ 33 ≤ B) (hB : B ≤ 2 ^ (970 : Int))
    (hn : c.numQubits ≤ 30) {channel : NoiseChannel} (hp : Amplitudes.IsChance channel.strength)
    {q : Qubit} (hq : q < c.numQubits) : Gives (Tame c B) (s.disturb t channel q) := by
  have hsource : ∀ source : σ, Tame c B { s with source } :=
    fun source => ⟨⟨h.sized.amplitudes, h.sized.register⟩, h.within⟩
  have hflip : ∀ {g : Gate}, g = .x ∨ g = .y ∨ g = .z → ∀ (hit : Bool) (source : σ),
      Gives (Tame c B)
        (if hit then Shot.flip t g q { s with source } else pure { s with source }) := by
    intro g hg hit source
    cases hit with
    | false => exact ⟨_, rfl, hsource source⟩
    | true => exact (hsource source).flip hB hg hq
  unfold Shot.disturb
  cases channel.kind with
  | amplitudeDamping =>
    obtain ⟨w, source, hdamp, hw, hwithin⟩ :=
      h.within.damp hB hn hq h.sized.amplitudes hp s.source
    simp only [hdamp]
    exact ⟨_, rfl, ⟨hw.trans h.sized.amplitudes, h.sized.register⟩, hwithin.mono hlow⟩
  | depolarizing =>
    refine (Gives.coin hp s.source).bind ?_
    rintro ⟨hit, source⟩ -
    cases hit with
    | false => exact ⟨_, rfl, hsource source⟩
    | true =>
      refine (hsource (RandomSource.oneOfThree source).2).flip hB ?_ hq
      split
      · exact .inl rfl
      · split
        · exact .inr (.inl rfl)
        · exact .inr (.inr rfl)
  | bitFlip => exact (Gives.coin hp s.source).bind fun r _ => hflip (.inl rfl) r.1 r.2
  | phaseFlip => exact (Gives.coin hp s.source).bind fun r _ => hflip (.inr (.inr rfl)) r.1 r.2

theorem gate (ht : t.Accurate) (hnoise : noise.validate = .ok ()) (hn : c.numQubits ≤ 30)
    (h : s.Tame c B) (hlow : 2 ^ 33 ≤ B) {g : Gate} (hB : g.growth * B ≤ 2 ^ (970 : Int))
    (hangles : g.HasFiniteAngles) (hphases : g.HasFinitePhaseSum) {qubits : List Qubit}
    (harity : qubits.length = g.arity) (hq : ∀ q ∈ qubits, q < c.numQubits) :
    Gives (Tame c (g.growth * B)) (s.gate t noise g qubits) := by
  have hone : 1 ≤ B := le_trans (by norm_num) hlow
  have hgrow : B ≤ g.growth * B := le_mul_of_one_le_left (by linarith) g.one_le_growth
  -- the gate moves the bound, and the noise after it keeps what the gate left
  obtain ⟨w, happly, hw, hwithin⟩ :=
    h.within.apply ht hone (hgrow.trans hB) hangles hphases harity hq hn h.sized.amplitudes
  unfold Shot.gate
  rw [happly]
  refine Gives.foldlM (fun q hmem s' hs' => ?_)
    (⟨⟨hw.trans h.sized.amplitudes, h.sized.register⟩, hwithin⟩ :
      Tame c (g.growth * B) { s with amplitudes := w })
  refine Gives.foldlM (fun channel hchannel s'' hs'' => ?_) hs'
  refine hs''.disturb (hlow.trans hgrow) hB hn ?_ (hq q hmem)
  refine (NoiseModel.isChance_of_validate hnoise).1 channel (List.mem_append.mpr ?_)
  split at hchannel
  · exact .inl hchannel
  · exact .inr hchannel

theorem measure (hnoise : noise.validate = .ok ()) (hn : c.numQubits ≤ 30) (h : s.Tame c B)
    (hlow : 2 ^ 33 ≤ B) (hB : B ≤ 2 ^ (970 : Int)) (q : Qubit) {b : Bit} (hb : b < c.numBits) :
    Gives (Tame c B) (s.measure noise q b) := by
  have hsize : s.amplitudes.size ≤ 2 ^ 30 :=
    h.sized.amplitudes.trans_le (Nat.pow_le_pow_right (by decide) hn)
  obtain ⟨outcome, w, source, hmeasure, hw, hwithin⟩ := h.within.measure hB hsize q s.source
  have hread : Gives (fun _ => True) (readout noise.readoutError outcome source) := by
    unfold readout
    split
    · refine (Gives.coin (NoiseModel.isChance_of_validate hnoise).2 source).bind fun r _ => ?_
      exact ⟨_, rfl, trivial⟩
    · exact ⟨_, rfl, trivial⟩
  unfold Shot.measure
  rw [hmeasure]
  refine hread.bind ?_
  rintro ⟨bit, source'⟩ -
  rw [← h.sized.register] at hb
  simp only [dif_pos hb]
  exact ⟨_, rfl, ⟨hw.trans h.sized.amplitudes, by simpa using h.sized.register⟩,
    hwithin.mono hlow⟩

theorem reset (hn : c.numQubits ≤ 30) (h : s.Tame c B) (hlow : 2 ^ 33 ≤ B)
    (hB : B ≤ 2 ^ (970 : Int)) {q : Qubit} (hq : q < c.numQubits) :
    Gives (Tame c B) (s.reset q) := by
  obtain ⟨w, source, hreset, hw, hwithin⟩ := h.within.reset hB hn hq h.sized.amplitudes s.source
  unfold Shot.reset
  rw [hreset]
  exact ⟨_, rfl, ⟨hw.trans h.sized.amplitudes, h.sized.register⟩, hwithin.mono hlow⟩

/-- **One instruction** that fits has a result, and multiplies the bound by its growth at most. -/
theorem step (ht : t.Accurate) (hnoise : noise.validate = .ok ()) (hn : c.numQubits ≤ 30)
    (h : s.Tame c B) (hlow : 2 ^ 33 ≤ B) {inst : Instruction}
    (hB : inst.growth * B ≤ 2 ^ (970 : Int)) (hfits : inst.Fits c.numQubits c.numBits)
    (hangles : inst.HasFiniteAngles) (hphases : inst.HasFinitePhaseSum) :
    Gives (Tame c (inst.growth * B)) (s.step t noise inst) := by
  have hgrow : B ≤ inst.growth * B :=
    le_mul_of_one_le_left (le_trans (by norm_num) hlow) inst.one_le_growth
  have hkept : s.Tame c (inst.growth * B) := h.mono hgrow
  have hlow' : 2 ^ 33 ≤ inst.growth * B := hlow.trans hgrow
  obtain ⟨harity, hqubits, hbits, -⟩ := hfits
  unfold Shot.step
  unfold Instruction.HasArity at harity
  unfold Instruction.HasFiniteAngles at hangles
  unfold Instruction.HasFinitePhaseSum at hphases
  cases haction : inst.action with
  | gate g =>
    have hgrowth : inst.growth = g.gate.growth := by
      rw [Instruction.growth, Instruction.drift, haction, Gate.growth]
    rw [haction] at harity hangles hphases
    rw [hgrowth] at hB hkept ⊢
    have hgate := gate ht hnoise hn h hlow hB hangles hphases harity hqubits
    simp only
    cases g.condition with
    | none => exact hgate
    | some condition =>
      simp only
      split
      · exact hgate
      · exact ⟨s, rfl, hkept⟩
  | measure =>
    -- a measurement leaves a bound of its own, below the one at hand, so this one is kept
    refine Gives.foldlM (fun e he s' hs' => measure hnoise hn hs' hlow' hB e.1 ?_) hkept
    exact hbits e.2 (List.mem_append_left _ (List.of_mem_zip he).2)
  | reset =>
    exact Gives.foldlM (fun q hmem s' hs' => reset hn hs' hlow' hB (hqubits q hmem)) hkept
  | snapshot =>
    refine ⟨_, rfl, ?_⟩
    split
    · exact ⟨⟨h.sized.amplitudes, h.sized.register⟩, hkept.within⟩
    · exact hkept
  | barrier => exact ⟨s, rfl, hkept⟩

/-- Instructions **one after another** multiply the bound by the product of their growths. -/
theorem steps (ht : t.Accurate) (hnoise : noise.validate = .ok ()) (hn : c.numQubits ≤ 30)
    {l : List Instruction} (hl : ∀ inst ∈ l, inst.Fits c.numQubits c.numBits ∧
      inst.HasFiniteAngles ∧ inst.HasFinitePhaseSum) (h : s.Tame c B) (hlow : 2 ^ 33 ≤ B)
    (hB : (l.map Instruction.growth).prod * B ≤ 2 ^ (970 : Int)) :
    Gives (fun _ => True) (l.foldlM (Shot.step t noise) s) := by
  -- the bound moves with the state: what is left of the product is what the rest may use up
  induction l generalizing s B with
  | nil => exact ⟨s, rfl, trivial⟩
  | cons inst l ih =>
    obtain ⟨⟨hfits, hangles, hphases⟩, hrest⟩ := List.forall_mem_cons.mp hl
    rw [List.map_cons, List.prod_cons, mul_comm inst.growth, mul_assoc] at hB
    have hB0 : 0 ≤ B := le_trans (by norm_num) hlow
    have hgrow : B ≤ inst.growth * B := le_mul_of_one_le_left hB0 inst.one_le_growth
    rw [List.foldlM_cons]
    refine (step ht hnoise hn h hlow ?_ hfits hangles hphases).bind fun s' hs' => ?_
    · exact (le_mul_of_one_le_left (hB0.trans hgrow) (one_le_prod_growth l)).trans hB
    · exact ih hrest hs' (hlow.trans hgrow) hB

end Tame

/-- **One shot** of a steady circuit has a result. -/
theorem gives_run [RandomSource σ] (ht : t.Accurate) (hnoise : noise.validate = .ok ())
    (hn : c.numQubits ≤ 30) (hc : c.validate = .ok ()) (hangles : c.HasFiniteAngles)
    (hsteady : c.Steady) (source : σ) : Gives (fun _ => True) (run t noise c source) := by
  have hfits := Circuit.validate_eq_ok_iff.mp hc
  have hexponent : c.drift + c.instructions.toList.length * slack ≤ 640 := by
    have hsize : (c.instructions.toList.length : ℝ) ≤ 2 ^ 50 := by
      rw [Array.length_toList]
      exact_mod_cast hsteady.size_le
    have hlength := mul_le_mul_of_nonneg_right hsize slack_pos.le
    have htotal : (2 : ℝ) ^ 50 * slack = 128 := by
      unfold slack
      norm_num
    linarith [hsteady.drift_le]
  have hprod := (prod_growth_le_exp c.instructions.toList).trans
    ((Real.exp_le_exp.mpr hexponent).trans exp_le_two_zpow)
  refine Tame.steps ht hnoise hn (fun inst hinst => ?_) (tame_start c source) le_rfl ?_
  · exact ⟨hfits inst hinst, hangles inst hinst, hsteady.phases inst hinst⟩
  · calc (c.instructions.toList.map Instruction.growth).prod * 2 ^ 33
        ≤ 2 ^ (937 : Int) * 2 ^ 33 := mul_le_mul_of_nonneg_right hprod (by positivity)
      _ = 2 ^ (970 : Int) := by
          rw [← zpow_natCast, ← zpow_add₀ two_ne_zero]
          rfl

end Shot

namespace Circuit

variable {σ : Type} [RandomSource σ] {c : Circuit} {t : Trigonometry} {noise : NoiseModel}

theorem gives_repeatShots (hrun : ∀ source : σ, Gives (fun _ => True) (Shot.run t noise c source))
    (n : Nat) (tally : Tally σ) : Gives (fun _ => True) (repeatShots t noise c n tally) := by
  induction n generalizing tally with
  | zero => exact ⟨tally, rfl, trivial⟩
  | succ n ih => exact (hrun tally.source).bind fun shot _ => ih _

/-- **A simulation** has a result if every shot has one. -/
theorem gives_simulate (hrun : ∀ source : σ, Gives (fun _ => True) (Shot.run t noise c source))
    (shots : Nat) (source : σ) : Gives (fun _ => True) (c.simulate t noise shots source) := by
  cases shots with
  | zero => exact ⟨_, rfl, trivial⟩
  | succ n =>
    refine (hrun source).bind fun first _ => ?_
    exact (gives_repeatShots hrun n _).bind fun tally _ => ⟨_, rfl, trivial⟩

end Circuit

end OneWay
