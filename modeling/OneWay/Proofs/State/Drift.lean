import OneWay.Proofs.Circuit.Angle
import OneWay.Proofs.State.Growth

/-!
# Gates and the mass of a state

`Amplitudes.Within.apply` bounds what a gate does to the mass of a state. Paulis and controlled
gates keep it, and the others multiply it by little more than one for the roundings that they make.
The general gate on one wire may do more: its columns are orthogonal only where the sum of its
phases is exact, and `Gate.drift` is what an error of that sum adds to the factor.
-/

namespace OneWay

open Binary64

namespace Gate

/-- By how much the error of the sum of its phases lets a gate change the mass. -/
noncomputable def drift : Gate → ℝ
  | .u _ phi lambda => min 1 (halfError phi lambda)
  | _ => 0

/-- The factor by which a gate changes the mass at most. -/
noncomputable def growth (g : Gate) : ℝ := 1 + g.drift + slack

/-- The phases of a gate have a sum that is finite. -/
def HasFinitePhaseSum : Gate → Prop
  | .u _ phi lambda => (phi + lambda).isFinite = true
  | _ => True

/-- The phases of a gate are some hundred turns at most. -/
def HasModestPhases : Gate → Prop
  | .u _ phi lambda => |toReal phi| ≤ 2048 ∧ |toReal lambda| ≤ 2048
  | _ => True

theorem drift_nonneg (g : Gate) : 0 ≤ g.drift := by
  cases g with
  | u theta phi lambda => exact le_min zero_le_one (div_nonneg (abs_nonneg _) zero_le_two)
  | _ => exact le_rfl

theorem drift_le_one (g : Gate) : g.drift ≤ 1 := by
  cases g with
  | u theta phi lambda => exact min_le_left ..
  | _ => exact zero_le_one

theorem one_le_growth (g : Gate) : 1 ≤ g.growth := by
  unfold growth
  linarith [g.drift_nonneg, slack_pos]

theorem moderate_turns : Moderate 2048 where
  low := (zpow_le_one_of_nonpos₀ one_le_two (by decide)).trans (by norm_num)
  high := calc
    (2048 : ℝ) = 2 ^ (11 : Int) := by norm_num
    _ ≤ 2 ^ (500 : Int) := zpow_le_zpow_right₀ one_le_two (by decide)

/-- Modest phases have a sum that is finite and has a small error. -/
theorem HasModestPhases.drift_le {g : Gate} (h : g.HasModestPhases) (hangles : g.HasFiniteAngles) :
    g.HasFinitePhaseSum ∧ g.drift ≤ 2 ^ (-41 : Int) := by
  cases g with
  | u theta phi lambda =>
    obtain ⟨hphi, hlambda⟩ := h
    have hsize : |toReal phi + toReal lambda| ≤ 2 * 2048 :=
      (abs_add_le _ _).trans (by linarith)
    have hsum := Tracks.add moderate_turns (tracks_toReal (hangles phi (by simp [parameters])))
      (tracks_toReal (hangles lambda (by simp [parameters]))) hsize
    refine ⟨hsum.isFinite, (min_le_right ..).trans ?_⟩
    calc halfError phi lambda ≤ (0 + 0 + 2 + 1) * (roundoff * 2048) / 2 :=
          div_le_div_of_nonneg_right hsum.near zero_le_two
      _ ≤ 2 ^ (-41 : Int) := by
          unfold roundoff
          norm_num
  | _ => exact ⟨trivial, (zpow_pos two_pos _).le⟩

end Gate

namespace Amplitudes

variable {v : Amplitudes} {B : ℝ} {n q : Nat} {t : Trigonometry}

/-- The roundings of numbers near zero do not count where the mass is one or more. -/
theorem absorb {d ρ : ℝ} (hd : d ≤ 1) (hρ : ρ ≤ 1 + d + 2 ^ (-46 : Int) + 2 ^ (-44 : Int))
    (hB : 1 ≤ B) (hn : n ≤ 30) :
    ρ * (B + 2 ^ n * 2 ^ (-1000 : Int)) ≤ (1 + d + slack) * B := by
  -- underflow costs each amplitude next to nothing, and there are `2 ^ 30` of them at most
  have hrest : (2 : ℝ) ^ n * 2 ^ (-1000 : Int) ≤ 2 ^ (-48 : Int) := by
    rw [← zpow_natCast, ← zpow_add₀ two_ne_zero]
    exact zpow_le_zpow_right₀ one_le_two (by omega)
  have hrest0 : (0 : ℝ) ≤ 2 ^ n * 2 ^ (-1000 : Int) :=
    mul_nonneg (pow_nonneg two_pos.le _) (zpow_pos two_pos _).le
  generalize (2 : ℝ) ^ n * 2 ^ (-1000 : Int) = ε at hrest hrest0
  calc ρ * (B + ε) ≤ (1 + d + 2 ^ (-46 : Int) + 2 ^ (-44 : Int)) * (B + ε) :=
        mul_le_mul_of_nonneg_right hρ (by linarith)
    _ ≤ (1 + d + 2 ^ (-46 : Int) + 2 ^ (-44 : Int)) * B + 3 * 2 ^ (-48 : Int) * B := by
        rw [mul_add]
        have hfirst : (1 + d + 2 ^ (-46 : Int) + 2 ^ (-44 : Int)) * ε ≤ 3 * 2 ^ (-48 : Int) := by
          refine mul_le_mul ?_ hrest hrest0 (by norm_num)
          norm_num
          linarith
        have hsecond : 3 * 2 ^ (-48 : Int) * 1 ≤ 3 * 2 ^ (-48 : Int) * B :=
          mul_le_mul_of_nonneg_left hB (by positivity)
        linarith
    _ = (1 + d + (2 ^ (-46 : Int) + 2 ^ (-44 : Int) + 3 * 2 ^ (-48 : Int))) * B := by ring
    _ ≤ (1 + d + slack) * B := by
        refine mul_le_mul_of_nonneg_right ?_ (by linarith)
        unfold slack
        norm_num

/-! ### Gates that are exact -/

theorem Within.onPairs_exact {f : Complex → Complex → Complex × Complex} (h : v.Within B)
    (hf : Gains f B 1 0) (hq : q < n) (hv : v.size = 2 ^ n) :
    ∃ w, Kernel.onPairs f q v = some w ∧ w.size = v.size ∧ Within w B := by
  have hpairs := h.onPairs hf zero_le_one le_rfl hq hv
  rwa [mul_zero, add_zero, one_mul] at hpairs

/-- Changes of signs keep the mass. -/
theorem Within.signs (h : v.Within B) (flipped : Nat → Bool) (hv : v.size = 2 ^ n) :
    Within (Kernel.onEach (fun i z => if flipped i then -z else z) v) B := by
  have heach := h.onEach (f := fun i z => if flipped i then -z else z) (ρ := 1) (τ := 0)
    (fun i z hz _ => ?_) zero_le_one hv
  · rwa [mul_zero, add_zero, one_mul] at heach
  · rw [one_mul, add_zero]
    split
    · exact ⟨Complex.isFinite_neg hz, (Complex.mass_neg z).le⟩
    · exact ⟨hz, le_rfl⟩

/-- **Paulis** keep the mass. -/
theorem Within.apply_pauli (h : v.Within B) (hB : B ≤ 2 ^ (970 : Int)) {g : Gate}
    (hg : g = .x ∨ g = .y ∨ g = .z) (hq : q < n) (hv : v.size = 2 ^ n) :
    ∃ w, apply t g [q] v = .ok w ∧ w.size = v.size ∧ Within w B := by
  rcases hg with rfl | rfl | rfl
  · exact exists_apply_of_single rfl (h.onPairs_exact gains_swap hq hv)
  · exact exists_apply_of_single rfl (h.onPairs_exact (gains_y hB) hq hv)
  · exact exists_apply_of_single rfl ⟨_, rfl, Kernel.size_onEach .., h.signs _ hv⟩

theorem Within.applyDouble (h : v.Within B) (g : Gate) {a b : Nat} (hb : b < n)
    (hv : v.size = 2 ^ n) :
    ∃ w, applyDouble g a b v = some w ∧ w.size = v.size ∧ Within w B := by
  unfold Amplitudes.applyDouble
  split
  · exact h.exchange hb hv
  · exact ⟨_, rfl, Kernel.size_onEach .., h.signs _ hv⟩
  · exact ⟨v, rfl, rfl, h⟩

/-! ### Gates that round -/

/-- Phases, at angles that are finite, multiply the mass by little more than one. -/
theorem Within.phases (ht : t.Accurate) (h : v.Within B) (hB : 1 ≤ B) (hB' : B ≤ 2 ^ (970 : Int))
    (hn : n ≤ 30) {f : Nat → Complex → Complex}
    (hf : ∀ i z, f i z = z ∨ ∃ x : Float, x.isFinite = true ∧ f i z = z * t.unit x)
    (hv : v.size = 2 ^ n) {g : Gate} : Within (Kernel.onEach f v) (g.growth * B) := by
  have hτ : (0 : ℝ) ≤ 2 ^ (-1000 : Int) := (zpow_pos two_pos _).le
  have hρ : (1 : ℝ) ≤ 1 + 2 ^ (-46 : Int) + 2 ^ (-44 : Int) := by norm_num
  have heach := h.onEach (f := f) (τ := 2 ^ (-1000 : Int)) (fun i z hz hmass => ?_)
    (zero_le_one.trans hρ) hv
  · refine heach.mono (absorb g.drift_le_one ?_ hB hn)
    linarith [g.drift_nonneg]
  · rcases hf i z with hkeep | ⟨x, hx, hturn⟩
    · rw [hkeep]
      refine ⟨hz, ?_⟩
      calc z.mass ≤ z.mass + 2 ^ (-1000 : Int) := le_add_of_nonneg_right hτ
        _ ≤ _ := le_mul_of_one_le_left (add_nonneg z.mass_nonneg hτ) hρ
    · rw [hturn]
      exact mass_mul_unit_le ht hB' hx hz hmass

/-- Gates that mix the amplitudes of a wire multiply the mass by their growth at most. -/
theorem Within.mixing {g : Gate} {f : Complex → Complex → Complex × Complex} {ρ : ℝ}
    (h : v.Within B) (hB : 1 ≤ B) (hf : Gains f B ρ (2 ^ (-1000 : Int))) (hρ : 0 ≤ ρ)
    (hg : ρ ≤ 1 + g.drift + 2 ^ (-46 : Int) + 2 ^ (-44 : Int)) (hn : n ≤ 30) (hq : q < n)
    (hv : v.size = 2 ^ n) :
    ∃ w, Kernel.onPairs f q v = some w ∧ w.size = v.size ∧ Within w (g.growth * B) := by
  obtain ⟨w, hw, hsize, hwithin⟩ := h.onPairs hf hρ (zpow_pos two_pos _).le hq hv
  exact ⟨w, hw, hsize, hwithin.mono (absorb g.drift_le_one hg hB hn)⟩

theorem isFinite_half_pi : (Angle.pi / 2.0).isFinite = true := isFinite_half rfl

theorem isFinite_half_neg_pi : (-Angle.pi / 2.0).isFinite = true := isFinite_half rfl

theorem Within.applySingle (ht : t.Accurate) (h : v.Within B) (hB : 1 ≤ B)
    (hB' : B ≤ 2 ^ (970 : Int)) {g : Gate} (hangles : g.HasFiniteAngles)
    (hphases : g.HasFinitePhaseSum) (hn : n ≤ 30) (hq : q < n) (hv : v.size = 2 ^ n) :
    ∃ w, applySingle t g q v = some w ∧ w.size = v.size ∧ Within w (g.growth * B) := by
  have hgrow : B ≤ g.growth * B := le_mul_of_one_le_left (by linarith) g.one_le_growth
  have hphase : ∀ {x : Float}, x.isFinite = true →
      (phase t q x v).Within (g.growth * B) := by
    intro x hx
    refine h.phases ht hB hB' hn (fun i z => ?_) hv
    split
    · exact .inr ⟨x, hx, rfl⟩
    · exact .inl rfl
  have hpow : (0 : ℝ) < 2 ^ (-46 : Int) ∧ (0 : ℝ) < 2 ^ (-44 : Int) := by constructor <;> positivity
  have hdrift := g.drift_nonneg
  have hexact : (∃ w, Amplitudes.applySingle t g q v = some w ∧ w.size = v.size ∧ Within w B) →
      ∃ w, Amplitudes.applySingle t g q v = some w ∧ w.size = v.size ∧ Within w (g.growth * B) := by
    rintro ⟨w, hw, hsize, hwithin⟩
    exact ⟨w, hw, hsize, hwithin.mono hgrow⟩
  cases g with
  | i | cx | cz => exact hexact ⟨v, rfl, rfl, h⟩
  | x => exact hexact (h.onPairs_exact gains_swap hq hv)
  | y => exact hexact (h.onPairs_exact (gains_y hB') hq hv)
  | z => exact hexact ⟨_, rfl, Kernel.size_onEach .., h.signs _ hv⟩
  | h => exact h.mixing hB (gains_h hB') (by linarith) (by linarith) hn hq hv
  | s => exact ⟨_, rfl, Kernel.size_onEach .., hphase isFinite_half_pi⟩
  | sdg => exact ⟨_, rfl, Kernel.size_onEach .., hphase isFinite_half_neg_pi⟩
  | p theta =>
    have htheta : theta.isFinite = true := hangles theta (by simp [Gate.parameters])
    exact ⟨_, rfl, Kernel.size_onEach .., hphase htheta⟩
  | rz theta =>
    have htheta : theta.isFinite = true := hangles theta (by simp [Gate.parameters])
    refine ⟨_, rfl, Kernel.size_onEach .., h.phases ht hB hB' hn (fun i z => .inr ?_) hv⟩
    split
    · exact ⟨_, isFinite_half htheta, rfl⟩
    · exact ⟨_, isFinite_half ((isFinite_neg theta).trans htheta), rfl⟩
  | rx theta =>
    have htheta := isFinite_half (hangles theta (by simp [Gate.parameters]))
    exact h.mixing hB (gains_rx ht hB' htheta) (by linarith) (by linarith) hn hq hv
  | ry theta =>
    have htheta := isFinite_half (hangles theta (by simp [Gate.parameters]))
    exact h.mixing hB (gains_ry ht hB' htheta) (by linarith) (by linarith) hn hq hv
  | u theta phi lambda =>
    have htheta := isFinite_half (hangles theta (by simp [Gate.parameters]))
    have hphi := hangles phi (by simp [Gate.parameters])
    have hlambda := hangles lambda (by simp [Gate.parameters])
    exact h.mixing hB
      (gains_u (d := Gate.drift (.u theta phi lambda)) ht hB' htheta hphi hlambda hphases rfl)
      (by linarith) le_rfl hn hq hv

/-- **A gate** at finite angles multiplies the mass of a state by its growth at most. -/
theorem Within.apply (ht : t.Accurate) (h : v.Within B) (hB : 1 ≤ B) (hB' : B ≤ 2 ^ (970 : Int))
    {g : Gate} {qubits : List Nat} (hangles : g.HasFiniteAngles) (hphases : g.HasFinitePhaseSum)
    (harity : qubits.length = g.arity) (hq : ∀ q ∈ qubits, q < n) (hn : n ≤ 30)
    (hv : v.size = 2 ^ n) :
    ∃ w, apply t g qubits v = .ok w ∧ w.size = v.size ∧ Within w (g.growth * B) := by
  have hgrow : B ≤ g.growth * B := le_mul_of_one_le_left (by linarith) g.one_le_growth
  have hsingle : ∀ q < n, ∃ w, Amplitudes.applySingle t g q v = some w ∧ w.size = v.size ∧
      Within w (g.growth * B) :=
    fun q hq => h.applySingle ht hB hB' hangles hphases hn hq hv
  have hdouble : ∀ a, ∀ b < n, ∃ w, Amplitudes.applyDouble g a b v = some w ∧ w.size = v.size ∧
      Within w B := fun a b hb => h.applyDouble g hb hv
  cases g with
  | cx | cz =>
    obtain ⟨a, b, rfl⟩ := List.length_eq_two.mp harity
    obtain ⟨w, happly, hw, hwithin⟩ := exists_apply_of_double t rfl (hdouble a b (hq b (by simp)))
    exact ⟨w, happly, hw, hwithin.mono hgrow⟩
  | _ =>
    obtain ⟨q, rfl⟩ := List.length_eq_one_iff.mp harity
    exact exists_apply_of_single rfl (hsingle q (hq q (by simp)))

end Amplitudes

end OneWay
