import OneWay.Proofs.State.Mass

/-!
# Probabilities and normalised states

Weights of states of moderate size are finite and not negative (`Amplitudes.weight_spec`), so what
is made of them is a probability and a coin can be tossed with it. A state that is normalised has parts
of at most 2 in size, whatever it was before (`Amplitudes.within_normalize`): its weight is at least
as large as each of the squares in it, also where these underflow.
-/

namespace OneWay

open Binary64

/-! ### Squares -/

/-- A finite number whose square does not overflow. -/
structure Binary64.Small (x : Float) : Prop where
  isFinite : x.isFinite = true
  abs_le : |value x| ≤ 2 ^ (490 : Int)

theorem Binary64.Small.mul_self {x : Float} (h : Small x) :
    (x * x).isFinite = true ∧ 0 ≤ value (x * x) ∧ value (x * x) ≤ 2 ^ (980 : Int) ∧
      value x ^ 2 ≤ 4 / 3 * (value (x * x) + 2 ^ (-1075 : Int)) := by
  have hnonneg : 0 ≤ value x * value x := mul_self_nonneg _
  have hle : |value x * value x| ≤ 2 ^ (980 : Int) := by
    rw [abs_mul, show (980 : Int) = 490 + 490 by rfl, zpow_add₀ two_ne_zero]
    exact mul_le_mul h.abs_le h.abs_le (abs_nonneg _) (two_zpow_pos _).le
  have hround := isRounding_mul h.isFinite h.isFinite
    (hle.trans_lt (zpow_lt_zpow_right₀ one_lt_two (by decide)))
  have hsquare := hround.le_of_le 0 onGrid_zero hnonneg
  refine ⟨hround.isFinite, hsquare, ?_, ?_⟩
  · exact (le_abs_self _).trans (hround.abs_value_le (onGrid_two_zpow (by decide)) hle)
  · have hnear := (abs_sub_le_iff.mp hround.near).2
    have hunit : (2 : ℚ) ^ (-53 : Int) ≤ 1 / 4 := by norm_num
    have hleast := two_zpow_pos (-1075)
    rw [abs_of_nonneg hnonneg] at hnear
    have hquarter := hnear.trans (add_le_add_left (mul_le_mul_of_nonneg_right hunit hnonneg) _)
    rw [sq]
    generalize (2 : ℚ) ^ (-1075 : Int) = least at hquarter hleast ⊢
    linarith only [hquarter, hsquare, hleast]

/-- Both parts have squares that do not overflow. -/
structure Complex.Small (z : Complex) : Prop where
  re : Binary64.Small z.re
  im : Binary64.Small z.im

/-- The square of the absolute value is finite, and at least as large as the squares of both
parts. -/
theorem Complex.Small.normSq {z : Complex} (h : z.Small) :
    z.normSq.isFinite = true ∧ 0 ≤ value z.normSq ∧ value z.normSq ≤ 2 ^ (981 : Int) ∧
      value z.re ^ 2 ≤ 4 / 3 * (value z.normSq + 2 ^ (-1075 : Int)) ∧
      value z.im ^ 2 ≤ 4 / 3 * (value z.normSq + 2 ^ (-1075 : Int)) := by
  obtain ⟨hre, hre0, hre1, hre2⟩ := h.re.mul_self
  obtain ⟨him, him0, him1, him2⟩ := h.im.mul_self
  have hnonneg := add_nonneg hre0 him0
  have hle : |value (z.re * z.re) + value (z.im * z.im)| ≤ 2 ^ (981 : Int) := by
    rw [abs_of_nonneg hnonneg, show (981 : Int) = 1 + 980 by rfl, zpow_add₀ two_ne_zero]
    linarith
  have hround := isRounding_add hre him
    (hle.trans_lt (zpow_lt_zpow_right₀ one_lt_two (by decide)))
  -- rounding does not cross either square
  have hre' := hround.le_of_le _ (onGrid_value hre) (le_add_of_nonneg_right him0)
  have him' := hround.le_of_le _ (onGrid_value him) (le_add_of_nonneg_left hre0)
  refine ⟨hround.isFinite, hre0.trans hre', ?_, ?_, ?_⟩
  · exact (le_abs_self _).trans (hround.abs_value_le (onGrid_two_zpow (by decide)) hle)
  · exact hre2.trans (mul_le_mul_of_nonneg_left (add_le_add_left hre' _) (by norm_num))
  · exact him2.trans (mul_le_mul_of_nonneg_left (add_le_add_left him' _) (by norm_num))

/-- The parts of a number are bounded by its mass. -/
theorem Complex.abs_value_le_of_mass_le {z : Complex} (h : z.mass ≤ 2 ^ (970 : Int)) :
    |value z.re| ≤ 2 ^ (485 : Int) ∧ |value z.im| ≤ 2 ^ (485 : Int) := by
  have hle : ∀ (x : Float) (r : ℝ), toReal x ^ 2 + r ^ 2 ≤ 2 ^ (970 : Int) →
      |value x| ≤ 2 ^ (485 : Int) := by
    intro x r hsum
    have hreal : |toReal x| ≤ 2 ^ (485 : Int) := by
      refine abs_le_of_sq_le_sq ?_ (zpow_pos two_pos _).le
      calc toReal x ^ 2 ≤ toReal x ^ 2 + r ^ 2 := le_add_of_nonneg_right (sq_nonneg r)
        _ ≤ 2 ^ (970 : Int) := hsum
        _ = (2 ^ (485 : Int)) ^ 2 := by
          rw [sq, ← zpow_add₀ two_ne_zero]
          rfl
    unfold toReal at hreal
    exact_mod_cast hreal
  unfold mass at h
  exact ⟨hle _ _ h, hle _ _ (by rwa [add_comm])⟩

namespace Amplitudes

variable {v : Amplitudes} {B : ℝ}

theorem Within.abs_value_le (h : v.Within B) (hB : B ≤ 2 ^ (970 : Int)) {z : Complex} (hz : z ∈ v) :
    |value z.re| ≤ 2 ^ (485 : Int) ∧ |value z.im| ≤ 2 ^ (485 : Int) :=
  Complex.abs_value_le_of_mass_le ((mass_le_of_mem hz).trans (h.mass_le.trans hB))

/-- States whose mass is not too large have small entries. -/
theorem Within.small (h : v.Within B) (hB : B ≤ 2 ^ (970 : Int)) : ∀ z ∈ v, z.Small := by
  intro z hz
  obtain ⟨hre, him⟩ := Complex.isFinite_iff.mp (h.isFinite z hz)
  obtain ⟨hre', him'⟩ := h.abs_value_le hB hz
  have hmono : (2 : ℚ) ^ (485 : Int) ≤ 2 ^ (490 : Int) :=
    zpow_le_zpow_right₀ one_le_two (by decide)
  exact ⟨⟨hre, hre'.trans hmono⟩, ⟨him, him'.trans hmono⟩⟩

/-! ### Weights -/

/-- What is known of a sum of squares after `j` of them, and of what is still to be added. -/
theorem foldl_weight_spec (keep : Nat → Bool) (l : List (Complex × Nat))
    (hl : ∀ e ∈ l, e.1.Small) {acc : Float} {j : Nat} (hacc : acc.isFinite = true)
    (hnonneg : 0 ≤ value acc) (hle : value acc ≤ j * 2 ^ (981 : Int))
    (hlen : j + l.length ≤ 2 ^ 30) {total : Float}
    (htotal : l.foldl (fun acc e => if keep e.2 then acc + e.1.normSq else acc) acc = total) :
    total.isFinite = true ∧ value acc ≤ value total ∧ value total ≤ 2 ^ (1011 : Int) ∧
      ∀ e ∈ l, keep e.2 = true → value e.1.normSq ≤ value total := by
  induction l generalizing acc j with
  | nil =>
    subst htotal
    refine ⟨hacc, le_rfl, hle.trans ?_, by simp⟩
    have hj : (j : ℚ) ≤ 2 ^ 30 := by exact_mod_cast hlen
    calc (j : ℚ) * 2 ^ (981 : Int) ≤ 2 ^ 30 * 2 ^ (981 : Int) :=
          mul_le_mul_of_nonneg_right hj (two_zpow_pos _).le
      _ = 2 ^ (1011 : Int) := natCast_mul_two_zpow 30 981
  | cons e l ih =>
    rw [List.length_cons] at hlen
    have hstep : ((j + 1 : Nat) : ℚ) * 2 ^ (981 : Int) = j * 2 ^ (981 : Int) + 2 ^ (981 : Int) := by
      rw [Nat.cast_succ, add_mul, one_mul]
    have htail := fun e' he' => hl e' (List.mem_cons_of_mem e he')
    by_cases hkeep : keep e.2 = true
    · rw [List.foldl_cons, if_pos hkeep] at htotal
      obtain ⟨hsq, hsq0, hsq1, -, -⟩ := (hl e (List.mem_cons_self ..)).normSq
      have hsum0 := add_nonneg hnonneg hsq0
      have hsum : |value acc + value e.1.normSq| ≤ (j + 1 : Nat) * 2 ^ (981 : Int) := by
        rw [abs_of_nonneg hsum0, hstep]
        exact add_le_add hle hsq1
      have hgrid : OnGrid ((j + 1 : Nat) * 2 ^ (981 : Int)) :=
        onGrid_natCast_mul (by omega) (by decide)
      have hlt : ((j + 1 : Nat) : ℚ) * 2 ^ (981 : Int) < 2 ^ (1023 : Int) := by
        have hj : ((j + 1 : Nat) : ℚ) ≤ 2 ^ 30 := by
          have : j + 1 ≤ 2 ^ 30 := by omega
          exact_mod_cast this
        calc ((j + 1 : Nat) : ℚ) * 2 ^ (981 : Int) ≤ 2 ^ 30 * 2 ^ (981 : Int) :=
              mul_le_mul_of_nonneg_right hj (two_zpow_pos _).le
          _ = 2 ^ (1011 : Int) := natCast_mul_two_zpow 30 981
          _ < 2 ^ (1023 : Int) := zpow_lt_zpow_right₀ one_lt_two (by decide)
      have hround := isRounding_add hacc hsq (hsum.trans_lt hlt)
      have hfirst := hround.le_of_le _ (onGrid_value hacc) (le_add_of_nonneg_right hsq0)
      have hsecond := hround.le_of_le _ (onGrid_value hsq) (le_add_of_nonneg_left hnonneg)
      obtain ⟨hfinite, hge, hbound, hrest⟩ := ih htail hround.isFinite (hnonneg.trans hfirst)
        ((le_abs_self _).trans (hround.abs_value_le hgrid hsum)) (by omega) htotal
      refine ⟨hfinite, hfirst.trans hge, hbound, ?_⟩
      rintro e' (_ | ⟨_, he'⟩) hkeep'
      · exact hsecond.trans hge
      · exact hrest e' he' hkeep'
    · rw [List.foldl_cons, if_neg hkeep] at htotal
      have hle' : value acc ≤ (j + 1 : Nat) * 2 ^ (981 : Int) := by
        rw [hstep]
        exact hle.trans (le_add_of_nonneg_right (two_zpow_pos _).le)
      obtain ⟨hfinite, hge, hbound, hrest⟩ := ih htail hacc hnonneg hle' (by omega) htotal
      refine ⟨hfinite, hge, hbound, ?_⟩
      rintro e' (_ | ⟨_, he'⟩) hkeep'
      · exact absurd hkeep' hkeep
      · exact hrest e' he' hkeep'

/-- **Weights** of states of moderate size are finite and not negative, and at least as large as
each square in them. -/
theorem weight_spec (keep : Nat → Bool) (hv : ∀ z ∈ v, z.Small) (hsize : v.size ≤ 2 ^ 30) :
    (weight keep v).isFinite = true ∧ 0 ≤ value (weight keep v) ∧
      value (weight keep v) ≤ 2 ^ (1011 : Int) ∧
      ∀ z i, (z, i) ∈ v.toList.zipIdx → keep i = true →
        value z.normSq ≤ value (weight keep v) := by
  have hsmall : ∀ e ∈ v.toList.zipIdx, e.1.Small := by
    intro e he
    exact hv e.1 (Array.mem_toList_iff.mp (List.fst_mem_of_mem_zipIdx he))
  have hstart : value 0.0 ≤ (0 : Nat) * 2 ^ (981 : Int) := by
    rw [value_zero, Nat.cast_zero, zero_mul]
  obtain ⟨hfinite, hge, hle, hentries⟩ := foldl_weight_spec keep v.toList.zipIdx hsmall
    finite_zero value_zero.ge hstart (by simpa using hsize) rfl
  exact ⟨hfinite, value_zero.symm.trans_le hge, hle, fun z i he => hentries (z, i) he⟩

/-! ### Normalised states -/

/-- The parts of a state are bounded by its weight, up to what underflows. -/
theorem sq_le_weight (hv : ∀ z ∈ v, z.Small) (hsize : v.size ≤ 2 ^ 30) {z : Complex} (hz : z ∈ v) :
    value z.re ^ 2 ≤ 4 / 3 * (value (weight (fun _ => true) v) + 2 ^ (-1075 : Int)) ∧
      value z.im ^ 2 ≤ 4 / 3 * (value (weight (fun _ => true) v) + 2 ^ (-1075 : Int)) := by
  obtain ⟨i, hi, rfl⟩ := Array.mem_iff_getElem.mp hz
  have hmem : (v[i], i) ∈ v.toList.zipIdx := by
    rw [List.mem_iff_getElem]
    exact ⟨i, by simpa using hi, by simp⟩
  have hle := (weight_spec (fun _ => true) hv hsize).2.2.2 _ _ hmem rfl
  obtain ⟨-, -, -, hre, him⟩ := (hv _ hz).normSq
  exact ⟨hre.trans (mul_le_mul_of_nonneg_left (add_le_add_left hle _) (by norm_num)),
    him.trans (mul_le_mul_of_nonneg_left (add_le_add_left hle _) (by norm_num))⟩

/-- A part divided by the norm is at most 2. -/
theorem div_norm_spec {x norm : Float} {W : ℚ} (hx : x.isFinite = true)
    (hnorm : norm.isFinite = true) (hpos : 0 < value norm) (hW : OnGrid W)
    (hle : value x ^ 2 ≤ 4 / 3 * (W + 2 ^ (-1075 : Int))) (hlow : W ≤ 2 * value norm ^ 2)
    (hhigh : value norm ^ 2 ≤ 2 * W) : (x / norm).isFinite = true ∧ |value (x / norm)| ≤ 2 := by
  have hWpos : 0 < W := by
    have := pow_pos hpos 2
    linarith
  -- half of the least number is at most half of the weight
  have hleast : (2 : ℚ) ^ (-1075 : Int) ≤ 1 / 2 * W := by
    have hsplit : (2 : ℚ) ^ (-1075 : Int) = 1 / 2 * 2 ^ (-1074 : Int) := by
      rw [show (-1075 : Int) = -1074 - 1 by rfl, zpow_sub_one₀ two_ne_zero]
      ring
    rw [hsplit]
    exact mul_le_mul_of_nonneg_left (hW.least_le hWpos) (by norm_num)
  have hquot : |value x / value norm| ≤ 2 := by
    rw [abs_div, abs_of_pos hpos, div_le_iff₀ hpos]
    refine abs_le_of_sq_le_sq ?_ (by positivity)
    generalize (2 : ℚ) ^ (-1075 : Int) = least at hle hleast
    nlinarith
  have hlt : (2 : ℚ) < 2 ^ (1023 : Int) := by
    have := zpow_lt_zpow_right₀ (one_lt_two (α := ℚ)) (show (1 : Int) < 1023 by decide)
    rwa [zpow_one] at this
  have hround := isRounding_div hx hnorm hpos.ne' (hquot.trans_lt hlt)
  have hgrid : OnGrid 2 := by
    have := onGrid_two_zpow (e := 1) (by decide)
    rwa [zpow_one] at this
  exact ⟨hround.isFinite, hround.abs_value_le hgrid hquot⟩

theorem mass_le_eight {z : Complex} (hre : |value z.re| ≤ 2)
    (him : |value z.im| ≤ 2) : z.mass ≤ 8 := by
  have hsq : ∀ x : Float, |value x| ≤ 2 → toReal x ^ 2 ≤ 4 := by
    intro x hx
    have hcast : |toReal x| ≤ 2 := by
      unfold toReal
      exact_mod_cast hx
    nlinarith [sq_abs (toReal x), abs_nonneg (toReal x)]
  unfold Complex.mass
  linarith [hsq z.re hre, hsq z.im him]

theorem mass_le_of_forall {b : ℝ} (h : ∀ z ∈ v, z.mass ≤ b) : v.mass ≤ v.size * b := by
  have hsum := List.sum_le_card_nsmul (v.toList.map Complex.mass) b (by
    intro r hr
    obtain ⟨z, hz, rfl⟩ := List.mem_map.mp hr
    exact h z (Array.mem_toList_iff.mp hz))
  simpa [mass, nsmul_eq_mul] using hsum

/-- A **normalised state** has a bounded mass, whatever it was before. -/
theorem within_normalize (hv : ∀ z ∈ v, z.Small) (hsize : v.size ≤ 2 ^ 30) :
    (normalize v).Within (2 ^ 33) := by
  obtain ⟨hfinite, hnonneg, -, -⟩ := weight_spec (fun _ => true) hv hsize
  obtain ⟨hnorm, hnorm0, hlow, hhigh⟩ := sqrt_spec hfinite hnonneg
  suffices h : ∀ z ∈ normalize v, z.isFinite = true ∧ |value z.re| ≤ 2 ∧ |value z.im| ≤ 2 by
    refine ⟨fun z hz => (h z hz).1, ?_⟩
    have hmass := mass_le_of_forall fun z hz =>
      mass_le_eight (h z hz).2.1 (h z hz).2.2
    rw [size_normalize] at hmass
    have hcast : (v.size : ℝ) ≤ 2 ^ 30 := by exact_mod_cast hsize
    linarith
  intro z hz
  unfold normalize at hz
  simp only at hz
  split at hz
  · next hpos =>
    have hpos' := (lt_iff_value finite_zero hnorm).mp hpos
    rw [value_zero] at hpos'
    obtain ⟨y, hy, rfl⟩ := Array.mem_map.mp hz
    obtain ⟨hre, him⟩ := sq_le_weight hv hsize hy
    have hgrid := onGrid_value hfinite
    obtain ⟨hre1, hre2⟩ := div_norm_spec (hv y hy).re.isFinite hnorm hpos' hgrid hre hlow hhigh
    obtain ⟨him1, him2⟩ := div_norm_spec (hv y hy).im.isFinite hnorm hpos' hgrid him hlow hhigh
    exact ⟨Complex.isFinite_iff.mpr ⟨hre1, him1⟩, hre2, him2⟩
  · next hpos =>
    -- a weight of zero: all parts are so small that their squares are rounded to zero
    rw [gt_iff_lt, lt_iff_value finite_zero hnorm, value_zero] at hpos
    have hnorm' : value (weight (fun _ => true) v).sqrt = 0 := le_antisymm (not_lt.mp hpos) hnorm0
    have hweight : value (weight (fun _ => true) v) = 0 := by
      rw [hnorm'] at hlow
      linarith
    have hsmall : (4 / 3 : ℚ) * (0 + 2 ^ (-1075 : Int)) ≤ 2 ^ 2 := by
      have hone : (2 : ℚ) ^ (-1075 : Int) ≤ 1 := zpow_le_one_of_nonpos₀ one_le_two (by decide)
      generalize (2 : ℚ) ^ (-1075 : Int) = least at hone ⊢
      linarith
    obtain ⟨hre, him⟩ := sq_le_weight hv hsize hz
    rw [hweight] at hre him
    exact ⟨Complex.isFinite_iff.mpr ⟨(hv z hz).re.isFinite, (hv z hz).im.isFinite⟩,
      abs_le_of_sq_le_sq (hre.trans hsmall) (by norm_num),
      abs_le_of_sq_le_sq (him.trans hsmall) (by norm_num)⟩

/-! ### Probabilities -/

/-- A finite number between 0 and 1. -/
structure IsChance (p : Float) : Prop where
  isFinite : p.isFinite = true
  nonneg : 0 ≤ value p
  le_one : value p ≤ 1

/-- A coin can be tossed with a chance. -/
theorem IsChance.exists_coin {σ : Type} [RandomSource σ] {p : Float} (h : IsChance p) (s : σ) :
    ∃ r, RandomSource.coin p s = .ok r := by
  unfold RandomSource.coin
  by_cases hcertain : (p == 1.0) = true
  · rw [if_pos hcertain]
    exact ⟨_, rfl⟩
  · rw [if_neg hcertain, if_pos]
    · exact ⟨_, rfl⟩
    · rw [beq_iff_value h.isFinite finite_one, value_one] at hcertain
      rw [Bool.and_eq_true, decide_eq_true_iff, decide_eq_true_iff,
        le_iff_value finite_zero h.isFinite, lt_iff_value h.isFinite finite_one, value_one]
      exact ⟨h.nonneg, lt_of_le_of_ne h.le_one hcertain⟩

theorem isChance_clamp {x : Float} (hx : x.isFinite = true) (hnonneg : 0 ≤ value x) :
    IsChance (clamp x) := by
  unfold clamp
  split
  · exact ⟨finite_zero, value_zero.ge, value_zero.trans_le zero_le_one⟩
  · split
    · exact ⟨finite_one, zero_le_one.trans_eq value_one.symm, value_one.le⟩
    · next hle =>
      rw [gt_iff_lt, lt_iff_value finite_one hx, value_one] at hle
      exact ⟨hx, hnonneg, not_lt.mp hle⟩

/-! ### Measurement, reset and damping -/

section Random

variable {σ : Type} [RandomSource σ] {n q : Nat}

theorem small_zero : Complex.zero.Small := by
  have hzero : Small 0.0 := ⟨finite_zero, by
    rw [value_zero, abs_zero]
    exact (two_zpow_pos _).le⟩
  exact ⟨hzero, hzero⟩

theorem within_project (q : Nat) (outcome : Bool) (hv : ∀ z ∈ v, z.Small)
    (hsize : v.size ≤ 2 ^ 30) : (project q outcome v).Within (2 ^ 33) := by
  refine within_normalize (fun z hz => ?_) (by rwa [Kernel.size_onEach])
  obtain ⟨i, hi, rfl⟩ := Array.mem_mapIdx.mp hz
  split
  · exact hv _ (Array.getElem_mem hi)
  · exact small_zero

/-- A **measurement** of a state of moderate mass does not fail. -/
theorem Within.measure (h : v.Within B) (hB : B ≤ 2 ^ (970 : Int)) (hsize : v.size ≤ 2 ^ 30)
    (q : Nat) (s : σ) : ∃ outcome w s', measure q v s = .ok (outcome, w, s') ∧ w.size = v.size ∧
      w.Within (2 ^ 33) := by
  have hsmall := h.small hB
  obtain ⟨hfinite, hnonneg, -, -⟩ := weight_spec (·.testBit q) hsmall hsize
  obtain ⟨⟨outcome, s'⟩, hcoin⟩ := (isChance_clamp hfinite hnonneg).exists_coin s
  refine ⟨outcome, project q outcome v, s', ?_, size_project q outcome v,
    within_project q outcome hsmall hsize⟩
  unfold Amplitudes.measure probabilityOne
  rw [hcoin]
  rfl

theorem gains_swap : Gains (fun a b => (b, a)) B 1 0 := by
  intro a b ha hb _
  exact ⟨hb, ha, by rw [one_mul, add_zero, add_comm]⟩

/-- A **reset** of a state of moderate mass does not fail. -/
theorem Within.reset (h : v.Within B) (hB : B ≤ 2 ^ (970 : Int)) (hn : n ≤ 30) (hq : q < n)
    (hv : v.size = 2 ^ n) (s : σ) :
    ∃ w s', reset q v s = .ok (w, s') ∧ w.size = v.size ∧ w.Within (2 ^ 33) := by
  have hsize : v.size ≤ 2 ^ 30 := hv.trans_le (Nat.pow_le_pow_right (by decide) hn)
  obtain ⟨outcome, w, s', hmeasure, hw, hwithin⟩ := h.measure hB hsize q s
  unfold Amplitudes.reset
  rw [hmeasure]
  cases outcome with
  | false => exact ⟨w, s', rfl, hw, hwithin⟩
  | true =>
    obtain ⟨w', hpairs, hw', hwithin'⟩ :=
      hwithin.onPairs gains_swap zero_le_one le_rfl hq (hw.trans hv)
    refine ⟨w', s', ?_, hw'.trans hw, ?_⟩
    · simp only [bind, Except.bind, if_true, hpairs]
      rfl
    · rwa [mul_zero, add_zero, one_mul] at hwithin'

/-- What is left of an amplitude is at most twice as large. -/
theorem small_scaled {gamma : Float} (hgamma : IsChance gamma) {z : Complex} (hz : z.Small)
    (hre : |value z.re| ≤ 2 ^ (485 : Int)) (him : |value z.im| ≤ 2 ^ (485 : Int)) :
    (z.scaled (1.0 - gamma).sqrt).Small := by
  have hdiff : |value 1.0 - value gamma| ≤ 2 ^ (0 : Int) := by
    rw [value_one, zpow_zero, abs_le]
    constructor <;> linarith [hgamma.nonneg, hgamma.le_one]
  have hround := isRounding_sub finite_one hgamma.isFinite
    (hdiff.trans_lt (zpow_lt_zpow_right₀ one_lt_two (by decide)))
  have hrest := hround.le_of_le 0 onGrid_zero (by rw [value_one]; linarith [hgamma.le_one])
  have hrest' := (abs_le.mp (hround.abs_value_le (onGrid_two_zpow (by decide)) hdiff)).2
  obtain ⟨hkeep, hkeep0, -, hkeep2⟩ := sqrt_spec hround.isFinite hrest
  have hbound : |value (1.0 - gamma).sqrt| ≤ 2 := by
    refine abs_le_of_sq_le_sq ?_ (by norm_num)
    rw [zpow_zero] at hrest'
    linarith
  have hpart : ∀ x : Float, x.isFinite = true → |value x| ≤ 2 ^ (485 : Int) →
      Small (x * (1.0 - gamma).sqrt) := by
    intro x hx hle
    have hprod : |value x * value (1.0 - gamma).sqrt| ≤ 2 ^ (490 : Int) := by
      rw [abs_mul]
      calc |value x| * |value (1.0 - gamma).sqrt| ≤ 2 ^ (485 : Int) * 2 :=
            mul_le_mul hle hbound (abs_nonneg _) (two_zpow_pos _).le
        _ = 2 ^ (486 : Int) := (zpow_add_one₀ two_ne_zero 485).symm
        _ ≤ 2 ^ (490 : Int) := zpow_le_zpow_right₀ one_le_two (by decide)
    have hround' := isRounding_mul hx hkeep
      (hprod.trans_lt (zpow_lt_zpow_right₀ one_lt_two (by decide)))
    exact ⟨hround'.isFinite, hround'.abs_value_le (onGrid_two_zpow (by decide)) hprod⟩
  exact ⟨hpart _ hz.re.isFinite hre, hpart _ hz.im.isFinite him⟩

/-- **Damping** of a state of moderate mass does not fail. -/
theorem Within.damp (h : v.Within B) (hB : B ≤ 2 ^ (970 : Int)) (hn : n ≤ 30) (hq : q < n)
    (hv : v.size = 2 ^ n) {gamma : Float} (hgamma : IsChance gamma) (s : σ) :
    ∃ w s', damp q gamma v s = .ok (w, s') ∧ w.size = v.size ∧ w.Within (2 ^ 33) := by
  have hsize : v.size ≤ 2 ^ 30 := hv.trans_le (Nat.pow_le_pow_right (by decide) hn)
  have hsmall := h.small hB
  obtain ⟨hfinite, hnonneg, hle, -⟩ := weight_spec (·.testBit q) hsmall hsize
  have hprod0 := mul_nonneg hgamma.nonneg hnonneg
  have hprod : |value gamma * value (weight (·.testBit q) v)| < 2 ^ (1023 : Int) := by
    rw [abs_of_nonneg hprod0]
    calc value gamma * value (weight (·.testBit q) v)
        ≤ 1 * 2 ^ (1011 : Int) := mul_le_mul hgamma.le_one hle hnonneg zero_le_one
      _ < 2 ^ (1023 : Int) := by
        rw [one_mul]
        exact zpow_lt_zpow_right₀ one_lt_two (by decide)
  have hround := isRounding_mul hgamma.isFinite hfinite hprod
  obtain ⟨⟨jump, s'⟩, hcoin⟩ := (isChance_clamp hround.isFinite
    (hround.le_of_le 0 onGrid_zero hprod0)).exists_coin s
  unfold Amplitudes.damp probabilityOne
  rw [hcoin]
  cases jump with
  | false =>
    refine ⟨_, s', rfl, by rw [size_normalize, Kernel.size_onEach], ?_⟩
    refine within_normalize (fun z hz => ?_) (by rwa [Kernel.size_onEach])
    obtain ⟨i, hi, rfl⟩ := Array.mem_mapIdx.mp hz
    have hmem := Array.getElem_mem hi
    split
    · obtain ⟨hre, him⟩ := h.abs_value_le hB hmem
      exact small_scaled hgamma (hsmall _ hmem) hre him
    · exact hsmall _ hmem
  | true =>
    obtain ⟨w, hlower, hw⟩ := Kernel.exists_lower Complex.zero hq hv
    refine ⟨normalize w, s', ?_, (size_normalize w).trans hw, ?_⟩
    · simp only [bind, Except.bind, if_true, hlower]
      rfl
    · refine within_normalize (fun z hz => ?_) (hw.trans_le hsize)
      obtain hmem | rfl := Kernel.mem_lower hlower hz
      · exact hsmall z hmem
      · exact small_zero

end Random

end Amplitudes

end OneWay
