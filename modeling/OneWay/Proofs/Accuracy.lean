import OneWay.Proofs.Value

/-!
# Errors of sums and products

`Tracks R k x v` says that the number `x` is the real number `v` up to `k` roundings of numbers of
the size `R`. Sums, differences and products of numbers that track real numbers track the sums,
differences and products of these, with errors that add up.
-/

namespace OneWay.Binary64

variable {x y : Float}

/-- The value as a real number. -/
noncomputable def toReal (x : Float) : ℝ := (value x : ℚ)

@[simp] theorem toReal_neg (x : Float) : toReal (-x) = -toReal x := by
  rw [toReal, value_neg, Rat.cast_neg, toReal]

theorem toReal_zero : toReal 0.0 = 0 := by rw [toReal, value_zero, Rat.cast_zero]

/-- The relative error of one rounding. -/
noncomputable def roundoff : ℝ := 2 ^ (-53 : Int)

theorem roundoff_pos : 0 < roundoff := zpow_pos two_pos _

theorem roundoff_le : roundoff ≤ 1 / 4096 := by
  unfold roundoff
  norm_num

/-- A relative error that a thousand roundings stay below. -/
noncomputable def slack : ℝ := 2 ^ (-43 : Int)

theorem slack_pos : 0 < slack := zpow_pos two_pos _

/-- Half of the error of a computed sum. -/
noncomputable def halfError (x y : Float) : ℝ := |toReal (x + y) - (toReal x + toReal y)| / 2

/-- Sizes at which neither overflow nor underflow matters. -/
structure Moderate (R : ℝ) : Prop where
  low : 2 ^ (-500 : Int) ≤ R
  high : R ≤ 2 ^ (500 : Int)

namespace Moderate

variable {R : ℝ}

theorem pos (h : Moderate R) : 0 < R := (zpow_pos two_pos _).trans_le h.low

/-- Half of the least number is small against the error of a rounding. -/
theorem least_le (h : Moderate R) : 2 ^ (-1075 : Int) ≤ 1 / 2 * (roundoff * R) := by
  have hsplit : (2 : ℝ) ^ (-554 : Int) = 1 / 2 * (roundoff * 2 ^ (-500 : Int)) := by
    rw [roundoff, ← zpow_add₀ two_ne_zero, one_div, ← zpow_neg_one, ← zpow_add₀ two_ne_zero]
    rfl
  calc (2 : ℝ) ^ (-1075 : Int) ≤ 2 ^ (-554 : Int) := zpow_le_zpow_right₀ one_le_two (by decide)
    _ = 1 / 2 * (roundoff * 2 ^ (-500 : Int)) := hsplit
    _ ≤ 1 / 2 * (roundoff * R) := by
      gcongr
      · exact roundoff_pos.le
      · exact h.low

theorem mul_lt (h : Moderate R) : 2048 * R < 2 ^ (1023 : Int) := by
  have hsplit : (2 : ℝ) ^ (511 : Int) = 2048 * 2 ^ (500 : Int) := by
    rw [show (511 : Int) = 11 + 500 by rfl, zpow_add₀ two_ne_zero]
    norm_num
  calc 2048 * R ≤ 2048 * 2 ^ (500 : Int) := by
        gcongr
        exact h.high
    _ = 2 ^ (511 : Int) := hsplit.symm
    _ < 2 ^ (1023 : Int) := zpow_lt_zpow_right₀ one_lt_two (by decide)

end Moderate

theorem moderate_one : Moderate 1 where
  low := zpow_le_one_of_nonpos₀ one_le_two (by decide)
  high := one_le_zpow₀ one_le_two (by decide)

/-- The number `x` is `v` up to `k` roundings of numbers of the size `R`. -/
structure Tracks (R k : ℝ) (x : Float) (v : ℝ) : Prop where
  isFinite : x.isFinite = true
  near : |toReal x - v| ≤ k * (roundoff * R)

variable {R k l b : ℝ} {v w : ℝ}

theorem tracks_toReal (hx : x.isFinite = true) : Tracks R 0 x (toReal x) :=
  ⟨hx, by rw [sub_self, abs_zero, zero_mul]⟩

theorem Tracks.mono (h : Tracks R k x v) (hR : 0 ≤ R) (hk : k ≤ l) : Tracks R l x v :=
  ⟨h.isFinite, h.near.trans
    (mul_le_mul_of_nonneg_right hk (mul_nonneg roundoff_pos.le hR))⟩

/-- An exact result that is close to a number of moderate size does not overflow. -/
theorem abs_lt_of_near {e : ℚ} (hR : Moderate R) (hk : k ≤ 1000) (hb : b ≤ 1000)
    (hnear : |(e : ℝ) - v| ≤ k * (roundoff * R)) (hv : |v| ≤ b * R) : |e| < 2 ^ (1023 : Int) := by
  have hpos := hR.pos
  have hsmall : k * (roundoff * R) ≤ R := by
    have hbound : roundoff * R ≤ 1 / 4096 * R := mul_le_mul_of_nonneg_right roundoff_le hpos.le
    have hnonneg := mul_nonneg roundoff_pos.le hpos.le
    nlinarith
  have hsize : |(e : ℝ)| ≤ 2048 * R := by
    have := abs_sub_abs_le_abs_sub (e : ℝ) v
    have := mul_le_mul_of_nonneg_right hb hpos.le
    linarith
  have hlt : |(e : ℝ)| < 2 ^ (1023 : Int) := hsize.trans_lt hR.mul_lt
  exact_mod_cast hlt

/-- One rounding of an exact result adds its size to the error, and one for the sizes that were not
quite right and for underflow. -/
theorem IsRounding.tracks {e : ℚ} (h : IsRounding x e) (hR : Moderate R) (hk : k ≤ 1000)
    (hnear : |(e : ℝ) - v| ≤ k * (roundoff * R)) (hv : |v| ≤ b * R) :
    Tracks R (k + b + 1) x v := by
  refine ⟨h.isFinite, ?_⟩
  have hpos := hR.pos
  have hu := roundoff_pos
  have hround : |toReal x - e| ≤ roundoff * |(e : ℝ)| + 2 ^ (-1075 : Int) := by
    have hcast := (Rat.cast_le (K := ℝ)).mpr h.near
    simp only [Rat.cast_abs, Rat.cast_add, Rat.cast_sub, Rat.cast_mul, Rat.cast_zpow,
      Rat.cast_ofNat] at hcast
    exact hcast
  have hsmall : k * (roundoff * R) ≤ 1 / 2 * R := by
    have hbound : roundoff * R ≤ 1 / 4096 * R := mul_le_mul_of_nonneg_right roundoff_le hpos.le
    have hnonneg := mul_nonneg hu.le hpos.le
    nlinarith
  have hsize : |(e : ℝ)| ≤ b * R + 1 / 2 * R := by
    have := abs_sub_abs_le_abs_sub (e : ℝ) v
    linarith
  have hterm : roundoff * |(e : ℝ)| ≤ roundoff * (b * R + 1 / 2 * R) :=
    mul_le_mul_of_nonneg_left hsize hu.le
  have hleast := hR.least_le
  calc |toReal x - v| ≤ |toReal x - e| + |(e : ℝ) - v| := abs_sub_le ..
    _ ≤ roundoff * (b * R + 1 / 2 * R) + 1 / 2 * (roundoff * R) + k * (roundoff * R) := by linarith
    _ = (k + b + 1) * (roundoff * R) := by ring

namespace Tracks

theorem add (hR : Moderate R) (hx : Tracks R k x v) (hy : Tracks R l y w)
    (hsum : |v + w| ≤ b * R) (hk : k + l ≤ 1000 := by norm_num) (hb : b ≤ 1000 := by norm_num) :
    Tracks R (k + l + b + 1) (x + y) (v + w) := by
  have hnear : |((value x + value y : ℚ) : ℝ) - (v + w)| ≤ (k + l) * (roundoff * R) := by
    have hsplit : ((value x + value y : ℚ) : ℝ) - (v + w) = (toReal x - v) + (toReal y - w) := by
      rw [Rat.cast_add, toReal, toReal]
      ring
    rw [hsplit, add_mul]
    exact (abs_add_le _ _).trans (add_le_add hx.near hy.near)
  have hsize := abs_lt_of_near hR hk hb hnear hsum
  exact (isRounding_add hx.isFinite hy.isFinite hsize).tracks hR hk hnear hsum

theorem neg (hx : Tracks R k x v) : Tracks R k (-x) (-v) := by
  refine ⟨(isFinite_neg x).trans hx.isFinite, ?_⟩
  rw [toReal_neg, neg_sub_neg, abs_sub_comm]
  exact hx.near

theorem sub (hR : Moderate R) (hx : Tracks R k x v) (hy : Tracks R l y w)
    (hdiff : |v - w| ≤ b * R) (hk : k + l ≤ 1000 := by norm_num) (hb : b ≤ 1000 := by norm_num) :
    Tracks R (k + l + b + 1) (x - y) (v - w) := by
  rw [float_sub_eq_add_neg]
  rw [sub_eq_add_neg] at hdiff ⊢
  exact add hR hx hy.neg hdiff hk hb

/-- A coefficient times a number. -/
theorem mul (hR : Moderate R) (hy : Tracks 1 l y w) (hw : |w| ≤ 2) (hx : Tracks R k x v)
    (hv : |v| ≤ b * R) (hk : 3 * k + b * l ≤ 1000 := by norm_num)
    (hl : l ≤ 1000 := by norm_num) (hb : b ≤ 500 := by norm_num) :
    Tracks R (3 * k + b * l + 2 * b + 1) (y * x) (w * v) := by
  have hpos := hR.pos
  have hu := roundoff_pos
  have hcoef : |toReal y| ≤ 3 := by
    have hnear := hy.near
    have := abs_sub_abs_le_abs_sub (toReal y) w
    have : l * (roundoff * 1) ≤ 1 := by
      have := roundoff_le
      nlinarith
    linarith
  have hnear : |((value y * value x : ℚ) : ℝ) - w * v| ≤ (3 * k + b * l) * (roundoff * R) := by
    have hsplit : ((value y * value x : ℚ) : ℝ) - w * v
        = toReal y * (toReal x - v) + v * (toReal y - w) := by
      rw [Rat.cast_mul, toReal, toReal]
      ring
    have hfirst : |toReal y * (toReal x - v)| ≤ 3 * (k * (roundoff * R)) := by
      rw [abs_mul]
      exact mul_le_mul hcoef hx.near (abs_nonneg _) (by norm_num)
    have hsecond : |v * (toReal y - w)| ≤ b * R * (l * (roundoff * 1)) := by
      rw [abs_mul]
      exact mul_le_mul hv hy.near (abs_nonneg _) ((abs_nonneg v).trans hv)
    rw [hsplit]
    calc |toReal y * (toReal x - v) + v * (toReal y - w)|
        ≤ |toReal y * (toReal x - v)| + |v * (toReal y - w)| := abs_add_le _ _
      _ ≤ 3 * (k * (roundoff * R)) + b * R * (l * (roundoff * 1)) := add_le_add hfirst hsecond
      _ = (3 * k + b * l) * (roundoff * R) := by ring
  have hprod : |w * v| ≤ 2 * b * R := by
    rw [abs_mul, mul_assoc]
    exact mul_le_mul hw hv (abs_nonneg _) (by norm_num)
  have hsize := abs_lt_of_near hR hk (by linarith) hnear hprod
  exact (isRounding_mul hy.isFinite hx.isFinite hsize).tracks hR hk hnear hprod

end Tracks

end OneWay.Binary64
