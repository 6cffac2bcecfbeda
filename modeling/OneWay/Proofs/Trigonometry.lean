import OneWay.Proofs.Accuracy
import OneWay.State.Vector

/-!
# Computed cosines and sines

`Trigonometry.Accurate` says how good the cosine and the sine of a machine are: a unit in the last
place of 1 at most for finite angles, and no number for others. So a computed point of the circle
has almost the absolute value 1 (`Trigonometry.Accurate.circle`), and the angle that is missed where
the sum of two angles is rounded bounds how far the product of their points is missed
(`Trigonometry.Accurate.turn`).

Functions that are as good as that exist: those of the reals, rounded
(`Trigonometry.accurate_ideal`).
-/

namespace OneWay

open Binary64

/-- Cosine and sine are right up to `2 ^ -52` at finite angles, and no numbers at others. -/
structure Trigonometry.Accurate (t : Trigonometry) : Prop where
  cos_isFinite : ∀ x : Float, x.isFinite = true → (t.cos x).isFinite = true
  sin_isFinite : ∀ x : Float, x.isFinite = true → (t.sin x).isFinite = true
  cos_near : ∀ x : Float, x.isFinite = true →
    |toReal (t.cos x) - Real.cos (toReal x)| ≤ 2 ^ (-52 : Int)
  sin_near : ∀ x : Float, x.isFinite = true →
    |toReal (t.sin x) - Real.sin (toReal x)| ≤ 2 ^ (-52 : Int)
  cos_isNaN : ∀ x : Float, x.isFinite = false → (t.cos x).isNaN = true
  sin_isNaN : ∀ x : Float, x.isFinite = false → (t.sin x).isNaN = true

namespace Trigonometry.Accurate

variable {t : Trigonometry} {x y z : Float}

theorem abs_cos_le (ht : t.Accurate) (hx : x.isFinite = true) :
    |toReal (t.cos x)| ≤ 1 + 2 ^ (-52 : Int) := by
  have hnear := ht.cos_near x hx
  have := abs_sub_abs_le_abs_sub (toReal (t.cos x)) (Real.cos (toReal x))
  linarith [Real.abs_cos_le_one (toReal x)]

theorem abs_sin_le (ht : t.Accurate) (hx : x.isFinite = true) :
    |toReal (t.sin x)| ≤ 1 + 2 ^ (-52 : Int) := by
  have hnear := ht.sin_near x hx
  have := abs_sub_abs_le_abs_sub (toReal (t.sin x)) (Real.sin (toReal x))
  linarith [Real.abs_sin_le_one (toReal x)]

/-- A computed **point of the circle** is hardly further out than the circle. -/
theorem circle (ht : t.Accurate) (hx : x.isFinite = true) :
    toReal (t.cos x) ^ 2 + toReal (t.sin x) ^ 2 ≤ 1 + 2 ^ (-49 : Int) := by
  have hone := Real.cos_sq_add_sin_sq (toReal x)
  have hpart : ∀ r s : ℝ, |r - s| ≤ 2 ^ (-52 : Int) → |s| ≤ 1 →
      r ^ 2 ≤ s ^ 2 + 3 * 2 ^ (-52 : Int) := by
    intro r s hnear hs
    have hunit : (2 : ℝ) ^ (-52 : Int) ≤ 1 := by norm_num
    rw [abs_le] at hnear hs
    nlinarith
  have hcos := hpart _ _ (ht.cos_near x hx) (Real.abs_cos_le_one _)
  have hsin := hpart _ _ (ht.sin_near x hx) (Real.abs_sin_le_one _)
  have heps : (6 : ℝ) * 2 ^ (-52 : Int) ≤ 2 ^ (-49 : Int) := by norm_num
  linarith

theorem near_mul {r r' s s' : ℝ} (hr : |r - s| ≤ 2 ^ (-52 : Int))
    (hr' : |r' - s'| ≤ 2 ^ (-52 : Int)) (hs : |s| ≤ 1) (hs' : |s'| ≤ 1) : |r * r' - s * s'| ≤ 3 * 2 ^ (-52 : Int) := by
  have hunit : (2 : ℝ) ^ (-52 : Int) ≤ 1 := by norm_num
  have hsplit : r * r' - s * s' = (r - s) * (r' - s') + (r - s) * s' + s * (r' - s') := by ring
  have hfirst : |(r - s) * (r' - s')| ≤ 2 ^ (-52 : Int) := by
    rw [abs_mul]
    exact (mul_le_mul hr (hr'.trans hunit) (abs_nonneg _) (by positivity)).trans (mul_one _).le
  have hsecond : |(r - s) * s'| ≤ 2 ^ (-52 : Int) := by
    rw [abs_mul]
    exact (mul_le_mul hr hs' (abs_nonneg _) (by positivity)).trans (mul_one _).le
  have hthird : |s * (r' - s')| ≤ 2 ^ (-52 : Int) := by
    rw [abs_mul]
    exact (mul_le_mul hs hr' (abs_nonneg _) zero_le_one).trans (one_mul _).le
  rw [hsplit]
  linarith [abs_add_le ((r - s) * (r' - s') + (r - s) * s') (s * (r' - s')),
    abs_add_le ((r - s) * (r' - s')) ((r - s) * s')]

/-- The chord between two points of the circle. -/
theorem chord_le (α β γ : ℝ) :
    (Real.cos (γ - α) - Real.cos β) ^ 2 + (Real.sin (γ - α) - Real.sin β) ^ 2
      ≤ (2 * min 1 (|γ - (α + β)| / 2)) ^ 2 := by
  have hchord : (Real.cos (γ - α) - Real.cos β) ^ 2 + (Real.sin (γ - α) - Real.sin β) ^ 2
      = 2 - 2 * Real.cos (γ - (α + β)) := by
    have hdiff : γ - (α + β) = (γ - α) - β := by ring
    rw [hdiff, Real.cos_sub (γ - α) β]
    linear_combination Real.cos_sq_add_sin_sq (γ - α) + Real.cos_sq_add_sin_sq β
  rw [hchord]
  rcases min_choice 1 (|γ - (α + β)| / 2) with h | h
  · rw [h]
    linarith [Real.neg_one_le_cos (γ - (α + β))]
  · rw [h, mul_div_cancel₀ _ two_ne_zero, sq_abs]
    linarith [Real.one_sub_sq_div_two_le_cos (x := γ - (α + β))]

theorem sum_sq_le_of_near {X Y X' Y' d η : ℝ} (hX : |X - X'| ≤ η) (hY : |Y - Y'| ≤ η)
    (h : X' ^ 2 + Y' ^ 2 ≤ (2 * d) ^ 2) (hd : 0 ≤ d) : X ^ 2 + Y ^ 2 ≤ (2 * (d + η)) ^ 2 := by
  have hX' : |X'| ≤ 2 * d := abs_le_of_sq_le_sq (by nlinarith [sq_nonneg Y']) (by positivity)
  have hY' : |Y'| ≤ 2 * d := abs_le_of_sq_le_sq (by nlinarith [sq_nonneg X']) (by positivity)
  have hη : 0 ≤ η := (abs_nonneg _).trans hX
  have hcross : ∀ r s : ℝ, |r| ≤ 2 * d → |s| ≤ η → r * s ≤ 2 * d * η := by
    intro r s hr hs
    calc r * s ≤ |r * s| := le_abs_self _
      _ = |r| * |s| := abs_mul ..
      _ ≤ 2 * d * η := mul_le_mul hr hs (abs_nonneg _) (by positivity)
  have hsqX : (X - X') ^ 2 ≤ η ^ 2 := sq_le_sq' (abs_le.mp hX).1 (abs_le.mp hX).2
  have hsqY : (Y - Y') ^ 2 ≤ η ^ 2 := sq_le_sq' (abs_le.mp hY).1 (abs_le.mp hY).2
  have hcrossX := hcross X' (X - X') hX' hX
  have hcrossY := hcross Y' (Y - Y') hY' hY
  calc X ^ 2 + Y ^ 2 = (X' ^ 2 + Y' ^ 2) + 2 * (X' * (X - X') + Y' * (Y - Y'))
        + ((X - X') ^ 2 + (Y - Y') ^ 2) := by ring
    _ ≤ (2 * d) ^ 2 + 2 * (2 * d * η + 2 * d * η) + (η ^ 2 + η ^ 2) := by linarith
    _ ≤ (2 * (d + η)) ^ 2 := by nlinarith

/-- How far the point of a **sum of angles** is missed, turned back by one of them, against the
point of the other. -/
theorem turn (ht : t.Accurate) (hx : x.isFinite = true) (hy : y.isFinite = true)
    (hz : z.isFinite = true) {d : ℝ} (hd : min 1 (|toReal z - (toReal x + toReal y)| / 2) = d) :
    (toReal (t.cos x) * toReal (t.cos z) + toReal (t.sin x) * toReal (t.sin z)
        - toReal (t.cos y)) ^ 2
      + (toReal (t.cos x) * toReal (t.sin z) - toReal (t.sin x) * toReal (t.cos z)
        - toReal (t.sin y)) ^ 2 ≤ (2 * (d + 2 ^ (-49 : Int))) ^ 2 := by
  set α := toReal x
  set β := toReal y
  set γ := toReal z
  have hchord := chord_le α β γ
  rw [hd] at hchord
  have hd0 : 0 ≤ d := by
    rw [← hd]
    positivity
  have hcc := near_mul (ht.cos_near x hx) (ht.cos_near z hz) (Real.abs_cos_le_one _)
    (Real.abs_cos_le_one _)
  have hss := near_mul (ht.sin_near x hx) (ht.sin_near z hz) (Real.abs_sin_le_one _)
    (Real.abs_sin_le_one _)
  have hcs := near_mul (ht.cos_near x hx) (ht.sin_near z hz) (Real.abs_cos_le_one _)
    (Real.abs_sin_le_one _)
  have hsc := near_mul (ht.sin_near x hx) (ht.cos_near z hz) (Real.abs_sin_le_one _)
    (Real.abs_cos_le_one _)
  have hc := ht.cos_near y hy
  have hs := ht.sin_near y hy
  have hcos : Real.cos (γ - α) = Real.cos α * Real.cos γ + Real.sin α * Real.sin γ := by
    rw [Real.cos_sub]
    ring
  have hsin : Real.sin (γ - α) = Real.cos α * Real.sin γ - Real.sin α * Real.cos γ := by
    rw [Real.sin_sub]
    ring
  have heps : (7 : ℝ) * 2 ^ (-52 : Int) ≤ 2 ^ (-49 : Int) := by norm_num
  -- both coordinates are missed by seven roundings at most
  have hX : |toReal (t.cos x) * toReal (t.cos z) + toReal (t.sin x) * toReal (t.sin z)
      - toReal (t.cos y) - (Real.cos (γ - α) - Real.cos β)| ≤ 2 ^ (-49 : Int) := by
    rw [hcos]
    rw [abs_le] at hcc hss hc ⊢
    constructor <;> linarith
  have hY : |toReal (t.cos x) * toReal (t.sin z) - toReal (t.sin x) * toReal (t.cos z)
      - toReal (t.sin y) - (Real.sin (γ - α) - Real.sin β)| ≤ 2 ^ (-49 : Int) := by
    rw [hsin]
    rw [abs_le] at hcs hsc hs ⊢
    constructor <;> linarith
  exact sum_sq_le_of_near hX hY hchord hd0

/-! ### Unit complex numbers -/

/-- A product by 1 is exact. -/
theorem one_mul_spec (hx : x.isFinite = true) (hsize : |value x| < 2 ^ (1023 : Int)) :
    (1.0 * x).isFinite = true ∧ toReal (1.0 * x) = toReal x := by
  have hprod : value 1.0 * value x = value x := by rw [value_one, one_mul]
  have hround := isRounding_mul finite_one hx (by rwa [hprod])
  rw [hprod] at hround
  exact ⟨hround.isFinite, by rw [toReal, hround.value_eq (onGrid_value hx), toReal]⟩

theorem unit_spec (ht : t.Accurate) (hx : x.isFinite = true) :
    (t.unit x).re.isFinite = true ∧ (t.unit x).im.isFinite = true ∧
      toReal (t.unit x).re = toReal (t.cos x) ∧ toReal (t.unit x).im = toReal (t.sin x) := by
  have hsize : ∀ y : Float, |toReal y| ≤ 1 + 2 ^ (-52 : Int) → |value y| < 2 ^ (1023 : Int) := by
    intro y hy
    have hlt : |toReal y| < 2 ^ (1023 : Int) := calc
      |toReal y| ≤ 1 + 2 ^ (-52 : Int) := hy
      _ < 2 ^ (2 : Int) := by norm_num
      _ < 2 ^ (1023 : Int) := zpow_lt_zpow_right₀ one_lt_two (by decide)
    unfold toReal at hlt
    exact_mod_cast hlt
  obtain ⟨hre, hre'⟩ := one_mul_spec (ht.cos_isFinite x hx) (hsize _ (ht.abs_cos_le hx))
  obtain ⟨him, him'⟩ := one_mul_spec (ht.sin_isFinite x hx) (hsize _ (ht.abs_sin_le hx))
  exact ⟨hre, him, hre', him'⟩

end Trigonometry.Accurate

/-! ### A machine that is accurate -/

theorem exists_value_eq {m : Nat} (hm : m < 2 ^ 53) :
    ∃ x : Float, x.isFinite = true ∧ value x = m * 2 ^ (-52 : Int) := by
  rcases Nat.eq_zero_or_pos m with rfl | hpos
  · exact ⟨0.0, finite_zero, by rw [value_zero, Nat.cast_zero, zero_mul]⟩
  · have hsize : (m : ℚ) * 2 ^ (-52 : Int) < 2 ^ (1023 : Int) := by
      have hm' : (m : ℚ) < 2 ^ (53 : Nat) := by exact_mod_cast hm
      calc (m : ℚ) * 2 ^ (-52 : Int) < 2 ^ (53 : Nat) * 2 ^ (-52 : Int) :=
            mul_lt_mul_of_pos_right hm' (two_zpow_pos _)
        _ = 2 ^ (1 : Int) := by rw [← zpow_natCast, ← zpow_add₀ two_ne_zero]; rfl
        _ ≤ 2 ^ (1023 : Int) := zpow_le_zpow_right₀ one_le_two (by decide)
    have hround := isRounding_round_exact .positive hpos hsize
    rw [unitOf, one_mul] at hround
    exact ⟨_, hround.isFinite, hround.value_eq (onGrid_natCast_mul hm (by decide))⟩

/-- The number is finite, and off a real number by a unit in the last place of 1 at most. -/
structure Approximates (x : Float) (r : ℝ) : Prop where
  isFinite : x.isFinite = true
  near : |toReal x - r| ≤ 2 ^ (-52 : Int)

theorem exists_approximates {r : ℝ} (hr : |r| ≤ 1) : ∃ x, Approximates x r := by
  set m := ⌊|r| * 2 ^ 52⌋₊
  have hlow : (m : ℝ) ≤ |r| * 2 ^ 52 := Nat.floor_le (by positivity)
  have hhigh : |r| * 2 ^ 52 < m + 1 := Nat.lt_floor_add_one _
  have hm : m < 2 ^ 53 := by
    have hle : (m : ℝ) < 2 ^ 53 := by linarith
    exact_mod_cast hle
  obtain ⟨x, hx, hvalue⟩ := exists_value_eq hm
  have hreal : toReal x = m * 2 ^ (-52 : Int) := by
    rw [toReal, hvalue]
    push_cast
    rfl
  have hnear : |toReal x - (|r|)| ≤ 2 ^ (-52 : Int) := by
    rw [hreal, abs_le]
    norm_num at hlow hhigh ⊢
    constructor <;> linarith
  rcases abs_cases r with ⟨habs, -⟩ | ⟨habs, -⟩
  · exact ⟨x, hx, habs ▸ hnear⟩
  · refine ⟨-x, (isFinite_neg x).trans hx, ?_⟩
    rw [toReal_neg, ← abs_neg]
    convert hnear using 2
    rw [habs]
    ring

/-- A function on the reals as a machine may compute it: close by at finite numbers, and no number
at others. -/
noncomputable def rounded (f : ℝ → ℝ) (hf : ∀ r, |f r| ≤ 1) (x : Float) : Float :=
  if x.isFinite then (exists_approximates (hf (toReal x))).choose else 0.0 / 0.0

theorem approximates_rounded {f : ℝ → ℝ} (hf : ∀ r, |f r| ≤ 1) {x : Float}
    (hx : x.isFinite = true) : Approximates (rounded f hf x) (f (toReal x)) := by
  rw [rounded, if_pos hx]
  exact (exists_approximates (hf (toReal x))).choose_spec

theorem isNaN_rounded {f : ℝ → ℝ} (hf : ∀ r, |f r| ≤ 1) {x : Float} (hx : x.isFinite = false) :
    (rounded f hf x).isNaN = true := by
  rw [rounded, if_neg (by rw [hx]; decide)]
  decide +kernel

namespace Trigonometry

/-- Cosine and sine of the reals, rounded. -/
noncomputable def ideal : Trigonometry where
  cos := rounded Real.cos Real.abs_cos_le_one
  sin := rounded Real.sin Real.abs_sin_le_one

theorem accurate_ideal : ideal.Accurate where
  cos_isFinite _ hx := (approximates_rounded Real.abs_cos_le_one hx).isFinite
  sin_isFinite _ hx := (approximates_rounded Real.abs_sin_le_one hx).isFinite
  cos_near _ hx := (approximates_rounded Real.abs_cos_le_one hx).near
  sin_near _ hx := (approximates_rounded Real.abs_sin_le_one hx).near
  cos_isNaN _ hx := isNaN_rounded Real.abs_cos_le_one hx
  sin_isNaN _ hx := isNaN_rounded Real.abs_sin_le_one hx

end Trigonometry

end OneWay
