import OneWay.Proofs.State.Weight
import OneWay.Proofs.Trigonometry

/-!
# How gates change the mass of a state

In exact arithmetic a gate keeps the mass. Here the operations on pairs of amplitudes are followed
part by part: a computed amplitude is near the exact one (`Complex.Near`), so what a pair gains in
mass is what the matrix of computed coefficients gives it, and little for the roundings
(`Amplitudes.gains_of_near`). The matrix of the general gate has columns that are orthogonal only if
the sum of the two phases is exact, and `Amplitudes.gains_u` says what its error costs.
-/

namespace OneWay

open Binary64

/-! ### Errors of complex operations -/

/-- The parts of `z` are `x` and `y` up to `k` roundings of numbers of the size `R`, and these are
at most `b` times as large as `R`. -/
structure Complex.Near (R k b : ℝ) (z : Complex) (x y : ℝ) : Prop where
  re : Tracks R k z.re x
  im : Tracks R k z.im y
  re_le : |x| ≤ b * R
  im_le : |y| ≤ b * R

namespace Complex.Near

variable {R k l b d x y p r : ℝ} {z w e : Complex}

theorem isFinite (h : Near R k b z x y) : z.isFinite = true :=
  isFinite_iff.mpr ⟨h.re.isFinite, h.im.isFinite⟩

theorem mono (h : Near R k b z x y) (hR : Moderate R) (hk : k ≤ l) : Near R l b z x y :=
  ⟨h.re.mono hR.pos.le hk, h.im.mono hR.pos.le hk, h.re_le, h.im_le⟩

theorem add (hz : Near R k b z x y) (hR : Moderate R) (hw : Near R l d w p r)
    (hk : k + l ≤ 1000 := by norm_num) (hb : b + d ≤ 1000 := by norm_num) :
    Near R (k + l + (b + d) + 1) (b + d) (z + w) (x + p) (y + r) := by
  have hre : |x + p| ≤ (b + d) * R := by linarith [abs_add_le x p, hz.re_le, hw.re_le]
  have him : |y + r| ≤ (b + d) * R := by linarith [abs_add_le y r, hz.im_le, hw.im_le]
  exact ⟨hz.re.add hR hw.re hre hk hb, hz.im.add hR hw.im him hk hb, hre, him⟩

theorem sub (hz : Near R k b z x y) (hR : Moderate R) (hw : Near R l d w p r)
    (hk : k + l ≤ 1000 := by norm_num) (hb : b + d ≤ 1000 := by norm_num) :
    Near R (k + l + (b + d) + 1) (b + d) (z - w) (x - p) (y - r) := by
  have hre : |x - p| ≤ (b + d) * R := by linarith [abs_sub x p, hz.re_le, hw.re_le]
  have him : |y - r| ≤ (b + d) * R := by linarith [abs_sub y r, hz.im_le, hw.im_le]
  exact ⟨hz.re.sub hR hw.re hre hk hb, hz.im.sub hR hw.im him hk hb, hre, him⟩

/-- A real coefficient times a number. -/
theorem scale (hz : Near R k b z x y) (hR : Moderate R) {c : Float} (hc : c.isFinite = true)
    (hc' : |toReal c| ≤ 2) (hk : 3 * k + b * 0 ≤ 1000 := by norm_num)
    (hb : b ≤ 500 := by norm_num) :
    Near R (3 * k + b * 0 + 2 * b + 1) (2 * b) (z.scale c) (toReal c * x) (toReal c * y) := by
  have hsize : ∀ {u : ℝ}, |u| ≤ b * R → |toReal c * u| ≤ 2 * b * R := by
    intro u hu
    rw [abs_mul, mul_assoc]
    exact mul_le_mul hc' hu (abs_nonneg _) (by norm_num)
  exact ⟨(tracks_toReal hc).mul hR hc' hz.re hz.re_le hk (by norm_num) hb,
    (tracks_toReal hc).mul hR hc' hz.im hz.im_le hk (by norm_num) hb, hsize hz.re_le,
    hsize hz.im_le⟩

/-- A coefficient that is a product itself. -/
theorem scaled {c : Float} (hc : c.isFinite = true) (he : e.isFinite = true)
    (hc' : |toReal c| ≤ 1 + 2 ^ (-52 : Int)) (hre : |toReal e.re| ≤ 1 + 2 ^ (-52 : Int))
    (him : |toReal e.im| ≤ 1 + 2 ^ (-52 : Int)) :
    Near 1 5 2 (e.scaled c) (toReal e.re * toReal c) (toReal e.im * toReal c) := by
  obtain ⟨hfin, hfin'⟩ := isFinite_iff.mp he
  have hle : (1 : ℝ) + 2 ^ (-52 : Int) ≤ 2 := by norm_num
  have hbound : |toReal c| ≤ 2 * 1 := by linarith
  have hsize : ∀ {u : ℝ}, |u| ≤ 1 + 2 ^ (-52 : Int) → |u * toReal c| ≤ 2 * 1 := by
    intro u hu
    rw [abs_mul]
    refine (mul_le_mul hu hc' (abs_nonneg _) (by positivity)).trans ?_
    norm_num
  refine ⟨?_, ?_, hsize hre, hsize him⟩
  · refine ((tracks_toReal hfin).mul moderate_one (hre.trans hle) (tracks_toReal hc)
      hbound).mono zero_le_one ?_
    norm_num
  · refine ((tracks_toReal hfin').mul moderate_one (him.trans hle) (tracks_toReal hc)
      hbound).mono zero_le_one ?_
    norm_num

/-- A complex coefficient times a number. -/
theorem mul (he : Near 1 l 2 e p r) (hR : Moderate R) (hz : Near R 0 1 z x y)
    (hl : l ≤ 100 := by norm_num) :
    Near R (2 * l + 11) 4 (e * z) (p * x - r * y) (p * y + r * x) := by
  obtain ⟨hre, him, hp, hr⟩ := he
  rw [mul_one] at hp hr
  obtain ⟨hzre, hzim, hx, hy⟩ := hz
  have hpart : ∀ {c v : Float} {s u : ℝ}, Tracks 1 l c s → |s| ≤ 2 → Tracks R 0 v u →
      |u| ≤ 1 * R → Tracks R (l + 3) (c * v) (s * u) := by
    intro c v s u hc hs hv hu
    refine (hc.mul hR hs hv hu (by linarith) (by linarith) (by norm_num)).mono hR.pos.le ?_
    linarith
  have hsize : ∀ {s u : ℝ}, |s| ≤ 2 → |u| ≤ 1 * R → |s * u| ≤ 2 * (1 * R) := by
    intro s u hs hu
    rw [abs_mul]
    exact mul_le_mul hs hu (abs_nonneg _) (by norm_num)
  have hdiff : |p * x - r * y| ≤ 4 * R := by
    linarith [abs_sub (p * x) (r * y), hsize hp hx, hsize hr hy]
  have hsum : |p * y + r * x| ≤ 4 * R := by
    linarith [abs_add_le (p * y) (r * x), hsize hp hy, hsize hr hx]
  refine ⟨?_, ?_, hdiff, hsum⟩
  · refine ((hpart hre hp hzre hx).sub hR (hpart him hr hzim hy) hdiff (by linarith)
      (by norm_num)).mono hR.pos.le ?_
    linarith
  · refine ((hpart hre hp hzim hy).add hR (hpart him hr hzre hx) hsum (by linarith)
      (by norm_num)).mono hR.pos.le ?_
    linarith

/-- Twice the product of a number and its error is split between their squares. -/
theorem sq_le_of_near {o u d κ : ℝ} (hκ : 0 < κ) (h : |o - u| ≤ d) :
    o ^ 2 ≤ (1 + κ) * u ^ 2 + (1 + κ⁻¹) * d ^ 2 := by
  have hd : (o - u) ^ 2 ≤ d ^ 2 := sq_le_sq' (abs_le.mp h).1 (abs_le.mp h).2
  have hsplit : 2 * (u * (o - u)) ≤ κ * u ^ 2 + κ⁻¹ * (o - u) ^ 2 := by
    have hsq := mul_nonneg (inv_nonneg.mpr hκ.le) (sq_nonneg (κ * u - (o - u)))
    have hexpand : κ⁻¹ * (κ * u - (o - u)) ^ 2
        = κ * u ^ 2 + κ⁻¹ * (o - u) ^ 2 - 2 * (u * (o - u)) := by
      field_simp
      ring
    linarith
  calc o ^ 2 = u ^ 2 + 2 * (u * (o - u)) + (o - u) ^ 2 := by ring
    _ ≤ u ^ 2 + (κ * u ^ 2 + κ⁻¹ * (o - u) ^ 2) + (o - u) ^ 2 := by linarith
    _ = (1 + κ) * u ^ 2 + (1 + κ⁻¹) * (o - u) ^ 2 := by ring
    _ ≤ (1 + κ) * u ^ 2 + (1 + κ⁻¹) * d ^ 2 := by
      gcongr

/-- The error enters the mass as a small factor and a small part of `R ^ 2`. -/
theorem mass_le (h : Near R 64 b z x y) :
    z.mass ≤ (1 + 2 ^ (-46 : Int)) * (x ^ 2 + y ^ 2) + 5 / 8 * 2 ^ (-46 : Int) * R ^ 2 := by
  have hκ : (0 : ℝ) < 2 ^ (-46 : Int) := zpow_pos two_pos _
  have hconst : (1 + ((2 : ℝ) ^ (-46 : Int))⁻¹) * (64 * (roundoff * R)) ^ 2
      ≤ 5 / 16 * 2 ^ (-46 : Int) * R ^ 2 := by
    have hfactor : (1 + ((2 : ℝ) ^ (-46 : Int))⁻¹) * (64 * (roundoff * R)) ^ 2
        = (1 + ((2 : ℝ) ^ (-46 : Int))⁻¹) * (64 * roundoff) ^ 2 * R ^ 2 := by ring
    rw [hfactor]
    refine mul_le_mul_of_nonneg_right ?_ (sq_nonneg R)
    unfold roundoff
    norm_num
  have hre := sq_le_of_near hκ h.re.near
  have him := sq_le_of_near hκ h.im.near
  calc z.mass ≤ ((1 + 2 ^ (-46 : Int)) * x ^ 2 + 5 / 16 * 2 ^ (-46 : Int) * R ^ 2)
        + ((1 + 2 ^ (-46 : Int)) * y ^ 2 + 5 / 16 * 2 ^ (-46 : Int) * R ^ 2) :=
        add_le_add (hre.trans (add_le_add_right hconst _)) (him.trans (add_le_add_right hconst _))
    _ = (1 + 2 ^ (-46 : Int)) * (x ^ 2 + y ^ 2) + 5 / 8 * 2 ^ (-46 : Int) * R ^ 2 := by ring

end Complex.Near

/-! ### Gates that mix two amplitudes -/

/-- A size that bounds amplitudes of a given mass, and is not too small where that vanishes. -/
theorem exists_moderate {n : ℝ} (hn : 0 ≤ n) (hn' : n ≤ 2 ^ (970 : Int)) :
    ∃ R, Moderate R ∧ R ^ 2 = n + 2 ^ (-1000 : Int) := by
  have hpos : (0 : ℝ) < 2 ^ (-1000 : Int) := zpow_pos two_pos _
  refine ⟨Real.sqrt (n + 2 ^ (-1000 : Int)), ⟨?_, ?_⟩, Real.sq_sqrt (by positivity)⟩
  · refine Real.le_sqrt_of_sq_le ?_
    rw [sq, ← zpow_add₀ two_ne_zero]
    exact le_add_of_nonneg_left hn
  · refine Real.sqrt_le_iff.mpr ⟨(zpow_pos two_pos _).le, ?_⟩
    rw [sq, ← zpow_add₀ two_ne_zero]
    calc n + 2 ^ (-1000 : Int) ≤ 2 ^ (970 : Int) + 2 ^ (970 : Int) :=
          add_le_add hn' (zpow_le_zpow_right₀ one_le_two (by decide))
      _ = 2 ^ (970 + 1 : Int) := by rw [zpow_add_one₀ two_ne_zero, mul_two]
      _ ≤ 2 ^ (500 + 500 : Int) := zpow_le_zpow_right₀ one_le_two (by decide)

/-- A finite amplitude with parts of at most a given size. -/
structure Complex.FitsIn (R : ℝ) (z : Complex) : Prop where
  isFinite : z.isFinite = true
  re_le : |toReal z.re| ≤ R
  im_le : |toReal z.im| ≤ R

theorem Complex.fitsIn_of_mass_le {R : ℝ} (hR : 0 ≤ R) {z : Complex} (hz : z.isFinite = true)
    (h : z.mass ≤ R ^ 2) : z.FitsIn R := by
  unfold mass at h
  refine ⟨hz, abs_le_of_sq_le_sq ?_ hR, abs_le_of_sq_le_sq ?_ hR⟩
  · linarith [sq_nonneg (toReal z.im)]
  · linarith [sq_nonneg (toReal z.re)]

theorem Complex.FitsIn.near {R : ℝ} {z : Complex} (h : z.FitsIn R) :
    z.Near R 0 1 (toReal z.re) (toReal z.im) := by
  obtain ⟨hre, him⟩ := isFinite_iff.mp h.isFinite
  exact ⟨tracks_toReal hre, tracks_toReal him, by rw [one_mul]; exact h.re_le,
    by rw [one_mul]; exact h.im_le⟩

/-- What the errors add to the growth of the exact operation. -/
theorem growth_le {g m n κ : ℝ} (hg : g ≤ 5 / 2) (hn : 0 ≤ n) (hκ : 0 ≤ κ) {τ : ℝ} (hτ : 0 ≤ τ)
    (hg0 : 0 ≤ g) (hm : m ≤ g * n) :
    (1 + κ) * m + 5 / 4 * κ * (n + τ) ≤ (g + 4 * κ) * (n + τ) := by
  have hfirst : (1 + κ) * m ≤ (1 + κ) * (g * n) := mul_le_mul_of_nonneg_left hm (by linarith)
  have hsecond : κ * (g * n) ≤ κ * (5 / 2 * n) :=
    mul_le_mul_of_nonneg_left (mul_le_mul_of_nonneg_right hg hn) hκ
  have hthird : 0 ≤ g * τ := mul_nonneg hg0 hτ
  have hfourth : 0 ≤ κ * τ := mul_nonneg hκ hτ
  have hfifth : 0 ≤ κ * n := mul_nonneg hκ hn
  linarith

theorem two_zpow_neg_forty_four : (2 : ℝ) ^ (-44 : Int) = 4 * 2 ^ (-46 : Int) := by norm_num

namespace Amplitudes

variable {B g : ℝ}

/-- An operation on pairs that is right up to roundings and would change the mass by a factor `g` in
exact arithmetic. -/
theorem gains_of_near {f : Complex → Complex → Complex × Complex} (hg0 : 0 ≤ g) (hg : g ≤ 5 / 2)
    (hB : B ≤ 2 ^ (970 : Int))
    (h : ∀ {R : ℝ} {a b : Complex}, Moderate R → a.FitsIn R → b.FitsIn R → ∃ k l x y p r,
      (f a b).1.Near R 64 k x y ∧ (f a b).2.Near R 64 l p r ∧
        x ^ 2 + y ^ 2 + (p ^ 2 + r ^ 2) ≤ g * (a.mass + b.mass)) :
    Gains f B (g + 2 ^ (-44 : Int)) (2 ^ (-1000 : Int)) := by
  intro a b ha hb hmass
  have hn := add_nonneg a.mass_nonneg b.mass_nonneg
  obtain ⟨R, hR, hsq⟩ := exists_moderate hn (hmass.trans hB)
  have hτ : (0 : ℝ) ≤ 2 ^ (-1000 : Int) := (zpow_pos two_pos _).le
  have hfit : a.FitsIn R := Complex.fitsIn_of_mass_le hR.pos.le ha (by
    rw [hsq]
    linarith [b.mass_nonneg])
  have hfit' : b.FitsIn R := Complex.fitsIn_of_mass_le hR.pos.le hb (by
    rw [hsq]
    linarith [a.mass_nonneg])
  obtain ⟨_, _, x, y, p, r, hfirst, hsecond, hexact⟩ := h hR hfit hfit'
  refine ⟨hfirst.isFinite, hsecond.isFinite, ?_⟩
  have hκ : (0 : ℝ) ≤ 2 ^ (-46 : Int) := (zpow_pos two_pos _).le
  calc (f a b).1.mass + (f a b).2.mass
      ≤ ((1 + 2 ^ (-46 : Int)) * (x ^ 2 + y ^ 2) + 5 / 8 * 2 ^ (-46 : Int) * R ^ 2)
        + ((1 + 2 ^ (-46 : Int)) * (p ^ 2 + r ^ 2) + 5 / 8 * 2 ^ (-46 : Int) * R ^ 2) :=
        add_le_add hfirst.mass_le hsecond.mass_le
    _ = (1 + 2 ^ (-46 : Int)) * (x ^ 2 + y ^ 2 + (p ^ 2 + r ^ 2))
        + 5 / 4 * 2 ^ (-46 : Int) * (a.mass + b.mass + 2 ^ (-1000 : Int)) := by
        rw [← hsq]
        ring
    _ ≤ (g + 4 * 2 ^ (-46 : Int)) * (a.mass + b.mass + 2 ^ (-1000 : Int)) :=
        growth_le hg hn hκ hτ hg0 hexact
    _ = (g + 2 ^ (-44 : Int)) * (a.mass + b.mass + 2 ^ (-1000 : Int)) := by
        rw [two_zpow_neg_forty_four]

/-- The same for an operation on single amplitudes. -/
theorem mass_le_of_near {f : Complex → Complex} (hg0 : 0 ≤ g) (hg : g ≤ 5 / 2)
    (hB : B ≤ 2 ^ (970 : Int))
    (h : ∀ {R : ℝ} {z : Complex}, Moderate R → z.FitsIn R → ∃ k x y,
      (f z).Near R 64 k x y ∧ x ^ 2 + y ^ 2 ≤ g * z.mass) {z : Complex} (hz : z.isFinite = true)
    (hmass : z.mass ≤ B) :
    (f z).isFinite = true ∧ (f z).mass ≤ (g + 2 ^ (-44 : Int)) * (z.mass + 2 ^ (-1000 : Int)) := by
  have hn := z.mass_nonneg
  obtain ⟨R, hR, hsq⟩ := exists_moderate hn (hmass.trans hB)
  have hτ : (0 : ℝ) ≤ 2 ^ (-1000 : Int) := (zpow_pos two_pos _).le
  have hfit : z.FitsIn R := Complex.fitsIn_of_mass_le hR.pos.le hz (by
    rw [hsq]
    exact le_add_of_nonneg_right hτ)
  obtain ⟨_, x, y, hnear, hexact⟩ := h hR hfit
  refine ⟨hnear.isFinite, ?_⟩
  have hκ : (0 : ℝ) ≤ 2 ^ (-46 : Int) := (zpow_pos two_pos _).le
  calc (f z).mass ≤ (1 + 2 ^ (-46 : Int)) * (x ^ 2 + y ^ 2) + 5 / 8 * 2 ^ (-46 : Int) * R ^ 2 :=
        hnear.mass_le
    _ ≤ (1 + 2 ^ (-46 : Int)) * (x ^ 2 + y ^ 2)
        + 5 / 4 * 2 ^ (-46 : Int) * (z.mass + 2 ^ (-1000 : Int)) := by
        rw [← hsq]
        gcongr
        norm_num
    _ ≤ (g + 4 * 2 ^ (-46 : Int)) * (z.mass + 2 ^ (-1000 : Int)) :=
        growth_le hg hn hκ hτ hg0 hexact
    _ = (g + 2 ^ (-44 : Int)) * (z.mass + 2 ^ (-1000 : Int)) := by rw [two_zpow_neg_forty_four]

/-! ### The gates one by one -/

theorem invSqrt2_isFinite : invSqrt2.isFinite = true := by decide +kernel

/-- The computed root of one half is a little too small. -/
theorem two_mul_sq_invSqrt2_le : 2 * toReal invSqrt2 ^ 2 ≤ 1 := by
  have hval : 2 * value invSqrt2 ^ 2 ≤ 1 := by decide +kernel
  unfold toReal
  exact_mod_cast hval

theorem gains_h (hB : B ≤ 2 ^ (970 : Int)) :
    Gains (fun a b => ((a + b).scale invSqrt2, (a - b).scale invSqrt2)) B
      (1 + 2 ^ (-44 : Int)) (2 ^ (-1000 : Int)) := by
  refine gains_of_near zero_le_one (by norm_num) hB fun {R a b} hR ha hb => ?_
  have hk := two_mul_sq_invSqrt2_le
  have hcoef : |toReal invSqrt2| ≤ 2 := abs_le_of_sq_le_sq (by linarith) (by norm_num)
  have hfirst := ((ha.near.add hR hb.near).scale hR invSqrt2_isFinite hcoef).mono hR
    (show _ ≤ 64 by norm_num)
  have hsecond := ((ha.near.sub hR hb.near).scale hR invSqrt2_isFinite hcoef).mono hR
    (show _ ≤ 64 by norm_num)
  refine ⟨_, _, _, _, _, _, hfirst, hsecond, ?_⟩
  have hmass := mul_le_mul_of_nonneg_right hk (add_nonneg a.mass_nonneg b.mass_nonneg)
  unfold Complex.mass at hmass ⊢
  linarith

variable {t : Trigonometry} {theta phi lambda : Float}

theorem le_two : (1 : ℝ) + 2 ^ (-52 : Int) ≤ 2 := by norm_num

theorem circle_le : (1 : ℝ) + 2 ^ (-49 : Int) ≤ 1 + 2 ^ (-46 : Int) := by norm_num

theorem gains_ry (ht : t.Accurate) (hB : B ≤ 2 ^ (970 : Int)) (htheta : theta.isFinite = true) :
    Gains (fun a b => (a.scale (t.cos theta) - b.scale (t.sin theta),
      a.scale (t.sin theta) + b.scale (t.cos theta))) B
      (1 + 2 ^ (-46 : Int) + 2 ^ (-44 : Int)) (2 ^ (-1000 : Int)) := by
  refine gains_of_near (by positivity) (by norm_num) hB fun {R a b} hR ha hb => ?_
  have hcos := ht.cos_isFinite _ htheta
  have hsin := ht.sin_isFinite _ htheta
  have hcos' := (ht.abs_cos_le htheta).trans le_two
  have hsin' := (ht.abs_sin_le htheta).trans le_two
  have hfirst := ((ha.near.scale hR hcos hcos').sub hR (hb.near.scale hR hsin hsin')).mono hR
    (show _ ≤ 64 by norm_num)
  have hsecond := ((ha.near.scale hR hsin hsin').add hR (hb.near.scale hR hcos hcos')).mono hR
    (show _ ≤ 64 by norm_num)
  refine ⟨_, _, _, _, _, _, hfirst, hsecond, ?_⟩
  have hmass := mul_le_mul_of_nonneg_right ((ht.circle htheta).trans circle_le)
    (add_nonneg a.mass_nonneg b.mass_nonneg)
  unfold Complex.mass at hmass ⊢
  linarith

theorem gains_rx (ht : t.Accurate) (hB : B ≤ 2 ^ (970 : Int)) (htheta : theta.isFinite = true) :
    Gains (fun a b => (a.scale (t.cos theta) + ⟨0.0, -t.sin theta⟩ * b,
      ⟨0.0, -t.sin theta⟩ * a + b.scale (t.cos theta))) B
      (1 + 2 ^ (-46 : Int) + 2 ^ (-44 : Int)) (2 ^ (-1000 : Int)) := by
  refine gains_of_near (by positivity) (by norm_num) hB fun {R a b} hR ha hb => ?_
  have hcos := ht.cos_isFinite _ htheta
  have hcos' := (ht.abs_cos_le htheta).trans le_two
  have hsin' := (ht.abs_sin_le htheta).trans le_two
  have hzero : Tracks 1 0 0.0 0 := by
    have htracks := tracks_toReal (R := 1) finite_zero
    rwa [toReal_zero] at htracks
  have hcoef : Complex.Near 1 0 2 ⟨0.0, -t.sin theta⟩ 0 (-toReal (t.sin theta)) := by
    refine ⟨hzero, (tracks_toReal (ht.sin_isFinite _ htheta)).neg, ?_, ?_⟩
    · norm_num
    · rwa [abs_neg, mul_one]
  have hfirst := ((ha.near.scale hR hcos hcos').add hR (hcoef.mul hR hb.near)).mono hR
    (show _ ≤ 64 by norm_num)
  have hsecond := ((hcoef.mul hR ha.near).add hR (hb.near.scale hR hcos hcos')).mono hR
    (show _ ≤ 64 by norm_num)
  refine ⟨_, _, _, _, _, _, hfirst, hsecond, ?_⟩
  have hmass := mul_le_mul_of_nonneg_right ((ht.circle htheta).trans circle_le)
    (add_nonneg a.mass_nonneg b.mass_nonneg)
  unfold Complex.mass at hmass ⊢
  linarith

/-- The product of two vectors in the plane against their lengths. -/
theorem abs_cross_le {A C D P Q X Y : ℝ} (hA : 0 ≤ A) (hC : 0 ≤ C) (hD : 0 ≤ D)
    (hPQ : P ^ 2 + Q ^ 2 = A * C) (hXY : X ^ 2 + Y ^ 2 ≤ (2 * D) ^ 2) :
    |P * X - Q * Y| ≤ (A + C) * D := by
  refine abs_le_of_sq_le_sq ?_ (by positivity)
  have hcauchy : (P * X - Q * Y) ^ 2 ≤ (P ^ 2 + Q ^ 2) * (X ^ 2 + Y ^ 2) := by
    have hrest := sq_nonneg (P * Y + Q * X)
    calc (P * X - Q * Y) ^ 2 ≤ (P * X - Q * Y) ^ 2 + (P * Y + Q * X) ^ 2 := by linarith
      _ = (P ^ 2 + Q ^ 2) * (X ^ 2 + Y ^ 2) := by ring
  have hmean : 4 * (A * C) ≤ (A + C) ^ 2 := by linarith [sq_nonneg (A - C), sub_sq A C, add_sq A C]
  calc (P * X - Q * Y) ^ 2 ≤ (P ^ 2 + Q ^ 2) * (X ^ 2 + Y ^ 2) := hcauchy
    _ = A * C * (X ^ 2 + Y ^ 2) := by rw [hPQ]
    _ ≤ A * C * (2 * D) ^ 2 := mul_le_mul_of_nonneg_left hXY (mul_nonneg hA hC)
    _ = 4 * (A * C) * D ^ 2 := by ring
    _ ≤ (A + C) ^ 2 * D ^ 2 := mul_le_mul_of_nonneg_right hmean (sq_nonneg D)
    _ = ((A + C) * D) ^ 2 := by ring

/-- The length of a column. -/
theorem column_le {c s k l A ε : ℝ} (hA : 0 ≤ A) (hε : 0 ≤ ε) (hcs : c ^ 2 + s ^ 2 ≤ 1 + ε)
    (hk : k ≤ 1 + ε) (hl : l ≤ 1 + ε) :
    c ^ 2 * k * A + s ^ 2 * l * A ≤ (1 + ε) * (1 + ε) * A := by
  have hc := mul_le_mul_of_nonneg_left hk (sq_nonneg c)
  have hs := mul_le_mul_of_nonneg_left hl (sq_nonneg s)
  have hsum : c ^ 2 * k + s ^ 2 * l ≤ (1 + ε) * (1 + ε) := by
    linarith [mul_le_mul_of_nonneg_right hcs (show 0 ≤ 1 + ε by linarith)]
  linarith [mul_le_mul_of_nonneg_right hsum hA]

/-- What the general gate does in exact arithmetic: its columns are orthogonal up to the chord that
the rounded sum of the phases misses. -/
theorem sum_sq_general_le {c s l₁ l₂ p₁ p₂ q₁ q₂ a₁ a₂ b₁ b₂ ε D : ℝ} (hε : 0 ≤ ε) (hD : 0 ≤ D)
    (hcs : c ^ 2 + s ^ 2 ≤ 1 + ε) (hl : l₁ ^ 2 + l₂ ^ 2 ≤ 1 + ε) (hp : p₁ ^ 2 + p₂ ^ 2 ≤ 1 + ε)
    (hq : q₁ ^ 2 + q₂ ^ 2 ≤ 1 + ε)
    (hturn : (p₁ * q₁ + p₂ * q₂ - l₁) ^ 2 + (p₁ * q₂ - p₂ * q₁ - l₂) ^ 2 ≤ (2 * D) ^ 2) :
    (c * a₁ - (l₁ * s * b₁ - l₂ * s * b₂)) ^ 2 + (c * a₂ - (l₁ * s * b₂ + l₂ * s * b₁)) ^ 2
      + ((p₁ * s * a₁ - p₂ * s * a₂ + (q₁ * c * b₁ - q₂ * c * b₂)) ^ 2
        + (p₁ * s * a₂ + p₂ * s * a₁ + (q₁ * c * b₂ + q₂ * c * b₁)) ^ 2)
      ≤ (1 + ε) * (1 + ε + D) * (a₁ ^ 2 + a₂ ^ 2 + (b₁ ^ 2 + b₂ ^ 2)) := by
  have hA : 0 ≤ a₁ ^ 2 + a₂ ^ 2 := by positivity
  have hC : 0 ≤ b₁ ^ 2 + b₂ ^ 2 := by positivity
  have hPQ : (a₁ * b₁ + a₂ * b₂) ^ 2 + (a₁ * b₂ - a₂ * b₁) ^ 2
      = (a₁ ^ 2 + a₂ ^ 2) * (b₁ ^ 2 + b₂ ^ 2) := by ring
  have hcross := abs_cross_le hA hC hD hPQ hturn
  have hweight : |2 * (c * s)| ≤ 1 + ε := by
    rw [abs_le]
    constructor <;> linarith [sq_nonneg (c + s), sq_nonneg (c - s), add_sq c s, sub_sq c s]
  have hterm := (le_abs_self _).trans ((abs_mul ..).trans_le
    (mul_le_mul hweight hcross (abs_nonneg _) (by positivity)))
  have hone : (1 : ℝ) ≤ 1 + ε := by linarith
  have hfirst := column_le hA hε hcs hone hp
  have hsecond := column_le hC hε hcs hq hl
  calc (c * a₁ - (l₁ * s * b₁ - l₂ * s * b₂)) ^ 2 + (c * a₂ - (l₁ * s * b₂ + l₂ * s * b₁)) ^ 2
      + ((p₁ * s * a₁ - p₂ * s * a₂ + (q₁ * c * b₁ - q₂ * c * b₂)) ^ 2
        + (p₁ * s * a₂ + p₂ * s * a₁ + (q₁ * c * b₂ + q₂ * c * b₁)) ^ 2)
      = (c ^ 2 * 1 * (a₁ ^ 2 + a₂ ^ 2) + s ^ 2 * (p₁ ^ 2 + p₂ ^ 2) * (a₁ ^ 2 + a₂ ^ 2))
        + (c ^ 2 * (q₁ ^ 2 + q₂ ^ 2) * (b₁ ^ 2 + b₂ ^ 2)
          + s ^ 2 * (l₁ ^ 2 + l₂ ^ 2) * (b₁ ^ 2 + b₂ ^ 2))
        + 2 * (c * s) * ((a₁ * b₁ + a₂ * b₂) * (p₁ * q₁ + p₂ * q₂ - l₁)
          - (a₁ * b₂ - a₂ * b₁) * (p₁ * q₂ - p₂ * q₁ - l₂)) := by ring
    _ ≤ (1 + ε) * (1 + ε) * (a₁ ^ 2 + a₂ ^ 2) + (1 + ε) * (1 + ε) * (b₁ ^ 2 + b₂ ^ 2)
        + (1 + ε) * ((a₁ ^ 2 + a₂ ^ 2 + (b₁ ^ 2 + b₂ ^ 2)) * D) :=
        add_le_add (add_le_add hfirst hsecond) hterm
    _ = (1 + ε) * (1 + ε + D) * (a₁ ^ 2 + a₂ ^ 2 + (b₁ ^ 2 + b₂ ^ 2)) := by ring

/-- A unit complex number times a real coefficient. -/
theorem near_unit_scaled (ht : t.Accurate) {x c : Float} (hx : x.isFinite = true)
    (hc : c.isFinite = true) (hc' : |toReal c| ≤ 1 + 2 ^ (-52 : Int)) :
    Complex.Near 1 5 2 ((t.unit x).scaled c) (toReal (t.cos x) * toReal c)
      (toReal (t.sin x) * toReal c) := by
  obtain ⟨hre, him, hcos, hsin⟩ := ht.unit_spec hx
  rw [← hcos, ← hsin]
  refine Complex.Near.scaled hc (Complex.isFinite_iff.mpr ⟨hre, him⟩) hc' ?_ ?_
  · rw [hcos]
    exact ht.abs_cos_le hx
  · rw [hsin]
    exact ht.abs_sin_le hx

theorem gains_u (ht : t.Accurate) (hB : B ≤ 2 ^ (970 : Int)) (htheta : theta.isFinite = true)
    (hphi : phi.isFinite = true) (hlambda : lambda.isFinite = true)
    (hsum : (phi + lambda).isFinite = true) {d : ℝ}
    (hd : min 1 (|toReal (phi + lambda) - (toReal phi + toReal lambda)| / 2) = d) :
    Gains (fun a b => (a.scale (t.cos theta) - (t.unit lambda).scaled (t.sin theta) * b,
      (t.unit phi).scaled (t.sin theta) * a + (t.unit (phi + lambda)).scaled (t.cos theta) * b)) B
      (1 + d + 2 ^ (-46 : Int) + 2 ^ (-44 : Int)) (2 ^ (-1000 : Int)) := by
  have hd0 : 0 ≤ d := by
    rw [← hd]
    positivity
  have hd1 : d ≤ 1 := hd ▸ min_le_left _ _
  have heps : (2 : ℝ) ^ (-46 : Int) = 8 * 2 ^ (-49 : Int) := by norm_num
  have hsmall : (2 : ℝ) ^ (-49 : Int) ≤ 1 / 16 := by norm_num
  have hpos : (0 : ℝ) ≤ 2 ^ (-49 : Int) := (zpow_pos two_pos _).le
  refine gains_of_near (by positivity) (by rw [heps]; linarith) hB fun {R a b} hR ha hb => ?_
  have hcos := ht.cos_isFinite _ htheta
  have hsin := ht.sin_isFinite _ htheta
  have hcos' := ht.abs_cos_le htheta
  have hsin' := ht.abs_sin_le htheta
  have hfirst := ((ha.near.scale hR hcos (hcos'.trans le_two)).sub hR
    ((near_unit_scaled ht hlambda hsin hsin').mul hR hb.near)).mono hR (show _ ≤ 64 by norm_num)
  have hsecond := (((near_unit_scaled ht hphi hsin hsin').mul hR ha.near).add hR
    ((near_unit_scaled ht hsum hcos hcos').mul hR hb.near)).mono hR (show _ ≤ 64 by norm_num)
  refine ⟨_, _, _, _, _, _, hfirst, hsecond, ?_⟩
  refine (sum_sq_general_le hpos (add_nonneg hd0 hpos) (ht.circle htheta) (ht.circle hlambda)
    (ht.circle hphi) (ht.circle hsum) (ht.turn hphi hlambda hsum hd)).trans ?_
  refine mul_le_mul_of_nonneg_right ?_ (add_nonneg a.mass_nonneg b.mass_nonneg)
  rw [heps]
  generalize (2 : ℝ) ^ (-49 : Int) = ε at hpos hsmall ⊢
  nlinarith

/-! ### Phases -/

theorem mul_comm_complex (z w : Complex) : z * w = w * z := by
  show Complex.mk (z.re * w.re - z.im * w.im) (z.re * w.im + z.im * w.re)
    = ⟨w.re * z.re - w.im * z.im, w.re * z.im + w.im * z.re⟩
  rw [float_mul_comm z.re w.re, float_mul_comm z.im w.im, float_mul_comm z.re w.im,
    float_mul_comm z.im w.re, float_add_comm (w.im * z.re)]

/-- A **phase** hardly changes the mass of an amplitude. -/
theorem mass_mul_unit_le (ht : t.Accurate) (hB : B ≤ 2 ^ (970 : Int)) {x : Float}
    (hx : x.isFinite = true) {z : Complex} (hz : z.isFinite = true) (hmass : z.mass ≤ B) :
    (z * t.unit x).isFinite = true ∧ (z * t.unit x).mass
      ≤ (1 + 2 ^ (-46 : Int) + 2 ^ (-44 : Int)) * (z.mass + 2 ^ (-1000 : Int)) := by
  refine mass_le_of_near (f := fun z => z * t.unit x) (by positivity) (by norm_num) hB
    (fun {R z} hR hz => ?_) hz hmass
  obtain ⟨hre, him, hcos, hsin⟩ := ht.unit_spec hx
  have hcoef : Complex.Near 1 0 2 (t.unit x) (toReal (t.cos x)) (toReal (t.sin x)) := by
    refine ⟨hcos ▸ tracks_toReal hre, hsin ▸ tracks_toReal him, ?_, ?_⟩
    · rw [mul_one]
      exact (ht.abs_cos_le hx).trans le_two
    · rw [mul_one]
      exact (ht.abs_sin_le hx).trans le_two
  have hnear := (hcoef.mul hR hz.near).mono hR (show _ ≤ 64 by norm_num)
  rw [mul_comm_complex]
  refine ⟨_, _, _, hnear, ?_⟩
  have hmass := mul_le_mul_of_nonneg_right ((ht.circle hx).trans circle_le) z.mass_nonneg
  unfold Complex.mass at hmass ⊢
  linarith

/-! ### Turns by a right angle -/

/-- A product by 0, 1 or -1 is exact. -/
theorem mul_exact {c x : Float} (hc : c.isFinite = true) (hx : x.isFinite = true)
    (hsize : |value x| ≤ 2 ^ (485 : Int)) (hvalue : value c = 0 ∨ value c = 1 ∨ value c = -1) :
    (c * x).isFinite = true ∧ value (c * x) = value c * value x := by
  have hgrid : OnGrid (value c * value x) := by
    rcases hvalue with h | h | h <;> rw [h]
    · rw [zero_mul]
      exact onGrid_zero
    · rw [one_mul]
      exact onGrid_value hx
    · rw [neg_one_mul]
      exact (onGrid_value hx).neg
  have hle : |value c * value x| ≤ 2 ^ (485 : Int) := by
    rcases hvalue with h | h | h <;> rw [h]
    · rw [zero_mul, abs_zero]
      exact (two_zpow_pos _).le
    · exact (congrArg abs (one_mul _)).trans_le hsize
    · exact ((congrArg abs (neg_one_mul _)).trans (abs_neg _)).trans_le hsize
  have hround := isRounding_mul hc hx
    (hle.trans_lt (zpow_lt_zpow_right₀ one_lt_two (by decide)))
  exact ⟨hround.isFinite, hround.value_eq hgrid⟩

/-- A product by the imaginary unit, or by its negative, is exact but for the signs of zeros. -/
theorem mass_turn {c₀ c₁ : Float} (h₀ : c₀.isFinite = true) (hv₀ : value c₀ = 0)
    (h₁ : c₁.isFinite = true) (hv₁ : value c₁ = 1 ∨ value c₁ = -1) {z : Complex}
    (hz : z.isFinite = true) (hmass : z.mass ≤ 2 ^ (970 : Int)) :
    (⟨c₀, c₁⟩ * z : Complex).isFinite = true ∧ (⟨c₀, c₁⟩ * z : Complex).mass = z.mass := by
  obtain ⟨hre, him⟩ := Complex.isFinite_iff.mp hz
  obtain ⟨hre', him'⟩ := Complex.abs_value_le_of_mass_le hmass
  obtain ⟨hf₁, he₁⟩ := mul_exact h₀ hre hre' (.inl hv₀)
  obtain ⟨hf₂, he₂⟩ := mul_exact h₁ him him' (.inr hv₁)
  obtain ⟨hf₃, he₃⟩ := mul_exact h₀ him him' (.inl hv₀)
  obtain ⟨hf₄, he₄⟩ := mul_exact h₁ hre hre' (.inr hv₁)
  rw [hv₀, zero_mul] at he₁ he₃
  have hlt : (2 : ℚ) ^ (485 : Int) < 2 ^ (1023 : Int) := zpow_lt_zpow_right₀ one_lt_two (by decide)
  -- one of the two products is zero, so the sum is the other and is not rounded
  have hsub : value (c₀ * z.re) - value (c₁ * z.im) = -value (c₁ * z.im) := by rw [he₁, zero_sub]
  have hadd : value (c₀ * z.im) + value (c₁ * z.re) = value (c₁ * z.re) := by rw [he₃, zero_add]
  have habs : ∀ {x : Float}, |value x| ≤ 2 ^ (485 : Int) →
      |value c₁ * value x| < 2 ^ (1023 : Int) := by
    intro x hx
    rcases hv₁ with h | h <;> rw [h]
    · rw [one_mul]
      exact hx.trans_lt hlt
    · rw [neg_one_mul, abs_neg]
      exact hx.trans_lt hlt
  have hround := isRounding_sub hf₁ hf₂ (by rw [hsub, abs_neg, he₂]; exact habs him')
  have hround' := isRounding_add hf₃ hf₄ (by rw [hadd, he₄]; exact habs hre')
  have hval := hround.value_eq (by rw [hsub]; exact (onGrid_value hf₂).neg)
  have hval' := hround'.value_eq (by rw [hadd]; exact onGrid_value hf₄)
  rw [hsub, he₂] at hval
  rw [hadd, he₄] at hval'
  refine ⟨Complex.isFinite_iff.mpr ⟨hround.isFinite, hround'.isFinite⟩, ?_⟩
  have hsq : (value c₁) ^ 2 = 1 := by rcases hv₁ with h | h <;> rw [h] <;> norm_num
  have hpart : ∀ {x y : Float}, value x = value c₁ * value y ∨ value x = -(value c₁ * value y) →
      toReal x ^ 2 = toReal y ^ 2 := by
    intro x y hxy
    have hvalue : value x ^ 2 = value y ^ 2 := by
      rcases hxy with h | h <;> rw [h]
      · rw [mul_pow, hsq, one_mul]
      · rw [neg_sq, mul_pow, hsq, one_mul]
    unfold toReal
    exact_mod_cast hvalue
  show toReal (c₀ * z.re - c₁ * z.im) ^ 2 + toReal (c₀ * z.im + c₁ * z.re) ^ 2 = _
  rw [hpart (.inr hval), hpart (.inl hval'), Complex.mass, add_comm]

theorem gains_y (hB : B ≤ 2 ^ (970 : Int)) :
    Gains (fun a b => (-Complex.I * b, Complex.I * a)) B 1 0 := by
  intro a b ha hb hmass
  have hneg : Float.isFinite (-1.0) = true := (isFinite_neg _).trans finite_one
  have hneg' : Float.isFinite (-0.0) = true := (isFinite_neg _).trans finite_zero
  obtain ⟨hfin, hb'⟩ := mass_turn hneg' (by rw [value_neg, value_zero, neg_zero]) hneg
    (.inr (by rw [value_neg, value_one])) hb (by linarith [a.mass_nonneg])
  obtain ⟨hfin', ha'⟩ := mass_turn finite_zero value_zero finite_one (.inl value_one) ha
    (by linarith [b.mass_nonneg])
  refine ⟨hfin, hfin', ?_⟩
  show (⟨-0.0, -1.0⟩ * b : Complex).mass + (⟨0.0, 1.0⟩ * a : Complex).mass ≤ _
  rw [hb', ha', one_mul, add_zero, add_comm]

end Amplitudes

end OneWay
