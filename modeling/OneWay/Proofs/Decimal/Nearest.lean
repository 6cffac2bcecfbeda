import OneWay.Decimal.Reader
import OneWay.Proofs.Rounding

/-!
# Reading decimals

`Rounded x v` says that `x` is the number `v` after one rounding. Products and quotients of numbers
are rounded once, and so is the decimal `n * 10 ^ e` that is read, whichever way it is computed
(`Binary64.rounded_ofScientific`).
-/

namespace OneWay

namespace Binary64

open Float.Model Float.Model.UnpackedFloat

/-- A number is `v` rounded. -/
def Rounded (x : Float) (v : ℚ) : Prop :=
  ∃ m e a, x = .ofModel (.pack (roundWithAccuracy Format.binary64 .positive m e a)) ∧
    Locates a m (v / 2 ^ e) ∧ Wide m e

/-- What is rounded goes to the number to which it belongs. -/
theorem Rounded.eq {x : Float} {v : ℚ} {m : Nat} {e : Int} (h : Rounded x v)
    (hcanon : Canonical m e) (hv : Catches m e v) :
    x = .ofModel (.pack (.finite .positive m e hcanon.pos)) := by
  obtain ⟨m', e', a, rfl, hloc, hwide⟩ := h
  rw [roundWithAccuracy_eq_finite _ hcanon hv hloc hwide]

theorem Rounded.isFinite {x : Float} {v : ℚ} (h : Rounded x v) (hv : v < 2 ^ 1023) :
    x.isFinite = true := by
  obtain ⟨m, e, a, rfl, hloc, hwide⟩ := h
  refine isFinite_pack_round hwide (.inl ?_)
  by_cases hm : m = 0
  · have he := hwide.resolve_left (by subst hm; decide)
    rw [hm, Nat.log2_zero]
    omega
  · have hlt : (2 : ℚ) ^ (m.log2 + e) < 2 ^ (1023 : Int) := (hloc.leading hm).1.trans_lt hv
    have := lt_of_two_zpow_lt hlt
    omega

/-! ### Products and quotients -/

variable {m₁ m₂ : Nat} {e₁ e₂ : Int}

theorem rounded_mul (h₁ : 0 < m₁) (h₂ : 0 < m₂) (hwide : Wide (m₁ * m₂) (e₁ + e₂)) :
    Rounded (.ofModel (.pack (mul Format.binary64 (.finite .positive m₁ e₁ h₁)
      (.finite .positive m₂ e₂ h₂)))) (m₁ * 2 ^ e₁ * (m₂ * 2 ^ e₂)) := by
  refine ⟨m₁ * m₂, e₁ + e₂, .exact, rfl, ?_, hwide⟩
  have := (two_zpow_pos e₁).ne'
  have := (two_zpow_pos e₂).ne'
  show _ = ((m₁ * m₂ : Nat) : ℚ)
  rw [zpow_add₀ two_ne_zero, Nat.cast_mul]
  field_simp

/-- The remainder of a division tells where the quotient lies. -/
theorem locates_accuracyOfFraction (n : Nat) {d : Nat} (hd : 0 < d) :
    Locates (accuracyOfFraction (n % d) d) (n / d) ((n : ℚ) / d) := by
  have hd' : (0 : ℚ) < d := by exact_mod_cast hd
  have hn : (n : ℚ) = d * (n / d : Nat) + (n % d : Nat) := by
    exact_mod_cast (Nat.div_add_mod n d).symm
  have hlt : ((n % d : Nat) : ℚ) < d := by exact_mod_cast Nat.mod_lt n hd
  have hdiv : (n : ℚ) / d = (n / d : Nat) + (n % d : Nat) / d := by
    rw [eq_comm, eq_div_iff hd'.ne', add_mul, div_mul_cancel₀ _ hd'.ne']
    linarith
  rw [hdiv]
  unfold accuracyOfFraction
  by_cases hzero : n % d = 0
  · simp [hzero, Locates]
  · rw [if_neg hzero]
    have hpos : (0 : ℚ) < (n % d : Nat) := by exact_mod_cast Nat.pos_of_ne_zero hzero
    have hfrac : (0 : ℚ) < (n % d : Nat) / d := div_pos hpos hd'
    have hone : ((n % d : Nat) : ℚ) / d < 1 := (div_lt_one hd').mpr hlt
    rcases Nat.lt_trichotomy (2 * (n % d)) d with h | h | h
    · have h' : 2 * ((n % d : Nat) : ℚ) < d := by exact_mod_cast h
      have : ((n % d : Nat) : ℚ) / d < 1 / 2 := by
        rw [div_lt_iff₀ hd']
        linarith
      rw [Nat.compare_eq_lt.mpr h]
      constructor <;> linarith
    · have h' : 2 * ((n % d : Nat) : ℚ) = d := by exact_mod_cast h
      have : ((n % d : Nat) : ℚ) / d = 1 / 2 := by
        rw [div_eq_iff hd'.ne']
        linarith
      rw [Nat.compare_eq_eq.mpr h]
      show _ = _
      linarith
    · have h' : d < 2 * ((n % d : Nat) : ℚ) := by exact_mod_cast h
      have : 1 / 2 < ((n % d : Nat) : ℚ) / d := by
        rw [lt_div_iff₀ hd']
        linarith
      rw [Nat.compare_eq_gt.mpr h]
      constructor <;> linarith

theorem divCore_eq (m₁ m₂ : Nat) (e₁ e₂ : Int) :
    ∃ (e : Int) (k : Nat), e₁ - e₂ = e + k ∧ (e ≤ -1074 ∨ m₂.log2 + 53 ≤ m₁.log2 + k) ∧
      divCore Format.binary64 m₁ e₁ m₂ e₂
        = (m₁ * 2 ^ k / m₂, e, accuracyOfFraction (m₁ * 2 ^ k % m₂) m₂) := by
  have htarget : Format.binary64.targetExponent (totalExponent m₁ e₁ - totalExponent m₂ e₂)
      = max ((m₁.log2 : Int) + e₁ - m₂.log2 - e₂ - 53) (-1074) := by
    show max ((m₁.log2 : Int) + 1 + e₁ - (m₂.log2 + 1 + e₂) - 53) (-1074) = _
    congr 1
    omega
  unfold divCore
  simp only [htarget, Nat.shiftLeft_eq]
  refine ⟨_, _, ?_, ?_, rfl⟩ <;> omega

/-- The quotient that is computed has 53 places, and what is left over tells where the exact one
lies. -/
theorem locates_divCore (h₁ : 0 < m₁) (h₂ : 0 < m₂) :
    ∃ m e a, divCore Format.binary64 m₁ e₁ m₂ e₂ = (m, e, a) ∧
      Locates a m (m₁ * 2 ^ e₁ / (m₂ * 2 ^ e₂) / 2 ^ e) ∧ Wide m e := by
  obtain ⟨e, k, hexp, hwide, hcore⟩ := divCore_eq m₁ m₂ e₁ e₂
  refine ⟨m₁ * 2 ^ k / m₂, e, accuracyOfFraction (m₁ * 2 ^ k % m₂) m₂, hcore, ?_, ?_⟩
  · have hval : (m₁ * 2 ^ e₁ / (m₂ * 2 ^ e₂) / 2 ^ e : ℚ) = (m₁ * 2 ^ k : Nat) / m₂ := by
      have hsplit : (2 : ℚ) ^ e₁ = 2 ^ k * 2 ^ e * 2 ^ e₂ := by
        rw [← zpow_natCast, ← zpow_add₀ two_ne_zero, ← zpow_add₀ two_ne_zero]
        congr 1
        omega
      have := (two_zpow_pos e).ne'
      have := (two_zpow_pos e₂).ne'
      rw [hsplit]
      push_cast
      field_simp
    rw [hval]
    exact locates_accuracyOfFraction _ h₂
  · rcases hwide with he | hlog
    · exact .inr he
    · -- the numerator is larger by 53 places, so that the quotient has as many
      have hnum : 2 ^ 52 * m₂ ≤ m₁ * 2 ^ k := calc
        2 ^ 52 * m₂ ≤ 2 ^ 52 * 2 ^ (m₂.log2 + 1) := Nat.mul_le_mul_left _ Nat.lt_log2_self.le
        _ = 2 ^ (m₂.log2 + 53) := by rw [← Nat.pow_add]; congr 1; omega
        _ ≤ 2 ^ (m₁.log2 + k) := Nat.pow_le_pow_right (by decide) hlog
        _ = 2 ^ m₁.log2 * 2 ^ k := Nat.pow_add ..
        _ ≤ m₁ * 2 ^ k := Nat.mul_le_mul_right _ (Nat.log2_self_le h₁.ne')
      have hquot := (Nat.le_div_iff_mul_le h₂).mpr hnum
      exact .inl ((Nat.le_log2 (by omega)).mpr hquot)

theorem rounded_div (h₁ : 0 < m₁) (h₂ : 0 < m₂) :
    Rounded (.ofModel (.pack (div Format.binary64 (.finite .positive m₁ e₁ h₁)
      (.finite .positive m₂ e₂ h₂)))) (m₁ * 2 ^ e₁ / (m₂ * 2 ^ e₂)) := by
  obtain ⟨m, e, a, hcore, hloc, hwide⟩ := locates_divCore h₁ h₂
  refine ⟨m, e, a, ?_, hloc, hwide⟩
  simp only [UnpackedFloat.div, hcore]
  rfl

/-- The product of two canonical significands has 53 places, or stands at a low exponent. -/
theorem Canonical.wide_mul (h₁ : Canonical m₁ e₁) (h₂ : Canonical m₂ e₂) :
    Wide (m₁ * m₂) (e₁ + e₂) := by
  have hne := (Nat.mul_pos h₁.pos h₂.pos).ne'
  rcases h₁.normal with hm | he
  · exact .inl ((Nat.le_log2 hne).mpr (hm.trans (Nat.le_mul_of_pos_right m₁ h₂.pos)))
  · rcases h₂.normal with hm | he'
    · exact .inl ((Nat.le_log2 hne).mpr (hm.trans (Nat.le_mul_of_pos_left m₂ h₁.pos)))
    · exact .inr (by omega)

/-! ### Exact numbers -/

/-- A number is positive and has the value `v`. -/
def Represents (x : Float) (v : ℚ) : Prop :=
  ∃ m e, ∃ h : Canonical m e, x.toModel.unpack = .finite .positive m e h.pos ∧ v = m * 2 ^ e

variable {x y : Float} {v w : ℚ}

theorem Represents.mul (hx : Represents x v) (hy : Represents y w) : Rounded (x * y) (v * w) := by
  obtain ⟨m₁, e₁, h₁, hx, rfl⟩ := hx
  obtain ⟨m₂, e₂, h₂, hy, rfl⟩ := hy
  have hmul : x * y = .ofModel (.pack (UnpackedFloat.mul Format.binary64 x.toModel.unpack
    y.toModel.unpack)) := rfl
  rw [hmul, hx, hy]
  exact rounded_mul h₁.pos h₂.pos (h₁.wide_mul h₂)

theorem Represents.div (hx : Represents x v) (hy : Represents y w) : Rounded (x / y) (v / w) := by
  obtain ⟨m₁, e₁, h₁, hx, rfl⟩ := hx
  obtain ⟨m₂, e₂, h₂, hy, rfl⟩ := hy
  have hdiv : x / y = .ofModel (.pack (UnpackedFloat.div Format.binary64 x.toModel.unpack
    y.toModel.unpack)) := rfl
  rw [hdiv, hx, hy]
  exact rounded_div h₁.pos h₂.pos

/-- A significand of 53 places at most becomes canonical by a shift. -/
theorem canonical_shiftLeft {n : Nat} {e : Int} (hn : 0 < n) (hlt : n < 2 ^ 53)
    (hlow : -1022 ≤ n.log2 + e) (hhigh : n.log2 + e ≤ 1023) :
    Canonical (n * 2 ^ (52 - n.log2)) (n.log2 + e - 52) := by
  have hlog : n.log2 < 53 := (Nat.log2_lt hn.ne').mpr hlt
  have hle : 2 ^ 52 ≤ n * 2 ^ (52 - n.log2) := calc
    2 ^ 52 = 2 ^ n.log2 * 2 ^ (52 - n.log2) := by rw [← Nat.pow_add]; congr 1; omega
    _ ≤ n * 2 ^ (52 - n.log2) := Nat.mul_le_mul_right _ (Nat.log2_self_le hn.ne')
  have hgt : n * 2 ^ (52 - n.log2) < 2 ^ 53 := calc
    n * 2 ^ (52 - n.log2) < 2 ^ (n.log2 + 1) * 2 ^ (52 - n.log2) :=
      Nat.mul_lt_mul_of_pos_right Nat.lt_log2_self (Nat.two_pow_pos _)
    _ = 2 ^ 53 := by rw [← Nat.pow_add]; congr 1; omega
  exact ⟨by omega, hgt, by omega, by omega, .inl hle⟩

theorem shiftLeft_value {n : Nat} (e : Int) (hlt : n.log2 < 53) :
    ((n * 2 ^ (52 - n.log2) : Nat) : ℚ) * 2 ^ (n.log2 + e - 52) = n * 2 ^ e := by
  push_cast
  rw [mul_assoc, ← zpow_natCast, ← zpow_add₀ two_ne_zero]
  congr 2
  omega

theorem Canonical.catches {m : Nat} {e : Int} (_ : Canonical m e) : Catches m e (m * 2 ^ e) := by
  have := two_zpow_pos e
  have hgap : 0 < gapBelow m e := by
    unfold gapBelow
    split <;> norm_num
  exact ⟨by nlinarith, by nlinarith, fun _ => ⟨by nlinarith, by nlinarith⟩⟩

/-- A canonical form is rounded to itself. -/
theorem Canonical.roundWithAccuracy_eq {m : Nat} {e : Int} (h : Canonical m e) (s : Sign) :
    roundWithAccuracy Format.binary64 s m e .exact = .finite s m e h.pos := by
  refine roundWithAccuracy_eq_finite s h h.catches ?_ ?_
  · exact mul_div_cancel_right₀ _ (two_zpow_pos e).ne'
  · exact h.normal.imp (fun hm => (Nat.le_log2 h.pos.ne').mpr hm) (fun he => he.le)

theorem represents_toFloat {n : Nat} (hn : 0 < n) (hlt : n < 2 ^ 53) :
    Represents n.toUInt64.toFloat n := by
  have hlog : n.log2 < 53 := (Nat.log2_lt hn.ne').mpr hlt
  have hcanon := canonical_shiftLeft (e := 0) hn hlt (by omega) (by omega)
  have hnat : n.toUInt64.toNat = n := by
    rw [Nat.toUInt64_eq, UInt64.toNat_ofNat']
    omega
  have hround : UnpackedFloat.normalize Format.binary64 n 0 .positive
      = roundWithAccuracy Format.binary64 .positive (n * 2 ^ (52 - n.log2)) (n.log2 + 0 - 52)
        .exact := by
    have hplaces : (0 - Format.binary64.targetExponent (totalExponent n 0)).toNat
        = 52 - n.log2 := by
      show (0 - max ((n.log2 : Int) + 1 + 0 - 53) (-1074)).toNat = _
      omega
    have hexp : (0 : Int) - (52 - n.log2 : Nat) = n.log2 + 0 - 52 := by omega
    unfold UnpackedFloat.normalize
    rw [Int.compare_eq_gt.mpr (by omega)]
    simp only [UnpackedFloat.round, decreaseExponent, hplaces, hexp, Int.toNat_natCast,
      Nat.shiftLeft_eq]
  refine ⟨_, _, hcanon, ?_, ?_⟩
  · show (Float.Model.pack (UnpackedFloat.normalize Format.binary64 n.toUInt64.toNat 0
      .positive)).unpack = _
    rw [hnat, hround, hcanon.roundWithAccuracy_eq]
    exact hcanon.unpack_pack .positive
  · rw [shiftLeft_value 0 hlog, zpow_zero, mul_one]

theorem toModel_pow_ten : ∀ i : Fin Float.exactlyRepresentablePowersOfTen.size,
    ∀ h : 0 < 5 ^ i.val * 2 ^ (52 - (5 ^ i.val).log2),
    Float.exactlyRepresentablePowersOfTen[i.val].toModel = .pack (.finite .positive
      (5 ^ i.val * 2 ^ (52 - (5 ^ i.val).log2)) ((5 ^ i.val).log2 + i.val - 52) h) := by
  decide +kernel

/-- The powers of ten in the table are exact: each is a power of five, shifted. -/
theorem represents_pow_ten {k : Nat} (hk : k < Float.exactlyRepresentablePowersOfTen.size) :
    Represents Float.exactlyRepresentablePowersOfTen[k] (10 ^ k) := by
  have hk' : k < 23 := hk
  have hpos : 0 < 5 ^ k := Nat.pow_pos (by decide)
  have hlt : 5 ^ k < 2 ^ 53 :=
    lt_of_le_of_lt (Nat.pow_le_pow_right (by decide) (Nat.le_of_lt_succ hk')) (by decide)
  have hlog : (5 ^ k).log2 < 53 := (Nat.log2_lt hpos.ne').mpr hlt
  have hcanon := canonical_shiftLeft (e := k) hpos hlt (by omega) (by omega)
  refine ⟨_, _, hcanon, ?_, ?_⟩
  · rw [toModel_pow_ten ⟨k, hk⟩ hcanon.pos]
    exact hcanon.unpack_pack .positive
  · rw [shiftLeft_value k hlog, zpow_natCast]
    push_cast
    rw [← mul_pow]
    norm_num

/-! ### Decimals -/

variable {n : Nat} {e : Int}

theorem rounded_mul_pow_ten (hn : 0 < n) (he : 0 ≤ e) :
    Rounded (.ofModel (.pack (UnpackedFloat.mul Format.binary64
      (.finite .positive (n <<< 53) (-53) (Nat.shiftLeft_pos_iff.mpr hn))
      (.finite .positive (10 ^ e.toNat) 0 (Nat.pow_pos (by decide)))))) (n * 10 ^ e) := by
  have hten : 0 < 10 ^ e.toNat := Nat.pow_pos (by decide)
  have hval : ((n <<< 53 : Nat) : ℚ) * (2 : ℚ) ^ (-53 : Int)
      * (((10 ^ e.toNat : Nat) : ℚ) * (2 : ℚ) ^ (0 : Int)) = n * 10 ^ e := by
    have hshift : (2 : ℚ) ^ 53 * 2 ^ (-53 : Int) = 1 := by norm_num
    have hpow : (10 : ℚ) ^ e = 10 ^ e.toNat := by
      rw [← zpow_natCast, Int.toNat_of_nonneg he]
    rw [hpow, Nat.shiftLeft_eq, Nat.cast_mul, Nat.cast_pow, Nat.cast_pow, Nat.cast_ofNat,
      Nat.cast_ofNat, zpow_zero, mul_one, mul_assoc (n : ℚ), hshift, mul_one]
  rw [← hval]
  refine rounded_mul _ hten (.inl ?_)
  have hle : 2 ^ 52 ≤ n <<< 53 := by
    rw [Nat.shiftLeft_eq]
    omega
  have hpos := Nat.mul_pos (Nat.shiftLeft_pos_iff.mpr hn : 0 < n <<< 53) hten
  exact (Nat.le_log2 hpos.ne').mpr (hle.trans (Nat.le_mul_of_pos_right _ hten))

theorem rounded_div_pow_ten (hn : 0 < n) (he : e < 0) :
    Rounded (.ofModel (.pack (UnpackedFloat.div Format.binary64 (.finite .positive n 0 hn)
      (.finite .positive (10 ^ (-e).toNat) 0 (Nat.pow_pos (by decide)))))) (n * 10 ^ e) := by
  have hval : (n : ℚ) * (2 : ℚ) ^ (0 : Int) / (((10 ^ (-e).toNat : Nat) : ℚ) * (2 : ℚ) ^ (0 : Int))
      = n * 10 ^ e := by
    have hpow : (10 : ℚ) ^ e = (10 ^ (-e).toNat)⁻¹ := by
      rw [← zpow_natCast, ← zpow_neg, Int.toNat_of_nonneg (by omega), neg_neg]
    rw [hpow, Nat.cast_pow, Nat.cast_ofNat, zpow_zero, mul_one, mul_one, div_eq_mul_inv]
  rw [← hval]
  exact rounded_div hn (Nat.pow_pos (by decide))

/-- The way for decimals with many digits or a large exponent. -/
theorem rounded_model_ofScientific (hn : 0 < n) (hhigh : e ≤ 2048) (hlow : -(2048 + n.log2) ≤ e) :
    Rounded (.ofModel (Float.Model.ofScientific n e)) (n * 10 ^ e) := by
  unfold Float.Model.ofScientific UnpackedFloat.ofScientific
  rw [dif_neg hn.ne', if_neg (show ¬ e > 2 ^ 11 by omega),
    if_neg (show ¬ e < -((2 ^ 11 : Int) + n.log2) by omega)]
  by_cases he : 0 ≤ e
  · rw [if_pos he]
    exact rounded_mul_pow_ten hn he
  · rw [if_neg he]
    exact rounded_div_pow_ten hn (not_le.mp he)

/-- **Decimals** are rounded once when they are read. -/
theorem rounded_ofScientific (hn : 0 < n) (hhigh : e ≤ 2048) (hlow : -(2048 + n.log2) ≤ e) :
    Rounded (Float.ofScientific n (e < 0) e.natAbs) (n * 10 ^ e) := by
  unfold Float.ofScientific
  by_cases hsmall : n < 2 ^ 53 ∧ e.natAbs ≤ 22
  · -- the digits and the power of ten are exact, so one operation on them rounds once
    rw [dif_pos hsmall]
    have hnum := represents_toFloat hn hsmall.1
    have hten := represents_pow_ten (k := e.natAbs) (Nat.lt_succ_of_le hsmall.2)
    by_cases he : e < 0
    · have hval : (n : ℚ) * 10 ^ e = n / 10 ^ e.natAbs := by
        rw [div_eq_mul_inv, ← zpow_natCast, ← zpow_neg]
        congr 2
        omega
      simp only [he, decide_true, if_true, hval]
      exact hnum.div hten
    · have hval : (n : ℚ) * 10 ^ e = n * 10 ^ e.natAbs := by
        rw [← zpow_natCast]
        congr 2
        omega
      simp only [he, decide_false, hval]
      exact hnum.mul hten
  · have hexp : (if decide (e < 0) = true then Int.negOfNat e.natAbs else Int.ofNat e.natAbs)
        = e := by
      by_cases he : e < 0
      · rw [if_pos (decide_eq_true he), Int.negOfNat_eq, Int.ofNat_eq_natCast]
        omega
      · rw [if_neg (by simpa using he)]
        exact Int.natAbs_of_nonneg (not_lt.mp he)
    rw [dif_neg hsmall]
    simp only [hexp]
    exact rounded_model_ofScientific hn hhigh hlow

/-- The numbers that belong to a number are neither too small nor too large to be read. -/
theorem Catches.between {m : Nat} {e : Int} {v : ℚ} (h : Catches m e v) (hcanon : Canonical m e) :
    (10 : ℚ) ^ (-325 : Int) < v ∧ v < (10 : ℚ) ^ (309 : Int) := by
  constructor
  · have hpos : (1 : ℚ) ≤ m := by exact_mod_cast hcanon.pos
    have hleast : (2 : ℚ) ^ (-1074 : Int) ≤ 2 ^ e :=
      zpow_le_zpow_right₀ one_le_two hcanon.low
    -- powers of this size are compared by evaluation, as natural numbers
    have hnat : 2 ^ 1075 < 10 ^ 325 := by decide +kernel
    have hcut : (10 : ℚ) ^ (-325 : Int) < 1 / 2 * 2 ^ (-1074 : Int) := by
      have hhalf : (1 / 2 : ℚ) * 2 ^ (-1074 : Int) = 2 ^ (-1075 : Int) := by
        rw [one_div, ← zpow_neg_one, ← zpow_add₀ two_ne_zero]
        rfl
      rw [hhalf, zpow_neg, zpow_neg]
      exact inv_strictAnti₀ (by positivity) (by exact_mod_cast hnat)
    calc (10 : ℚ) ^ (-325 : Int) < 1 / 2 * 2 ^ (-1074 : Int) := hcut
      _ ≤ (m - gapBelow m e) * 2 ^ e := by
        refine mul_le_mul (by linarith [gapBelow_le m e]) hleast (two_zpow_pos _).le ?_
        linarith [gapBelow_le m e]
      _ ≤ v := h.low
  · have hnat : 2 ^ 1024 < 10 ^ 309 := by decide +kernel
    have hexp : 53 + e ≤ 1024 := by linarith [hcanon.high]
    calc v < 2 ^ (53 + e) := h.lt hcanon.lt
      _ ≤ 2 ^ (1024 : Int) := zpow_le_zpow_right₀ one_le_two hexp
      _ < 10 ^ (309 : Int) := by exact_mod_cast hnat

end Binary64

end OneWay
