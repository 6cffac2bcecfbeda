import OneWay.Proofs.Decimal.Nearest

/-!
# The value of a number

A finite number has an exact value (`Binary64.value`), and numbers compare as their values do
(`Binary64.lt_iff_value`).

`IsRounding x v` says that `x` is the exact number `v` after one rounding: it is finite, it is close
to `v`, and no finite number lies between the two. Each of the operations rounds its exact result
once, as long as that is below `2 ^ 1023` in size.
-/

namespace OneWay.Binary64

open Float.Model Float.Model.UnpackedFloat

/-! ### Values -/

/-- One or minus one. -/
def unitOf : Sign → ℚ
  | .negative => -1
  | .positive => 1

theorem unitOf_neg (s : Sign) : unitOf (-s) = -unitOf s := by
  cases s
  · exact (neg_neg 1).symm
  · rfl

theorem unitOf_mul (s t : Sign) : unitOf (s * t) = unitOf s * unitOf t := by
  cases s <;> cases t <;> decide +kernel

theorem unitOf_div (s t : Sign) : unitOf (s / t) = unitOf s / unitOf t := by
  cases s <;> cases t <;> decide +kernel

theorem abs_unitOf (s : Sign) : |unitOf s| = 1 := by
  cases s <;> norm_num [unitOf]

/-- The value of a finite number, and 0 for all others. -/
def value (x : Float) : ℚ :=
  match x.toModel.unpack with
  | .finite s m e _ => unitOf s * (m * 2 ^ e)
  | _ => 0

variable {x y : Float} {s : Sign} {m : Nat} {e : Int}

theorem magnitude_nonneg (m : Nat) (e : Int) : (0 : ℚ) ≤ m * 2 ^ e :=
  mul_nonneg m.cast_nonneg (two_zpow_pos e).le

theorem value_of_unpack_finite {hm : 0 < m} (h : x.toModel.unpack = .finite s m e hm) :
    value x = unitOf s * (m * 2 ^ e) := by
  simp only [value, h]

theorem value_of_unpack_zero (h : x.toModel.unpack = .zero s) : value x = 0 := by
  simp only [value, h]

/-- A finite number is a zero or has a canonical form. -/
theorem finite_cases (hx : x.isFinite = true) :
    (∃ s, x.toModel.unpack = .zero s) ∨
      ∃ s m e, ∃ h : Canonical m e, x.toModel.unpack = .finite s m e h.pos := by
  have hx' : x.toModel.unpack.isFinite = true := hx
  cases hu : x.toModel.unpack with
  | notANumber => simp [hu, UnpackedFloat.isFinite] at hx'
  | infinity s => simp [hu, UnpackedFloat.isFinite] at hx'
  | zero s => exact .inl ⟨s, rfl⟩
  | finite s m e hm => exact .inr ⟨s, m, e, canonical_of_unpack hu, rfl⟩

/-- The numbers that can be written with 53 places at an exponent of the format. -/
def OnGrid (v : ℚ) : Prop :=
  ∃ (s : Sign) (m : Nat) (e : Int), m < 2 ^ 53 ∧ -1074 ≤ e ∧ v = unitOf s * (m * 2 ^ e)

theorem onGrid_value (hx : x.isFinite = true) : OnGrid (value x) := by
  obtain ⟨s, hu⟩ | ⟨s, m, e, hcanon, hu⟩ := finite_cases hx
  · exact ⟨s, 0, 0, by decide, by decide, by simp [value_of_unpack_zero hu]⟩
  · exact ⟨s, m, e, hcanon.lt, hcanon.low, value_of_unpack_finite hu⟩

theorem OnGrid.neg {v : ℚ} (h : OnGrid v) : OnGrid (-v) := by
  obtain ⟨s, m, e, hm, he, rfl⟩ := h
  exact ⟨-s, m, e, hm, he, by rw [unitOf_neg, neg_mul]⟩

/-- The size of a number on the grid is on the grid. -/
theorem OnGrid.exists_nat {v : ℚ} (h : OnGrid v) (hv : 0 ≤ v) :
    ∃ (m : Nat) (e : Int), m < 2 ^ 53 ∧ -1074 ≤ e ∧ v = m * 2 ^ e := by
  obtain ⟨s, m, e, hm, he, rfl⟩ := h
  cases s with
  | positive => exact ⟨m, e, hm, he, one_mul _⟩
  | negative =>
    have hle := magnitude_nonneg m e
    have hzero : (m : ℚ) * 2 ^ e = 0 := by
      simp only [unitOf, neg_mul, one_mul] at hv
      linarith
    exact ⟨0, 0, by decide, by decide, by simp [hzero]⟩

theorem onGrid_natCast_mul (hm : m < 2 ^ 53) (he : -1074 ≤ e) : OnGrid (m * 2 ^ e) :=
  ⟨.positive, m, e, hm, he, (one_mul _).symm⟩

theorem onGrid_zero : OnGrid 0 := ⟨.positive, 0, 0, by decide, by decide, by simp⟩

theorem onGrid_two_zpow (he : -1074 ≤ e) : OnGrid (2 ^ e) := by
  have hgrid := onGrid_natCast_mul (m := 1) (by decide) he
  rwa [Nat.cast_one, one_mul] at hgrid

/-- The least number above 0. -/
theorem OnGrid.least_le {v : ℚ} (h : OnGrid v) (hv : 0 < v) : 2 ^ (-1074 : Int) ≤ v := by
  obtain ⟨m, e, -, he, rfl⟩ := h.exists_nat hv.le
  have hm : (1 : ℚ) ≤ m := by
    have hne : m ≠ 0 := by
      rintro rfl
      simp at hv
    exact_mod_cast Nat.one_le_iff_ne_zero.mpr hne
  calc (2 : ℚ) ^ (-1074 : Int) ≤ 2 ^ e := zpow_le_zpow_right₀ one_le_two he
    _ ≤ m * 2 ^ e := le_mul_of_one_le_left (two_zpow_pos e).le hm

theorem unpack_neg (x : Float) : (-x).toModel.unpack = x.toModel.unpack.neg := by
  have hneg : (-x).toModel.unpack = (Float.Model.pack x.toModel.unpack.neg).unpack := rfl
  rw [hneg]
  cases hu : x.toModel.unpack with
  | notANumber => rfl
  | infinity s => cases s <;> rfl
  | zero s => exact unpack_zero (-s)
  | finite s m e hm => exact (canonical_of_unpack hu).unpack_pack (-s)

@[simp] theorem value_neg (x : Float) : value (-x) = -value x := by
  unfold value
  rw [unpack_neg]
  cases x.toModel.unpack with
  | finite s m e hm => exact (congrArg (· * _) (unitOf_neg s)).trans (neg_mul ..)
  | _ => exact neg_zero.symm

theorem abs_value_lt (hx : x.isFinite = true) : |value x| < 2 ^ (1024 : Int) := by
  obtain ⟨s, hu⟩ | ⟨s, m, e, hcanon, hu⟩ := finite_cases hx
  · rw [value_of_unpack_zero hu, abs_zero]
    exact two_zpow_pos _
  · have hm : (m : ℚ) < 2 ^ 53 := by exact_mod_cast hcanon.lt
    have hhigh := hcanon.high
    rw [value_of_unpack_finite hu, abs_mul, abs_unitOf, one_mul,
      abs_of_nonneg (magnitude_nonneg m e)]
    calc (m : ℚ) * 2 ^ e < 2 ^ 53 * 2 ^ e := mul_lt_mul_of_pos_right hm (two_zpow_pos e)
      _ = 2 ^ (53 + e) := natCast_mul_two_zpow 53 e
      _ ≤ 2 ^ (1024 : Int) := zpow_le_zpow_right₀ one_le_two (by omega)

theorem finite_zero : Float.isFinite 0.0 = true := by decide +kernel

theorem finite_one : Float.isFinite 1.0 = true := by decide +kernel

theorem value_zero : value 0.0 = 0 := rfl

theorem value_one : value 1.0 = 1 := by decide +kernel

/-! ### Order -/

/-- Of two canonical forms the one with the larger exponent is the larger. -/
theorem Canonical.lt_of_exponent_lt {m' : Nat} {e' : Int} (h : Canonical m e)
    (h' : Canonical m' e') (hlt : e < e') : (m : ℚ) * 2 ^ e < m' * 2 ^ e' := by
  have hm : (m : ℚ) < 2 ^ 53 := by exact_mod_cast h.lt
  have hm' : (2 : ℚ) ^ 52 ≤ m' := by
    have hlow := h.low
    exact_mod_cast h'.normal.resolve_right (by omega)
  calc (m : ℚ) * 2 ^ e < 2 ^ 53 * 2 ^ e := mul_lt_mul_of_pos_right hm (two_zpow_pos e)
    _ = 2 ^ (53 + e) := natCast_mul_two_zpow 53 e
    _ ≤ 2 ^ (52 + e') := zpow_le_zpow_right₀ one_le_two (by omega)
    _ = 2 ^ 52 * 2 ^ e' := (natCast_mul_two_zpow 52 e').symm
    _ ≤ m' * 2 ^ e' := mul_le_mul_of_nonneg_right hm' (two_zpow_pos e').le

theorem compare_mul_right_pos (a b : ℚ) {c : ℚ} (hc : 0 < c) :
    compare (a * c) (b * c) = compare a b := by
  rcases lt_trichotomy a b with h | rfl | h
  · rw [compare_lt_iff_lt.mpr h, compare_lt_iff_lt.mpr (mul_lt_mul_of_pos_right h hc)]
  · rw [compare_eq_iff_eq.mpr rfl, compare_eq_iff_eq.mpr rfl]
  · rw [compare_gt_iff_gt.mpr h, compare_gt_iff_gt.mpr (mul_lt_mul_of_pos_right h hc)]

theorem swap_compare (a b : ℚ) : (compare a b).swap = compare (-a) (-b) := by
  rcases lt_trichotomy a b with h | rfl | h
  · rw [compare_lt_iff_lt.mpr h, compare_gt_iff_gt.mpr (neg_lt_neg h)]
    rfl
  · rw [compare_eq_iff_eq.mpr rfl, compare_eq_iff_eq.mpr rfl]
    rfl
  · rw [compare_gt_iff_gt.mpr h, compare_lt_iff_lt.mpr (neg_lt_neg h)]
    rfl

theorem compare_natCast (m m' : Nat) : compare (m : ℚ) m' = compare m m' := by
  rcases lt_trichotomy m m' with h | rfl | h
  · rw [compare_lt_iff_lt.mpr h, compare_lt_iff_lt.mpr (by exact_mod_cast h)]
  · rw [compare_eq_iff_eq.mpr rfl, compare_eq_iff_eq.mpr rfl]
  · rw [compare_gt_iff_gt.mpr h, compare_gt_iff_gt.mpr (by exact_mod_cast h)]

theorem Canonical.compare_eq {m' : Nat} {e' : Int} (h : Canonical m e) (h' : Canonical m' e') :
    (compare e e').then (compare m m') = compare ((m : ℚ) * 2 ^ e) (m' * 2 ^ e') := by
  rcases lt_trichotomy e e' with hlt | rfl | hgt
  · rw [compare_lt_iff_lt.mpr hlt, compare_lt_iff_lt.mpr (h.lt_of_exponent_lt h' hlt)]
    rfl
  · rw [compare_mul_right_pos _ _ (two_zpow_pos e), compare_natCast, compare_eq_iff_eq.mpr rfl]
    rfl
  · rw [compare_gt_iff_gt.mpr hgt, compare_gt_iff_gt.mpr (h'.lt_of_exponent_lt h hgt)]
    rfl

/-- Finite numbers compare as their values. -/
theorem compare_eq (hx : x.isFinite = true) (hy : y.isFinite = true) :
    x.toModel.unpack.compare y.toModel.unpack = some (compare (value x) (value y)) := by
  have hpos : ∀ {m : Nat} {e : Int}, Canonical m e → 0 < (m : ℚ) * 2 ^ e := fun hcanon =>
    mul_pos (by exact_mod_cast hcanon.pos) (two_zpow_pos _)
  obtain ⟨s, hu⟩ | ⟨s, m, e, hcanon, hu⟩ := finite_cases hx <;>
    obtain ⟨s', hu'⟩ | ⟨s', m', e', hcanon', hu'⟩ := finite_cases hy
  · rw [hu, hu', value_of_unpack_zero hu, value_of_unpack_zero hu', compare_eq_iff_eq.mpr rfl]
    rfl
  · rw [hu, hu', value_of_unpack_zero hu, value_of_unpack_finite hu']
    have hsize := hpos hcanon'
    cases s' <;> simp only [unitOf, one_mul, neg_mul]
    · rw [compare_gt_iff_gt.mpr (neg_neg_of_pos hsize)]
      rfl
    · rw [compare_lt_iff_lt.mpr hsize]
      rfl
  · rw [hu, hu', value_of_unpack_finite hu, value_of_unpack_zero hu']
    have hsize := hpos hcanon
    cases s <;> simp only [unitOf, one_mul, neg_mul]
    · rw [compare_lt_iff_lt.mpr (neg_neg_of_pos hsize)]
      rfl
    · rw [compare_gt_iff_gt.mpr hsize]
      rfl
  · rw [hu, hu', value_of_unpack_finite hu, value_of_unpack_finite hu']
    have hsize := hpos hcanon
    have hsize' := hpos hcanon'
    cases s <;> cases s' <;> simp only [unitOf, one_mul, neg_mul]
    · rw [← swap_compare, ← hcanon.compare_eq hcanon']
      rfl
    · rw [compare_lt_iff_lt.mpr (by linarith)]
      rfl
    · rw [compare_gt_iff_gt.mpr (by linarith)]
      rfl
    · rw [← hcanon.compare_eq hcanon']
      rfl

/-- **Finite numbers** are in the order of their values. -/
theorem lt_iff_value (hx : x.isFinite = true) (hy : y.isFinite = true) :
    x < y ↔ value x < value y := by
  have hlt : x < y ↔ (x.toModel.unpack.compare y.toModel.unpack == some .lt) = true := by
    show decide (x.toModel < y.toModel) = true ↔ _
    rw [decide_eq_true_iff]
    rfl
  rw [hlt, compare_eq hx hy, ← compare_lt_iff_lt]
  simp

theorem le_iff_value (hx : x.isFinite = true) (hy : y.isFinite = true) :
    x ≤ y ↔ value x ≤ value y := by
  rw [le_iff, compare_eq hx hy, ← compare_le_iff_le]
  simp [Ordering.isLE_iff_ne_gt]

theorem beq_iff_value (hx : x.isFinite = true) (hy : y.isFinite = true) :
    (x == y) = true ↔ value x = value y := by
  have hbeq : (x == y) = (x.toModel.unpack.compare y.toModel.unpack == some .eq) := rfl
  rw [hbeq, compare_eq hx hy, ← compare_eq_iff_eq]
  simp

/-! ### Rounding -/

/-- `x` is the exact number `v` after one rounding. -/
structure IsRounding (x : Float) (v : ℚ) : Prop where
  isFinite : x.isFinite = true
  near : |value x - v| ≤ 2 ^ (-53 : Int) * |v| + 2 ^ (-1075 : Int)
  le_of_le : ∀ w, OnGrid w → w ≤ v → w ≤ value x
  ge_of_ge : ∀ w, OnGrid w → v ≤ w → value x ≤ w

variable {v : ℚ} {a : Accuracy}

/-- A number on the grid is not changed by rounding. -/
theorem IsRounding.value_eq (h : IsRounding x v) (hv : OnGrid v) : value x = v :=
  le_antisymm (h.ge_of_ge v hv le_rfl) (h.le_of_le v hv le_rfl)

/-- Bounds on the grid hold after rounding too. -/
theorem IsRounding.abs_value_le {b : ℚ} (h : IsRounding x v) (hb : OnGrid b) (hv : |v| ≤ b) :
    |value x| ≤ b := by
  rw [abs_le] at hv ⊢
  exact ⟨h.le_of_le _ hb.neg hv.1, h.ge_of_ge _ hb hv.2⟩

theorem Locates.abs_roundToNearestEven_sub_le (h : Locates a m v) :
    |(a.roundToNearestEven m : ℚ) - v| ≤ 1 / 2 := by
  rw [abs_sub_le_iff]
  rcases a with _ | (_ | _ | _) <;> simp only [Locates, Accuracy.roundToNearestEven] at h ⊢
  · constructor <;> linarith
  · constructor <;> linarith
  · have hbit : ((m % 2 : Nat) : ℚ) = 0 ∨ ((m % 2 : Nat) : ℚ) = 1 := by
      rcases Nat.mod_two_eq_zero_or_one m with hm | hm <;> simp [hm]
    push_cast at hbit ⊢
    rcases hbit with hm | hm <;> constructor <;> linarith
  · constructor <;> push_cast <;> linarith

/-- Where places have been dropped, 53 are left. -/
theorem Wide.le_mantissa_kept (h : Wide m e) (a : Accuracy)
    (htop : -1074 < max (m.log2 + e - 52) (-1074)) : 2 ^ 52 ≤ (kept m e a).mantissa := by
  have hexp := h.exponent_eq
  unfold Wide at h
  have hm : m ≠ 0 := by
    rintro rfl
    rw [Nat.log2_zero] at *
    omega
  have hdropped : 52 + droppedPlaces m e = m.log2 := by omega
  rw [mantissa_kept, Nat.le_div_iff_mul_le (Nat.two_pow_pos _), ← Nat.pow_add, hdropped]
  exact Nat.log2_self_le hm

/-- What is rounded has the value of the rounded significand at the exponent of its last place. -/
theorem unpack_round (s : Sign) (hwide : Wide m e) (hfit : m.log2 + e ≤ 1022) {r : Nat} {top : Int}
    (hr : (kept m e a).roundedMantissa = r) (htop : max (m.log2 + e - 52) (-1074) = top)
    (hx : x = .ofModel (.pack (roundWithAccuracy Format.binary64 s m e a))) :
    value x = unitOf s * (r * 2 ^ top) := by
  have hle := (roundedMantissa_bounds (kept m e a)).1
  have hnormal := hwide.le_mantissa_kept a
  rw [hr] at hle
  rw [htop] at hnormal
  rcases roundWithAccuracy_cases s a hwide hr htop with ⟨rfl, hround⟩ | ⟨hpos, hlt, hround⟩ |
    ⟨rfl, hround⟩
  · rw [hround] at hx
    have hu : x.toModel.unpack = .zero s := by
      rw [hx]
      exact unpack_zero s
    rw [value_of_unpack_zero hu]
    simp
  · have hcanon : Canonical r top := ⟨hpos, hlt, by omega, by omega, by omega⟩
    rw [hround] at hx
    have hu : x.toModel.unpack = .finite s r top hpos := by
      rw [hx]
      exact hcanon.unpack_pack s
    exact value_of_unpack_finite hu
  · have hcanon : Canonical (2 ^ 52) (top + 1) :=
      ⟨by decide, by decide, by omega, by omega, .inl le_rfl⟩
    rw [hround] at hx
    have hu : x.toModel.unpack = .finite s (2 ^ 52) (top + 1) hcanon.pos := by
      rw [hx]
      exact hcanon.unpack_pack s
    rw [value_of_unpack_finite hu, zpow_add_one₀ two_ne_zero]
    push_cast
    ring

/-- Between two neighbouring significands of full length there is nothing on the grid. -/
theorem not_onGrid_between {k : Nat} {top : Int} {w : ℚ} (hk : 2 ^ 52 ≤ k ∨ top = -1074)
    (hlow : k * 2 ^ top < w) (hhigh : w < (k + 1) * 2 ^ top) : ¬ OnGrid w := by
  intro hw
  have hpos := two_zpow_pos top
  obtain ⟨m, e, hm, he, rfl⟩ := hw.exists_nat ((magnitude_nonneg k top).trans hlow.le)
  by_cases hexp : top ≤ e
  · -- the number is a multiple of the last place
    have hsplit : (m : ℚ) * 2 ^ e = (m * 2 ^ (e - top).toNat : Nat) * 2 ^ top := by
      have hpow : (2 : ℚ) ^ e = 2 ^ (e - top).toNat * 2 ^ top := by
        rw [natCast_mul_two_zpow]
        congr 1
        omega
      push_cast
      rw [hpow, mul_assoc]
    rw [hsplit] at hlow hhigh
    have hlow' := lt_of_mul_lt_mul_right hlow hpos.le
    have hhigh' := lt_of_mul_lt_mul_right hhigh hpos.le
    norm_cast at hlow' hhigh'
    omega
  · -- the number is too small for 53 places
    have hk' : (2 : ℚ) ^ 52 ≤ k := by exact_mod_cast hk.resolve_right (by omega)
    have hm' : (m : ℚ) < 2 ^ 53 := by exact_mod_cast hm
    refine lt_irrefl ((m : ℚ) * 2 ^ e) ?_
    calc (m : ℚ) * 2 ^ e < 2 ^ 53 * 2 ^ e := mul_lt_mul_of_pos_right hm' (two_zpow_pos e)
      _ = 2 ^ (53 + e) := natCast_mul_two_zpow 53 e
      _ ≤ 2 ^ (52 + top) := zpow_le_zpow_right₀ one_le_two (by omega)
      _ = 2 ^ 52 * 2 ^ top := (natCast_mul_two_zpow 52 top).symm
      _ ≤ k * 2 ^ top := mul_le_mul_of_nonneg_right hk' hpos.le
      _ < m * 2 ^ e := hlow

/-- Rounding does not cross a number on the grid. -/
theorem Locates.not_crosses {k : Nat} {top : Int} {w : ℚ} (h : Locates a k (v / 2 ^ top))
    (hk : 2 ^ 52 ≤ k ∨ top = -1074) (hw : OnGrid w) :
    (w ≤ v → w ≤ a.roundToNearestEven k * 2 ^ top) ∧
      (v ≤ w → a.roundToNearestEven k * 2 ^ top ≤ w) := by
  have hpos := two_zpow_pos top
  by_cases hexact : a = .exact
  · subst hexact
    have hv : v = k * 2 ^ top := (div_eq_iff hpos.ne').mp h
    rw [hv]
    exact ⟨id, id⟩
  · obtain ⟨hfloor, hceil⟩ := h.floor
    rw [le_div_iff₀ hpos] at hfloor
    rw [div_lt_iff₀ hpos] at hceil
    have hle : (k : ℚ) * 2 ^ top ≤ a.roundToNearestEven k * 2 ^ top := by
      refine mul_le_mul_of_nonneg_right ?_ hpos.le
      rcases a with _ | (_ | _ | _) <;> simp [Accuracy.roundToNearestEven]
    have hge : (a.roundToNearestEven k : ℚ) * 2 ^ top ≤ (k + 1) * 2 ^ top := by
      refine mul_le_mul_of_nonneg_right ?_ hpos.le
      have hbound : a.roundToNearestEven k ≤ k + 1 := by
        rcases a with _ | (_ | _ | _) <;> simp only [Accuracy.roundToNearestEven] <;> omega
      exact_mod_cast hbound
    constructor
    · intro hwv
      by_contra hlt
      exact not_onGrid_between hk (hle.trans_lt (not_le.mp hlt)) (hwv.trans_lt hceil) hw
    · intro hvw
      by_contra hlt
      -- `v` itself may be the lower neighbour only if nothing was dropped
      have hstrict : (k : ℚ) * 2 ^ top < v := by
        refine lt_of_le_of_ne hfloor fun heq => ?_
        rw [← heq, mul_div_cancel_right₀ _ hpos.ne'] at h
        rcases a with _ | (_ | _ | _) <;> simp only [Locates] at h
        · exact hexact rfl
        all_goals linarith
      exact not_onGrid_between hk (hstrict.trans_le hvw) ((not_le.mp hlt).trans_le hge) hw

/-- The last place is small against the number, or it is the least there is. -/
theorem Locates.last_place_le {k : Nat} {top : Int} (h : Locates a k (v / 2 ^ top))
    (hk : 2 ^ 52 ≤ k ∨ top = -1074) : (2 : ℚ) ^ top ≤ 2 ^ (-52 : Int) * v + 2 ^ (-1074 : Int) := by
  have hpos := two_zpow_pos top
  have hfloor := h.floor.1
  rw [le_div_iff₀ hpos] at hfloor
  rcases hk with hlarge | hleast
  · have hlarge' : (2 : ℚ) ^ 52 ≤ k := by exact_mod_cast hlarge
    have hprod : (2 : ℚ) ^ 52 * 2 ^ top ≤ v :=
      (mul_le_mul_of_nonneg_right hlarge' hpos.le).trans hfloor
    have hunit : (2 : ℚ) ^ (-52 : Int) * 2 ^ 52 = 1 := by norm_num
    have hscaled := mul_le_mul_of_nonneg_left hprod (two_zpow_pos (-52)).le
    rw [← mul_assoc, hunit, one_mul] at hscaled
    exact hscaled.trans (le_add_of_nonneg_right (two_zpow_pos _).le)
  · rw [hleast]
    have hnonneg := (magnitude_nonneg k top).trans hfloor
    exact le_add_of_nonneg_left (mul_nonneg (two_zpow_pos _).le hnonneg)

/-- A number is rounded by half of its last place at most. -/
theorem Locates.abs_round_sub_le {k : Nat} {top : Int} (h : Locates a k (v / 2 ^ top))
    (hk : 2 ^ 52 ≤ k ∨ top = -1074) :
    |(a.roundToNearestEven k : ℚ) * 2 ^ top - v| ≤ 2 ^ (-53 : Int) * v + 2 ^ (-1075 : Int) := by
  have hpos := two_zpow_pos top
  have hsplit : (a.roundToNearestEven k : ℚ) * 2 ^ top - v
      = ((a.roundToNearestEven k : ℚ) - v / 2 ^ top) * 2 ^ top := by
    rw [sub_mul, div_mul_cancel₀ _ hpos.ne']
  have hhalves : (2 : ℚ) ^ (-53 : Int) * v + 2 ^ (-1075 : Int)
      = 1 / 2 * (2 ^ (-52 : Int) * v + 2 ^ (-1074 : Int)) := by
    rw [show (-53 : Int) = -52 - 1 by rfl, show (-1075 : Int) = -1074 - 1 by rfl,
      zpow_sub_one₀ two_ne_zero, zpow_sub_one₀ two_ne_zero]
    ring
  rw [hsplit, abs_mul, abs_of_pos hpos, hhalves]
  exact mul_le_mul h.abs_roundToNearestEven_sub_le (h.last_place_le hk) hpos.le (by norm_num)

/-- **Rounding** of a number below `2 ^ 1023` is finite, close, and does not cross a number on the
grid. -/
theorem isRounding_round (s : Sign) (hloc : Locates a m (v / 2 ^ e)) (hwide : Wide m e)
    (hv : v < 2 ^ (1023 : Int)) :
    IsRounding (.ofModel (.pack (roundWithAccuracy Format.binary64 s m e a))) (unitOf s * v) := by
  have hfit : m.log2 + e ≤ 1022 := by
    by_cases hm : m = 0
    · have he := hwide.resolve_left (by subst hm; decide)
      rw [hm, Nat.log2_zero]
      omega
    · have := lt_of_two_zpow_lt ((hloc.leading hm).1.trans_lt hv)
      omega
  set x := Float.ofModel (.pack (roundWithAccuracy Format.binary64 s m e a)) with hx
  set top := max (m.log2 + e - 52) (-1074) with htop
  set k := (kept m e a).mantissa with hk
  have hval := unpack_round s hwide hfit rfl htop.symm hx
  have hkept := locates_kept hloc hwide.exponent_eq
  rw [← htop] at hkept
  have hnormal : 2 ^ 52 ≤ k ∨ top = -1074 := by
    by_cases hleast : top = -1074
    · exact .inr hleast
    · exact .inl (hwide.le_mantissa_kept a (by omega))
  have hpos := two_zpow_pos top
  have hnonneg : 0 ≤ v := by
    have := hkept.floor.1
    rw [le_div_iff₀ hpos] at this
    exact (magnitude_nonneg _ top).trans this
  refine ⟨isFinite_pack_round hwide (.inl hfit), ?_, ?_, ?_⟩
  · rw [hval, ← mul_sub, abs_mul, abs_unitOf, one_mul, abs_mul, abs_unitOf, one_mul,
      abs_of_nonneg hnonneg]
    exact hkept.abs_round_sub_le hnormal
  · intro w hw hwv
    rw [hval]
    cases s with
    | positive =>
      simp only [unitOf, one_mul] at hwv ⊢
      exact (hkept.not_crosses hnormal hw).1 hwv
    | negative =>
      simp only [unitOf, neg_mul, one_mul] at hwv ⊢
      exact le_neg_of_le_neg ((hkept.not_crosses hnormal hw.neg).2 (le_neg_of_le_neg hwv))
  · intro w hw hwv
    rw [hval]
    cases s with
    | positive =>
      simp only [unitOf, one_mul] at hwv ⊢
      exact (hkept.not_crosses hnormal hw).2 hwv
    | negative =>
      simp only [unitOf, neg_mul, one_mul] at hwv ⊢
      exact neg_le_of_neg_le ((hkept.not_crosses hnormal hw.neg).1 (neg_le_of_neg_le hwv))

/-! ### Operations -/

/-- A finite number is the rounding of its own value. -/
theorem isRounding_value (hx : x.isFinite = true) : IsRounding x (value x) := by
  refine ⟨hx, ?_, fun w _ h => h, fun w _ h => h⟩
  rw [sub_self, abs_zero]
  positivity

theorem isRounding_zero (s : Sign) : IsRounding (.ofModel (.pack (.zero s))) 0 := by
  have hval : value (.ofModel (.pack (.zero s))) = 0 := value_of_unpack_zero (unpack_zero s)
  rw [← hval]
  exact isRounding_value (isFinite_pack_zero s)

/-- **Products** are rounded once. -/
theorem isRounding_mul (hx : x.isFinite = true) (hy : y.isFinite = true)
    (hsize : |value x * value y| < 2 ^ (1023 : Int)) : IsRounding (x * y) (value x * value y) := by
  have hmul : x * y = .ofModel (.pack (UnpackedFloat.mul Format.binary64 x.toModel.unpack
    y.toModel.unpack)) := rfl
  rw [hmul]
  obtain ⟨s, hu⟩ | ⟨s, m, e, hcanon, hu⟩ := finite_cases hx <;>
    obtain ⟨s', hu'⟩ | ⟨s', m', e', hcanon', hu'⟩ := finite_cases hy
  · rw [hu, hu', value_of_unpack_zero hu, zero_mul]
    exact isRounding_zero _
  · rw [hu, hu', value_of_unpack_zero hu, zero_mul]
    exact isRounding_zero _
  · rw [hu, hu', value_of_unpack_zero hu', mul_zero]
    exact isRounding_zero _
  · have hsplit : value x * value y = unitOf (s * s') * (m * 2 ^ e * (m' * 2 ^ e')) := by
      rw [value_of_unpack_finite hu, value_of_unpack_finite hu', unitOf_mul]
      ring
    have hnonneg := mul_nonneg (magnitude_nonneg m e) (magnitude_nonneg m' e')
    rw [hsplit, abs_mul, abs_unitOf, one_mul, abs_of_nonneg hnonneg] at hsize
    rw [hu, hu', hsplit]
    refine isRounding_round _ ?_ (hcanon.wide_mul hcanon') hsize
    show _ = ((m * m' : Nat) : ℚ)
    have := (two_zpow_pos e).ne'
    have := (two_zpow_pos e').ne'
    rw [zpow_add₀ two_ne_zero, Nat.cast_mul]
    field_simp

/-- **Quotients** are rounded once. -/
theorem isRounding_div (hx : x.isFinite = true) (hy : y.isFinite = true) (hzero : value y ≠ 0)
    (hsize : |value x / value y| < 2 ^ (1023 : Int)) : IsRounding (x / y) (value x / value y) := by
  have hdiv : x / y = .ofModel (.pack (UnpackedFloat.div Format.binary64 x.toModel.unpack
    y.toModel.unpack)) := rfl
  rw [hdiv]
  obtain ⟨s', hu'⟩ | ⟨s', m', e', hcanon', hu'⟩ := finite_cases hy
  · exact absurd (value_of_unpack_zero hu') hzero
  obtain ⟨s, hu⟩ | ⟨s, m, e, hcanon, hu⟩ := finite_cases hx
  · rw [hu, hu', value_of_unpack_zero hu, zero_div]
    exact isRounding_zero _
  · have hsplit : value x / value y = unitOf (s / s') * (m * 2 ^ e / (m' * 2 ^ e')) := by
      rw [value_of_unpack_finite hu, value_of_unpack_finite hu', unitOf_div]
      exact mul_div_mul_comm ..
    have hnonneg := div_nonneg (magnitude_nonneg m e) (magnitude_nonneg m' e')
    rw [hsplit, abs_mul, abs_unitOf, one_mul, abs_of_nonneg hnonneg] at hsize
    obtain ⟨k, top, a, hcore, hloc, hwide⟩ :=
      @locates_divCore m m' e e' hcanon.pos hcanon'.pos
    rw [hu, hu', hsplit]
    simp only [UnpackedFloat.div, hcore]
    exact isRounding_round _ hloc hwide hsize

/-- Half of a finite number is finite. -/
theorem isFinite_half (hx : x.isFinite = true) : (x / 2.0).isFinite = true := by
  have htwo : Float.isFinite 2.0 = true := by decide +kernel
  have hval : value 2.0 = 2 := by decide +kernel
  refine (isRounding_div hx htwo (by rw [hval]; norm_num) ?_).isFinite
  rw [hval, abs_div, abs_two, div_lt_iff₀ two_pos, ← zpow_add_one₀ two_ne_zero]
  exact abs_value_lt hx

/-- A significand that is not zero is shifted to 53 places before it is rounded. -/
theorem isRounding_round_exact (s : Sign) (hm : 0 < m)
    (hsize : (m : ℚ) * 2 ^ e < 2 ^ (1023 : Int)) :
    IsRounding (.ofModel (.pack (UnpackedFloat.round Format.binary64 s m e)))
      (unitOf s * (m * 2 ^ e)) := by
  have hplaces : (e - Format.binary64.targetExponent (totalExponent m e)).toNat
      = (e - max (m.log2 + e - 52) (-1074)).toNat := by
    show (e - max ((m.log2 : Int) + 1 + e - 53) (-1074)).toNat = _
    congr 3
    omega
  unfold UnpackedFloat.round decreaseExponent
  simp only [hplaces, Nat.shiftLeft_eq]
  set k := (e - max (m.log2 + e - 52) (-1074)).toNat with hk
  refine isRounding_round s ?_ ?_ hsize
  · show _ = ((m * 2 ^ k : Nat) : ℚ)
    have := (two_zpow_pos e).ne'
    rw [zpow_sub₀ two_ne_zero, zpow_natCast]
    push_cast
    field_simp
  · have hlog : m.log2 + k ≤ (m * 2 ^ k).log2 := by
      refine (Nat.le_log2 (Nat.mul_pos hm (Nat.two_pow_pos k)).ne').mpr ?_
      rw [Nat.pow_add]
      exact Nat.mul_le_mul_right _ (Nat.log2_self_le hm.ne')
    unfold Wide
    omega

theorem isRounding_normalize (n : Int) (hsize : |(n : ℚ) * 2 ^ e| < 2 ^ (1023 : Int)) :
    IsRounding (.ofModel (.pack (UnpackedFloat.normalize Format.binary64 n e .positive)))
      (n * 2 ^ e) := by
  rw [abs_mul, abs_of_pos (two_zpow_pos e)] at hsize
  unfold UnpackedFloat.normalize
  rcases lt_trichotomy n 0 with hn | rfl | hn
  · have hcast : ((-n).toNat : ℚ) = -n := by
      have : ((-n).toNat : Int) = -n := Int.toNat_of_nonneg (by omega)
      exact_mod_cast congrArg (Int.cast : Int → ℚ) this
    have hval : (n : ℚ) * 2 ^ e = unitOf .negative * ((-n).toNat * 2 ^ e) := by
      rw [hcast, unitOf]
      ring
    rw [Int.compare_eq_lt.mpr hn, hval]
    refine isRounding_round_exact _ (by omega) ?_
    have hneg : (n : ℚ) < 0 := by exact_mod_cast hn
    rwa [hcast, ← abs_of_neg hneg]
  · simp only [Int.cast_zero, zero_mul]
    exact isRounding_zero _
  · have hcast : (n.toNat : ℚ) = n := by
      have : (n.toNat : Int) = n := Int.toNat_of_nonneg (by omega)
      exact_mod_cast congrArg (Int.cast : Int → ℚ) this
    have hval : (n : ℚ) * 2 ^ e = unitOf .positive * (n.toNat * 2 ^ e) := by
      rw [hcast, unitOf, one_mul]
    rw [Int.compare_eq_gt.mpr hn, hval]
    refine isRounding_round_exact _ (by omega) ?_
    have hpos : (0 : ℚ) < n := by exact_mod_cast hn
    rwa [hcast, ← abs_of_pos hpos]

theorem signed_shiftLeft (s : Sign) (m : Nat) {e top : Int} (h : top ≤ e) :
    ((s.apply (m <<< (e - top).toNat : Nat) : Int) : ℚ) * 2 ^ top = unitOf s * (m * 2 ^ e) := by
  have hpow : (2 : ℚ) ^ e = 2 ^ (e - top).toNat * 2 ^ top := by
    rw [natCast_mul_two_zpow]
    congr 1
    omega
  rw [Nat.shiftLeft_eq, hpow]
  cases s <;> simp only [Sign.apply, unitOf] <;> push_cast <;> ring

/-- **Sums** are rounded once. -/
theorem isRounding_add (hx : x.isFinite = true) (hy : y.isFinite = true)
    (hsize : |value x + value y| < 2 ^ (1023 : Int)) : IsRounding (x + y) (value x + value y) := by
  have hadd : x + y = .ofModel (.pack (UnpackedFloat.add Format.binary64 x.toModel.unpack
    y.toModel.unpack)) := rfl
  have hrepack : ∀ z : Float, Float.ofModel (.pack z.toModel.unpack) = z := fun z =>
    congrArg Float.ofModel (repack z.toModel)
  obtain ⟨s, hu⟩ | ⟨s, m, e, hcanon, hu⟩ := finite_cases hx <;>
    obtain ⟨s', hu'⟩ | ⟨s', m', e', hcanon', hu'⟩ := finite_cases hy
  · rw [hadd, hu, hu', value_of_unpack_zero hu, value_of_unpack_zero hu', add_zero]
    cases s <;> cases s' <;> exact isRounding_zero _
  · have hsum : x + y = y := by
      rw [hadd, hu]
      refine Eq.trans ?_ (hrepack y)
      rw [hu']
      rfl
    rw [hsum, value_of_unpack_zero hu, zero_add]
    exact isRounding_value hy
  · have hsum : x + y = x := by
      rw [hadd, hu']
      refine Eq.trans ?_ (hrepack x)
      rw [hu]
      rfl
    rw [hsum, value_of_unpack_zero hu', add_zero]
    exact isRounding_value hx
  · have hval : value x + value y = ((s.apply (m <<< (e - min e e').toNat : Nat)
        + s'.apply (m' <<< (e' - min e e').toNat : Nat) : Int) : ℚ) * 2 ^ min e e' := by
      rw [Int.cast_add, add_mul, signed_shiftLeft s m (min_le_left e e'),
        signed_shiftLeft s' m' (min_le_right e e'), value_of_unpack_finite hu,
        value_of_unpack_finite hu']
    rw [hval] at hsize ⊢
    rw [hadd, hu, hu']
    exact isRounding_normalize _ hsize

theorem float_sub_eq_add_neg (x y : Float) : x - y = x + -y := by
  have hsub : x - y = .ofModel (.pack (UnpackedFloat.sub Format.binary64 x.toModel.unpack
    y.toModel.unpack)) := rfl
  have hadd : x + -y = .ofModel (.pack (UnpackedFloat.add Format.binary64 x.toModel.unpack
    (-y).toModel.unpack)) := rfl
  have happly : ∀ (s : Sign) (n : Int), (-s).apply n = -s.apply n := by
    intro s n
    cases s
    · exact (neg_neg n).symm
    · rfl
  rw [hsub, hadd, unpack_neg]
  congr 2
  cases x.toModel.unpack <;> cases y.toModel.unpack <;> try rfl
  simp only [UnpackedFloat.sub, UnpackedFloat.add, UnpackedFloat.neg, happly, Int.sub_eq_add_neg]

/-- **Differences** are rounded once. -/
theorem isRounding_sub (hx : x.isFinite = true) (hy : y.isFinite = true)
    (hsize : |value x - value y| < 2 ^ (1023 : Int)) : IsRounding (x - y) (value x - value y) := by
  have hneg : value x - value y = value x + value (-y) := by rw [value_neg, sub_eq_add_neg]
  rw [hneg] at hsize ⊢
  rw [float_sub_eq_add_neg]
  exact isRounding_add hx ((isFinite_neg y).trans hy) hsize

/-! ### Commutativity -/

theorem float_mul_comm (x y : Float) : x * y = y * x := by
  have hmul : ∀ x y : Float, x * y = .ofModel (.pack (UnpackedFloat.mul Format.binary64
    x.toModel.unpack y.toModel.unpack)) := fun _ _ => rfl
  have hsign : ∀ s t : Sign, s * t = t * s := by
    intro s t
    cases s <;> cases t <;> rfl
  rw [hmul, hmul]
  congr 2
  cases x.toModel.unpack <;> cases y.toModel.unpack <;>
    simp only [UnpackedFloat.mul, hsign, Nat.mul_comm, Int.add_comm]

theorem float_add_comm (x y : Float) : x + y = y + x := by
  have hadd : ∀ x y : Float, x + y = .ofModel (.pack (UnpackedFloat.add Format.binary64
    x.toModel.unpack y.toModel.unpack)) := fun _ _ => rfl
  rw [hadd, hadd]
  congr 2
  cases x.toModel.unpack with
  | finite s m e hm =>
    cases y.toModel.unpack with
    | finite s' m' e' hm' =>
      simp only [UnpackedFloat.add, min_comm e e', Int.add_comm]
    | _ => rfl
  | infinity s => cases y.toModel.unpack with
    | infinity s' => cases s <;> cases s' <;> rfl
    | _ => rfl
  | zero s => cases y.toModel.unpack with
    | zero s' => cases s <;> cases s' <;> rfl
    | _ => rfl
  | notANumber => cases y.toModel.unpack <;> rfl

/-! ### Square roots -/

/-- The root is taken of a significand so long that the root has 53 places. -/
theorem sqrtCore_eq (hcanon : Canonical m e) :
    ∃ (top : Int) (k : Nat) (a : Accuracy), e = 2 * top + k ∧ -1074 < top ∧ 104 ≤ m.log2 + k ∧
      sqrtCore Format.binary64 m e = (Nat.sqrt (m * 2 ^ k), top, a) := by
  have hlog : m.log2 < 53 := (Nat.log2_lt hcanon.pos.ne').mpr hcanon.lt
  have hlow := hcanon.low
  have htarget : Format.binary64.targetExponent ((totalExponent m e + 1).ediv 2)
      = max (((m.log2 : Int) + 2 + e) / 2 - 53) (-1074) := by
    show max (((m.log2 : Int) + 1 + e + 1) / 2 - 53) (-1074) = _
    congr 3
    omega
  have hhalf : e.ediv 2 = e / 2 := rfl
  unfold sqrtCore
  simp only [htarget, hhalf, Nat.shiftLeft_eq]
  refine ⟨_, _, _, ?_, ?_, ?_, rfl⟩ <;> omega

/-- A root to which a long significand is rounded is within a factor of two when it is squared. -/
theorem sq_root_bounds {n d r : Nat} (hlong : 3 ≤ n.sqrt / 2 ^ d) (hlow : n.sqrt / 2 ^ d ≤ r)
    (hhigh : r ≤ n.sqrt / 2 ^ d + 1) : n ≤ 2 * (r * 2 ^ d) ^ 2 ∧ (r * 2 ^ d) ^ 2 ≤ 2 * n := by
  set k := n.sqrt / 2 ^ d
  have hfloor : k * 2 ^ d ≤ n.sqrt := Nat.div_mul_le_self ..
  have hceil : n.sqrt < (k + 1) * 2 ^ d := by
    rw [Nat.mul_comm]
    exact Nat.lt_mul_div_succ _ (Nat.two_pow_pos d)
  have hsquare : (k + 1) ^ 2 ≤ 2 * k ^ 2 := by nlinarith
  have hstep : ((k + 1) * 2 ^ d) ^ 2 ≤ 2 * (k * 2 ^ d) ^ 2 := by
    rw [Nat.mul_pow, Nat.mul_pow, ← Nat.mul_assoc]
    exact Nat.mul_le_mul_right _ hsquare
  constructor
  · calc n ≤ (n.sqrt + 1) ^ 2 := by
          rw [Nat.pow_two]
          exact (Nat.lt_succ_sqrt n).le
      _ ≤ ((k + 1) * 2 ^ d) ^ 2 := Nat.pow_le_pow_left hceil 2
      _ ≤ 2 * (k * 2 ^ d) ^ 2 := hstep
      _ ≤ 2 * (r * 2 ^ d) ^ 2 := Nat.mul_le_mul_left 2
          (Nat.pow_le_pow_left (Nat.mul_le_mul_right _ hlow) 2)
  · calc (r * 2 ^ d) ^ 2 ≤ ((k + 1) * 2 ^ d) ^ 2 :=
          Nat.pow_le_pow_left (Nat.mul_le_mul_right _ hhigh) 2
      _ ≤ 2 * (k * 2 ^ d) ^ 2 := hstep
      _ ≤ 2 * n.sqrt ^ 2 := Nat.mul_le_mul_left 2 (Nat.pow_le_pow_left hfloor 2)
      _ ≤ 2 * n := Nat.mul_le_mul_left 2 (Nat.sqrt_le' n)

/-- The root of a long significand has 53 places and fits the format. -/
theorem log2_sqrt_bounds {k : Nat} {top : Int} (hcanon : Canonical m e) (hexp : e = 2 * top + k)
    (hlong : 104 ≤ m.log2 + k) :
    52 ≤ (m * 2 ^ k).sqrt.log2 ∧ (m * 2 ^ k).sqrt.log2 + top ≤ 1022 := by
  set n := m * 2 ^ k with hn
  have hroot : 2 ^ 52 ≤ n.sqrt := by
    refine Nat.le_sqrt.mpr ?_
    calc 2 ^ 52 * 2 ^ 52 = 2 ^ 104 := rfl
      _ ≤ 2 ^ (m.log2 + k) := Nat.pow_le_pow_right (by decide) hlong
      _ = 2 ^ m.log2 * 2 ^ k := Nat.pow_add ..
      _ ≤ n := Nat.mul_le_mul_right _ (Nat.log2_self_le hcanon.pos.ne')
  have hne : n.sqrt ≠ 0 := by omega
  have hlt : 2 ^ (n.sqrt.log2 + n.sqrt.log2) < 2 ^ (53 + k) := calc
    2 ^ (n.sqrt.log2 + n.sqrt.log2) = 2 ^ n.sqrt.log2 * 2 ^ n.sqrt.log2 := Nat.pow_add ..
    _ ≤ n.sqrt * n.sqrt := Nat.mul_le_mul (Nat.log2_self_le hne) (Nat.log2_self_le hne)
    _ ≤ n := Nat.sqrt_le n
    _ < 2 ^ 53 * 2 ^ k := Nat.mul_lt_mul_of_pos_right hcanon.lt (Nat.two_pow_pos k)
    _ = 2 ^ (53 + k) := (Nat.pow_add ..).symm
  have hlog := (Nat.pow_lt_pow_iff_right (by decide)).mp hlt
  have hhigh := hcanon.high
  exact ⟨(Nat.le_log2 hne).mpr hroot, by omega⟩

/-- The square of a computed root is within a factor of two of the number. -/
theorem sqrt_spec_of_unpack {hm : 0 < m} (hu : x.toModel.unpack = .finite .positive m e hm) :
    x.sqrt.isFinite = true ∧ 0 ≤ value x.sqrt ∧ value x ≤ 2 * value x.sqrt ^ 2 ∧
      value x.sqrt ^ 2 ≤ 2 * value x := by
  have hcanon := canonical_of_unpack hu
  obtain ⟨top, k, a, hexp, hleast, hlong, hcore⟩ := sqrtCore_eq hcanon
  have hsqrt : x.sqrt = .ofModel (.pack (UnpackedFloat.sqrt Format.binary64 x.toModel.unpack)) :=
    rfl
  have hx : x.sqrt = .ofModel (.pack (roundWithAccuracy Format.binary64 .positive
      (m * 2 ^ k).sqrt top a)) := by
    rw [hsqrt, hu]
    simp only [UnpackedFloat.sqrt, hcore]
  obtain ⟨hlog, hfit⟩ := log2_sqrt_bounds hcanon hexp hlong
  set n := m * 2 ^ k with hn
  have hwide : Wide n.sqrt top := .inl hlog
  have hval := unpack_round .positive hwide hfit rfl hwide.exponent_eq.symm hx
  have hkept := hwide.le_mantissa_kept a (by omega)
  have hround := roundedMantissa_bounds (kept n.sqrt top a)
  rw [mantissa_kept] at hkept hround
  obtain ⟨hle, hge⟩ := sq_root_bounds (by omega) hround.1 hround.2
  have hscale : value x = n * 2 ^ (2 * top) := by
    rw [value_of_unpack_finite hu, unitOf, one_mul, hexp, hn, zpow_add₀ two_ne_zero, zpow_natCast]
    push_cast
    ring
  have hsquare : value x.sqrt ^ 2 = ((kept n.sqrt top a).roundedMantissa
      * 2 ^ droppedPlaces n.sqrt top : Nat) ^ 2 * 2 ^ (2 * top) := by
    rw [hval, unitOf, one_mul, zpow_add₀ two_ne_zero, zpow_natCast, two_mul,
      zpow_add₀ two_ne_zero]
    push_cast
    ring
  have hunit := two_zpow_pos (2 * top)
  refine ⟨?_, ?_, ?_, ?_⟩
  · rw [hx]
    exact isFinite_pack_round hwide (.inl hfit)
  · rw [hval, unitOf, one_mul]
    exact magnitude_nonneg _ _
  · rw [hscale, hsquare, ← mul_assoc]
    exact mul_le_mul_of_nonneg_right (by exact_mod_cast hle) hunit.le
  · rw [hscale, hsquare, ← mul_assoc]
    exact mul_le_mul_of_nonneg_right (by exact_mod_cast hge) hunit.le

/-- **Square roots** of numbers that are not negative are finite, and their squares are within a
factor of two of the number. -/
theorem sqrt_spec (hx : x.isFinite = true) (hnonneg : 0 ≤ value x) :
    x.sqrt.isFinite = true ∧ 0 ≤ value x.sqrt ∧ value x ≤ 2 * value x.sqrt ^ 2 ∧
      value x.sqrt ^ 2 ≤ 2 * value x := by
  obtain ⟨s, hu⟩ | ⟨s, m, e, hcanon, hu⟩ := finite_cases hx
  · have hsqrt : x.sqrt = .ofModel (.pack (.zero s)) := by
      show Float.ofModel (.pack (UnpackedFloat.sqrt Format.binary64 x.toModel.unpack)) = _
      rw [hu]
      rfl
    have hzero : value x.sqrt = 0 := by
      rw [hsqrt]
      exact value_of_unpack_zero (unpack_zero s)
    rw [hzero, value_of_unpack_zero hu, hsqrt]
    exact ⟨isFinite_pack_zero s, le_rfl, by norm_num, by norm_num⟩
  · cases s with
    | positive => exact sqrt_spec_of_unpack hu
    | negative =>
      have hpos : (0 : ℚ) < m * 2 ^ e := mul_pos (by exact_mod_cast hcanon.pos) (two_zpow_pos e)
      rw [value_of_unpack_finite hu, unitOf] at hnonneg
      linarith

end OneWay.Binary64
