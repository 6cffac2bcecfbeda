import OneWay.Decimal.Shortest
import OneWay.Proofs.Decimal.Nearest

/-!
# The fewest digits belong to their number

`Magnitude.ofFloat` takes a number apart as its word says, and `Magnitude.readsBack` accepts exactly
the decimals that belong to the number (`Magnitude.Proper.readsBack_iff`). So the decimal that is
selected belongs to it (`Magnitude.Proper.catches_shortest`).
-/

namespace OneWay.Decimal

open Float.Model Float.Model.UnpackedFloat Binary64

/-! ### The parts of a number -/

/-- The sign of a number. -/
def sign (x : Float) : Sign := if isNegative x then .negative else .positive

/-- The parts of a number other than zero, with the note about its lower neighbour. -/
structure Magnitude.Proper (m : Magnitude) : Prop where
  canonical : Canonical m.significand m.exponent
  tight : m.tightBelow = true ↔ m.significand = 2 ^ 52 ∧ -1074 < m.exponent

/-- The word of a number in its three fields. -/
theorem exists_fields (x : Float) : ∃ field fraction,
    x.toBits.toBitVec = packComponents Format.binary64 (sign x) field fraction ∧
    Magnitude.ofFloat x = if field.toNat = 0 then ⟨fraction.toNat, -1074, false⟩
      else ⟨2 ^ 52 + fraction.toNat, field.toNat - 1075,
        fraction.toNat == 0 && field.toNat != 1⟩ := by
  obtain ⟨s, field, fraction, hword⟩ := exists_packComponents x.toBits.toBitVec
  have hbits : x.toBits.toNat = s.toBitVec.toNat * 2 ^ 63 + field.toNat * 2 ^ 52
      + fraction.toNat := by
    rw [← toNat_packComponents, ← hword]
    rfl
  have hfield : field.toNat < 2 ^ 11 := field.isLt
  have hfraction : fraction.toNat < 2 ^ 52 := fraction.isLt
  have hs : s.toBitVec.toNat < 2 := s.toBitVec.isLt
  have hsign : sign x = s := by
    have hneg : isNegative x = true ↔ 0x8000000000000000 ≤ x.toBits.toNat := by
      unfold isNegative
      rw [decide_eq_true_iff, ge_iff_le, UInt64.le_iff_toNat_le]
      rfl
    unfold sign
    cases s with
    | positive =>
      have hbit : (Sign.positive.toBitVec).toNat = 0 := rfl
      rw [if_neg]
      rw [hneg]
      omega
    | negative =>
      have hbit : (Sign.negative.toBitVec).toNat = 1 := rfl
      rw [if_pos]
      rw [hneg]
      omega
  refine ⟨field, fraction, by rw [hsign, hword], ?_⟩
  have h₁ : x.toBits.toNat / 0x10000000000000 % 0x800 = field.toNat := by omega
  have h₂ : x.toBits.toNat % 0x10000000000000 = fraction.toNat := by omega
  simp only [Magnitude.ofFloat, h₁, h₂]
  rfl

/-- A finite number is a zero or made up of proper parts. -/
theorem Magnitude.ofFloat_cases {x : Float} (hx : x.isFinite = true) :
    ((Magnitude.ofFloat x).significand = 0 ∧ x = .ofModel (.pack (.zero (sign x)))) ∨
    ∃ h : (Magnitude.ofFloat x).Proper, x = .ofModel (.pack (.finite (sign x)
      (Magnitude.ofFloat x).significand (Magnitude.ofFloat x).exponent h.canonical.pos)) := by
  obtain ⟨field, fraction, hword, hm⟩ := exists_fields x
  have hu : x.toModel.unpack = UnpackedFloat.unpack Format.binary64
    (packComponents Format.binary64 (sign x) field fraction) := hword ▸ rfl
  have hpack : ∀ {m e} {h : 0 < m}, x.toModel.unpack = .finite (sign x) m e h →
      x = .ofModel (.pack (.finite (sign x) m e h)) := fun h => by rw [← h, repack]
  have hx' : x.toModel.unpack.isFinite = true := hx
  rw [hu, isFinite_unpack_packComponents] at hx'
  have hlt : field.toNat < 2048 := field.isLt
  have hlt' : fraction.toNat < 2 ^ 52 := fraction.isLt
  have hinf : field.toNat ≠ 2047 := fun heq => hx' (BitVec.eq_of_toNat_eq heq)
  rw [hm]
  by_cases hzero : field.toNat = 0
  · -- zeros and subnormal numbers
    obtain rfl : field = 0#11 := BitVec.eq_of_toNat_eq hzero
    simp only [if_pos hzero]
    by_cases hnone : fraction.toNat = 0
    · obtain rfl : fraction = 0#52 := BitVec.eq_of_toNat_eq hnone
      exact .inl ⟨rfl, Float.toBits_inj.mp (UInt64.toBitVec_inj.mp hword)⟩
    · have hsome : fraction ≠ 0#52 := fun heq => hnone (congrArg BitVec.toNat heq)
      have hcanon : Canonical fraction.toNat (-1074) :=
        ⟨Nat.pos_of_ne_zero hnone, Nat.lt_trans hlt' (by decide), by decide, by decide, .inr rfl⟩
      refine .inr ⟨⟨hcanon, ?_⟩, hpack (hu.trans (unpack_subnormal _ hsome))⟩
      exact iff_of_false Bool.false_ne_true fun h => Int.lt_irrefl _ h.2
  · -- normal numbers
    have hsome : field ≠ 0#11 := fun heq => hzero (congrArg BitVec.toNat heq)
    simp only [if_neg hzero]
    have hcanon : Canonical (2 ^ 52 + fraction.toNat) (field.toNat - 1075) :=
      ⟨by omega, by omega, by omega, by omega, .inl (by omega)⟩
    refine .inr ⟨⟨hcanon, ?_⟩, hpack (hu.trans (unpack_normal _ _ hx' hsome))⟩
    simp only [Bool.and_eq_true, beq_iff_eq, bne_iff_ne]
    omega

/-! ### Decimals that read back -/

/-- The value of a decimal. -/
def Scaled.value (d : Scaled) : ℚ := d.digits * 10 ^ d.exponent

/-- Quarters of the last place are compared exactly: both sides are the values times one power of
ten and one of two. -/
theorem Scaled.exists_compareQuarters (d : Scaled) (quarters : Nat) (e : Int) :
    ∃ a b : Nat, ∃ c : ℚ, 0 < c ∧ d.compareQuarters quarters e = compare a b ∧
      (a : ℚ) = d.value * c ∧ (b : ℚ) = quarters * 2 ^ (e - 2) * c := by
  refine ⟨_, _, 10 ^ (-d.exponent).toNat * 2 ^ (2 - e).toNat, by positivity, rfl, ?_, ?_⟩
  · have hten : (10 : ℚ) ^ d.exponent * 10 ^ (-d.exponent).toNat = 10 ^ d.exponent.toNat := by
      rw [← zpow_natCast, ← zpow_natCast, ← zpow_add₀ (by norm_num)]
      congr 1
      omega
    rw [value, ← mul_assoc, mul_assoc (d.digits : ℚ), hten]
    simp only [Nat.pow_eq]
    push_cast
    rfl
  · have htwo : (2 : ℚ) ^ (e - 2) * 2 ^ (2 - e).toNat = 2 ^ (e - 2).toNat := by
      rw [← zpow_natCast, ← zpow_natCast, ← zpow_add₀ two_ne_zero]
      congr 1
      omega
    simp only [Nat.pow_eq]
    push_cast
    rw [← htwo]
    ring

theorem Scaled.compareQuarters_eq_lt {d : Scaled} {quarters : Nat} {e : Int} :
    d.compareQuarters quarters e = .lt ↔ d.value < quarters * 2 ^ (e - 2) := by
  obtain ⟨a, b, c, hc, hcompare, ha, hb⟩ := d.exists_compareQuarters quarters e
  rw [hcompare, Nat.compare_eq_lt, ← Nat.cast_lt (α := ℚ), ha, hb]
  exact mul_lt_mul_iff_left₀ hc

theorem Scaled.compareQuarters_eq_eq {d : Scaled} {quarters : Nat} {e : Int} :
    d.compareQuarters quarters e = .eq ↔ d.value = quarters * 2 ^ (e - 2) := by
  obtain ⟨a, b, c, hc, hcompare, ha, hb⟩ := d.exists_compareQuarters quarters e
  rw [hcompare, Nat.compare_eq_eq, ← Nat.cast_inj (R := ℚ), ha, hb]
  exact mul_left_inj' hc.ne'

theorem Scaled.compareQuarters_eq_gt {d : Scaled} {quarters : Nat} {e : Int} :
    d.compareQuarters quarters e = .gt ↔ quarters * 2 ^ (e - 2) < d.value := by
  obtain ⟨a, b, c, hc, hcompare, ha, hb⟩ := d.exists_compareQuarters quarters e
  rw [hcompare, Nat.compare_eq_gt, ← Nat.cast_lt (α := ℚ), ha, hb]
  exact mul_lt_mul_iff_left₀ hc

namespace Magnitude

variable {m : Magnitude}

/-- The decimals that are accepted are those that belong to the number. -/
theorem Proper.readsBack_iff (h : m.Proper) (d : Scaled) :
    m.readsBack d = true ↔ Catches m.significand m.exponent d.value := by
  have hpos := h.canonical.pos
  have hquarter : ∀ r : ℚ, r * 2 ^ (m.exponent - 2) = r / 4 * 2 ^ m.exponent := by
    intro r
    rw [zpow_sub₀ two_ne_zero]
    ring
  have hlow : ((4 * m.significand - (if m.tightBelow then 1 else 2) : Nat) : ℚ)
      * 2 ^ (m.exponent - 2) = (m.significand - gapBelow m.significand m.exponent)
        * 2 ^ m.exponent := by
    rw [hquarter, gapBelow]
    by_cases htight : m.tightBelow = true
    · rw [if_pos htight, if_pos (h.tight.mp htight), Nat.cast_sub (by omega)]
      push_cast
      ring
    · rw [if_neg htight, if_neg (fun hc => htight (h.tight.mpr hc)), Nat.cast_sub (by omega)]
      push_cast
      ring
  have hhigh : ((4 * m.significand + 2 : Nat) : ℚ) * 2 ^ (m.exponent - 2)
      = (m.significand + 1 / 2) * 2 ^ m.exponent := by
    rw [hquarter]
    push_cast
    ring
  unfold readsBack
  simp only [Bool.and_eq_true, Bool.or_eq_true, beq_iff_eq, Scaled.compareQuarters_eq_gt,
    Scaled.compareQuarters_eq_eq, Scaled.compareQuarters_eq_lt, hlow, hhigh]
  constructor
  · rintro ⟨hl, hh⟩
    refine ⟨hl.elim le_of_lt fun h => h.2.ge, hh.elim le_of_lt fun h => h.2.le, fun hodd => ?_⟩
    exact ⟨hl.resolve_right (by omega), hh.resolve_right (by omega)⟩
  · intro hc
    rcases Nat.mod_two_eq_zero_or_one m.significand with heven | hodd
    · exact ⟨hc.low.lt_or_eq.imp_right fun h => ⟨heven, h.symm⟩,
        hc.high.lt_or_eq.imp_right fun h => ⟨heven, h⟩⟩
    · exact ⟨.inl (hc.odd hodd).1, .inl (hc.odd hodd).2⟩

/-! ### The decimal that is selected -/

/-- The exact value belongs to the number. -/
theorem Proper.catches_exactly (h : m.Proper) :
    Catches m.significand m.exponent m.exactly.value := by
  have hval : m.exactly.value = m.significand * 2 ^ m.exponent := by
    have htwo : (2 : ℚ) ^ m.exponent.toNat = 2 ^ m.exponent * 2 ^ (-m.exponent).toNat := by
      rw [← zpow_natCast, ← zpow_natCast, ← zpow_add₀ two_ne_zero]
      congr 1
      omega
    have hten : (2 : ℚ) ^ (-m.exponent).toNat * 5 ^ (-m.exponent).toNat
        = 10 ^ (-m.exponent).toNat := by
      rw [← mul_pow]
      norm_num
    simp only [exactly, Scaled.value, num, Nat.pow_eq]
    push_cast
    rw [zpow_neg, zpow_natCast, htwo, ← hten]
    field_simp
  rw [hval]
  exact h.canonical.catches

theorem readsBack_of_candidate {tie : Tie} {count : Nat} {d : Scaled}
    (hd : m.candidate tie count = some d) : m.readsBack d = true := by
  unfold candidate at hd
  dsimp only at hd
  split at hd
  · cases hd
  · cases hd
    assumption
  · cases hd
    assumption
  · split at hd
    · cases hd
      assumption
    · cases hd
      assumption
    · split at hd
      · cases hd
        assumption
      · cases hd
        split <;> assumption

/-- **Selection**: the decimal with the fewest digits belongs to its number. -/
theorem Proper.catches_shortest (h : m.Proper) (tie : Tie) :
    Catches m.significand m.exponent (m.shortest tie).value := by
  unfold shortest
  cases hfound : (List.range 17).findSome? fun n => m.candidate tie (n + 1) with
  | none => exact h.catches_exactly
  | some d =>
    obtain ⟨n, -, hn⟩ := List.exists_of_findSome?_eq_some hfound
    exact (h.readsBack_iff d).mp (readsBack_of_candidate hn)

end Magnitude

/-! ### Reading it -/

/-- The number of digits gives the powers of ten between which a decimal lies. -/
theorem value_bounds {n : Nat} (hn : 0 < n) (k : Int) :
    (10 : ℚ) ^ (k + (Nat.toDigits 10 n).length - 1) ≤ n * 10 ^ k ∧
      (n : ℚ) * 10 ^ k < 10 ^ (k + (Nat.toDigits 10 n).length) := by
  have hten : (0 : ℚ) < 10 ^ k := by positivity
  have hlen := Nat.length_toDigits_pos (b := 10) (n := n)
  set len := (Nat.toDigits 10 n).length
  have hlt : n < 10 ^ len := (Nat.length_toDigits_le_iff (by decide) hlen).mp le_rfl
  have hle : 10 ^ (len - 1) ≤ n := by
    by_contra hshort
    by_cases hone : len - 1 = 0
    · rw [hone] at hshort
      omega
    · have := (Nat.length_toDigits_le_iff (by decide) (Nat.pos_of_ne_zero hone)).mpr
        (not_le.mp hshort)
      omega
  constructor
  · have hsplit : k + len - 1 = ((len - 1 : Nat) : Int) + k := by omega
    rw [hsplit, zpow_add₀ (by norm_num), zpow_natCast]
    exact mul_le_mul_of_nonneg_right (by exact_mod_cast hle) hten.le
  · rw [add_comm k, zpow_add₀ (by norm_num), zpow_natCast]
    exact mul_lt_mul_of_pos_right (by exact_mod_cast hlt) hten

/-- A decimal that belongs to a number is read as the number without its sign. -/
theorem nearestMagnitude_eq {m : Nat} {e : Int} (hcanon : Canonical m e) {n : Nat} {k : Int}
    (hv : Catches m e (n * 10 ^ k)) :
    nearestMagnitude n k = .ofModel (.pack (.finite .positive m e hcanon.pos)) := by
  obtain ⟨hsmall, hlarge⟩ := hv.between hcanon
  have hn : 0 < n := by
    rcases Nat.eq_zero_or_pos n with rfl | hn
    · have : (0 : ℚ) < 10 ^ (-325 : Int) := by positivity
      rw [Nat.cast_zero, zero_mul] at hsmall
      linarith
    · exact hn
  obtain ⟨hlow, hhigh⟩ := value_bounds hn k
  have hlt_of {i j : Int} (h : (10 : ℚ) ^ i < 10 ^ j) : i < j :=
    (zpow_lt_zpow_iff_right₀ (by norm_num)).mp h
  have htop := hlt_of (hlow.trans_lt hlarge)
  have hbot := hlt_of (hsmall.trans hhigh)
  set len := (Nat.toDigits 10 n).length
  have hlen : len ≤ n.log2 + 1 := by
    refine (Nat.length_toDigits_le_iff (by decide) (Nat.succ_pos _)).mpr ?_
    exact Nat.lt_log2_self.trans_le (Nat.pow_le_pow_left (by decide) _)
  -- the decimal is neither so small nor so large that its digits are not looked at
  have hread : nearestMagnitude n k = Float.ofScientific n (k < 0) k.natAbs := by
    have hskip : ¬ (decide (n = 0) || decide (k + (len : Int) < -400)) = true := by
      simp only [Bool.or_eq_true, decide_eq_true_eq]
      omega
    unfold nearestMagnitude
    rw [if_neg hskip, if_neg (by omega)]
  rw [hread]
  exact (rounded_ofScientific hn (by omega) (by omega)).eq hcanon hv

/-- **Reading back**: a decimal that belongs to a number is read as the number. -/
theorem nearest_eq {x : Float} {m : Nat} {e : Int} (hcanon : Canonical m e)
    (hx : x = .ofModel (.pack (.finite (sign x) m e hcanon.pos))) {n : Nat} {k : Int}
    (hv : Catches m e (n * 10 ^ k)) : nearest (isNegative x) n k = x := by
  unfold nearest
  rw [nearestMagnitude_eq hcanon hv]
  by_cases hneg : isNegative x = true
  · have hsign : sign x = .negative := if_pos hneg
    rw [hsign] at hx
    rw [if_pos hneg]
    show Float.ofModel (.pack (Float.Model.unpack (.pack _)).neg) = x
    rw [hcanon.unpack_pack]
    exact hx.symm
  · have hsign : sign x = .positive := if_neg hneg
    rw [hsign] at hx
    rw [if_neg hneg]
    exact hx.symm

end OneWay.Decimal
