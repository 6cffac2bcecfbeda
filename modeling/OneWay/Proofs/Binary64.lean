import Mathlib

/-!
# Numbers of double precision

A finite number other than zero is a sign, a significand and an exponent in canonical form, and
its word is made up of these (`Binary64.repack`, `Binary64.Canonical.unpack_pack`).

Rounding drops the places beyond the 53 that are kept, goes to one of the two neighbours and moves
a carry on (`Binary64.roundWithAccuracy_cases`). So a result is finite if it lies below
`2 ^ 1023`, and is not if it lies at `2 ^ 1024` or above.
-/

namespace OneWay.Binary64

open Float.Model Float.Model.UnpackedFloat

/-! ### Words -/

theorem toNat_packComponents (s : Sign) (field : BitVec 11) (fraction : BitVec 52) :
    (packComponents Format.binary64 s field fraction).toNat
      = s.toBitVec.toNat * 2 ^ 63 + field.toNat * 2 ^ 52 + fraction.toNat := by
  unfold packComponents
  rw [BitVec.toNat_append, BitVec.toNat_append, ← Nat.shiftLeft_add_eq_or_of_lt field.isLt,
    ← Nat.shiftLeft_add_eq_or_of_lt fraction.isLt, Nat.shiftLeft_eq, Nat.shiftLeft_eq]
  show (_ * 2 ^ 11 + _) * 2 ^ 52 + _ = _
  omega

/-- Every word is made up of three fields. -/
theorem exists_packComponents (b : BitVec Format.binary64.numBits) :
    ∃ s field fraction, b = packComponents Format.binary64 s field fraction :=
  ⟨_, _, _, (packComponents_unpackSign_unpackExponent_unpackMantissa b).symm⟩

theorem unpack_normal (s : Sign) {field : BitVec 11} (fraction : BitVec 52)
    (hinf : field ≠ -1#11) (hzero : field ≠ 0#11) :
    UnpackedFloat.unpack Format.binary64 (packComponents Format.binary64 s field fraction)
      = .finite s (2 ^ 52 + fraction.toNat) (field.toNat - 1075) (by omega) := by
  have hfraction : (1#1 ++ fraction).toNat = 2 ^ 52 + fraction.toNat := by
    rw [BitVec.toNat_append, ← Nat.shiftLeft_add_eq_or_of_lt fraction.isLt]
    rfl
  unfold UnpackedFloat.unpack
  simp only [unpackExponent_packComponents, unpackMantissa_packComponents,
    unpackSign_packComponents, Sign.ofBitVec_toBitVec, if_neg hinf, if_neg hzero, hfraction]
  rfl

theorem unpack_subnormal (s : Sign) {fraction : BitVec 52} (hfraction : fraction ≠ 0#52) :
    UnpackedFloat.unpack Format.binary64 (packComponents Format.binary64 s 0#11 fraction)
      = .finite s fraction.toNat (-1074)
        (by simpa [BitVec.toNat_pos, BitVec.pos_iff_ne_zero]) := by
  have hinf : ¬ 0#11 = -1#11 := by decide
  unfold UnpackedFloat.unpack
  simp only [unpackExponent_packComponents, unpackMantissa_packComponents,
    unpackSign_packComponents, Sign.ofBitVec_toBitVec, if_neg hinf, if_pos, dif_neg hfraction]
  rfl

theorem unpack_zero (s : Sign) :
    UnpackedFloat.unpack Format.binary64 (packComponents Format.binary64 s 0#11 0#52)
      = .zero s := unpack_packedZero

/-- The exponent field tells whether a number is finite. -/
theorem isFinite_unpack_packComponents (s : Sign) (field : BitVec 11) (fraction : BitVec 52) :
    (UnpackedFloat.unpack Format.binary64
      (packComponents Format.binary64 s field fraction)).isFinite = true ↔ field ≠ -1#11 := by
  by_cases hinf : field = -1#11
  · unfold UnpackedFloat.unpack
    simp only [unpackExponent_packComponents, unpackMantissa_packComponents, if_pos hinf]
    split <;> simp [UnpackedFloat.isFinite, hinf]
  · refine iff_of_true ?_ hinf
    by_cases hzero : field = 0#11
    · subst hzero
      by_cases hfraction : fraction = 0#52
      · rw [hfraction, unpack_zero]
        rfl
      · rw [unpack_subnormal s hfraction]
        rfl
    · rw [unpack_normal s fraction hinf hzero]
      rfl

/-! ### Packing -/

theorem pack_normal (s : Sign) {m : Nat} {e : Int} (hm : 0 < m) (hlow : 2 ^ 52 ≤ m)
    (hlt : m < 2 ^ 53) (he : e ≤ 971) :
    UnpackedFloat.pack Format.binary64 (.finite s m e hm)
      = packComponents Format.binary64 s (BitVec.ofNat 11 (e + 1075).toNat)
        (BitVec.ofNat 52 m) := by
  have hlog : m.log2 = 52 := (Nat.log2_eq_iff (Nat.ne_of_gt hm)).mpr ⟨hlow, hlt⟩
  have hbias : ((Format.binary64.exponentBias : Nat) : Int) = 1023 := rfl
  have hbits : ((Format.binary64.mantissaBitsWithoutImplicit : Nat) : Int) = 52 := rfl
  have htop : 2 ^ Format.binary64.exponentBits = 2048 := rfl
  have hplaces : Format.binary64.mantissaBits = 53 := rfl
  have hfield : (e + 1023 + 52).toNat = (e + 1075).toNat := by omega
  unfold UnpackedFloat.pack
  simp only [hbias, hbits, htop, hplaces, hlog, hfield]
  rw [if_neg (by omega), if_pos trivial]

theorem pack_subnormal (s : Sign) {m : Nat} (hm : 0 < m) (hlt : m < 2 ^ 52) :
    UnpackedFloat.pack Format.binary64 (.finite s m (-1074) hm)
      = packComponents Format.binary64 s 0#11 (BitVec.ofNat 52 m) := by
  have hlog : m.log2 < 52 := (Nat.log2_lt (Nat.ne_of_gt hm)).mpr hlt
  have htop : 2 ^ Format.binary64.exponentBits = 2048 := rfl
  have hplaces : Format.binary64.mantissaBits = 53 := rfl
  have hfield : (-1074 + (Format.binary64.exponentBias : Int)
    + (Format.binary64.mantissaBitsWithoutImplicit : Nat)).toNat = 1 := rfl
  unfold UnpackedFloat.pack
  simp only [hfield, htop, hplaces]
  rw [if_neg (by omega), if_neg (by omega)]

theorem isFinite_pack_zero (s : Sign) : (Float.Model.pack (.zero s)).isFinite = true :=
  (isFinite_unpack_packComponents s 0 0).mpr (by decide)

/-- The exponent field of a number is that of an infinity iff its exponent does not fit. -/
theorem exists_pack_finite (s : Sign) (m : Nat) (e : Int) (hm : 0 < m) :
    ∃ field fraction, UnpackedFloat.pack Format.binary64 (.finite s m e hm)
        = packComponents Format.binary64 s field fraction ∧ (field ≠ -1#11 ↔ e ≤ 971) := by
  unfold UnpackedFloat.pack
  have hbias : ((Format.binary64.exponentBias : Nat) : Int) = 1023 := rfl
  have hbits : ((Format.binary64.mantissaBitsWithoutImplicit : Nat) : Int) = 52 := rfl
  have htop : 2 ^ Format.binary64.exponentBits = 2048 := rfl
  simp only [hbias, hbits, htop]
  split
  · next h => exact ⟨-1#11, 0, rfl, by simp; omega⟩
  · next h =>
    have he : e ≤ 971 := by omega
    split
    · refine ⟨_, _, rfl, fun _ => he, fun _ hx => ?_⟩
      have hfield : (e + 1023 + 52).toNat % 2048 = 2047 := congrArg BitVec.toNat hx
      omega
    · exact ⟨_, _, rfl, fun _ => he, fun _ => by decide⟩

/-- A number stays finite when it is packed iff its exponent fits. -/
theorem isFinite_pack_finite (s : Sign) (m : Nat) (e : Int) (hm : 0 < m) :
    (Float.Model.pack (.finite s m e hm)).isFinite = true ↔ e ≤ 971 := by
  obtain ⟨field, fraction, hpack, hfield⟩ := exists_pack_finite s m e hm
  show (UnpackedFloat.unpack Format.binary64 (UnpackedFloat.pack Format.binary64
    (.finite s m e hm))).isFinite = true ↔ _
  rw [hpack, isFinite_unpack_packComponents, hfield]

/-! ### Canonical form -/

/-- The significand and the exponent of a finite number other than zero: 53 places, or fewer at
the least exponent. -/
structure Canonical (m : Nat) (e : Int) : Prop where
  pos : 0 < m
  lt : m < 2 ^ 53
  low : -1074 ≤ e
  high : e ≤ 971
  normal : 2 ^ 52 ≤ m ∨ e = -1074

/-- The form in which a number is kept is canonical. -/
theorem canonical_of_unpack {x : Float.Model} {s : Sign} {m : Nat} {e : Int} {hm : 0 < m}
    (h : x.unpack = .finite s m e hm) : Canonical m e := by
  obtain ⟨s', field, fraction, hword⟩ := exists_packComponents x.toBits.toBitVec
  have hu : UnpackedFloat.unpack Format.binary64 (packComponents Format.binary64 s' field fraction)
      = .finite s m e hm := hword ▸ h
  have hlt : field.toNat < 2 ^ 11 := field.isLt
  have hlt' : fraction.toNat < 2 ^ 52 := fraction.isLt
  have hinf : field ≠ -1#11 := by
    rw [← isFinite_unpack_packComponents s' field fraction, hu]
    rfl
  by_cases hzero : field = 0#11
  · subst hzero
    have hfraction : fraction ≠ 0#52 := by
      rintro rfl
      cases (unpack_zero s').symm.trans hu
    rw [unpack_subnormal s' hfraction] at hu
    injection hu with hs hm' he
    subst hs hm' he
    exact ⟨hm, by omega, by decide, by decide, .inr rfl⟩
  · have hinf' : field.toNat ≠ 2047 := fun heq => hinf (BitVec.eq_of_toNat_eq heq)
    have hzero' : field.toNat ≠ 0 := fun heq => hzero (BitVec.eq_of_toNat_eq heq)
    rw [unpack_normal s' fraction hinf hzero] at hu
    injection hu with hs hm' he
    subst hs hm' he
    exact ⟨hm, by omega, by omega, by omega, .inl (by omega)⟩

/-- What a number unpacks to packs to the number. -/
theorem repack (x : Float.Model) : Float.Model.pack x.unpack = x := by
  obtain ⟨bits, hvalid⟩ := x
  have hbits : UInt64.ofBitVec (UnpackedFloat.pack Format.binary64
      (UnpackedFloat.unpack Format.binary64 bits.toBitVec)) = bits :=
    congrArg UInt64.ofBitVec (pack_unpack_of_valid hvalid)
  simp only [Float.Model.pack, Float.Model.unpack, hbits]

/-- A canonical form is that of the number to which it packs. -/
theorem Canonical.unpack_pack {m : Nat} {e : Int} (h : Canonical m e) (s : Sign) :
    (Float.Model.pack (.finite s m e h.pos)).unpack = .finite s m e h.pos := by
  show UnpackedFloat.unpack Format.binary64 (UnpackedFloat.pack Format.binary64 _) = _
  obtain ⟨hpos, hlt, hlow, hhigh, hnormal⟩ := h
  by_cases hm : 2 ^ 52 ≤ m
  · have hfield : (BitVec.ofNat 11 (e + 1075).toNat).toNat = (e + 1075).toNat := by
      rw [BitVec.toNat_ofNat]
      omega
    have hinf : BitVec.ofNat 11 (e + 1075).toNat ≠ -1#11 := by
      intro heq
      have : 2047 = (e + 1075).toNat := (congrArg BitVec.toNat heq).symm.trans hfield
      omega
    have hzero : BitVec.ofNat 11 (e + 1075).toNat ≠ 0#11 := by
      intro heq
      have : 0 = (e + 1075).toNat := (congrArg BitVec.toNat heq).symm.trans hfield
      omega
    rw [pack_normal s hpos hm hlt hhigh, unpack_normal s _ hinf hzero]
    congr 1
    · rw [BitVec.toNat_ofNat]
      omega
    · omega
  · obtain rfl : e = -1074 := hnormal.resolve_left hm
    have hfraction : (BitVec.ofNat 52 m).toNat = m := by
      rw [BitVec.toNat_ofNat]
      omega
    have hsome : BitVec.ofNat 52 m ≠ 0#52 := by
      intro heq
      have : 0 = m := (congrArg BitVec.toNat heq).symm.trans hfraction
      omega
    rw [pack_subnormal s hpos (by omega), unpack_subnormal s hsome]
    congr 1

/-! ### Rounding -/

theorem mantissa_shiftRight (em : ExtendedMantissa) (k : Nat) :
    (em >>> k).mantissa = em.mantissa / 2 ^ k := by
  induction k with
  | zero => exact (Nat.div_one _).symm
  | succ k ih =>
    show (em >>> k).mantissa / 2 = _
    rw [ih, Nat.div_div_eq_div_mul, ← Nat.pow_succ]

/-- Rounding goes to the significand at hand or to the next one. -/
theorem roundedMantissa_bounds (em : ExtendedMantissa) :
    em.mantissa ≤ em.roundedMantissa ∧ em.roundedMantissa ≤ em.mantissa + 1 := by
  unfold ExtendedMantissa.roundedMantissa
  rcases em.accuracy with _ | (_ | _ | _) <;> simp only [Accuracy.roundToNearestEven] <;> omega

theorem mantissa_ofMantissaAndAccuracy (m : Nat) (a : Accuracy) :
    (ExtendedMantissa.ofMantissaAndAccuracy m a).mantissa = m := by
  rcases a with _ | (_ | _ | _) <;> rfl

/-- How many places a significand loses on the way to the exponent of its format. -/
def droppedPlaces (m : Nat) (e : Int) : Nat := (max (m.log2 + e - 52) (-1074) - e).toNat

/-- What is kept of a significand, with the places that tell how to round it. -/
def kept (m : Nat) (e : Int) (a : Accuracy) : ExtendedMantissa :=
  ExtendedMantissa.ofMantissaAndAccuracy m a >>> droppedPlaces m e

theorem shiftToTargetExponent_eq (m : Nat) (e : Int) (a : Accuracy) :
    shiftToTargetExponent Format.binary64 m e a = (kept m e a, e + droppedPlaces m e) := by
  have hplaces : (Format.binary64.targetExponent (totalExponent m e) - e).toNat
      = droppedPlaces m e := by
    show (max ((m.log2 : Int) + 1 + e - 53) (-1074) - e).toNat = _
    unfold droppedPlaces
    omega
  simp only [shiftToTargetExponent, shiftToExponent, hplaces, kept]

theorem mantissa_kept (m : Nat) (e : Int) (a : Accuracy) :
    (kept m e a).mantissa = m / 2 ^ droppedPlaces m e := by
  rw [kept, mantissa_shiftRight, mantissa_ofMantissaAndAccuracy]

/-- Whether dropping places is all that rounding has to do: a significand with 53 places or more,
or an exponent as low as the least one. -/
def Wide (m : Nat) (e : Int) : Prop := 52 ≤ m.log2 ∨ e ≤ -1074

theorem Wide.exponent_eq {m : Nat} {e : Int} (h : Wide m e) :
    e + droppedPlaces m e = max (m.log2 + e - 52) (-1074) := by
  unfold Wide at h
  unfold droppedPlaces
  omega

theorem Wide.mantissa_kept_lt {m : Nat} {e : Int} (h : Wide m e) (a : Accuracy) :
    (kept m e a).mantissa < 2 ^ 53 := by
  have hexp := h.exponent_eq
  rw [mantissa_kept, Nat.div_lt_iff_lt_mul (Nat.two_pow_pos _), ← Nat.pow_add]
  exact Nat.lt_of_lt_of_le Nat.lt_log2_self (Nat.pow_le_pow_right (by decide) (by omega))

/-- Rounding gives the rounded significand at the exponent of the places that are kept, less a
place where a carry has made it too long. -/
theorem roundWithAccuracy_eq (s : Sign) {m : Nat} {e : Int} (a : Accuracy) (hwide : Wide m e)
    {r m' : Nat} {top e' : Int} (hr : (kept m e a).roundedMantissa = r)
    (htop : max (m.log2 + e - 52) (-1074) = top) (hm' : r / 2 ^ droppedPlaces r top = m')
    (he' : top + droppedPlaces r top = e') :
    roundWithAccuracy Format.binary64 s m e a
      = if h : m' = 0 then .zero s else .finite s m' e' (Nat.pos_of_ne_zero h) := by
  subst hr htop hm' he'
  unfold roundWithAccuracy
  simp only [shiftToTargetExponent_eq, hwide.exponent_eq, mantissa_kept]

/-- Rounding gives zero, the rounded significand, or half of it where a carry has made it too
long. -/
theorem roundWithAccuracy_cases (s : Sign) {m : Nat} {e : Int} (a : Accuracy) (hwide : Wide m e)
    {r : Nat} {top : Int} (hr : (kept m e a).roundedMantissa = r)
    (htop : max (m.log2 + e - 52) (-1074) = top) :
    (r = 0 ∧ roundWithAccuracy Format.binary64 s m e a = .zero s) ∨
    (∃ h : 0 < r, r < 2 ^ 53 ∧ roundWithAccuracy Format.binary64 s m e a = .finite s r top h) ∨
    (r = 2 ^ 53 ∧ roundWithAccuracy Format.binary64 s m e a
      = .finite s (2 ^ 52) (top + 1) (by decide)) := by
  have hlt := hwide.mantissa_kept_lt a
  have hbounds := roundedMantissa_bounds (kept m e a)
  rw [hr] at hbounds
  by_cases hcarry : r < 2 ^ 53
  · have hnone : droppedPlaces r top = 0 := by
      have hlog : r.log2 ≤ 52 := by
        by_cases hzero : r = 0
        · rw [hzero]
          decide
        · exact Nat.le_of_lt_succ ((Nat.log2_lt hzero).mpr hcarry)
      unfold droppedPlaces
      omega
    have hexp : top + droppedPlaces r top = top := by omega
    rw [roundWithAccuracy_eq s a hwide hr htop (by rw [hnone, Nat.pow_zero, Nat.div_one]) hexp]
    by_cases hzero : r = 0
    · exact .inl ⟨hzero, dif_pos hzero⟩
    · exact .inr (.inl ⟨Nat.pos_of_ne_zero hzero, hcarry, dif_neg hzero⟩)
  · have hcarried : r = 2 ^ 53 := by omega
    have hone : droppedPlaces r top = 1 := by
      rw [hcarried, droppedPlaces, Nat.log2_two_pow]
      omega
    have hexp : top + droppedPlaces r top = top + 1 := by omega
    rw [roundWithAccuracy_eq s a hwide hr htop (by rw [hone, hcarried]) hexp]
    exact .inr (.inr ⟨hcarried, rfl⟩)

/-- A number stays finite when it is rounded if it lies below `2 ^ 1023`, or below `2 ^ 1024` where
rounding cannot carry it further. -/
theorem isFinite_pack_round {s : Sign} {m : Nat} {e : Int} {a : Accuracy} (hwide : Wide m e)
    (hfit : m.log2 + e ≤ 1022 ∨ m.log2 + e = 1023 ∧ m / 2 ^ (m.log2 - 52) + 1 < 2 ^ 53) :
    (Float.Model.pack (roundWithAccuracy Format.binary64 s m e a)).isFinite = true := by
  have hexp := hwide.exponent_eq
  rcases roundWithAccuracy_cases s a hwide rfl rfl with ⟨-, hround⟩ | ⟨hm, -, hround⟩ | ⟨hr, hround⟩
  · rw [hround]
    exact isFinite_pack_zero s
  · rw [hround, isFinite_pack_finite]
    omega
  · rw [hround, isFinite_pack_finite]
    rcases hfit with hlow | ⟨htop, hcarry⟩
    · omega
    · have hshift : droppedPlaces m e = m.log2 - 52 := by
        unfold Wide at hwide
        omega
      have hle := (roundedMantissa_bounds (kept m e a)).2
      rw [mantissa_kept, hshift] at hle
      omega

/-- A number of `2 ^ 1024` or more is not finite once it is rounded. -/
theorem not_isFinite_pack_round {s : Sign} {m : Nat} {e : Int} {a : Accuracy} (hm : 52 ≤ m.log2)
    (hbig : 1024 ≤ m.log2 + e) :
    ¬ (Float.Model.pack (roundWithAccuracy Format.binary64 s m e a)).isFinite = true := by
  have hexp := Wide.exponent_eq (.inl hm : Wide m e)
  rcases roundWithAccuracy_cases s a (.inl hm) rfl rfl with ⟨hr, -⟩ | ⟨hm, -, hround⟩ | ⟨hr, hround⟩
  · -- 53 places at least are kept, so that this is not zero
    have hle := (roundedMantissa_bounds (kept m e a)).1
    rw [hr, mantissa_kept] at hle
    have hpos : m ≠ 0 := by
      rintro rfl
      exact absurd hm (by decide)
    have hsome := Nat.div_pos (Nat.le_trans (Nat.pow_le_pow_right (by decide)
      (show droppedPlaces m e ≤ m.log2 by omega)) (Nat.log2_self_le hpos)) (Nat.two_pow_pos _)
    omega
  · rw [hround, isFinite_pack_finite]
    omega
  · rw [hround, isFinite_pack_finite]
    omega

/-! ### Signs and order -/

theorem isFinite_neg (x : Float) : (-x).isFinite = x.isFinite := by
  have hneg : (-x).isFinite = (Float.Model.pack x.toModel.unpack.neg).isFinite := rfl
  have hx : x.isFinite = x.toModel.unpack.isFinite := rfl
  rw [hneg, hx]
  cases hu : x.toModel.unpack with
  | notANumber => rfl
  | infinity s => cases s <;> rfl
  | zero s => exact isFinite_pack_zero _
  | finite s m e hm => exact (isFinite_pack_finite _ m e hm).mpr (canonical_of_unpack hu).high

/-- A number that equals zero is one of the two zeros. -/
theorem isFinite_of_beq_zero {x : Float} (h : (x == 0.0) = true) : x.isFinite = true := by
  obtain ⟨-, -, rfl | ⟨rfl, -⟩ | ⟨rfl, -⟩⟩ := Float.beq_iff_ne_nan_and_eq.mp h
  all_goals decide +kernel

theorem le_iff {x y : Float} :
    x ≤ y ↔ (x.toModel.unpack.compare y.toModel.unpack).any (·.isLE) = true := by
  show decide (x.toModel ≤ y.toModel) = true ↔ _
  rw [decide_eq_true_iff]
  rfl

end OneWay.Binary64
