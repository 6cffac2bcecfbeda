import OneWay.Proofs.Value

/-!
# Numbers without a minus sign

Squares have no minus sign (`Binary64.unsigned_mul_self`), and sums of numbers without one have none
(`Binary64.Unsigned.add`), also where an operation leaves the range of the finite numbers.

Zero with a minus sign is the one number that adding zero changes, so for these it changes nothing
(`Binary64.Unsigned.add_zero`). Zero divided by a positive number is the same zero again
(`Binary64.float_zero_div`), and division by one changes no number at all
(`Binary64.float_div_one`).
-/

namespace OneWay.Binary64

open Float.Model Float.Model.UnpackedFloat

variable {x y : Float}

/-- The sign of a number; what is no number counts as positive. -/
def signOf : UnpackedFloat → Sign
  | .infinity s | .zero s | .finite s .. => s
  | .notANumber => .positive

/-- The number has no minus sign. -/
def Unsigned (x : Float) : Prop := signOf x.toModel.unpack = .positive

/-! ### Results of operations -/

theorem signOf_unpack_packComponents (field : BitVec 11) (fraction : BitVec 52) :
    signOf (UnpackedFloat.unpack Format.binary64
      (packComponents Format.binary64 .positive field fraction)) = .positive := by
  unfold UnpackedFloat.unpack
  simp only [unpackExponent_packComponents, unpackMantissa_packComponents,
    unpackSign_packComponents, Sign.ofBitVec_toBitVec]
  split
  · split <;> rfl
  · split
    · split <;> rfl
    · rfl

/-- Packing gives no number a minus sign. -/
theorem unsigned_pack {u : UnpackedFloat} (hu : signOf u = .positive) :
    Unsigned (.ofModel (.pack u)) := by
  cases u with
  | notANumber => rfl
  | infinity s =>
    obtain rfl : s = .positive := hu
    rfl
  | zero s =>
    obtain rfl : s = .positive := hu
    rfl
  | finite s m e hm =>
    obtain rfl : s = .positive := hu
    obtain ⟨field, fraction, hpack, -⟩ := exists_pack_finite .positive m e hm
    show signOf (UnpackedFloat.unpack Format.binary64 (UnpackedFloat.pack Format.binary64 _)) = _
    rw [hpack]
    exact signOf_unpack_packComponents field fraction

theorem signOf_roundWithAccuracy (s : Sign) (m : Nat) (e : Int) (a : Accuracy) :
    signOf (roundWithAccuracy Format.binary64 s m e a) = s := by
  unfold roundWithAccuracy
  simp only
  split <;> rfl

theorem signOf_normalize {n : Int} (hn : 0 ≤ n) (e : Int) :
    signOf (UnpackedFloat.normalize Format.binary64 n e .positive) = .positive := by
  unfold UnpackedFloat.normalize
  split
  · next h =>
    rw [Int.compare_eq_lt] at h
    omega
  · rfl
  · exact signOf_roundWithAccuracy ..

theorem unsigned_zero : Unsigned 0.0 := rfl

/-- **Squares** have no minus sign. -/
theorem unsigned_mul_self (x : Float) : Unsigned (x * x) := by
  have hsquare : ∀ s : Sign, s * s = .positive := by
    intro s
    cases s <;> rfl
  apply unsigned_pack (u := .mul Format.binary64 x.toModel.unpack x.toModel.unpack)
  cases x.toModel.unpack with
  | notANumber => rfl
  | infinity s | zero s => exact hsquare s
  | finite s m e hm => exact (signOf_roundWithAccuracy ..).trans (hsquare s)

/-- **Sums** of numbers without a minus sign have none. -/
theorem Unsigned.add (hx : Unsigned x) (hy : Unsigned y) : Unsigned (x + y) := by
  apply unsigned_pack (u := .add Format.binary64 x.toModel.unpack y.toModel.unpack)
  unfold Unsigned at hx hy
  cases hu : x.toModel.unpack with
  | notANumber => rfl
  | infinity s =>
    rw [hu] at hx
    cases hv : y.toModel.unpack with
    | infinity s' =>
      rw [hv] at hy
      obtain rfl : s = .positive := hx
      obtain rfl : s' = .positive := hy
      rfl
    | notANumber => rfl
    | zero | finite => exact hx
  | zero s =>
    rw [hu] at hx
    cases hv : y.toModel.unpack with
    | zero s' =>
      rw [hv] at hy
      obtain rfl : s = .positive := hx
      obtain rfl : s' = .positive := hy
      rfl
    | notANumber => rfl
    | infinity | finite =>
      rw [hv] at hy
      exact hy
  | finite s m e hm =>
    rw [hu] at hx
    cases hv : y.toModel.unpack with
    | notANumber => rfl
    | infinity =>
      rw [hv] at hy
      exact hy
    | zero => exact hx
    | finite s' m' e' hm' =>
      rw [hv] at hy
      obtain rfl : s = .positive := hx
      obtain rfl : s' = .positive := hy
      -- both significands count as they are, so that their sum is not negative
      exact signOf_normalize (Int.add_nonneg (Int.natCast_nonneg _) (Int.natCast_nonneg _)) _

/-! ### Laws of zero and one -/

theorem ofModel_pack_unpack (x : Float) : Float.ofModel (.pack x.toModel.unpack) = x :=
  congrArg Float.ofModel (repack x.toModel)

/-- **Adding zero** changes no number without a minus sign. -/
theorem Unsigned.add_zero (hx : Unsigned x) : x + 0.0 = x := by
  refine Eq.trans ?_ (ofModel_pack_unpack x)
  show Float.ofModel (.pack (.add Format.binary64 x.toModel.unpack (.zero .positive))) = _
  unfold Unsigned at hx
  cases hu : x.toModel.unpack with
  | zero s =>
    rw [hu] at hx
    obtain rfl : s = .positive := hx
    rfl
  | notANumber | infinity | finite => rfl

theorem lt_iff : x < y ↔ (x.toModel.unpack.compare y.toModel.unpack == some .lt) = true := by
  show decide (x.toModel < y.toModel) = true ↔ _
  rw [decide_eq_true_iff]
  rfl

/-- A positive number is finite or infinite, and has no minus sign. -/
theorem unpack_of_pos (hx : 0.0 < x) :
    (∃ m e hm, x.toModel.unpack = .finite .positive m e hm) ∨
      x.toModel.unpack = .infinity .positive := by
  have hlt := lt_iff.mp hx
  cases hu : x.toModel.unpack with
  | notANumber | zero =>
    rw [hu] at hlt
    cases hlt
  | infinity s =>
    rw [hu] at hlt
    cases s with
    | negative => cases hlt
    | positive => exact .inr rfl
  | finite s m e hm =>
    rw [hu] at hlt
    cases s with
    | negative => cases hlt
    | positive => exact .inl ⟨m, e, hm, rfl⟩

/-- **Zero divided** by a positive number is zero. -/
theorem float_zero_div (hx : 0.0 < x) : 0.0 / x = 0.0 := by
  show Float.ofModel (.pack (.div Format.binary64 (.zero .positive) x.toModel.unpack)) = _
  obtain ⟨m, e, hm, hu⟩ | hu := unpack_of_pos hx
  · rw [hu]
    rfl
  · rw [hu]
    rfl

/-- **Division by one** changes nothing. -/
theorem float_div_one (x : Float) : x / 1.0 = x := by
  have hone : (Float.toModel 1.0).unpack = .finite .positive (2 ^ 52) (-52) (by decide) := rfl
  have hsign : ∀ s : Sign, s / .positive = s := by
    intro s
    cases s <;> rfl
  refine Eq.trans ?_ (ofModel_pack_unpack x)
  show Float.ofModel (.pack (.div Format.binary64 x.toModel.unpack (Float.toModel 1.0).unpack)) = _
  rw [hone]
  congr 2
  cases hu : x.toModel.unpack with
  | notANumber => rfl
  | infinity s => exact congrArg UnpackedFloat.infinity (hsign s)
  | zero s => exact congrArg UnpackedFloat.zero (hsign s)
  | finite s m e hm =>
    have hcanon := canonical_of_unpack hu
    obtain ⟨k, top, a, hcore, hloc, hwide⟩ :=
      @locates_divCore m (2 ^ 52) e (-52) hm (by decide)
    have hquotient : (m * 2 ^ e / ((2 ^ 52 : Nat) * 2 ^ (-52 : Int)) : ℚ) = m * 2 ^ e := by
      norm_num
    rw [hquotient] at hloc
    simp only [UnpackedFloat.div, hcore, hsign]
    exact roundWithAccuracy_eq_finite s hcanon hcanon.catches hloc hwide

end OneWay.Binary64
