import OneWay.Proofs.Binary64

/-!
# Rounding to the nearest number

`Binary64.Catches m e` are the numbers that belong to the significand `m` at the exponent `e`: those
up to the middle between the number and its two neighbours. Rounding takes them there
(`Binary64.roundWithAccuracy_eq_finite`).
-/

namespace OneWay.Binary64

open Float.Model Float.Model.UnpackedFloat

/-! ### Places that are dropped -/

/-- Where a number lies above a significand, as an accuracy tells. -/
def Locates (a : Accuracy) (m : Nat) (x : ℚ) : Prop :=
  match a with
  | .exact => x = m
  | .inexact .lt => m < x ∧ x < m + 1 / 2
  | .inexact .eq => x = m + 1 / 2
  | .inexact .gt => m + 1 / 2 < x ∧ x < m + 1

variable {a : Accuracy} {m n : Nat} {e : Int} {x v : ℚ}

theorem Locates.floor (h : Locates a m x) : (m : ℚ) ≤ x ∧ x < m + 1 := by
  rcases a with _ | (_ | _ | _) <;> simp only [Locates] at h <;> constructor <;> linarith

theorem Locates.ofMantissaAndAccuracy (h : Locates a m x) :
    Locates (ExtendedMantissa.ofMantissaAndAccuracy m a).accuracy
      (ExtendedMantissa.ofMantissaAndAccuracy m a).mantissa x := by
  rcases a with _ | (_ | _ | _) <;> exact h

theorem Locates.shiftRightOne {em : ExtendedMantissa} (h : Locates em.accuracy em.mantissa x) :
    Locates em.shiftRightOne.accuracy em.shiftRightOne.mantissa (x / 2) := by
  obtain ⟨m, roundBit, stickyBit⟩ := em
  have hm : (m : ℚ) = 2 * (m / 2 : Nat) + (m % 2 : Nat) := by
    exact_mod_cast (Nat.div_add_mod m 2).symm
  unfold ExtendedMantissa.shiftRightOne
  rcases Nat.mod_two_eq_zero_or_one m with hbit | hbit
  · have hround : (m % 2 != 0) = false := by rw [hbit]; rfl
    rw [hbit, Nat.cast_zero] at hm
    cases roundBit <;> cases stickyBit <;>
      simp only [hround, ExtendedMantissa.accuracy, Locates, Bool.false_or, Bool.true_or] at h ⊢ <;>
      grind
  · have hround : (m % 2 != 0) = true := by rw [hbit]; rfl
    rw [hbit, Nat.cast_one] at hm
    cases roundBit <;> cases stickyBit <;>
      simp only [hround, ExtendedMantissa.accuracy, Locates, Bool.false_or, Bool.true_or] at h ⊢ <;>
      grind

theorem Locates.shiftRight {em : ExtendedMantissa} (h : Locates em.accuracy em.mantissa x)
    (k : Nat) : Locates (em >>> k).accuracy (em >>> k).mantissa (x / 2 ^ k) := by
  induction k with
  | zero =>
    rw [pow_zero, div_one]
    exact h
  | succ k ih =>
    rw [pow_succ, ← div_div]
    exact ih.shiftRightOne

/-- A significand that is rounded goes to the nearest one, and of two that are equally near to the
even one. -/
theorem Locates.roundToNearestEven_eq (h : Locates a m x) (hlow : n - 1 / 2 ≤ x)
    (hhigh : x ≤ n + 1 / 2) (hodd : n % 2 = 1 → n - 1 / 2 < x ∧ x < n + 1 / 2) :
    a.roundToNearestEven m = n := by
  obtain ⟨hfloor, hceil⟩ := h.floor
  have hle : m ≤ n := by
    have : (m : ℚ) < n + 1 := by linarith
    exact Nat.le_of_lt_succ (by exact_mod_cast this)
  have hge : n ≤ m + 1 := by
    have : (n : ℚ) < m + 2 := by linarith
    exact Nat.le_of_lt_succ (by exact_mod_cast this)
  -- of the accuracies, the middle is settled by the parity and the others by the bounds
  obtain rfl | rfl : n = m ∨ n = m + 1 := by omega
  · rcases a with _ | (_ | _ | _) <;> simp only [Locates, Accuracy.roundToNearestEven] at h ⊢
    · have : ¬ n % 2 = 1 := fun hn => by linarith [hodd hn]
      omega
    · linarith
  · push_cast at hlow hhigh hodd
    rcases a with _ | (_ | _ | _) <;> simp only [Locates, Accuracy.roundToNearestEven] at h ⊢
    · linarith
    · linarith
    · have : ¬ (m + 1) % 2 = 1 := fun hn => by linarith [hodd hn]
      omega

/-! ### The numbers that belong to a number -/

/-- How far below a number those that belong to it begin, in units of its last place. Below a power
of two the places are finer. -/
def gapBelow (m : Nat) (e : Int) : ℚ := if m = 2 ^ 52 ∧ -1074 < e then 1 / 4 else 1 / 2

theorem gapBelow_le (m : Nat) (e : Int) : gapBelow m e ≤ 1 / 2 := by
  unfold gapBelow
  split <;> norm_num

/-- The numbers that belong to the significand `m` at the exponent `e`: those up to the middles
between this number and its neighbours. The middles belong to even significands. -/
structure Catches (m : Nat) (e : Int) (v : ℚ) : Prop where
  low : (m - gapBelow m e) * 2 ^ e ≤ v
  high : v ≤ (m + 1 / 2) * 2 ^ e
  odd : m % 2 = 1 → (m - gapBelow m e) * 2 ^ e < v ∧ v < (m + 1 / 2) * 2 ^ e

theorem two_zpow_pos (e : Int) : (0 : ℚ) < 2 ^ e := zpow_pos two_pos e

theorem lt_of_two_zpow_lt {i j : Int} (h : (2 : ℚ) ^ i < 2 ^ j) : i < j :=
  (zpow_lt_zpow_iff_right₀ one_lt_two).mp h

theorem natCast_mul_two_zpow (k : Nat) (e : Int) : (2 : ℚ) ^ k * 2 ^ e = 2 ^ (k + e) := by
  rw [zpow_add₀ two_ne_zero, zpow_natCast]

/-- A significand other than zero gives the exponent of the leading place. -/
theorem Locates.leading (h : Locates a m (v / 2 ^ e)) (hm : m ≠ 0) :
    (2 : ℚ) ^ (m.log2 + e) ≤ v ∧ v < 2 ^ (m.log2 + 1 + e) := by
  obtain ⟨hfloor, hceil⟩ := h.floor
  rw [le_div_iff₀ (two_zpow_pos e)] at hfloor
  rw [div_lt_iff₀ (two_zpow_pos e)] at hceil
  have hlow : (2 : ℚ) ^ m.log2 ≤ m := by exact_mod_cast Nat.log2_self_le hm
  have hhigh : (m : ℚ) + 1 ≤ 2 ^ (m.log2 + 1) := by exact_mod_cast Nat.lt_log2_self (n := m)
  constructor
  · rw [← natCast_mul_two_zpow]
    exact (mul_le_mul_of_nonneg_right hlow (two_zpow_pos e).le).trans hfloor
  · have := natCast_mul_two_zpow (m.log2 + 1) e
    push_cast at this
    rw [← this]
    exact hceil.trans_le (mul_le_mul_of_nonneg_right hhigh (two_zpow_pos e).le)

variable {M : Nat} {E : Int}

theorem Catches.lt (h : Catches M E v) (hM : M < 2 ^ 53) : v < 2 ^ (53 + E) := by
  have hM' : (M : ℚ) + 1 ≤ 2 ^ 53 := by exact_mod_cast hM
  have hhigh := h.high
  have := two_zpow_pos E
  have htop := natCast_mul_two_zpow 53 E
  push_cast at htop
  rw [← htop]
  nlinarith

/-- What lies below the power of two to which it belongs is close to it. -/
theorem Catches.below (h : Catches M E v) (hM : 2 ^ 52 ≤ M) (hE : -1074 < E)
    (hv : v < 2 ^ (52 + E)) : M = 2 ^ 52 ∧ (2 ^ 53 - 1 / 2) * 2 ^ (E - 1) ≤ v := by
  have htop := natCast_mul_two_zpow 52 E
  push_cast at htop
  have hpos := two_zpow_pos E
  have hlow := h.low
  have hbound : (M : ℚ) - gapBelow M E < 2 ^ 52 := by
    rw [← htop] at hv
    exact lt_of_mul_lt_mul_right (hlow.trans_lt hv) hpos.le
  have hM' : M = 2 ^ 52 := by
    have : (M : ℚ) < 2 ^ 52 + 1 := by linarith [gapBelow_le M E]
    have : M < 2 ^ 52 + 1 := by exact_mod_cast this
    omega
  refine ⟨hM', ?_⟩
  have hhalf : (2 : ℚ) ^ E = 2 * 2 ^ (E - 1) := by
    rw [← zpow_one_add₀ two_ne_zero]
    congr 1
    omega
  rw [gapBelow, if_pos ⟨hM', hE⟩, hM', hhalf] at hlow
  push_cast at hlow
  linarith

/-- The places are dropped down to the exponent of the number to which `v` belongs, or to the one
below if `v` lies just below a power of two. -/
theorem Catches.exponent_eq (h : Catches M E v) (hcanon : Canonical M E)
    (hloc : Locates a m (v / 2 ^ e)) (hwide : Wide m e) :
    max (m.log2 + e - 52) (-1074) = E ∨ M = 2 ^ 52 ∧ (2 ^ 53 - 1 / 2) * 2 ^ (E - 1) ≤ v ∧
      v < 2 ^ (52 + E) ∧ max (m.log2 + e - 52) (-1074) = E - 1 := by
  have hE := hcanon.low
  -- a significand of zero has an exponent that is low enough for the bounds below
  have hlead : m = 0 ∧ e ≤ -1074 ∧ v < 2 ^ e ∨
      (2 : ℚ) ^ (m.log2 + e) ≤ v ∧ v < 2 ^ (m.log2 + 1 + e) := by
    by_cases hm : m = 0
    · refine .inl ⟨hm, hwide.resolve_left (by subst hm; decide), ?_⟩
      have := hloc.floor.2
      rwa [hm, Nat.cast_zero, zero_add, div_lt_iff₀ (two_zpow_pos e), one_mul] at this
    · exact .inr (hloc.leading hm)
  have hbelow : v < 2 ^ (52 + E) → m.log2 + e - 52 < E ∨ m.log2 + e - 52 ≤ -1074 := by
    intro hv
    rcases hlead with ⟨rfl, he, -⟩ | ⟨hlow, -⟩
    · exact .inr (by rw [Nat.log2_zero]; omega)
    · have := lt_of_two_zpow_lt (hlow.trans_lt hv)
      omega
  have habove : ∀ k : Nat, 51 ≤ k → (2 : ℚ) ^ (k + E) ≤ v → k + E ≤ m.log2 + e := by
    intro k hk hv
    rcases hlead with ⟨rfl, he, hlt⟩ | ⟨-, hlt⟩
    · have := lt_of_two_zpow_lt (hv.trans_lt hlt)
      omega
    · have := lt_of_two_zpow_lt (hv.trans_lt hlt)
      omega
  by_cases hv : v < 2 ^ (52 + E)
  · have := hbelow hv
    by_cases hleast : E = -1074
    · exact .inl (by omega)
    · obtain ⟨hM, hlow⟩ := h.below (hcanon.normal.resolve_right hleast) (by omega) hv
      have hhalf : (2 : ℚ) ^ (51 + E) ≤ v := by
        refine le_trans ?_ hlow
        have hsplit := natCast_mul_two_zpow 52 (E - 1)
        have hexp : ((52 : Nat) : Int) + (E - 1) = 51 + E := by omega
        rw [hexp] at hsplit
        rw [← hsplit]
        refine mul_le_mul_of_nonneg_right ?_ (two_zpow_pos _).le
        norm_num
      have := habove 51 le_rfl hhalf
      exact .inr ⟨hM, hlow, hv, by omega⟩
  · have hlow := habove 52 (by decide) (not_lt.mp hv)
    have hhigh : m.log2 + e < 53 + E := by
      rcases hlead with ⟨rfl, he, -⟩ | ⟨hle, -⟩
      · rw [Nat.log2_zero]
        omega
      · exact lt_of_two_zpow_lt (hle.trans_lt (h.lt hcanon.lt))
    exact .inl (by omega)

theorem locates_kept (h : Locates a m (v / 2 ^ e)) {top : Int}
    (htop : e + droppedPlaces m e = top) :
    Locates (kept m e a).accuracy (kept m e a).mantissa (v / 2 ^ top) := by
  rw [← htop, zpow_add₀ two_ne_zero, zpow_natCast, ← div_div]
  exact h.ofMantissaAndAccuracy.shiftRight _

/-- **Rounding** takes every number to the one to which it belongs. -/
theorem roundWithAccuracy_eq_finite (s : Sign) (hcanon : Canonical M E) (hv : Catches M E v)
    (hloc : Locates a m (v / 2 ^ e)) (hwide : Wide m e) :
    roundWithAccuracy Format.binary64 s m e a = .finite s M E hcanon.pos := by
  rcases hv.exponent_eq hcanon hloc hwide with htop | ⟨rfl, hlow, hlt, htop⟩
  · -- the places match: what is left of the significand is rounded to `M`
    have hpos := two_zpow_pos E
    have hgap : ((M : ℚ) - 1 / 2) * 2 ^ E ≤ (M - gapBelow M E) * 2 ^ E :=
      mul_le_mul_of_nonneg_right (by linarith [gapBelow_le M E]) hpos.le
    have hrounded : (kept m e a).roundedMantissa = M := by
      refine (locates_kept hloc (hwide.exponent_eq.trans htop)).roundToNearestEven_eq ?_ ?_ ?_
      · rw [le_div_iff₀ hpos]
        exact hgap.trans hv.low
      · rw [div_le_iff₀ hpos]
        exact hv.high
      · intro hodd
        rw [lt_div_iff₀ hpos, div_lt_iff₀ hpos]
        exact ⟨hgap.trans_lt (hv.odd hodd).1, (hv.odd hodd).2⟩
    have := hcanon.pos
    have := hcanon.lt
    rcases roundWithAccuracy_cases s a hwide hrounded htop with ⟨hzero, -⟩ | ⟨_, -, heq⟩ | ⟨hbig, -⟩
    · omega
    · exact heq
    · omega
  · -- just below a power of two there is one place more, and rounding carries into it
    have hpos := two_zpow_pos (E - 1)
    have hrounded : (kept m e a).roundedMantissa = 2 ^ 53 := by
      refine (locates_kept hloc (hwide.exponent_eq.trans htop)).roundToNearestEven_eq ?_ ?_ ?_
      · rw [le_div_iff₀ hpos]
        exact_mod_cast hlow
      · rw [div_le_iff₀ hpos]
        have hsplit := natCast_mul_two_zpow 53 (E - 1)
        have hexp : ((53 : Nat) : Int) + (E - 1) = 52 + E := by omega
        rw [hexp] at hsplit
        rw [← hsplit] at hlt
        push_cast
        linarith
      · intro hodd
        exact absurd hodd (by decide)
    rcases roundWithAccuracy_cases s a hwide hrounded htop with ⟨hzero, -⟩ | ⟨-, hlt, -⟩ | ⟨-, heq⟩
    · exact absurd hzero (by decide)
    · exact absurd hlt (by decide)
    · have hexp : E - 1 + 1 = E := by omega
      rw [heq]
      simp only [hexp]

end OneWay.Binary64
