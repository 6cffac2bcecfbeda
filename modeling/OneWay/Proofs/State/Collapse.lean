import OneWay.Proofs.Sign
import OneWay.Proofs.Simulation.Overflow
import OneWay.Proofs.State.Action
import OneWay.Proofs.State.Weight

/-!
# What is left of a state that was read

Reading a wire keeps the amplitudes at which the wire has the value that was read and divides them
by one number, the norm of that branch (`Amplitudes.branchFactor`); the others become zero. A reset
does the same and brings what is left to the indices at which the wire is 0.

The norm is that of the amplitudes kept (`Amplitudes.weight_branch`): the zeros in the other branch
add nothing, which needs that no sum of squares has a minus sign. Where it is not positive the state
is not divided, and so the factor is 1 there.
-/

namespace OneWay

open Binary64

theorem Complex.divReal_one (a : Complex) : a.divReal 1.0 = a := by
  show Complex.mk (a.re / 1.0) (a.im / 1.0) = a
  rw [float_div_one, float_div_one]

theorem Complex.zero_divReal {r : Float} (hr : 0.0 < r) : Complex.zero.divReal r = .zero := by
  show Complex.mk (0.0 / r) (0.0 / r) = .zero
  rw [float_zero_div hr]
  rfl

theorem Complex.unsigned_normSq (a : Complex) : Unsigned a.normSq :=
  (unsigned_mul_self a.re).add (unsigned_mul_self a.im)

theorem Complex.normSq_zero : Complex.zero.normSq = 0.0 := by decide +kernel

namespace Amplitudes

variable {n q : Nat} {v : Amplitudes}

/-! ### Branches -/

/-- The state with zeros at the indices at which a wire does not have a value. -/
def branch (q : Nat) (b : Bool) (v : Amplitudes) : Amplitudes :=
  Kernel.onEach (fun i a => if i.testBit q = b then a else .zero) v

/-- The norm of the amplitudes at which a wire has a value. -/
def branchNorm (q : Nat) (b : Bool) (v : Amplitudes) : Float :=
  (weight (fun i => i.testBit q == b) v).sqrt

/-- What the amplitudes at which a wire has a value are divided by. -/
def branchFactor (q : Nat) (b : Bool) (v : Amplitudes) : Float :=
  if 0.0 < branchNorm q b v then branchNorm q b v else 1.0

theorem branchFactor_pos (q : Nat) (b : Bool) (v : Amplitudes) : 0.0 < branchFactor q b v := by
  unfold branchFactor
  split
  · next hpos => exact hpos
  · decide +kernel

/-- Leaving entries out of a sum of squares is to count them as zeros. -/
theorem foldl_weight_zeros (keep : Nat → Bool) (l : List (Complex × Nat)) {acc : Float}
    (hacc : Unsigned acc) :
    l.foldl (fun acc e => acc + (if keep e.2 then e.1 else .zero).normSq) acc
      = l.foldl (fun acc e => if keep e.2 then acc + e.1.normSq else acc) acc := by
  induction l generalizing acc with
  | nil => rfl
  | cons e l ih =>
    rw [List.foldl_cons, List.foldl_cons]
    by_cases hkeep : keep e.2 = true
    · rw [if_pos hkeep, if_pos hkeep]
      exact ih (hacc.add e.1.unsigned_normSq)
    · rw [if_neg hkeep, if_neg hkeep, Complex.normSq_zero, hacc.add_zero]
      exact ih hacc

/-- The weight of a branch is that of the amplitudes in it. -/
theorem weight_branch (q : Nat) (b : Bool) (v : Amplitudes) :
    weight (fun _ => true) (branch q b v) = weight (fun i => i.testBit q == b) v := by
  have hentries : (branch q b v).toList.zipIdx
      = v.toList.zipIdx.map fun e => (if (e.2.testBit q == b) = true then e.1 else .zero, e.2) := by
    refine List.ext_getElem? fun i => ?_
    simp [branch, Kernel.onEach, Function.comp_def]
  rw [weight, weight, hentries, List.foldl_map]
  simp only [if_true]
  exact foldl_weight_zeros (fun i => i.testBit q == b) v.toList.zipIdx unsigned_zero

/-- What projecting on a branch leaves at an index. -/
theorem amplitude_project (q : Nat) (b : Bool) {i : Nat} (hi : i < v.size) :
    (project q b v).amplitude i
      = if i.testBit q = b then (v.amplitude i).divReal (branchFactor q b v) else .zero := by
  have hsize : (branch q b v).size = v.size := Kernel.size_onEach ..
  have hbranch : (branch q b v).amplitude i = if i.testBit q = b then v.amplitude i else .zero := by
    rw [amplitude, branch, Kernel.getD_onEach _ .zero hi]
    rfl
  have hnorm : (weight (fun _ => true) (branch q b v)).sqrt = branchNorm q b v := by
    rw [weight_branch, branchNorm]
  show (normalize (branch q b v)).amplitude i = _
  unfold normalize branchFactor
  simp only [hnorm]
  by_cases hpos : 0.0 < branchNorm q b v
  · -- every entry is divided, and zeros stay zeros
    rw [if_pos hpos, if_pos hpos]
    have hmap : Amplitudes.amplitude ((branch q b v).map (·.divReal (branchNorm q b v))) i
        = ((branch q b v).amplitude i).divReal (branchNorm q b v) := by
      rw [amplitude, amplitude, ← Kernel.getElem_eq_getD _ (by simpa [hsize] using hi),
        ← Kernel.getElem_eq_getD _ (hsize ▸ hi)]
      exact Array.getElem_map ..
    rw [hmap, hbranch]
    split
    · rfl
    · exact Complex.zero_divReal hpos
  · rw [if_neg hpos, if_neg hpos, hbranch, Complex.divReal_one]

/-! ### Coins -/

/-- Every number can be brought between 0 and 1. -/
theorem isChance_clamp_of_isNaN_eq_false {x : Float} (hx : x.isNaN = false) :
    IsChance (clamp x) := by
  unfold clamp
  split
  · exact ⟨finite_zero, value_zero.ge, value_zero.trans_le zero_le_one⟩
  · next hlow =>
    split
    · exact ⟨finite_one, zero_le_one.trans_eq value_one.symm, value_one.le⟩
    · next hhigh =>
      have hfinite : x.isFinite = true := by
        show x.toModel.unpack.isFinite = true
        cases hu : x.toModel.unpack with
        | notANumber =>
          rw [isNaN_iff.mpr hu] at hx
          cases hx
        | infinity s =>
          -- an infinity is below 0 or above 1
          rw [lt_iff, hu] at hlow
          rw [gt_iff_lt, lt_iff, hu] at hhigh
          cases s with
          | negative => exact absurd rfl hlow
          | positive => exact absurd rfl hhigh
        | zero | finite => rfl
      rw [lt_iff_value hfinite finite_zero, value_zero] at hlow
      rw [gt_iff_lt, lt_iff_value finite_one hfinite, value_one] at hhigh
      exact ⟨hfinite, not_lt.mp hlow, not_lt.mp hhigh⟩

/-- A coin can be tossed with what is brought between 0 and 1, unless it is no number. -/
theorem exists_coin_clamp_iff {σ : Type} [RandomSource σ] {x : Float} (s : σ) :
    (∃ r, RandomSource.coin (clamp x) s = .ok r) ↔ x.isNaN = false := by
  constructor
  · rintro ⟨r, hr⟩
    by_contra hnan
    rw [Bool.not_eq_false] at hnan
    rw [clamp_of_isNaN hnan, RandomSource.coin_of_isNaN hnan] at hr
    cases hr
  · intro hnan
    exact (isChance_clamp_of_isNaN_eq_false hnan).exists_coin s

/-! ### Readings and resets -/

/-- The state `w` is what is left of `v` where a wire was read as `b`. -/
structure Collapses (q : Nat) (b : Bool) (v w : Amplitudes) : Prop where
  size : w.size = v.size
  lost : ∀ i < v.size, i.testBit q ≠ b → w.amplitude i = .zero
  kept : ∀ i < v.size, i.testBit q = b →
    w.amplitude i = (v.amplitude i).divReal (branchFactor q b v)

/-- The state `w` is what is left of `v` where a wire was read as `b` and then returned to 0. -/
structure Clears (q : Nat) (b : Bool) (v w : Amplitudes) : Prop where
  size : w.size = v.size
  cleared : ∀ i < v.size, i.testBit q = true → w.amplitude i = .zero
  moved : ∀ i < v.size, i.testBit q = false →
    w.amplitude i = (v.amplitude (if b then i ||| 2 ^ q else i)).divReal (branchFactor q b v)

theorem collapses_project (q : Nat) (b : Bool) (v : Amplitudes) :
    Collapses q b v (project q b v) where
  size := size_project q b v
  lost := by
    intro i hi hbit
    rw [amplitude_project q b hi, if_neg hbit]
  kept := by
    intro i hi hbit
    rw [amplitude_project q b hi, if_pos hbit]

/-- Flipping a wire that was read as 1 clears it. -/
theorem Collapses.clears_flip {w : Amplitudes} (h : Collapses q true v w) (hq : q < n)
    (hv : v.size = 2 ^ n) :
    ∃ u, Kernel.onPairs (fun a b => (b, a)) q w = some u ∧ Clears q true v u := by
  obtain ⟨u, hu, hsize, hentry⟩ :=
    Kernel.getD_onPairs (fun a b => (b, a)) Complex.zero hq (h.size.trans hv)
  refine ⟨u, hu, hsize.trans h.size, ?_, ?_⟩
  · intro i hi hbit
    rw [amplitude, hentry i (h.size.symm ▸ hi), Kernel.paired, if_pos hbit]
    refine h.lost _ (hv ▸ Kernel.across_lt hq (hv ▸ hi)) ?_
    simp [Kernel.testBit_across, hbit]
  · intro i hi hbit
    rw [amplitude, hentry i (h.size.symm ▸ hi), Kernel.paired, if_neg (by simp [hbit]), if_pos rfl,
      ← Kernel.partner_eq_or]
    refine h.kept _ (hv ▸ Kernel.partner_lt hq (hv ▸ hi)) ?_
    simp [Kernel.testBit_partner]

/-- A wire that was read as 0 is clear. -/
theorem Collapses.clears {w : Amplitudes} (h : Collapses q false v w) : Clears q false v w where
  size := h.size
  cleared := fun i hi hbit => h.lost i hi (by simp [hbit])
  moved := h.kept

section Random

variable {σ : Type} [RandomSource σ]

theorem measure_of_coin {b : Bool} {s s' : σ}
    (hcoin : RandomSource.coin (clamp (probabilityOne q v)) s = .ok (b, s')) :
    measure q v s = .ok (b, project q b v, s') := by
  unfold measure
  rw [hcoin]
  rfl

theorem exists_reset_of_coin {b : Bool} {s s' : σ} (hq : q < n) (hv : v.size = 2 ^ n)
    (hcoin : RandomSource.coin (clamp (probabilityOne q v)) s = .ok (b, s')) :
    ∃ u, reset q v s = .ok (u, s') ∧ Clears q b v u := by
  have hleft := collapses_project q b v
  unfold reset
  rw [measure_of_coin hcoin]
  cases b with
  | false => exact ⟨_, rfl, hleft.clears⟩
  | true =>
    obtain ⟨u, hflip, hu⟩ := hleft.clears_flip hq hv
    refine ⟨u, ?_, hu⟩
    simp only [bind, Except.bind, if_true, hflip]
    rfl

/-- **Readings and resets**: unless the probability of reading 1 is no number, a coin can be tossed
for it, and nothing is read without one. Whatever it shows is read, the amplitudes at which the wire
has another value become zero, and all others are divided by one positive number, which is the norm
of their branch, or changes nothing if that norm is not positive. A reset that tosses the same coin
leaves zeros where the wire is 1, and where it is 0 the amplitudes of the value that was read, divided
by the same number. -/
theorem readings_collapse (hq : q < n) (hv : v.size = 2 ^ n) (s : σ) :
    ((∃ r, RandomSource.coin (clamp (probabilityOne q v)) s = .ok r) ↔
      (probabilityOne q v).isNaN = false) ∧
    (∀ f, RandomSource.coin (clamp (probabilityOne q v)) s = .error f →
      measure q v s = .error f ∧ reset q v s = .error f) ∧
    ∀ b s', RandomSource.coin (clamp (probabilityOne q v)) s = .ok (b, s') →
      (∃ w, measure q v s = .ok (b, w, s') ∧ Collapses q b v w) ∧
      (∃ u, reset q v s = .ok (u, s') ∧ Clears q b v u) ∧
      0.0 < branchFactor q b v ∧
      (0.0 < branchNorm q b v → branchFactor q b v = branchNorm q b v) ∧
      (¬ 0.0 < branchNorm q b v → ∀ a : Complex, a.divReal (branchFactor q b v) = a) := by
  refine ⟨exists_coin_clamp_iff s, fun f hcoin => ?_, fun b s' hcoin => ?_⟩
  · have hmeasure : measure q v s = .error f := by
      unfold measure
      rw [hcoin]
      rfl
    refine ⟨hmeasure, ?_⟩
    unfold reset
    rw [hmeasure]
    rfl
  · refine ⟨⟨_, measure_of_coin hcoin, collapses_project q b v⟩, exists_reset_of_coin hq hv hcoin,
      branchFactor_pos q b v, fun hpos => if_pos hpos, fun hnorm a => ?_⟩
    rw [branchFactor, if_neg hnorm, Complex.divReal_one]

end Random

/-- Two wires of which one reads as the other. -/
def entangledPair : Amplitudes := #[⟨invSqrt2, 0.0⟩, .zero, .zero, ⟨invSqrt2, 0.0⟩]

/-- The second wire of the pair is read as 1, or is reset when it would be. -/
theorem readings_collapse_entangledPair :
    (∃ w, measure 1 entangledPair (⟨[0], 0⟩ : Recorded) = .ok (true, w, ⟨[], 1⟩) ∧
      w.amplitude 0 = .zero ∧
      w.amplitude 3 = (entangledPair.amplitude 3).divReal (branchFactor 1 true entangledPair)) ∧
    (∃ u, reset 1 entangledPair (⟨[0], 0⟩ : Recorded) = .ok (u, ⟨[], 1⟩) ∧
      u.amplitude 1 = (entangledPair.amplitude 3).divReal (branchFactor 1 true entangledPair) ∧
      u.amplitude 2 = .zero ∧ u.amplitude 3 = .zero) ∧
    branchFactor 1 true entangledPair = branchNorm 1 true entangledPair := by
  -- the least word is below every threshold but 0
  have htoss : ∀ p : Float, (p == 1.0) = false → (0.0 ≤ p && p < 1.0) = true →
      decide (0 < RandomSource.threshold p) = true →
      RandomSource.coin p (⟨[0], 0⟩ : Recorded) = .ok (true, ⟨[], 1⟩) := by
    intro p hfair hrange hword
    unfold RandomSource.coin
    rw [hfair, if_neg Bool.false_ne_true, if_pos hrange]
    exact congrArg (fun b => Except.ok (b, _)) hword
  have hcoin := htoss (clamp (probabilityOne 1 entangledPair)) (by decide +kernel)
    (by decide +kernel) (by decide +kernel)
  have hnorm : 0.0 < branchNorm 1 true entangledPair := by decide +kernel
  obtain ⟨⟨w, hmeasure, hw⟩, ⟨u, hreset, hu⟩, -, hfactor, -⟩ :=
    (readings_collapse (n := 2) (by decide) rfl _).2.2 true _ hcoin
  exact ⟨⟨w, hmeasure, hw.lost 0 (by decide) (by decide), hw.kept 3 (by decide) (by decide)⟩,
    ⟨u, hreset, hu.moved 1 (by decide) (by decide), hu.cleared 2 (by decide) (by decide),
      hu.cleared 3 (by decide) (by decide)⟩, hfactor hnorm⟩

end Amplitudes

end OneWay
