import OneWay.Proofs.Simulation.Completion
import OneWay.Proofs.State.Entries
import OneWay.Proofs.Trigonometry

/-!
# Phases whose sum overflows

Where the phases of the general gate have a sum that is not finite, the gate leaves no number in any
amplitude that has its wire set (`Amplitudes.exists_apply_overflow`). The probability of reading 1
on that wire is then no number, clamping keeps it so, and no coin can be tossed with it: a
measurement of the wire fails (`Shot.measure_of_isNaN`), and every simulation of a circuit that
measures the wire after the gate does (`Circuit.simulate_overflow`).
-/

namespace OneWay

open Float.Model

namespace Binary64

variable {x y : Float}

/-! ### Operations on what is no number -/

theorem isNaN_iff : x.isNaN = true ↔ x.toModel.unpack = .notANumber := by
  show x.toModel.unpack.isNaN = true ↔ _
  cases x.toModel.unpack <;> simp [UnpackedFloat.isNaN]

theorem isNaN_pack {u : UnpackedFloat} (hu : u = .notANumber) :
    (Float.ofModel (.pack u)).isNaN = true := by
  subst hu
  rfl

theorem isNaN_mul_left (hx : x.isNaN = true) : (x * y).isNaN = true := by
  refine isNaN_pack (u := .mul Format.binary64 x.toModel.unpack y.toModel.unpack) ?_
  rw [isNaN_iff.mp hx]
  cases y.toModel.unpack <;> rfl

theorem isNaN_add_left (hx : x.isNaN = true) : (x + y).isNaN = true := by
  refine isNaN_pack (u := .add Format.binary64 x.toModel.unpack y.toModel.unpack) ?_
  rw [isNaN_iff.mp hx]
  cases y.toModel.unpack <;> rfl

theorem isNaN_sub_left (hx : x.isNaN = true) : (x - y).isNaN = true := by
  rw [float_sub_eq_add_neg]
  exact isNaN_add_left hx

theorem isNaN_mul_right (hy : y.isNaN = true) : (x * y).isNaN = true := by
  rw [float_mul_comm]
  exact isNaN_mul_left hy

theorem isNaN_add_right (hy : y.isNaN = true) : (x + y).isNaN = true := by
  rw [float_add_comm]
  exact isNaN_add_left hy

/-- What is no number compares with nothing. -/
theorem compare_of_isNaN (hx : x.isNaN = true) :
    x.toModel.unpack.compare y.toModel.unpack = none ∧
      y.toModel.unpack.compare x.toModel.unpack = none := by
  rw [isNaN_iff.mp hx]
  constructor
  · rfl
  · cases y.toModel.unpack <;> rfl

theorem not_lt_of_isNaN (hx : x.isNaN = true) : ¬ x < y ∧ ¬ y < x := by
  have hlt : ∀ a b : Float, a < b ↔
      (a.toModel.unpack.compare b.toModel.unpack == some .lt) = true := by
    intro a b
    show decide (a.toModel < b.toModel) = true ↔ _
    rw [decide_eq_true_iff]
    rfl
  rw [hlt, hlt, (compare_of_isNaN hx).1, (compare_of_isNaN hx).2]
  decide

theorem not_le_of_isNaN (hx : x.isNaN = true) : ¬ y ≤ x := by
  rw [le_iff, (compare_of_isNaN hx).2]
  simp

theorem not_beq_of_isNaN (hx : x.isNaN = true) : ¬ (x == y) = true := by
  have hbeq : (x == y) = (x.toModel.unpack.compare y.toModel.unpack == some .eq) := rfl
  rw [hbeq, (compare_of_isNaN hx).1]
  decide

end Binary64

open Binary64

/-- No coin can be tossed with what is no number. -/
theorem RandomSource.coin_of_isNaN {σ : Type} [RandomSource σ] {p : Float} (hp : p.isNaN = true)
    (s : σ) : RandomSource.coin p s = .error .badProbability := by
  unfold coin
  rw [if_neg (not_beq_of_isNaN hp), if_neg]
  rw [Bool.and_eq_true, decide_eq_true_iff]
  exact fun h => not_le_of_isNaN hp h.1

theorem Complex.isNaN_normSq {z : Complex} (hz : z.re.isNaN = true) : z.normSq.isNaN = true :=
  isNaN_add_left (isNaN_mul_left hz)

namespace Amplitudes

variable {v : Amplitudes} {n q : Nat} {t : Trigonometry}

theorem clamp_of_isNaN {x : Float} (hx : x.isNaN = true) : clamp x = x := by
  unfold clamp
  rw [if_neg (not_lt_of_isNaN hx).1, if_neg (not_lt_of_isNaN hx).2]

/-- A sum of weights is no number once a term is none. -/
theorem isNaN_foldl_weight (keep : Nat → Bool) {l : List (Complex × Nat)} {acc : Float}
    (h : acc.isNaN = true ∨ ∃ e ∈ l, keep e.2 = true ∧ e.1.normSq.isNaN = true) :
    (l.foldl (fun acc e => if keep e.2 then acc + e.1.normSq else acc) acc).isNaN = true := by
  induction l generalizing acc with
  | nil => exact h.resolve_right (by simp)
  | cons e l ih =>
    rw [List.foldl_cons]
    refine ih ?_
    rcases h with hacc | ⟨e', hmem, hkeep, hnan⟩
    · left
      split
      · exact isNaN_add_left hacc
      · exact hacc
    · rcases List.mem_cons.mp hmem with rfl | hmem
      · left
        rw [if_pos hkeep]
        exact isNaN_add_right hnan
      · exact .inr ⟨e', hmem, hkeep, hnan⟩

theorem isNaN_weight (keep : Nat → Bool) {i : Nat} (hi : i < v.size) (hkeep : keep i = true)
    (hnan : (v.getD i .zero).re.isNaN = true) : (weight keep v).isNaN = true := by
  refine isNaN_foldl_weight keep (.inr ⟨(v.getD i .zero, i), ?_, hkeep, Complex.isNaN_normSq hnan⟩)
  rw [← Kernel.getElem_eq_getD v hi, List.mk_mem_zipIdx_iff_getElem?, Array.getElem?_toList,
    Array.getElem?_eq_getElem hi]

/-- The general gate computes no number for the second of a pair if the sum of its phases is not
finite. -/
theorem isNaN_second (ht : t.Accurate) {x : Float} (hx : x.isFinite = false) (r : Float)
    (w b : Complex) : (w + (t.unit x).scaled r * b).re.isNaN = true := by
  refine isNaN_add_right (isNaN_sub_left (isNaN_mul_left (isNaN_mul_left ?_)))
  exact isNaN_mul_right (ht.cos_isNaN x hx)

/-- **Overflow**: after the general gate with phases whose sum is not finite, the probability of
reading 1 is no number. -/
theorem exists_apply_overflow (ht : t.Accurate) (theta : Float) {phi lambda : Float}
    (hsum : (phi + lambda).isFinite = false) (hq : q < n) (hv : v.size = 2 ^ n) :
    ∃ w, apply t (.u theta phi lambda) [q] v = .ok w ∧ (probabilityOne q w).isNaN = true := by
  obtain ⟨f, hf⟩ : ∃ f, mixing? t (.u theta phi lambda) = some f := ⟨_, rfl⟩
  obtain ⟨w, hpairs, hsize, hentry⟩ := Kernel.getD_onPairs f .zero hq hv
  -- one amplitude spoils the sum: take that of the index in which this wire alone is set
  have hbit : (Kernel.partner q 0).testBit q = true := by
    rw [Kernel.testBit_partner, decide_eq_true rfl, Bool.or_true]
  have hlt : Kernel.partner q 0 < v.size := by
    rw [hv]
    exact Kernel.partner_lt hq (Nat.two_pow_pos n)
  refine ⟨w, ?_, isNaN_weight _ (hsize ▸ hlt) hbit ?_⟩
  · simp only [apply, applySingle, hf, hpairs]
  · rw [hentry _ hlt, Kernel.paired, if_pos hbit, ← Option.some.inj hf]
    exact isNaN_second ht hsum _ _ _

end Amplitudes

namespace Shot

variable {σ : Type} [RandomSource σ] {c : Circuit} {s : Shot σ} {t : Trigonometry}
  {noise : NoiseModel} {q : Qubit}

theorem measure_of_isNaN (h : (s.amplitudes.probabilityOne q).isNaN = true) (b : Bit) :
    s.measure noise q b = .error .badProbability := by
  have hcoin : s.amplitudes.measure q s.source = .error .badProbability := by
    unfold Amplitudes.measure
    rw [Amplitudes.clamp_of_isNaN h, RandomSource.coin_of_isNaN h]
    rfl
  unfold Shot.measure
  rw [hcoin]
  rfl

/-- The general gate and the measurement of its wire, without noise between them. -/
theorem steps_overflow (ht : t.Accurate) (hnoise : noise.singleQubit = []) (h : s.Sized c)
    {theta phi lambda : Float} (hsum : (phi + lambda).isFinite = false) (hq : q < c.numQubits)
    (b : Bit) (rest : List Instruction) :
    (⟨.gate { gate := .u theta phi lambda }, [q], []⟩ :: ⟨.measure, [q], [b]⟩ :: rest :
      List Instruction).foldlM (Shot.step t noise) s = .error .badProbability := by
  obtain ⟨w, happly, hnan⟩ :=
    Amplitudes.exists_apply_overflow ht theta hsum hq h.amplitudes
  have hgate : s.step t noise ⟨.gate { gate := .u theta phi lambda }, [q], []⟩
      = .ok { s with amplitudes := w } := by
    show s.gate t noise (.u theta phi lambda) [q] = _
    unfold Shot.gate
    rw [happly, hnoise]
    rfl
  generalize hafter : ({ s with amplitudes := w } : Shot σ) = s' at hgate
  have hnan' : (s'.amplitudes.probabilityOne q).isNaN = true := by
    rw [← hafter]
    exact hnan
  have hmeasure : s'.step t noise ⟨.measure, [q], [b]⟩ = .error .badProbability := by
    simp only [Shot.step, List.zip_cons_cons, List.zip_nil_left, List.foldlM_cons,
      measure_of_isNaN hnan' b]
    rfl
  rw [List.foldlM_cons, hgate]
  show (_ :: rest).foldlM (Shot.step t noise) s' = _
  rw [List.foldlM_cons, hmeasure]
  rfl

end Shot

/-- **Overflow**: no simulation of a circuit has a result if the circuit measures a wire right after
the general gate with phases whose sum is not finite. -/
theorem Circuit.simulate_overflow {σ : Type} [RandomSource σ] {c : Circuit} {t : Trigonometry}
    {noise : NoiseModel} (ht : t.Accurate) (hnoise : noise.singleQubit = [])
    (hc : c.validate = .ok ()) {before after : List Instruction} {theta phi lambda : Float}
    {q : Qubit} {b : Bit} (hsum : (phi + lambda).isFinite = false)
    (hlist : c.instructions.toList = before ++
      ⟨.gate { gate := .u theta phi lambda }, [q], []⟩ :: ⟨.measure, [q], [b]⟩ :: after)
    (shots : Nat) (source : σ) :
    c.simulate t noise (shots + 1) source = .error .badProbability := by
  have hfits := Circuit.validate_eq_ok_iff.mp hc
  rw [hlist] at hfits
  have hq : q < c.numQubits :=
    (hfits ⟨.gate { gate := .u theta phi lambda }, [q], []⟩ (by simp)).qubits_lt q (by simp)
  have hbefore : Yields (Shot.Sized c)
      (before.foldlM (Shot.step t noise) (Shot.start c source)) :=
    Yields.foldlM (fun inst hinst s hs => hs.step t noise
      (hfits inst (List.mem_append_left _ hinst))) (Shot.sized_start c source)
  -- what comes before may stop the shot too, but only at a coin
  have hrun : Shot.run t noise c source = .error .badProbability := by
    unfold Shot.run
    rw [hlist, List.foldlM_append]
    cases hstate : before.foldlM (Shot.step t noise) (Shot.start c source) with
    | error f =>
      rw [hstate] at hbefore
      exact congrArg _ hbefore
    | ok s =>
      rw [hstate] at hbefore
      exact Shot.steps_overflow ht hnoise hbefore hsum hq b after
  unfold Circuit.simulate
  rw [hrun]
  rfl

end OneWay
