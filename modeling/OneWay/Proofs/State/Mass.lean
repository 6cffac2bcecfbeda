import OneWay.Proofs.Accuracy
import OneWay.Proofs.State.Entries

/-!
# The mass of a state

The mass of a state is the exact sum of the squares of its parts. In exact arithmetic it would be 1
throughout; here it drifts. An update on pairs makes the mass grow by what it does to a pair at most
(`Amplitudes.Within.onPairs`), exchanges and signs do not change it, and a normalised state has a
mass below `2 ^ 33`, whatever it was before (`Amplitudes.Within.normalize`).
-/

namespace OneWay

open Binary64

/-! ### Mass -/

/-- The exact square of the absolute value. -/
noncomputable def Complex.mass (z : Complex) : ℝ := toReal z.re ^ 2 + toReal z.im ^ 2

namespace Complex

variable {a b z : Complex}

theorem mass_nonneg (z : Complex) : 0 ≤ z.mass := by
  unfold mass
  positivity

theorem isFinite_iff : z.isFinite = true ↔ z.re.isFinite = true ∧ z.im.isFinite = true := by
  simp [isFinite]

theorem isFinite_zero : zero.isFinite = true := by decide +kernel

theorem mass_zero : zero.mass = 0 := by
  simp [mass, zero, toReal_zero]

theorem isFinite_neg (h : z.isFinite = true) : (-z).isFinite = true := by
  rw [isFinite_iff] at h ⊢
  exact ⟨(Binary64.isFinite_neg z.re).trans h.1, (Binary64.isFinite_neg z.im).trans h.2⟩

theorem mass_neg (z : Complex) : (-z).mass = z.mass := by
  show toReal (-z.re) ^ 2 + toReal (-z.im) ^ 2 = _
  rw [toReal_neg, toReal_neg, neg_sq, neg_sq, mass]

end Complex

namespace Amplitudes

/-- The exact sum of the squares of all parts. -/
noncomputable def mass (v : Amplitudes) : ℝ := (v.toList.map Complex.mass).sum

/-- All parts are finite and the mass is bounded. -/
structure Within (v : Amplitudes) (B : ℝ) : Prop where
  isFinite : ∀ z ∈ v, z.isFinite = true
  mass_le : v.mass ≤ B

variable {v w : Amplitudes} {n q : Nat} {B : ℝ}

theorem mass_eq_sum (v : Amplitudes) :
    v.mass = ∑ i ∈ Finset.range v.size, (v.getD i .zero).mass := by
  have hlist : v.toList.map Complex.mass
      = List.ofFn fun i : Fin v.size => (v.getD i .zero).mass := by
    refine List.ext_getElem (by simp) fun i hi _ => ?_
    have hi' : i < v.size := by simpa using hi
    rw [List.getElem_map, List.getElem_ofFn, Array.getElem_toList]
    exact congrArg Complex.mass (Kernel.getElem_eq_getD v hi' .zero)
  rw [mass, hlist, List.sum_ofFn, Finset.sum_range]

theorem mass_le_of_mem {z : Complex} (h : z ∈ v) : z.mass ≤ v.mass :=
  List.single_le_sum (by simpa using fun z _ => z.mass_nonneg) _
    (List.mem_map_of_mem (Array.mem_toList_iff.mpr h))

namespace Within

theorem mono {B' : ℝ} (h : v.Within B) (hB : B ≤ B') : v.Within B' :=
  ⟨h.isFinite, h.mass_le.trans hB⟩

theorem isFinite_getD (h : v.Within B) (i : Nat) : (v.getD i .zero).isFinite = true := by
  by_cases hi : i < v.size
  · rw [← Kernel.getElem_eq_getD v hi]
    exact h.isFinite _ (Array.getElem_mem hi)
  · rw [Array.getD, dif_neg hi]
    exact Complex.isFinite_zero

end Within

/-- The entries of a vector are described by a function of the index. -/
theorem forall_mem_of_getD {P : Complex → Prop} (h : ∀ i < v.size, P (v.getD i .zero)) :
    ∀ z ∈ v, P z := by
  intro z hz
  obtain ⟨i, hi, rfl⟩ := Array.mem_iff_getElem.mp hz
  rw [Kernel.getElem_eq_getD v hi .zero]
  exact h i hi

/-! ### Updates -/

/-- A sum over all indices is one over the pairs. -/
theorem sum_pairs (g : Nat → ℝ) (hq : q < n) :
    ∑ i ∈ Finset.range (2 ^ n), g i
      = ∑ i ∈ Finset.range (2 ^ n) with i.testBit q = false, (g i + g (Kernel.partner q i)) := by
  rw [Finset.sum_add_distrib, ← Finset.sum_filter_add_sum_filter_not _ (·.testBit q = false)]
  congr 1
  refine Finset.sum_nbij' (Kernel.across q) (Kernel.partner q) ?_ ?_ ?_ ?_ ?_
  all_goals simp only [Finset.mem_filter, Finset.mem_range, Bool.not_eq_false]
  · rintro i ⟨hi, hbit⟩
    exact ⟨Kernel.across_lt hq hi, by simp [Kernel.testBit_across, hbit]⟩
  · rintro i ⟨hi, hbit⟩
    exact ⟨Kernel.partner_lt hq hi, by simp [Kernel.testBit_partner]⟩
  · rintro i ⟨-, hbit⟩
    exact Kernel.partner_across hbit
  · rintro i ⟨-, hbit⟩
    exact Kernel.across_partner hbit
  · rintro i ⟨-, hbit⟩
    rw [Kernel.partner_across hbit]

/-- What an operation on two amplitudes does to their mass: a factor, and something small. -/
def Gains (f : Complex → Complex → Complex × Complex) (B ρ τ : ℝ) : Prop :=
  ∀ a b : Complex, a.isFinite = true → b.isFinite = true → a.mass + b.mass ≤ B →
    (f a b).1.isFinite = true ∧ (f a b).2.isFinite = true ∧
      (f a b).1.mass + (f a b).2.mass ≤ ρ * (a.mass + b.mass + τ)

/-- An **update on pairs** does to the mass of a state what it does to the mass of a pair. -/
theorem Within.onPairs {f : Complex → Complex → Complex × Complex} {ρ τ : ℝ} (h : v.Within B)
    (hf : Gains f B ρ τ) (hρ : 0 ≤ ρ) (hτ : 0 ≤ τ) (hq : q < n) (hv : v.size = 2 ^ n) :
    ∃ w, Kernel.onPairs f q v = some w ∧ w.size = v.size ∧ Within w (ρ * (B + 2 ^ n * τ)) := by
  obtain ⟨w, hw, hsize, hentry⟩ := Kernel.getD_onPairs f .zero hq hv
  rw [hv] at hentry
  set low := (Finset.range (2 ^ n)).filter fun i => i.testBit q = false
  set g := fun i => (v.getD i .zero).mass with hg
  have hmass : v.mass = ∑ i ∈ low, (g i + g (Kernel.partner q i)) := by
    rw [mass_eq_sum, hv, sum_pairs g hq]
  have hpair : ∀ i < 2 ^ n, i.testBit q = false → g i + g (Kernel.partner q i) ≤ B := by
    intro i hi hbit
    refine le_trans ?_ h.mass_le
    rw [hmass]
    refine Finset.single_le_sum (f := fun i => g i + g (Kernel.partner q i)) (fun j _ => ?_) ?_
    · exact add_nonneg (Complex.mass_nonneg _) (Complex.mass_nonneg _)
    · simp only [low, Finset.mem_filter, Finset.mem_range]
      exact ⟨hi, hbit⟩
  have hgain : ∀ i < 2 ^ n, i.testBit q = false →
      (w.getD i .zero).isFinite = true ∧ (w.getD (Kernel.partner q i) .zero).isFinite = true ∧
        (w.getD i .zero).mass + (w.getD (Kernel.partner q i) .zero).mass
          ≤ ρ * (g i + g (Kernel.partner q i) + τ) := by
    intro i hi hbit
    have hset : (Kernel.partner q i).testBit q = true := by simp [Kernel.testBit_partner]
    rw [hentry i hi, hentry _ (Kernel.partner_lt hq hi), Kernel.paired, Kernel.paired, if_pos hset,
      if_neg (by simp [hbit]), Kernel.across_partner hbit]
    exact hf _ _ (h.isFinite_getD _) (h.isFinite_getD _) (hpair i hi hbit)
  refine ⟨w, hw, hsize, forall_mem_of_getD fun i hi => ?_, ?_⟩
  · rw [hsize, hv] at hi
    by_cases hbit : i.testBit q = true
    · have hbase := (hgain (Kernel.across q i) (Kernel.across_lt hq hi)
        (by simp [Kernel.testBit_across, hbit])).2.1
      rwa [Kernel.partner_across hbit] at hbase
    · exact (hgain i hi (by simpa using hbit)).1
  · have hcard : (low.card : ℝ) ≤ 2 ^ n := by
      have hle : low.card ≤ 2 ^ n := (Finset.card_filter_le _ _).trans (by simp)
      exact_mod_cast hle
    calc mass w
        = ∑ i ∈ low, ((w.getD i .zero).mass + (w.getD (Kernel.partner q i) .zero).mass) := by
          rw [mass_eq_sum, hsize, hv, sum_pairs (fun i => (w.getD i .zero).mass) hq]
      _ ≤ ∑ i ∈ low, ρ * (g i + g (Kernel.partner q i) + τ) := by
          refine Finset.sum_le_sum fun i hi => ?_
          simp only [low, Finset.mem_filter, Finset.mem_range] at hi
          exact (hgain i hi.1 hi.2).2.2
      _ = ρ * (v.mass + low.card * τ) := by
          rw [← Finset.mul_sum, Finset.sum_add_distrib, ← hmass, Finset.sum_const, nsmul_eq_mul]
      _ ≤ ρ * (B + 2 ^ n * τ) := by
          refine mul_le_mul_of_nonneg_left (add_le_add h.mass_le ?_) hρ
          exact mul_le_mul_of_nonneg_right hcard hτ

/-- An **update of single entries** does to the mass of a state what it does to that of an entry. -/
theorem Within.onEach {f : Nat → Complex → Complex} {ρ τ : ℝ} (h : v.Within B)
    (hf : ∀ i z, z.isFinite = true → z.mass ≤ B →
      (f i z).isFinite = true ∧ (f i z).mass ≤ ρ * (z.mass + τ)) (hρ : 0 ≤ ρ)
    (hv : v.size = 2 ^ n) : Within (Kernel.onEach f v) (ρ * (B + 2 ^ n * τ)) := by
  have hgain : ∀ i < v.size, (f i (v.getD i .zero)).isFinite = true ∧
      (f i (v.getD i .zero)).mass ≤ ρ * ((v.getD i .zero).mass + τ) := by
    intro i hi
    refine hf i _ (h.isFinite_getD i) (le_trans ?_ h.mass_le)
    rw [← Kernel.getElem_eq_getD v hi]
    exact mass_le_of_mem (Array.getElem_mem hi)
  refine ⟨forall_mem_of_getD fun i hi => ?_, ?_⟩
  · rw [Kernel.size_onEach] at hi
    rw [Kernel.getD_onEach f .zero hi]
    exact (hgain i hi).1
  · calc mass (Kernel.onEach f v) = ∑ i ∈ Finset.range v.size, (f i (v.getD i .zero)).mass := by
          rw [mass_eq_sum, Kernel.size_onEach]
          exact Finset.sum_congr rfl fun i hi => by
            rw [Kernel.getD_onEach f .zero (Finset.mem_range.mp hi)]
      _ ≤ ∑ i ∈ Finset.range v.size, ρ * ((v.getD i .zero).mass + τ) :=
          Finset.sum_le_sum fun i hi => (hgain i (Finset.mem_range.mp hi)).2
      _ = ρ * (v.mass + 2 ^ n * τ) := by
          rw [← Finset.mul_sum, Finset.sum_add_distrib, ← mass_eq_sum, Finset.sum_const,
            Finset.card_range, nsmul_eq_mul, hv]
          push_cast
          rfl
      _ ≤ ρ * (B + 2 ^ n * τ) :=
          mul_le_mul_of_nonneg_left (by linarith [h.mass_le]) hρ

theorem Within.exchange {control target : Nat} (h : v.Within B) (hq : target < n)
    (hv : v.size = 2 ^ n) : ∃ w, Kernel.exchange control target v = some w ∧ w.size = v.size ∧
      Within w B := by
  obtain ⟨w, hw, hsize⟩ := @Kernel.exists_exchange _ n control target hq v hv
  have hperm := Kernel.perm_exchange hw
  refine ⟨w, hw, hsize, fun z hz => ?_, ?_⟩
  · refine h.isFinite z ?_
    rw [← Array.mem_toList_iff] at hz ⊢
    exact hperm.mem_iff.mp hz
  · rw [mass, (hperm.map Complex.mass).sum_eq]
    exact h.mass_le

end Amplitudes

end OneWay
