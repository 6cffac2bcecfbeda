import Mathlib.Algebra.GroupWithZero.Nat
import Mathlib.Data.List.Basic
import OneWay.State.Vector

/-!
# State vectors keep their size

A vector for `n` wires has `2 ^ n` entries, and every update on wires below `n` finds the entries
that it needs. So gates, measurements, resets and damping give vectors of the same size, and what
is drawn from a random source is the only thing that can fail: `Yields` says so of a computation.
-/

namespace OneWay

/-! ### Computations that only a coin can stop -/

/-- The computation gives a value with a property, unless a coin is tossed with a number that is no
probability. -/
def Yields {α : Type} (P : α → Prop) : Except SimulationFault α → Prop
  | .ok a => P a
  | .error f => f = .badProbability

namespace Yields

variable {α β : Type} {P : α → Prop} {Q : β → Prop}

theorem bind {x : Except SimulationFault α} {f : α → Except SimulationFault β} (hx : Yields P x)
    (hf : ∀ a, P a → Yields Q (f a)) : Yields Q (x >>= f) := by
  cases x with
  | error e => exact hx
  | ok a => exact hf a hx

/-- What every step keeps, a run keeps. -/
theorem foldlM {f : α → β → Except SimulationFault α} {l : List β}
    (h : ∀ b ∈ l, ∀ a, P a → Yields P (f a b)) {a : α} (ha : P a) : Yields P (l.foldlM f a) := by
  induction l generalizing a with
  | nil => exact ha
  | cons b l ih =>
    rw [List.foldlM_cons]
    refine bind (h b (List.mem_cons_self ..) a ha) fun a' ha' => ?_
    exact ih (fun c hc => h c (List.mem_cons_of_mem _ hc)) ha'

theorem coin {σ : Type} [RandomSource σ] (p : Float) (s : σ) :
    Yields (fun _ => True) (RandomSource.coin p s) := by
  unfold RandomSource.coin
  split
  · trivial
  · split
    · trivial
    · exact rfl

end Yields

/-! ### Updates of vectors -/

namespace Kernel

variable {α : Type} {n q : Nat}

theorem partner_lt (hq : q < n) {i : Nat} (hi : i < 2 ^ n) : partner q i < 2 ^ n := by
  refine Nat.or_lt_two_pow hi ?_
  rw [Nat.one_shiftLeft]
  exact Nat.pow_lt_pow_right (by decide) hq

/-- Steps that keep the size and succeed at every index make up an update that does. -/
theorem exists_foldlM_range {f : Array α → Nat → Option (Array α)} {v : Array α}
    (h : ∀ i < v.size, ∀ w : Array α, w.size = v.size → ∃ w', f w i = some w' ∧ w'.size = v.size) :
    ∃ w, (List.range v.size).foldlM f v = some w ∧ w.size = v.size := by
  suffices hall : ∀ l : List Nat, (∀ i ∈ l, i < v.size) → ∀ w : Array α, w.size = v.size →
      ∃ w', l.foldlM f w = some w' ∧ w'.size = v.size by
    exact hall _ (fun i hi => List.mem_range.mp hi) v rfl
  intro l
  induction l with
  | nil => exact fun _ w hw => ⟨w, rfl, hw⟩
  | cons i l ih =>
    intro hl w hw
    obtain ⟨w', hstep, hw'⟩ := h i (hl i (List.mem_cons_self ..)) w hw
    rw [List.foldlM_cons, hstep]
    exact ih (fun j hj => hl j (List.mem_cons_of_mem _ hj)) w' hw'

theorem exists_onPairs (f : α → α → α × α) (hq : q < n) {v : Array α} (hv : v.size = 2 ^ n) :
    ∃ w, onPairs f q v = some w ∧ w.size = v.size := by
  refine exists_foldlM_range fun i hi w hw => ?_
  unfold pairStep
  split
  · exact ⟨w, rfl, hw⟩
  · have hpartner : partner q i < w.size := by
      rw [hw, hv]
      exact partner_lt hq (hv ▸ hi)
    rw [dif_pos ⟨hw ▸ hi, hpartner⟩]
    exact ⟨_, rfl, by simpa using hw⟩

theorem exists_exchange {control target : Nat} (hq : target < n) {v : Array α}
    (hv : v.size = 2 ^ n) : ∃ w, exchange control target v = some w ∧ w.size = v.size := by
  refine exists_foldlM_range fun i hi w hw => ?_
  unfold exchangeStep
  split
  · have hpartner : partner target i < w.size := by
      rw [hw, hv]
      exact partner_lt hq (hv ▸ hi)
    rw [dif_pos ⟨hw ▸ hi, hpartner⟩]
    exact ⟨_, rfl, by simpa using hw⟩
  · exact ⟨w, rfl, hw⟩

theorem size_onEach (f : Nat → α → α) (v : Array α) : (onEach f v).size = v.size :=
  Array.size_mapIdx

theorem across_lt (hq : q < n) {i : Nat} (hi : i < 2 ^ n) : across q i < 2 ^ n := by
  refine Nat.xor_lt_two_pow hi ?_
  rw [Nat.one_shiftLeft]
  exact Nat.pow_lt_pow_right (by decide) hq

theorem exists_lower (zero : α) (hq : q < n) {v : Array α} (hv : v.size = 2 ^ n) :
    ∃ w, lower zero q v = some w ∧ w.size = v.size := by
  refine exists_foldlM_range fun i hi w hw => ?_
  unfold lowerStep
  split
  · have hacross : across q i < w.size := by
      rw [hw, hv]
      exact across_lt hq (hv ▸ hi)
    rw [dif_pos ⟨hw ▸ hi, hacross⟩]
    exact ⟨_, rfl, by simpa using hw⟩
  · exact ⟨w, rfl, hw⟩

end Kernel

/-! ### Gates and measurements -/

namespace Amplitudes

variable {n : Nat} {v : Amplitudes}

theorem size_ground (n : Nat) : (ground n).size = 2 ^ n := by
  simp [ground, Nat.one_shiftLeft]

theorem exists_applySingle (t : Trigonometry) (g : Gate) {q : Nat} (hq : q < n)
    (hv : v.size = 2 ^ n) : ∃ w, applySingle t g q v = some w ∧ w.size = v.size := by
  unfold applySingle
  split
  · exact Kernel.exists_onPairs _ hq hv
  · split <;> exact ⟨_, rfl, by simp [negateOn, phase, Kernel.size_onEach]⟩

theorem exists_applyDouble (g : Gate) {a b : Nat} (hb : b < n) (hv : v.size = 2 ^ n) :
    ∃ w, applyDouble g a b v = some w ∧ w.size = v.size := by
  unfold applyDouble
  split
  · exact Kernel.exists_exchange hb hv
  · exact ⟨_, rfl, Kernel.size_onEach ..⟩
  · exact ⟨v, rfl, rfl⟩

/-- What holds of the result of a gate on one wire holds of the gate as an instruction. -/
theorem exists_apply_of_single {t : Trigonometry} {g : Gate} {q : Nat} {P : Amplitudes → Prop}
    (hg : g.arity = 1) (h : ∃ w, applySingle t g q v = some w ∧ P w) :
    ∃ w, apply t g [q] v = .ok w ∧ P w := by
  obtain ⟨w, hw, hP⟩ := h
  refine ⟨w, ?_, hP⟩
  cases g with
  | i => exact congrArg _ (Option.some.inj hw)
  | cx | cz => cases hg
  | _ => simp only [apply, hw]

/-- What holds of the result of a gate on two wires holds of the gate as an instruction. -/
theorem exists_apply_of_double (t : Trigonometry) {g : Gate} {a b : Nat} {P : Amplitudes → Prop}
    (hg : g.arity = 2) (h : ∃ w, applyDouble g a b v = some w ∧ P w) :
    ∃ w, apply t g [a, b] v = .ok w ∧ P w := by
  obtain ⟨w, hw, hP⟩ := h
  refine ⟨w, ?_, hP⟩
  cases g with
  | cx | cz => simp only [apply, hw]
  | _ => cases hg

/-- A gate on as many wires as it needs gives a vector of the same size. -/
theorem exists_apply (t : Trigonometry) {g : Gate} {qubits : List Nat}
    (harity : qubits.length = g.arity) (hq : ∀ q ∈ qubits, q < n) (hv : v.size = 2 ^ n) :
    ∃ w, apply t g qubits v = .ok w ∧ w.size = v.size := by
  cases g with
  | cx | cz =>
    obtain ⟨a, b, rfl⟩ := List.length_eq_two.mp harity
    exact exists_apply_of_double t rfl (exists_applyDouble _ (hq b (by simp)) hv)
  | _ =>
    obtain ⟨q, rfl⟩ := List.length_eq_one_iff.mp harity
    exact exists_apply_of_single rfl (exists_applySingle t _ (hq q (by simp)) hv)

theorem size_normalize (v : Amplitudes) : (normalize v).size = v.size := by
  unfold normalize
  simp only
  split <;> simp

theorem size_project (q : Nat) (outcome : Bool) (v : Amplitudes) :
    (project q outcome v).size = v.size := by
  rw [project, size_normalize, Kernel.size_onEach]

section Random

variable {σ : Type} [RandomSource σ]

theorem yields_measure (q : Nat) (v : Amplitudes) (s : σ) :
    Yields (fun r => r.2.1.size = v.size) (measure q v s) :=
  (Yields.coin ..).bind fun r _ => size_project q r.1 v

theorem yields_reset {q : Nat} (hq : q < n) (hv : v.size = 2 ^ n) (s : σ) :
    Yields (fun r => r.1.size = v.size) (reset q v s) := by
  refine (yields_measure q v s).bind ?_
  rintro ⟨outcome, w, s'⟩ hw
  cases outcome with
  | false => exact hw
  | true =>
    obtain ⟨w', hpairs, hw'⟩ := Kernel.exists_onPairs (fun a b : Complex => (b, a)) hq (hw.trans hv)
    simp only [hpairs]
    exact hw'.trans hw

theorem yields_damp {q : Nat} (hq : q < n) (hv : v.size = 2 ^ n) (gamma : Float) (s : σ) :
    Yields (fun r => r.1.size = v.size) (damp q gamma v s) := by
  refine (Yields.coin ..).bind ?_
  rintro ⟨jump, s'⟩ -
  cases jump with
  | false =>
    show (normalize _).size = v.size
    rw [size_normalize, Kernel.size_onEach]
  | true =>
    obtain ⟨w, hlower, hw⟩ := Kernel.exists_lower Complex.zero hq hv
    simp only [hlower]
    exact (size_normalize w).trans hw

end Random

end Amplitudes

end OneWay
