import OneWay.Proofs.State.Entries

/-!
# What gates do to a state, amplitude by amplitude

A gate on one wire makes each amplitude from the one before it and the one across the wire, where
only the wire has another value: `Gate.entry` is the row of the gate's matrix that belongs to the
value of the wire, written out as a formula. Gates that mix nothing use the amplitude alone. Gates on
two wires move amplitudes (`cx`) or negate them (`cz`).

No law of arithmetic is used: `Amplitudes.kernels_act` holds whatever sums and products of amplitudes
are, since it says which amplitudes enter which formula.
-/

namespace OneWay

/-- The amplitude that a gate on one wire leaves at an index, where the wire has the value `bit`: made
from the amplitude before, and from that at the index across the wire. -/
def Gate.entry (t : Trigonometry) (g : Gate) (bit : Bool) (own across : Complex) : Complex :=
  match g, bit with
  | .x, _ => across
  | .y, false => -Complex.I * across
  | .y, true => Complex.I * across
  | .h, false => (own + across).scale Amplitudes.invSqrt2
  | .h, true => (across - own).scale Amplitudes.invSqrt2
  | .rx theta, false =>
    own.scale (t.cos (theta / 2.0)) + ⟨0.0, -t.sin (theta / 2.0)⟩ * across
  | .rx theta, true =>
    ⟨0.0, -t.sin (theta / 2.0)⟩ * across + own.scale (t.cos (theta / 2.0))
  | .ry theta, false => own.scale (t.cos (theta / 2.0)) - across.scale (t.sin (theta / 2.0))
  | .ry theta, true => across.scale (t.sin (theta / 2.0)) + own.scale (t.cos (theta / 2.0))
  | .u theta _ lambda, false =>
    own.scale (t.cos (theta / 2.0)) - (t.unit lambda).scaled (t.sin (theta / 2.0)) * across
  | .u theta phi lambda, true =>
    (t.unit phi).scaled (t.sin (theta / 2.0)) * across
      + (t.unit (phi + lambda)).scaled (t.cos (theta / 2.0)) * own
  | .z, true => -own
  | .s, true => own * t.unit (Angle.pi / 2.0)
  | .sdg, true => own * t.unit (-Angle.pi / 2.0)
  | .p theta, true => own * t.unit theta
  | .rz theta, false => own * t.unit (-theta / 2.0)
  | .rz theta, true => own * t.unit (theta / 2.0)
  | _, _ => own

namespace Amplitudes

variable {n : Nat} {v : Amplitudes}

/-- The amplitude at an index. -/
def amplitude (v : Amplitudes) (i : Nat) : Complex := v.getD i .zero

/-! ### One wire -/

/-- What a gate makes of a pair is what its formula says of the two amplitudes. -/
theorem entry_of_mixing {t : Trigonometry} {g : Gate} {f : Complex → Complex → Complex × Complex}
    (h : mixing? t g = some f) (own across : Complex) :
    (f own across).1 = g.entry t false own across ∧
      (f across own).2 = g.entry t true own across := by
  cases g <;> cases h <;> exact ⟨rfl, rfl⟩

/-- Gates that mix nothing act on each amplitude alone. -/
theorem applySingle_of_not_mixing {t : Trigonometry} {g : Gate} (h : mixing? t g = none)
    (hone : g.arity = 1) (q : Nat) (v : Amplitudes) :
    ∃ f, applySingle t g q v = some (Kernel.onEach f v) ∧
      ∀ i own across, f i own = g.entry t (i.testBit q) own across := by
  cases g with
  | i =>
    refine ⟨fun _ a => a, ?_, fun _ _ _ => rfl⟩
    have hsame : Kernel.onEach (fun _ a => a) v = v := Array.ext (by simp [Kernel.onEach])
      (by simp [Kernel.onEach])
    rw [hsame]
    rfl
  | z | s | sdg | p | rz =>
    refine ⟨_, rfl, fun i own across => ?_⟩
    cases i.testBit q <;> rfl
  | x | y | h | rx | ry | u => cases h
  | cx | cz => cases hone

/-- A gate on one wire acts by its formula. -/
theorem amplitude_applySingle (t : Trigonometry) {g : Gate} (hone : g.arity = 1) {q : Nat}
    (hq : q < n) (hv : v.size = 2 ^ n) :
    ∃ w, applySingle t g q v = some w ∧ w.size = 2 ^ n ∧ ∀ i < 2 ^ n,
      w.amplitude i = g.entry t (i.testBit q) (v.amplitude i) (v.amplitude (i ^^^ 2 ^ q)) := by
  cases hmix : mixing? t g with
  | some f =>
    obtain ⟨w, hw, hsize, hentry⟩ := Kernel.getD_onPairs f .zero hq hv
    refine ⟨w, by simp only [applySingle, hmix, hw], hsize.trans hv, fun i hi => ?_⟩
    rw [amplitude, hentry i (hv ▸ hi), ← Kernel.across_eq_xor]
    unfold Kernel.paired
    -- the value of the wire says which half of its pair an index is
    cases hbit : i.testBit q with
    | true => exact (entry_of_mixing hmix _ _).2
    | false =>
      rw [if_neg (by simp), ← Kernel.across_eq_partner hbit]
      exact (entry_of_mixing hmix _ _).1
  | none =>
    obtain ⟨f, hf, hentry⟩ := applySingle_of_not_mixing hmix hone q v
    refine ⟨_, hf, (Kernel.size_onEach f v).trans hv, fun i hi => ?_⟩
    rw [amplitude, Kernel.getD_onEach f .zero (hv ▸ hi)]
    exact hentry ..

/-! ### Two wires -/

/-- A controlled flip moves amplitudes across the target wire, where the control is 1. -/
theorem amplitude_exchange {control target : Nat} (hne : control ≠ target) (htarget : target < n)
    (hv : v.size = 2 ^ n) :
    ∃ w, applyDouble .cx control target v = some w ∧ w.size = 2 ^ n ∧ ∀ i < 2 ^ n,
      w.amplitude (if i.testBit control then i ^^^ 2 ^ target else i) = v.amplitude i := by
  obtain ⟨w, hw, hsize, hentry⟩ := Kernel.getD_exchange hne Complex.zero htarget hv
  refine ⟨w, hw, hsize.trans hv, fun i hi => ?_⟩
  rw [← Kernel.across_eq_xor]
  by_cases hbit : i.testBit control = true
  · -- the control is 1 across the target too, so what is moved there comes from here
    have hacross : (Kernel.across target i).testBit control = true := by
      simp [Kernel.testBit_across, hbit, Ne.symm hne]
    rw [if_pos hbit, amplitude, hentry _ (hv ▸ Kernel.across_lt htarget hi), if_pos hacross,
      Kernel.across_across]
    rfl
  · rw [if_neg hbit, amplitude, hentry i (hv ▸ hi), if_neg hbit]
    rfl

/-- A controlled sign negates the amplitudes at which both wires are 1. -/
theorem amplitude_negate (a b : Nat) (v : Amplitudes) :
    ∃ w, applyDouble .cz a b v = some w ∧ w.size = v.size ∧ ∀ i < v.size,
      w.amplitude i = if i.testBit a && i.testBit b then -v.amplitude i else v.amplitude i := by
  refine ⟨_, rfl, Kernel.size_onEach .., fun i hi => ?_⟩
  rw [amplitude, Kernel.getD_onEach _ .zero hi]
  rfl

/-! ### Decay -/

/-- A wire that decays takes the amplitudes at which it was 1 to 0, before the state is normalised. -/
theorem amplitude_decay {σ : Type} [RandomSource σ] {q : Nat} (hq : q < n) (hv : v.size = 2 ^ n)
    {gamma : Float} {s s' : σ}
    (hjump : RandomSource.coin (clamp (gamma * probabilityOne q v)) s = .ok (true, s')) :
    ∃ w, damp q gamma v s = .ok (normalize w, s') ∧ w.size = 2 ^ n ∧
      ∀ i < 2 ^ n, i.testBit q = false →
        w.amplitude i = v.amplitude (i ||| 2 ^ q) ∧ w.amplitude (i ||| 2 ^ q) = .zero := by
  obtain ⟨w, hw, hsize, hentry⟩ := Kernel.getD_lower Complex.zero .zero hq hv
  refine ⟨w, ?_, hsize.trans hv, fun i hi hclear => ?_⟩
  · simp only [damp, hjump, bind, Except.bind, if_true, hw, pure, Except.pure]
  · rw [← Kernel.partner_eq_or]
    constructor
    · rw [amplitude, hentry i (hv ▸ hi), if_neg (by simp [hclear])]
      rfl
    · rw [amplitude, hentry _ (hv ▸ Kernel.partner_lt hq hi),
        if_pos (by simp [Kernel.testBit_partner])]

/-- **Kernels**: every gate makes each new amplitude from the amplitudes before, by its formula: those
on one wire from the amplitude at the index and the one across the wire, a controlled flip by moving
it and a controlled sign by negating it. A wire that decays leaves zeros where it was 1. -/
theorem kernels_act {σ : Type} [RandomSource σ] (t : Trigonometry) (hv : v.size = 2 ^ n) :
    (∀ g : Gate, g.arity = 1 → ∀ q < n, ∃ w, apply t g [q] v = .ok w ∧ w.size = 2 ^ n ∧
      ∀ i < 2 ^ n,
        w.amplitude i = g.entry t (i.testBit q) (v.amplitude i) (v.amplitude (i ^^^ 2 ^ q))) ∧
    (∀ control < n, ∀ target < n, control ≠ target →
      ∃ w, apply t .cx [control, target] v = .ok w ∧ w.size = 2 ^ n ∧ ∀ i < 2 ^ n,
        w.amplitude (if i.testBit control then i ^^^ 2 ^ target else i) = v.amplitude i) ∧
    (∀ a < n, ∀ b < n, ∃ w, apply t .cz [a, b] v = .ok w ∧ w.size = 2 ^ n ∧ ∀ i < 2 ^ n,
      w.amplitude i = if i.testBit a && i.testBit b then -v.amplitude i else v.amplitude i) ∧
    ∀ q < n, ∀ (gamma : Float) (s s' : σ),
      RandomSource.coin (clamp (gamma * probabilityOne q v)) s = .ok (true, s') →
      ∃ w, damp q gamma v s = .ok (normalize w, s') ∧ w.size = 2 ^ n ∧
        ∀ i < 2 ^ n, i.testBit q = false →
          w.amplitude i = v.amplitude (i ||| 2 ^ q) ∧ w.amplitude (i ||| 2 ^ q) = .zero := by
  refine ⟨fun g hone q hq => ?_, fun control _ target htarget hne => ?_, fun a _ b _ => ?_, ?_⟩
  · exact exists_apply_of_single hone (amplitude_applySingle t hone hq hv)
  · exact exists_apply_of_double t rfl (amplitude_exchange hne htarget hv)
  · exact exists_apply_of_double t rfl (hv ▸ amplitude_negate a b v)
  · exact fun q hq gamma s s' hjump => amplitude_decay hq hv hjump

/-- Eight amplitudes that differ, on three wires. -/
def ramp : Amplitudes :=
  #[⟨1.0, 0.0⟩, ⟨2.0, 0.0⟩, ⟨3.0, 0.0⟩, ⟨4.0, 0.0⟩, ⟨5.0, 0.0⟩, ⟨6.0, 0.0⟩, ⟨7.0, 0.0⟩, ⟨8.0, 0.0⟩]

/-- Each kernel at the indices 4, 5 and 7 of three wires. -/
theorem kernels_act_ramp :
    (∃ w, apply .machine (.ry 0.5) [1] ramp = .ok w ∧
      w.amplitude 5 = Gate.entry .machine (.ry 0.5) false (ramp.amplitude 5) (ramp.amplitude 7) ∧
      w.amplitude 7 = Gate.entry .machine (.ry 0.5) true (ramp.amplitude 7) (ramp.amplitude 5)) ∧
    (∃ w, apply .machine .cx [2, 0] ramp = .ok w ∧
      w.amplitude 4 = ramp.amplitude 5 ∧ w.amplitude 1 = ramp.amplitude 1) ∧
    (∃ w, apply .machine .cz [0, 2] ramp = .ok w ∧
      w.amplitude 5 = -ramp.amplitude 5 ∧ w.amplitude 4 = ramp.amplitude 4) ∧
    ∃ w, damp 1 1.0 ramp (⟨[], 0⟩ : Recorded) = .ok (normalize w, ⟨[], 0⟩) ∧
      w.amplitude 5 = ramp.amplitude 7 ∧ w.amplitude 7 = .zero := by
  have hramp : ramp.size = 2 ^ 3 := rfl
  -- the decay is certain, so no number is drawn for it
  have hcertain : (clamp (1.0 * probabilityOne 1 ramp) == 1.0) = true := by decide +kernel
  have hjump : RandomSource.coin (clamp (1.0 * probabilityOne 1 ramp)) (⟨[], 0⟩ : Recorded)
      = .ok (true, ⟨[], 0⟩) := if_pos hcertain
  obtain ⟨hsingle, hmove, hsign, hdecay⟩ := kernels_act (σ := Recorded) .machine hramp
  obtain ⟨w₁, happly₁, -, hw₁⟩ := hsingle (.ry 0.5) rfl 1 (by decide)
  obtain ⟨w₂, happly₂, -, hw₂⟩ := hmove 2 (by decide) 0 (by decide) (by decide)
  obtain ⟨w₃, happly₃, -, hw₃⟩ := hsign 0 (by decide) 2 (by decide)
  obtain ⟨w₄, hdamp, -, hw₄⟩ := hdecay 1 (by decide) 1.0 ⟨[], 0⟩ ⟨[], 0⟩ hjump
  exact ⟨⟨w₁, happly₁, hw₁ 5 (by decide), hw₁ 7 (by decide)⟩,
    ⟨w₂, happly₂, hw₂ 5 (by decide), hw₂ 1 (by decide)⟩,
    ⟨w₃, happly₃, hw₃ 5 (by decide), hw₃ 4 (by decide)⟩,
    ⟨w₄, hdamp, hw₄ 5 (by decide) (by decide)⟩⟩

end Amplitudes

end OneWay
