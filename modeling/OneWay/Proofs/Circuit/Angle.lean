import OneWay.Backend.Simulator
import OneWay.Circuit.Program
import OneWay.Proofs.Binary64
import OneWay.Proofs.Circuit.Validity

/-!
# Angles that overflow

A finite angle in units of π is not always finite in radians: the product with π is finite iff the
angle lies within `Angle.limit` (`Angle.isFinite_mul_pi`).

Angles that are not finite are the only reason why a valid circuit has no program
(`Circuit.exists_program_iff`), and simulators report them (`Simulator.reportsAngle_validate_iff`).
-/

namespace OneWay

namespace Angle

open Float.Model Float.Model.UnpackedFloat Binary64

/-- The largest angle in units of π that is finite in radians. -/
def limit : Float := Float.ofBits 0x7FD45F306DC9C882

theorem unpack_pi : pi.toModel.unpack = .finite .positive 0x1921FB54442D18 (-51) (by decide) := rfl

theorem unpack_limit :
    limit.toModel.unpack = .finite .positive 0x145F306DC9C882 970 (by decide) := rfl

theorem unpack_neg_limit :
    (-limit).toModel.unpack = .finite .negative 0x145F306DC9C882 970 (by decide) := rfl

/-- A number other than zero lies within the limits iff its exponent is below theirs, or the same
with a significand that is at most theirs. -/
theorem within_limit_iff {x : Float} {s : Sign} {m : Nat} {e : Int} {hm : 0 < m}
    (hx : x.toModel.unpack = .finite s m e hm) :
    (-limit ≤ x ∧ x ≤ limit) ↔ e < 970 ∨ e = 970 ∧ m ≤ 0x145F306DC9C882 := by
  have hlex : ((compare e 970).then (compare m 0x145F306DC9C882)).isLE = true ↔
      e < 970 ∨ e = 970 ∧ m ≤ 0x145F306DC9C882 := by
    rcases Int.lt_trichotomy e 970 with h | h | h
    · simp [Int.compare_eq_lt.mpr h, h]
    · simp [h, Nat.isLE_compare]
    · simp [Int.compare_eq_gt.mpr h]
      omega
  rw [le_iff, le_iff, hx, unpack_limit, unpack_neg_limit, ← hlex]
  cases s with
  | positive => exact and_iff_right rfl
  | negative =>
    refine (and_iff_left rfl).trans ?_
    show ((compare (970 : Int) e).then (compare 0x145F306DC9C882 m)).swap.isLE = true ↔ _
    rw [Ordering.swap_then, ← Std.OrientedCmp.eq_swap, ← Std.OrientedCmp.eq_swap]

/-- **Overflow**: a finite number times π is finite iff the number lies within the limits. -/
theorem isFinite_mul_pi {x : Float} (hx : x.isFinite = true) :
    (x * pi).isFinite = true ↔ -limit ≤ x ∧ x ≤ limit := by
  have hprod : (x * pi).isFinite = (Float.Model.pack (UnpackedFloat.mul Format.binary64
      x.toModel.unpack pi.toModel.unpack)).isFinite := rfl
  rw [hprod, unpack_pi]
  have hx' : x.toModel.unpack.isFinite = true := hx
  cases hu : x.toModel.unpack with
  | notANumber => simp [hu, UnpackedFloat.isFinite] at hx'
  | infinity s => simp [hu, UnpackedFloat.isFinite] at hx'
  | zero s =>
    rw [le_iff, le_iff, hu, unpack_limit, unpack_neg_limit]
    exact iff_of_true (isFinite_pack_zero _) ⟨rfl, rfl⟩
  | finite s m e hm =>
    rw [within_limit_iff hu]
    obtain ⟨-, hlt, -, htop, hnormal⟩ := canonical_of_unpack hu
    show (Float.Model.pack (roundWithAccuracy Format.binary64 (s * .positive)
      (m * 0x1921FB54442D18) (e + -51) .exact)).isFinite = true ↔ _
    set prod := m * 0x1921FB54442D18
    have hpos : prod ≠ 0 := by omega
    have hlog : 52 ≤ prod.log2 := (Nat.le_log2 hpos).mpr (by omega)
    have hlog' : prod.log2 < 106 := (Nat.log2_lt hpos).mpr (by omega)
    constructor
    · intro hfinite
      by_contra hout
      refine not_isFinite_pack_round hlog ?_ hfinite
      by_cases he : e = 970
      · have : 105 ≤ prod.log2 := (Nat.le_log2 hpos).mpr (by omega)
        omega
      · have : 104 ≤ prod.log2 := (Nat.le_log2 hpos).mpr (by omega)
        omega
    · intro hin
      refine isFinite_pack_round (.inl hlog) ?_
      rcases hin with he | ⟨he, hle⟩
      · by_cases hedge : prod.log2 = 105
        · rw [hedge]
          omega
        · omega
      · have hlow : prod.log2 < 105 := (Nat.log2_lt hpos).mpr (by omega)
        by_cases hedge : prod.log2 = 104
        · rw [hedge]
          omega
        · omega

end Angle

/-! ### Circuits with finite angles -/

/-- All angles are finite. -/
def Gate.HasFiniteAngles (g : Gate) : Prop := ∀ a ∈ g.parameters, a.isFinite = true

/-- All angles of the gate are finite, if there is one. -/
def Instruction.HasFiniteAngles (inst : Instruction) : Prop :=
  match inst.action with
  | .gate g => g.gate.HasFiniteAngles
  | _ => True

namespace Circuit

/-- All angles of all gates are finite. -/
def HasFiniteAngles (c : Circuit) : Prop :=
  ∀ inst ∈ c.instructions.toList, inst.HasFiniteAngles

theorem exists_gateStatement_iff (g : Gate) (qubits : List Qubit) :
    (∃ text, gateStatement g qubits = .ok text) ↔ g.HasFiniteAngles := by
  unfold gateStatement Gate.HasFiniteAngles
  cases hbad : g.parameters.find? (! ·.isFinite) with
  | none =>
    have hall := List.find?_eq_none.mp hbad
    exact iff_of_true ⟨_, rfl⟩ (by simpa using hall)
  | some a =>
    refine iff_of_false (by simp) fun hall => ?_
    have hfinite := hall a (List.mem_of_find?_eq_some hbad)
    have hnot : a.isFinite = false := by simpa using List.find?_some hbad
    exact Bool.noConfusion (hfinite.symm.trans hnot)

theorem exists_instructionLines_iff {inst : Instruction} :
    (∃ lines, instructionLines inst = .ok lines) ↔ inst.HasFiniteAngles := by
  unfold instructionLines Instruction.HasFiniteAngles
  cases inst.action with
  | gate g =>
    have hgate := exists_gateStatement_iff g.gate inst.qubits
    cases hs : gateStatement g.gate inst.qubits <;> simpa [hs, Except.map] using hgate
  | _ => exact iff_of_true ⟨_, rfl⟩ trivial

theorem exists_bodyLines_iff {l : List Instruction} :
    (∃ body, bodyLines l = .ok body) ↔ ∀ inst ∈ l, inst.HasFiniteAngles := by
  induction l with
  | nil => exact iff_of_true ⟨[], rfl⟩ (by simp)
  | cons inst l ih =>
    rw [List.forall_mem_cons, ← ih, ← exists_instructionLines_iff, bodyLines]
    cases instructionLines inst with
    | error f => simp [bind, Except.bind]
    | ok first => cases bodyLines l <;> simp [bind, Except.bind, pure, Except.pure]

/-- **Programs**: a circuit has one iff it is valid and all its angles are finite. -/
theorem exists_program_iff {c : Circuit} :
    (∃ text, c.program = .ok text) ↔ c.validate = .ok () ∧ c.HasFiniteAngles := by
  unfold program HasFiniteAngles
  rw [← exists_bodyLines_iff]
  cases c.validate with
  | error f => simp [bind, Except.bind, throw, throwThe, MonadExceptOf.throw]
  | ok _ => cases bodyLines c.instructions.toList <;> simp [bind, Except.bind, pure, Except.pure]

end Circuit

/-- A simulator refuses a circuit for an angle that is not finite. -/
def Validation.ReportsAngle (v : Validation) : Prop :=
  ∃ reasons, v = .invalid reasons ∧ ∃ g : Gate, s!"Gate '{g.name}' has a non-finite angle" ∈ reasons

namespace Simulator

theorem nonFiniteReasons_eq_nil_iff {c : Circuit} :
    nonFiniteReasons c = [] ↔ c.HasFiniteAngles := by
  unfold nonFiniteReasons Circuit.HasFiniteAngles Instruction.HasFiniteAngles Gate.HasFiniteAngles
  rw [List.filterMap_eq_nil_iff]
  refine forall₂_congr fun inst _ => ?_
  cases inst.action with
  | gate g => by_cases h : g.gate.parameters.any (! ·.isFinite) <;> simp_all
  | _ => simp

theorem exists_gate_of_mem_nonFiniteReasons {c : Circuit} {reason : String}
    (h : reason ∈ nonFiniteReasons c) :
    ∃ g : Gate, reason = s!"Gate '{g.name}' has a non-finite angle" := by
  obtain ⟨inst, -, hinst⟩ := List.mem_filterMap.mp h
  split at hinst
  · next g _ =>
    split at hinst
    · exact ⟨g.gate, (Option.some.inj hinst).symm⟩
    · cases hinst
  · cases hinst

end Simulator

/-- Other faults of a circuit are put in other words. -/
theorem Violation.text_ne (v : Violation) (g : Gate) :
    v.text ≠ s!"Gate '{g.name}' has a non-finite angle" := by
  intro h
  have hhead := congrArg (fun t => t.toList.head?) h
  cases v <;> simp [Violation.text, ToString.toString] at hhead

/-- Capabilities refuse a circuit for what exceeds them. -/
theorem Capabilities.exists_violation {caps : Capabilities} {c : Circuit} {reasons : List String}
    (h : caps.check c = .invalid reasons) {reason : String} (hr : reason ∈ reasons) :
    ∃ v ∈ caps.violations c, Violation.text v = reason := by
  unfold check at h
  split at h
  · cases h
  · cases h
    exact List.mem_map.mp hr

namespace Simulator

/-- **Reports**: of a valid circuit, simulators report the angles that are not finite. -/
theorem reportsAngle_validate_iff {σ : Type} (s : Simulator σ) {c : Circuit}
    (hc : c.validate = .ok ()) :
    (s.validate c).ReportsAngle ↔ ¬ c.HasFiniteAngles := by
  rw [← nonFiniteReasons_eq_nil_iff]
  unfold validate Validation.ReportsAngle
  rw [hc]
  cases hreasons : nonFiniteReasons c with
  | nil =>
    refine iff_of_false ?_ (by simp)
    rintro ⟨reasons, hcheck, g, hg⟩
    obtain ⟨v, -, hv⟩ := Capabilities.exists_violation hcheck hg
    exact v.text_ne g hv
  | cons reason rest =>
    refine iff_of_true ⟨_, rfl, ?_⟩ (by simp)
    have hmem : reason ∈ nonFiniteReasons c := by rw [hreasons]; exact List.mem_cons_self ..
    obtain ⟨g, rfl⟩ := exists_gate_of_mem_nonFiniteReasons hmem
    exact ⟨g, List.mem_cons_self ..⟩

end Simulator

end OneWay
