import OneWay.Circuit.Basic

/-!
# Which instructions a circuit accepts

`Instruction.Fits` says that an instruction has the operands its action needs, that they lie within
given registers and that no wire stands twice among them. A circuit finds no fault in an
instruction iff it fits its registers (`Circuit.fault?_eq_none_iff`), and validates iff all its
instructions do (`Circuit.validate_eq_ok_iff`). An instruction that fits keeps fitting while the
registers grow (`Instruction.Fits.mono`).
-/

namespace OneWay

namespace Instruction

/-- An instruction has as many operands as its action needs. -/
def HasArity (inst : Instruction) : Prop :=
  match inst.action with
  | .gate g => inst.qubits.length = g.gate.arity
  | .measure => inst.qubits.length = inst.bits.length
  | _ => True

/-- An instruction is well formed for registers of given sizes. -/
structure Fits (inst : Instruction) (numQubits numBits : Nat) : Prop where
  arity : inst.HasArity
  qubits_lt : ∀ q ∈ inst.qubits, q < numQubits
  bits_lt : ∀ b ∈ inst.bits ++ inst.conditionBits, b < numBits
  nodup : inst.qubits.Nodup

theorem Fits.mono {inst : Instruction} {q q' b b' : Nat} (h : inst.Fits q b) (hq : q ≤ q')
    (hb : b ≤ b') : inst.Fits q' b' where
  arity := h.arity
  qubits_lt := fun x hx => Nat.lt_of_lt_of_le (h.qubits_lt x hx) hq
  bits_lt := fun x hx => Nat.lt_of_lt_of_le (h.bits_lt x hx) hb
  nodup := h.nodup

end Instruction

namespace Circuit

/-! ### Faults -/

theorem arityFault?_eq_none_iff {inst : Instruction} :
    arityFault? inst = none ↔ inst.HasArity := by
  unfold arityFault? Instruction.HasArity
  cases inst.action <;> simp

theorem firstRepeated?_eq_none_iff {seen l : List Qubit} :
    firstRepeated? seen l = none ↔ l.Nodup ∧ ∀ q ∈ l, q ∉ seen := by
  induction l generalizing seen with
  | nil => simp [firstRepeated?]
  | cons q l ih =>
    rw [firstRepeated?]
    by_cases hq : q ∈ seen
    · simp [hq]
    · rw [if_neg (by simpa using hq), ih, List.nodup_cons]
      constructor
      · rintro ⟨hl, hseen⟩
        refine ⟨⟨fun h => hseen q h (List.mem_cons_self ..), hl⟩, ?_⟩
        intro x hx
        rcases List.mem_cons.mp hx with rfl | hx
        · exact hq
        · exact fun h => hseen x hx (List.mem_cons_of_mem _ h)
      · rintro ⟨⟨hql, hl⟩, hseen⟩
        refine ⟨hl, fun x hx h => ?_⟩
        rcases List.mem_cons.mp h with rfl | h
        · exact hql hx
        · exact hseen x (List.mem_cons_of_mem _ hx) h

/-- **Acceptance**: a circuit finds no fault in an instruction iff it fits its registers. -/
theorem fault?_eq_none_iff {c : Circuit} {inst : Instruction} :
    c.fault? inst = none ↔ inst.Fits c.numQubits c.numBits := by
  unfold fault?
  simp only [Option.or_eq_none_iff, arityFault?_eq_none_iff, List.findSome?_eq_none_iff,
    ite_eq_left_iff, reduceCtorEq, imp_false, Decidable.not_not, Option.map_eq_none_iff,
    firstRepeated?_eq_none_iff]
  constructor
  · rintro ⟨harity, hqubits, hbits, hnodup, -⟩
    exact ⟨harity, hqubits, hbits, hnodup⟩
  · rintro ⟨harity, hqubits, hbits, hnodup⟩
    exact ⟨harity, hqubits, hbits, hnodup, fun _ _ => List.not_mem_nil⟩

theorem append_of_fits {c : Circuit} {inst : Instruction} (h : inst.Fits c.numQubits c.numBits) :
    c.append inst = .ok { c with instructions := c.instructions.push inst } := by
  unfold append
  rw [fault?_eq_none_iff.mpr h]

/-- **Validity**: every instruction fits the registers. -/
theorem validate_eq_ok_iff {c : Circuit} :
    c.validate = .ok () ↔ ∀ inst ∈ c.instructions.toList, inst.Fits c.numQubits c.numBits := by
  simp only [← fault?_eq_none_iff, ← List.findSome?_eq_none_iff]
  unfold validate
  split
  · next f hf => simp [hf]
  · next hf => simp [hf]

end Circuit

end OneWay
