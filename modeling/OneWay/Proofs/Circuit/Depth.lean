import OneWay.Circuit.Depth
import OneWay.Proofs.Circuit.Validity

/-!
# Depths of circuits

The fronts of a circuit are looked up and replaced by index, and an index outside the registers
ends the computation. The registers keep their sizes, so there is a depth exactly if all operands
are within them (`Circuit.depth?_isSome_iff`), and every valid circuit has one.
-/

namespace OneWay.Circuit

/-! ### Fronts -/

namespace Fronts

variable {f f' : Fronts}

theorem read?_isSome_iff {i : Nat} : (f.read? i).isSome ↔ i < f.size := by
  unfold read?
  split <;> simp [*]

theorem touch?_isSome_iff (depth : Nat) {i : Nat} : (f.touch? depth i).isSome ↔ i < f.size := by
  unfold touch?
  split <;> simp [*]

theorem size_touch? {depth i : Nat} (h : f.touch? depth i = some f') : f'.size = f.size := by
  unfold touch? at h
  split at h
  · obtain rfl := Option.some.inj h
    rfl
  · cases h

/-- Several places are read if all of them are there. -/
theorem mapM_read?_isSome_iff {l : List Nat} :
    (l.mapM f.read?).isSome ↔ ∀ i ∈ l, i < f.size := by
  induction l with
  | nil => simp
  | cons i l ih =>
    rw [List.mapM_cons, List.forall_mem_cons, ← ih, ← read?_isSome_iff]
    cases f.read? i <;> cases l.mapM f.read? <;> simp

/-- Several places are touched if all of them are there. -/
theorem foldlM_touch?_isSome_iff (depth : Nat) {l : List Nat} :
    (l.foldlM (touch? depth) f).isSome ↔ ∀ i ∈ l, i < f.size := by
  induction l generalizing f with
  | nil => simp
  | cons i l ih =>
    rw [List.foldlM_cons, List.forall_mem_cons, ← touch?_isSome_iff depth]
    cases htouch : f.touch? depth i with
    | none => simp
    | some f₁ =>
      rw [← size_touch? htouch, ← ih]
      simp

theorem size_foldlM_touch? {depth : Nat} {l : List Nat} (h : l.foldlM (touch? depth) f = some f') :
    f'.size = f.size := by
  induction l generalizing f with
  | nil =>
    obtain rfl := Option.some.inj h
    rfl
  | cons i l ih =>
    rw [List.foldlM_cons] at h
    obtain ⟨f₁, htouch, hrest⟩ := Option.bind_eq_some_iff.mp h
    exact (ih hrest).trans (size_touch? htouch)

end Fronts

/-! ### Layers -/

/-- The operands of an instruction are within the registers. -/
def InRange (c : Circuit) (inst : Instruction) : Prop :=
  (∀ q ∈ inst.qubits, q < c.numQubits) ∧ ∀ b ∈ Layers.bitsOf inst, b < c.numBits

namespace Layers

/-- The fronts are those of the registers of a circuit. -/
structure Sized (c : Circuit) (s : Layers) : Prop where
  qubits : s.qubits.size = c.numQubits
  bits : s.bits.size = c.numBits

theorem sized_start (c : Circuit) : (start c).Sized c := ⟨rfl, rfl⟩

variable {c : Circuit} {s s' : Layers} {inst : Instruction}

theorem Sized.before?_isSome_iff (h : s.Sized c) : (s.before? inst).isSome ↔ c.InRange inst := by
  unfold before? InRange
  rw [← h.qubits, ← h.bits, ← Fronts.mapM_read?_isSome_iff, ← Fronts.mapM_read?_isSome_iff]
  cases inst.qubits.mapM s.qubits.read? <;> cases (bitsOf inst).mapM s.bits.read? <;> simp

/-- An instruction finds the fronts of its operands exactly if they are within the registers. -/
theorem Sized.step?_isSome_iff (h : s.Sized c) : (s.step? inst).isSome ↔ c.InRange inst := by
  rw [← h.before?_isSome_iff]
  unfold step?
  cases hbefore : s.before? inst with
  | none => simp
  | some start =>
    -- what was read can be touched
    obtain ⟨hqubits, hbits⟩ : c.InRange inst := by
      rw [← h.before?_isSome_iff, hbefore]
      rfl
    rw [← h.qubits] at hqubits
    rw [← h.bits] at hbits
    obtain ⟨qubits, htouchQubits⟩ := Option.isSome_iff_exists.mp <|
      (Fronts.foldlM_touch?_isSome_iff (if inst.isPassive then start else start + 1)).mpr hqubits
    obtain ⟨bits, htouchBits⟩ := Option.isSome_iff_exists.mp <|
      (Fronts.foldlM_touch?_isSome_iff (if inst.isPassive then start else start + 1)).mpr hbits
    simp [htouchQubits, htouchBits]

/-- **One instruction** keeps the sizes of the registers. -/
theorem Sized.step? (h : s.Sized c) (hstep : s.step? inst = some s') : s'.Sized c := by
  unfold Layers.step? at hstep
  obtain ⟨start, -, hstep⟩ := Option.bind_eq_some_iff.mp hstep
  obtain ⟨qubits, hqubits, hstep⟩ := Option.bind_eq_some_iff.mp hstep
  obtain ⟨bits, hbits, hstep⟩ := Option.bind_eq_some_iff.mp hstep
  obtain rfl := Option.some.inj hstep
  exact ⟨(Fronts.size_foldlM_touch? hqubits).trans h.qubits,
    (Fronts.size_foldlM_touch? hbits).trans h.bits⟩

/-- **Several instructions** find the fronts of their operands exactly if all of these are within
the registers. -/
theorem Sized.foldlM_step?_isSome_iff (h : s.Sized c) {l : List Instruction} :
    (l.foldlM Layers.step? s).isSome ↔ ∀ inst ∈ l, c.InRange inst := by
  induction l generalizing s with
  | nil => simp
  | cons inst l ih =>
    rw [List.foldlM_cons, List.forall_mem_cons, ← h.step?_isSome_iff]
    cases hstep : s.step? inst with
    | none => simp
    | some s₁ =>
      rw [← ih (h.step? hstep)]
      simp

end Layers

/-- There is a depth exactly if all operands are within the registers. -/
theorem depth?_isSome_iff {c : Circuit} :
    c.depth?.isSome ↔ ∀ inst ∈ c.instructions.toList, c.InRange inst := by
  rw [← (Layers.sized_start c).foldlM_step?_isSome_iff]
  unfold depth?
  cases c.instructions.toList.foldlM Layers.step? (Layers.start c) <;> simp

theorem inRange_of_fits {c : Circuit} {inst : Instruction}
    (h : inst.Fits c.numQubits c.numBits) : c.InRange inst :=
  ⟨h.qubits_lt, h.bits_lt⟩

end OneWay.Circuit
