import OneWay.Circuit.Basic

/-!
# Circuit depth

Every wire and every classical bit has a *front*, the depth of the last instruction that touched
it. An instruction starts at the largest front of its operands, the classical bits of its
condition included, takes one layer unless it is a barrier or a snapshot, and becomes the new
front of its operands.
-/

namespace OneWay.Circuit

/-- The fronts of a register of `size` places. Those that were never touched are at depth 0. -/
structure Fronts where
  size : Nat
  touched : SortedMap Nat Nat

namespace Fronts

/-- The fronts of a register of which nothing was touched yet. -/
def untouched (size : Nat) : Fronts := ⟨size, ∅⟩

/-- The front at a place of the register. -/
def read? (f : Fronts) (i : Nat) : Option Nat :=
  if i < f.size then some (f.touched.getD i 0) else none

/-- The fronts after an instruction of some depth has touched a place of the register. -/
def touch? (depth : Nat) (f : Fronts) (i : Nat) : Option Fronts :=
  if i < f.size then some { f with touched := f.touched.insert i depth } else none

end Fronts

/-- The layers of the instructions so far. -/
structure Layers where
  qubits : Fronts
  bits : Fronts
  /-- The largest depth so far. -/
  deepest : Nat

namespace Layers

/-- No instruction yet. -/
def start (c : Circuit) : Layers := ⟨.untouched c.numQubits, .untouched c.numBits, 0⟩

/-- The classical bits that an instruction writes or reads. -/
def bitsOf (inst : Instruction) : List Bit := inst.bits ++ inst.conditionBits

/-- Where an instruction starts, if its operands are within the registers. -/
def before? (s : Layers) (inst : Instruction) : Option Nat := do
  let qubits ← inst.qubits.mapM s.qubits.read?
  let bits ← (bitsOf inst).mapM s.bits.read?
  return (qubits ++ bits).foldl max 0

/-- The layers after an instruction, if its operands are within the registers. -/
def step? (s : Layers) (inst : Instruction) : Option Layers := do
  let start ← s.before? inst
  let depth := if inst.isPassive then start else start + 1
  let qubits ← inst.qubits.foldlM (Fronts.touch? depth) s.qubits
  let bits ← (bitsOf inst).foldlM (Fronts.touch? depth) s.bits
  return ⟨qubits, bits, max s.deepest depth⟩

end Layers

/-- The number of layers, if every operand is within the registers. -/
def depth? (c : Circuit) : Option Nat := do
  let layers ← c.instructions.toList.foldlM Layers.step? (.start c)
  return layers.deepest

end OneWay.Circuit
