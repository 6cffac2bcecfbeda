import OneWay.Proofs.Circuit.Validity

/-!
# Building a circuit in place

`Circuit.append` and the functions made from it give a new circuit or a fault. Here they are calls
on one circuit that is changed in place: a `Builder` looks at the circuit, changes it and ends with
an answer or a fault, and whatever it has changed by then stays changed.

`Circuit.Call.perform_run` says that a call in place does what the function of its name says, and
that a call that ends with a fault has changed nothing. A circuit that was valid before a call is
valid after it (`Circuit.Valid.grow`): the new instruction fits the registers as they are, and the
older ones keep fitting while the registers grow. So a circuit that was built by calls is valid,
however many of them failed (`Circuit.builder_invariant`).
-/

namespace OneWay

/-- A computation that changes a circuit and ends with an answer or a fault. -/
abbrev Builder := EStateM CircuitFault Circuit

namespace Builder

/-- Adds a wire and answers its index. -/
def addQubit : Builder Qubit := modifyGet Circuit.addQubit

/-- Adds a classical bit and answers its index. -/
def addBit : Builder Bit := modifyGet Circuit.addBit

/-- Ends with the fault of an instruction, or else puts it at the end. -/
def append (inst : Instruction) : Builder Unit := do
  match (← get).fault? inst with
  | some f => throw f
  | none => modify fun c => { c with instructions := c.instructions.push inst }

/-- Puts a gate with its label and condition at the end. -/
def appendUse (g : GateUse) (qubits : List Qubit) : Builder Unit := append ⟨.gate g, qubits, []⟩

/-- Puts a plain gate at the end. -/
def appendGate (g : Gate) (qubits : List Qubit) : Builder Unit := appendUse { gate := g } qubits

/-- Measures a wire. -/
def measure (q : Qubit) (b : Bit) : Builder Unit := append ⟨.measure, [q], [b]⟩

/-- Resets a wire. -/
def reset (q : Qubit) : Builder Unit := append ⟨.reset, [q], []⟩

/-- Puts a barrier at the end. -/
def barrier (qubits : List Qubit) : Builder Unit := append ⟨.barrier, qubits, []⟩

/-- Records the amplitudes of all wires that there are by now. -/
def snapshot : Builder Unit := do
  append ⟨.snapshot, List.range (← get).numQubits, []⟩

/-- How a computation ends that is to answer `a` and to put a new circuit in the place of `c`, or
to fail and do nothing. -/
def settle {α : Type} (a : α) (c : Circuit) :
    Except CircuitFault Circuit → EStateM.Result CircuitFault Circuit α
  | .ok c' => .ok a c'
  | .error f => .error f c

/-- **Appending in place** does what appending does, and a refused instruction changes nothing. -/
theorem append_run (inst : Instruction) (c : Circuit) :
    (append inst).run c = settle () c (c.append inst) := by
  show (match c.fault? inst with
    | some f => throw f
    | none => modify fun c => { c with instructions := c.instructions.push inst } :
      Builder Unit).run c = _
  unfold Circuit.append
  cases c.fault? inst <;> rfl

/-- What follows a computation that settles comes after the change and does not come after a
fault. -/
theorem run_return {α : Type} {x : Builder Unit} {c : Circuit} {e : Except CircuitFault Circuit}
    (h : x.run c = settle () c e) (a : α) :
    (do x; return a : Builder α).run c = settle a c e := by
  rw [EStateM.run_bind, h]
  cases e <;> rfl

end Builder

namespace Circuit

/-! ### Calls -/

/-- A call on a circuit that is being built. -/
inductive Call where
  | addQubit
  | addBit
  | append (inst : Instruction)
  | appendUse (g : GateUse) (qubits : List Qubit)
  | appendGate (g : Gate) (qubits : List Qubit)
  | measure (q : Qubit) (b : Bit)
  | reset (q : Qubit)
  | barrier (qubits : List Qubit)
  | snapshot
  deriving DecidableEq, Repr

namespace Call

/-- What a call does. Those that add a wire or a classical bit answer its index, the others nothing
but that they are done. -/
def perform : Call → Builder (Option Nat)
  | .addQubit => do return some (← Builder.addQubit)
  | .addBit => do return some (← Builder.addBit)
  | .append inst => do Builder.append inst; return none
  | .appendUse g qubits => do Builder.appendUse g qubits; return none
  | .appendGate g qubits => do Builder.appendGate g qubits; return none
  | .measure q b => do Builder.measure q b; return none
  | .reset q => do Builder.reset q; return none
  | .barrier qubits => do Builder.barrier qubits; return none
  | .snapshot => do Builder.snapshot; return none

/-- What the function of a call's name gives. -/
def result (c : Circuit) : Call → Except CircuitFault Circuit
  | .addQubit => .ok c.addQubit.2
  | .addBit => .ok c.addBit.2
  | .append inst => c.append inst
  | .appendUse g qubits => c.appendUse g qubits
  | .appendGate g qubits => c.appendGate g qubits
  | .measure q b => c.measure q b
  | .reset q => c.reset q
  | .barrier qubits => c.barrier qubits
  | .snapshot => c.snapshot

/-- The index that a call is to answer. -/
def answer (c : Circuit) : Call → Option Nat
  | .addQubit => some c.addQubit.1
  | .addBit => some c.addBit.1
  | _ => none

/-- **One call** does what the function of its name does, and one that fails changes nothing. -/
theorem perform_run (call : Call) (c : Circuit) :
    call.perform.run c = Builder.settle (call.answer c) c (call.result c) := by
  -- every call but the first two appends an instruction, the last one to all wires of `c`
  have happend : ∀ inst : Instruction,
      (do Builder.append inst; return none : Builder (Option Nat)).run c
        = Builder.settle none c (c.append inst) :=
    fun inst => Builder.run_return (Builder.append_run inst c) none
  cases call with
  | addQubit => rfl
  | addBit => rfl
  | append inst => exact happend inst
  | appendUse g qubits => exact happend ⟨.gate g, qubits, []⟩
  | appendGate g qubits => exact happend ⟨.gate { gate := g }, qubits, []⟩
  | measure q b => exact happend ⟨.measure, [q], [b]⟩
  | reset q => exact happend ⟨.reset, [q], []⟩
  | barrier qubits => exact happend ⟨.barrier, qubits, []⟩
  | snapshot => exact happend ⟨.snapshot, List.range c.numQubits, []⟩

/-- The circuit that a call leaves behind, whether it fails or not. -/
def effect (call : Call) (c : Circuit) : Circuit :=
  match call.perform.run c with
  | .ok _ c' => c'
  | .error _ c' => c'

end Call

/-- The circuit after several calls, each made whether or not earlier ones failed. -/
def afterCalls (c : Circuit) (calls : List Call) : Circuit :=
  calls.foldl (fun c call => call.effect c) c

/-! ### Growing circuits -/

/-- How a call that does not fail changes a circuit. -/
inductive Grows (c : Circuit) : Circuit → Prop where
  | addQubit : Grows c c.addQubit.2
  | addBit : Grows c c.addBit.2
  | push (inst : Instruction) (hfits : inst.Fits c.numQubits c.numBits) :
    Grows c { c with instructions := c.instructions.push inst }

theorem append_eq_ok_iff {c c' : Circuit} {inst : Instruction} :
    c.append inst = .ok c' ↔ inst.Fits c.numQubits c.numBits ∧
      c' = { c with instructions := c.instructions.push inst } := by
  rw [← fault?_eq_none_iff]
  unfold Circuit.append
  cases c.fault? inst <;> simp [eq_comm]

theorem Call.grows_of_result {c c' : Circuit} {call : Call} (h : call.result c = .ok c') :
    c.Grows c' := by
  have happend : ∀ {inst : Instruction}, c.append inst = .ok c' → c.Grows c' := by
    intro inst hinst
    obtain ⟨hfits, rfl⟩ := append_eq_ok_iff.mp hinst
    exact .push inst hfits
  cases call with
  | addQubit =>
    cases h
    exact .addQubit
  | addBit =>
    cases h
    exact .addBit
  | append | appendUse | appendGate | measure | reset | barrier | snapshot => exact happend h

/-- Every instruction fits the registers. -/
def Valid (c : Circuit) : Prop :=
  ∀ inst ∈ c.instructions.toList, inst.Fits c.numQubits c.numBits

theorem valid_ofSize (name : String) (numQubits numBits : Nat) :
    (ofSize name numQubits numBits).Valid :=
  fun _ hinst => absurd hinst List.not_mem_nil

/-- Growing keeps a circuit valid: what fits goes on fitting. -/
theorem Valid.grow {c c' : Circuit} (h : c.Valid) (hgrows : c.Grows c') : c'.Valid := by
  cases hgrows with
  | addQubit => exact fun inst hinst => (h inst hinst).mono (Nat.le_succ _) (Nat.le_refl _)
  | addBit => exact fun inst hinst => (h inst hinst).mono (Nat.le_refl _) (Nat.le_succ _)
  | push new hfits =>
    intro inst hinst
    rw [Array.toList_push, List.mem_append, List.mem_singleton] at hinst
    rcases hinst with hinst | rfl
    · exact h inst hinst
    · exact hfits

theorem Valid.effect {c : Circuit} (h : c.Valid) (call : Call) : (call.effect c).Valid := by
  unfold Call.effect
  rw [call.perform_run]
  cases hresult : call.result c with
  | error f => exact h
  | ok c' => exact h.grow (Call.grows_of_result hresult)

/-- **A run** of calls keeps a circuit valid. -/
theorem Valid.afterCalls {c : Circuit} (h : c.Valid) (calls : List Call) :
    (c.afterCalls calls).Valid := by
  induction calls generalizing c with
  | nil => exact h
  | cons call calls ih => exact ih (h.effect call)

/-- **Builders**: whatever calls are made on an empty circuit, it is valid after them, a next call
that fails leaves it as it is, and a next instruction is taken exactly if it has the operands that
its action needs, these lie within the registers and no wire stands twice among them; then it is
put at the end and nothing else changes. -/
theorem builder_invariant (name : String) (numQubits numBits : Nat) (calls : List Call) :
    let c := (ofSize name numQubits numBits).afterCalls calls
    c.validate = .ok () ∧
    (∀ (call : Call) (f : CircuitFault) (c' : Circuit),
      call.perform.run c = .error f c' → c' = c) ∧
    ∀ inst : Instruction,
      (c.fault? inst = none ↔ inst.Fits c.numQubits c.numBits) ∧
      ∀ c', (Builder.append inst).run c = .ok () c' ↔
        inst.Fits c.numQubits c.numBits ∧
          c' = { c with instructions := c.instructions.push inst } := by
  intro c
  refine ⟨?_, ?_, ?_⟩
  · exact validate_eq_ok_iff.mpr ((valid_ofSize name numQubits numBits).afterCalls calls)
  · intro call f c' hfail
    rw [call.perform_run] at hfail
    cases hresult : call.result c with
    | ok c'' =>
      rw [hresult] at hfail
      cases hfail
    | error g =>
      rw [hresult] at hfail
      cases hfail
      rfl
  · intro inst
    refine ⟨fault?_eq_none_iff, fun c' => ?_⟩
    rw [Builder.append_run, ← append_eq_ok_iff]
    cases c.append inst <;> simp [Builder.settle]

/-- The third of these calls fails, and so does the sixth, until there is a second classical bit.
The circuit stays valid, and a gate with one wire twice leaves it as it is. -/
theorem builder_invariant_pair :
    let c := (ofSize "pair" 1 1).afterCalls [.appendGate .h [0], .addQubit,
      .appendGate .cx [1, 1], .appendGate .cx [0, 1], .measure 0 0, .measure 1 1, .addBit,
      .measure 1 1]
    c.numOps = 4 ∧ c.validate = .ok () ∧
      ∀ f c', (Call.appendGate .cx [1, 1]).perform.run c = .error f c' → c' = c := by
  have hbuilt := builder_invariant "pair" 1 1 [.appendGate .h [0], .addQubit,
    .appendGate .cx [1, 1], .appendGate .cx [0, 1], .measure 0 0, .measure 1 1, .addBit,
    .measure 1 1]
  exact ⟨by decide, hbuilt.1, hbuilt.2.1 _⟩

end Circuit

end OneWay
