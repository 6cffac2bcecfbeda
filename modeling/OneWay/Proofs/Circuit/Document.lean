import OneWay.Circuit.Document
import OneWay.Proofs.Circuit.Angle
import OneWay.Proofs.Datum
import OneWay.Proofs.Json.ReadBack

/-!
# Circuits in documents

A circuit is read back from the value that it is written as (`Circuit.ofDatum?_toJson`), and that
value is read back from its text if its angles are (`Circuit.isPlain_toJson`).
Documents keep indices and sizes in 32 bits: `Circuit.IsNarrow` says that those of a circuit fit.

Names and labels may be any text. Gates and actions are told apart by their names, alone or with a
payload, so one lemma for each kind says which of the readers answers.
-/

namespace OneWay

variable {r : Decimal.Reader}

/-! ### Indices -/

namespace Datum

theorem nat32?_nat {n : Nat} (h : n < 0x100000000) : (Json.nat n).datum.nat32? = some n :=
  natBelow?_nat h

theorem list?_indices {l : List Nat} (h : ∀ i ∈ l, i < 0x100000000) :
    (Json.ofList .nat l).datum.list? nat32? = some l :=
  list?_ofList fun i hi => nat32?_nat (h i hi)

end Datum

namespace Json

theorem isPlain_nat {n : Nat} (h : n < 0x100000000) : (nat n).IsPlain r := by
  show -2 ^ 63 ≤ (n : Int) ∧ (n : Int) < 2 ^ 64
  omega

theorem isPlain_indices {l : List Nat} (h : ∀ i ∈ l, i < 0x100000000) :
    (ofList nat l).IsPlain r :=
  isPlain_ofList fun i hi => isPlain_nat (h i hi)

/-- The fields that are there are plain if all that can be are. -/
theorem isPlain_ofFields {names : List String} {fields : List (Option (String × Json))}
    (hnamed : List.Forall₂ (fun n f => ∀ e ∈ f, e.1 = n) names fields)
    (hnames : ∀ n ∈ names, n.toList.all isLiteral = true)
    (h : ∀ f ∈ fields, ∀ e ∈ f, e.2.IsPlain r) : (ofFields fields).IsPlain r := by
  refine isPlain_obj (fun e he => ?_) fun e he => ?_
  · exact hnames _ ((Datum.names_ofFields_sublist hnamed).subset (List.mem_map_of_mem he))
  · obtain ⟨f, hf, heq⟩ := List.mem_filterMap.mp he
    exact h f hf e heq

end Json

/-! ### Gates -/

namespace Gate

/-- **Gates** of all kinds are read back. -/
theorem ofDatum?_toJson (g : Gate) : ofDatum? g.toJson.datum = some g := by
  cases g <;> rfl

theorem isPlain_toJson {g : Gate} (h : ∀ x ∈ g.parameters, Json.ReadsBack r x) :
    g.toJson.IsPlain r := by
  cases g with
  | rx a | ry a | rz a | p a => exact ⟨by decide, h a (List.mem_singleton_self a), trivial⟩
  | u a b c =>
    have hall : Json.ReadsBack r a ∧ Json.ReadsBack r b ∧ Json.ReadsBack r c := by
      simpa [parameters] using h
    exact ⟨by decide, ⟨hall.1, hall.2.1, hall.2.2, trivial⟩, trivial⟩
  | _ => trivial

end Gate

namespace Condition

variable {c : Condition}

theorem ofDatum?_toJson (h : ∀ b ∈ c.bits, b < 0x100000000) :
    ofDatum? c.toJson.datum = some c := by
  have hbits := Datum.required_some (Datum.list?_indices h)
  have hparity : Datum.required Datum.bool? (some (Json.bool c.parity).datum) = some c.parity :=
    rfl
  unfold ofDatum? toJson
  simp (disch := simp) only [Datum.record?_of_names, List.map_cons, List.map_nil, hbits, hparity]
  rfl

theorem isPlain_toJson (h : ∀ b ∈ c.bits, b < 0x100000000) : c.toJson.IsPlain r :=
  ⟨by decide, Json.isPlain_indices h, by decide, trivial, trivial⟩

end Condition

namespace GateUse

/-- The bits of the condition are of 32 bits, if there is one. -/
def IsNarrow (g : GateUse) : Prop := ∀ c, g.condition = some c → ∀ b ∈ c.bits, b < 0x100000000

variable {g : GateUse}

theorem named_fields (g : GateUse) :
    List.Forall₂ (fun n f => ∀ e ∈ f, e.1 = n) ["kind", "label", "condition"] [
      some ("kind", g.gate.toJson), g.label.map fun l => ("label", Json.str l),
      g.condition.map fun c => ("condition", c.toJson)] := by
  obtain ⟨gate, label, condition⟩ := g
  cases label <;> cases condition <;> simp

/-- **Labels and conditions** are read back, and so is their absence. -/
theorem ofDatum?_toJson (h : g.IsNarrow) : ofDatum? g.toJson.datum = some g := by
  have hrecord : g.toJson.datum.record? ["kind", "label", "condition"] = some [
      some g.gate.toJson.datum, g.label.map fun l => (Json.str l).datum,
      g.condition.map fun c => c.toJson.datum] := by
    unfold toJson
    rw [Datum.record?_ofFields g.named_fields (by decide)]
    simp [Function.comp_def]
  have hlabel : Datum.optional none (Datum.nullable? Datum.string?)
      (g.label.map fun l => (Json.str l).datum) = some g.label := by
    cases g.label <;> rfl
  have hcondition : Datum.optional none (Datum.nullable? Condition.ofDatum?)
      (g.condition.map fun c => c.toJson.datum) = some g.condition := by
    cases hc : g.condition with
    | none => rfl
    | some c =>
      have hread := Condition.ofDatum?_toJson (h c hc)
      exact congrArg (Option.map some) hread
  unfold ofDatum?
  simp only [hrecord, Datum.required_some g.gate.ofDatum?_toJson, hlabel, hcondition]
  rfl

theorem isPlain_toJson (h : g.IsNarrow) (hangles : ∀ x ∈ g.gate.parameters, Json.ReadsBack r x) :
    g.toJson.IsPlain r := by
  refine Json.isPlain_ofFields g.named_fields (by decide) ?_
  simp only [List.forall_mem_cons]
  refine ⟨?_, ?_, ?_, by simp⟩
  · rintro _ ⟨⟩
    exact Gate.isPlain_toJson hangles
  · intro e he
    obtain ⟨l, -, rfl⟩ := Option.map_eq_some_iff.mp he
    trivial
  · intro e he
    obtain ⟨c, hc, rfl⟩ := Option.map_eq_some_iff.mp he
    exact Condition.isPlain_toJson (h c hc)

end GateUse

/-! ### Instructions -/

namespace Action

variable {a : Action}

/-- **Actions** of all kinds are read back. -/
theorem ofDatum?_toJson (h : ∀ g, a = .gate g → g.IsNarrow) : ofDatum? a.toJson.datum = some a := by
  cases a with
  | gate g =>
    show (GateUse.ofDatum? g.toJson.datum).map Action.gate = _
    rw [GateUse.ofDatum?_toJson (h g rfl), Option.map_some]
  | _ => rfl

theorem isPlain_toJson (h : ∀ g, a = .gate g → g.IsNarrow)
    (hangles : ∀ g, a = .gate g → ∀ x ∈ g.gate.parameters, Json.ReadsBack r x) :
    a.toJson.IsPlain r := by
  cases a with
  | gate g => exact ⟨by decide, GateUse.isPlain_toJson (h g rfl) (hangles g rfl), trivial⟩
  | _ => trivial

end Action

namespace Instruction

/-- All indices are of 32 bits. -/
structure IsNarrow (inst : Instruction) : Prop where
  qubits : ∀ q ∈ inst.qubits, q < 0x100000000
  bits : ∀ b ∈ inst.bits, b < 0x100000000
  conditionBits : ∀ b ∈ inst.conditionBits, b < 0x100000000

variable {inst : Instruction}

theorem IsNarrow.gate (h : inst.IsNarrow) {g : GateUse} (hg : inst.action = .gate g) :
    g.IsNarrow := by
  intro c hc b hb
  have hcondition : inst.condition? = some c := by
    rw [condition?, gateUse?, hg]
    exact hc
  refine h.conditionBits b ?_
  rw [Instruction.conditionBits, hcondition]
  exact hb

/-- The angles of the gate, if the instruction is one. -/
def angles (inst : Instruction) : List Float :=
  match inst.action with
  | .gate g => g.gate.parameters
  | _ => []

theorem hasFiniteAngles_iff : inst.HasFiniteAngles ↔ ∀ x ∈ inst.angles, x.isFinite = true := by
  unfold HasFiniteAngles angles
  cases inst.action <;> simp [Gate.HasFiniteAngles]

instance (inst : Instruction) : Decidable inst.HasFiniteAngles :=
  decidable_of_iff _ hasFiniteAngles_iff.symm

theorem named_fields (inst : Instruction) :
    List.Forall₂ (fun n f => ∀ e ∈ f, e.1 = n) ["kind", "qubits", "clbits"] [
      some ("kind", inst.action.toJson), some ("qubits", Json.ofList .nat inst.qubits),
      if inst.bits.isEmpty then none else some ("clbits", Json.ofList .nat inst.bits)] := by
  cases inst.bits.isEmpty <;> simp

/-- **Instructions** are read back, with their classical bits or without. -/
theorem ofDatum?_toJson (h : inst.IsNarrow) : ofDatum? inst.toJson.datum = some inst := by
  have hrecord : inst.toJson.datum.record? ["kind", "qubits", "clbits"] = some [
      some inst.action.toJson.datum, some (Json.ofList .nat inst.qubits).datum,
      if inst.bits.isEmpty then none else some (Json.ofList .nat inst.bits).datum] := by
    unfold toJson
    rw [Datum.record?_ofFields inst.named_fields (by decide)]
    cases inst.bits.isEmpty <;> rfl
  have hqubits := Datum.required_some (Datum.list?_indices h.qubits)
  have hbits : Datum.optional [] (Datum.list? Datum.nat32?)
      (if inst.bits.isEmpty then none else some (Json.ofList .nat inst.bits).datum)
      = some inst.bits := by
    by_cases hempty : inst.bits.isEmpty = true
    · rw [if_pos hempty, List.isEmpty_iff.mp hempty]
      rfl
    · rw [if_neg hempty]
      exact Datum.optional_some (Datum.list?_indices h.bits)
  unfold ofDatum?
  simp only [hrecord, Datum.required_some (Action.ofDatum?_toJson fun g hg => h.gate hg), hqubits,
    hbits]
  rfl

theorem isPlain_toJson (h : inst.IsNarrow) (hangles : ∀ x ∈ inst.angles, Json.ReadsBack r x) :
    inst.toJson.IsPlain r := by
  have hgate {g : GateUse} (hg : inst.action = .gate g) :
      ∀ x ∈ g.gate.parameters, Json.ReadsBack r x := by
    rwa [angles, hg] at hangles
  refine Json.isPlain_ofFields inst.named_fields (by decide) ?_
  simp only [List.forall_mem_cons]
  refine ⟨?_, ?_, ?_, by simp⟩
  · rintro _ ⟨⟩
    exact Action.isPlain_toJson (fun g hg => h.gate hg) fun g hg => hgate hg
  · rintro _ ⟨⟩
    exact Json.isPlain_indices h.qubits
  · intro e he
    split at he
    · cases he
    · obtain rfl := Option.some.inj he
      exact Json.isPlain_indices h.bits

end Instruction

/-! ### Circuits -/

namespace Circuit

/-- All indices and the sizes of the registers are of 32 bits. -/
structure IsNarrow (c : Circuit) : Prop where
  numQubits : c.numQubits < 0x100000000
  numBits : c.numBits < 0x100000000
  instructions : ∀ inst ∈ c.instructions.toList, inst.IsNarrow

instance (c : Circuit) : Decidable c.HasFiniteAngles :=
  inferInstanceAs (Decidable (∀ inst ∈ c.instructions.toList, inst.HasFiniteAngles))

/-- All angles of a circuit. -/
def angles (c : Circuit) : List Float := c.instructions.toList.flatMap Instruction.angles

variable {c : Circuit}

theorem hasFiniteAngles_iff : c.HasFiniteAngles ↔ ∀ x ∈ c.angles, x.isFinite = true := by
  unfold HasFiniteAngles
  simp only [Instruction.hasFiniteAngles_iff, angles, List.forall_mem_flatMap]

/-- Finite angles are read back by a reader that gives back the finite ones among them. -/
theorem HasFiniteAngles.readsBack (h : c.HasFiniteAngles)
    (hreader : ∀ x ∈ c.angles, x.isFinite = true → Json.ReadsBack r x) :
    ∀ x ∈ c.angles, Json.ReadsBack r x :=
  fun x hx => hreader x hx (hasFiniteAngles_iff.mp h x hx)

/-- **Circuits** are read back from the values they are written as. -/
theorem ofDatum?_toJson (h : c.IsNarrow) : ofDatum? c.toJson.datum = some c := by
  have hname : Datum.required Datum.string? (some (Json.str c.name).datum) = some c.name := rfl
  have hqubits := Datum.required_some (Datum.nat32?_nat h.numQubits)
  have hbits := Datum.required_some (Datum.nat32?_nat h.numBits)
  have hinstructions : Datum.required (Datum.list? Instruction.ofDatum?)
      (some (Json.ofList Instruction.toJson c.instructions.toList).datum)
      = some c.instructions.toList :=
    Datum.list?_ofList fun inst hinst => Instruction.ofDatum?_toJson (h.instructions inst hinst)
  unfold ofDatum? toJson
  simp (disch := simp) only [Datum.record?_of_names, List.map_cons, List.map_nil, hname, hqubits,
    hbits, hinstructions]
  simp

theorem isPlain_toJson (h : c.IsNarrow) (hangles : ∀ x ∈ c.angles, Json.ReadsBack r x) :
    c.toJson.IsPlain r := by
  have hinstructions : (Json.ofList Instruction.toJson c.instructions.toList).IsPlain r :=
    Json.isPlain_ofList fun inst hinst =>
      Instruction.isPlain_toJson (h.instructions inst hinst) fun x hx =>
        hangles x (List.mem_flatMap_of_mem hinst hx)
  exact ⟨by decide, trivial, by decide, Json.isPlain_nat h.numQubits, by decide,
    Json.isPlain_nat h.numBits, by decide, hinstructions, trivial⟩

end Circuit

end OneWay
