import Mathlib.Data.List.Basic
import Mathlib.Data.List.Induction
import OneWay.Proofs.Circuit.MidCircuit
import OneWay.Proofs.Circuit.Validity

/-!
# What the check of a circuit reports

`Capabilities.Admits` lists the five constraints that a backend puts on a circuit, and
`Capabilities.Breaks` says of each reason that a circuit can be refused for when it is a true one.
The check of a valid circuit names the true reasons and no others (`Capabilities.mem_violations`),
in a fixed order and none twice (`Capabilities.pairwise_violations`); gates outside the gate set
come in the order of their first use. `Capabilities.check_reasons` puts the two together.

A backend without the feature is meant to refuse circuits that use a measured wire again. It does
not refuse one that only measures it again: `Capabilities.passes_midCircuit_iff` says which
circuits pass.
-/

namespace OneWay

theorem GateSet.contains_iff {g : GateSet} {name : String} :
    g.contains name = true ↔ name ∈ g.singleQubit ∨ name ∈ g.twoQubit := by
  simp [contains]

namespace Circuit

/-- The name of the gate of an instruction. -/
def gateName? (inst : Instruction) : Option String := inst.gateUse?.map (·.gate.name)

/-- The names of the gates, in the order of their use. -/
def gateNames (l : List Instruction) : List String := l.filterMap gateName?

/-- Some gate depends on classical bits. -/
def Conditioned (l : List Instruction) : Prop :=
  ∃ inst ∈ l, ∃ g, inst.action = .gate g ∧ g.condition ≠ none

/-- Some wire is reset, or a gate acts on a wire that an earlier instruction measures. -/
def ActsMidCircuit (l : List Instruction) : Prop :=
  Resets l ∨ UsedAgain (fun inst => inst.isGate = true) l

theorem hasConditions_iff {c : Circuit} :
    c.hasConditions = true ↔ Conditioned c.instructions.toList := by
  unfold hasConditions Conditioned
  rw [List.any_eq_true]
  refine exists_congr fun inst => and_congr_right fun _ => ?_
  unfold Instruction.isConditioned Instruction.condition? Instruction.gateUse?
  cases inst.action with
  | gate g => simp [Option.isSome_iff_ne_none]
  | _ => simp

end Circuit

namespace Capabilities

open Circuit

variable {cap : Capabilities} {c : Circuit} {l : List Instruction} {inst : Instruction}
  {name : String}

theorem supports_iff {feature : String} :
    cap.supports feature = true ↔ feature ∈ cap.features := by
  simp [supports]

/-! ### Gates outside the gate set -/

theorem unsupportedGates_concat_of_some (h : gateName? inst = some name) :
    cap.unsupportedGates (l ++ [inst]) =
      if cap.gateSet.contains name || (cap.unsupportedGates l).contains name then
        cap.unsupportedGates l
      else cap.unsupportedGates l ++ [name] := by
  obtain ⟨g, hg, rfl⟩ := Option.map_eq_some_iff.mp h
  have haction : inst.action = .gate g := by
    unfold Instruction.gateUse? at hg
    split at hg
    · next g' hg' =>
      rw [hg', Option.some.inj hg]
    · cases hg
  unfold unsupportedGates
  rw [List.foldl_append, List.foldl_cons, List.foldl_nil, haction]

theorem unsupportedGates_concat_of_none (h : gateName? inst = none) :
    cap.unsupportedGates (l ++ [inst]) = cap.unsupportedGates l := by
  have haction : ∀ g, inst.action ≠ .gate g := by
    intro g hg
    simp [gateName?, Instruction.gateUse?, hg] at h
  unfold unsupportedGates
  rw [List.foldl_append, List.foldl_cons, List.foldl_nil]
  split
  · next g hg => exact absurd hg (haction g)
  · rfl

theorem gateNames_concat (l : List Instruction) (inst : Instruction) :
    gateNames (l ++ [inst]) = gateNames l ++ (gateName? inst).toList := by
  unfold gateNames
  rw [List.filterMap_append]
  cases hname : gateName? inst <;> simp [hname]

/-- The last instruction adds the name of its gate, if that is outside the gate set. -/
theorem mem_unsupportedGates_concat :
    name ∈ cap.unsupportedGates (l ++ [inst]) ↔ name ∈ cap.unsupportedGates l ∨
      gateName? inst = some name ∧ cap.gateSet.contains name = false := by
  cases hname : gateName? inst with
  | none => simp [unsupportedGates_concat_of_none hname]
  | some last =>
    rw [unsupportedGates_concat_of_some hname, Option.some.injEq]
    split
    · next hskip =>
      simp only [Bool.or_eq_true, List.contains_iff_mem] at hskip
      refine ⟨.inl, ?_⟩
      rintro (hmem | ⟨rfl, hset⟩)
      · exact hmem
      · exact hskip.resolve_left (by simp [hset])
    · next hnew =>
      simp only [Bool.or_eq_true, not_or, Bool.not_eq_true] at hnew
      rw [List.mem_append, List.mem_singleton]
      refine or_congr_right ⟨?_, fun h => h.1.symm⟩
      rintro rfl
      exact ⟨rfl, hnew.1⟩

theorem mem_unsupportedGates :
    name ∈ cap.unsupportedGates l ↔ name ∈ gateNames l ∧ cap.gateSet.contains name = false := by
  induction l using List.reverseRecOn with
  | nil => simp [unsupportedGates, gateNames]
  | append_singleton l inst ih =>
    rw [mem_unsupportedGates_concat, ih, gateNames_concat, List.mem_append, Option.mem_toList,
      or_and_right]

/-- The names come in the order of their first use, so none comes twice. -/
theorem pairwise_unsupportedGates :
    (cap.unsupportedGates l).Pairwise fun a b =>
      (gateNames l).idxOf a < (gateNames l).idxOf b := by
  induction l using List.reverseRecOn with
  | nil => exact .nil
  | append_singleton l inst ih =>
    -- the first use of a name stays where it is
    have hkept : (cap.unsupportedGates l).Pairwise fun a b =>
        (gateNames (l ++ [inst])).idxOf a < (gateNames (l ++ [inst])).idxOf b := by
      refine ih.imp_of_mem fun {a b} ha hb hlt => ?_
      rw [gateNames_concat, List.idxOf_append_of_mem (mem_unsupportedGates.mp ha).1,
        List.idxOf_append_of_mem (mem_unsupportedGates.mp hb).1]
      exact hlt
    cases hname : gateName? inst with
    | none =>
      rw [unsupportedGates_concat_of_none hname]
      exact hkept
    | some last =>
      rw [unsupportedGates_concat_of_some hname]
      split
      · exact hkept
      · next hnew =>
        simp only [Bool.or_eq_true, List.contains_iff_mem, not_or, Bool.not_eq_true] at hnew
        have hunused : last ∉ gateNames l := fun hused =>
          hnew.2 (mem_unsupportedGates.mpr ⟨hused, hnew.1⟩)
        refine List.pairwise_append.mpr ⟨hkept, List.pairwise_singleton _ _, ?_⟩
        intro a ha b hb
        obtain rfl : b = last := by simpa using hb
        have hused := (mem_unsupportedGates.mp ha).1
        have hlt := List.idxOf_lt_length_of_mem hused
        rw [gateNames_concat, hname, List.idxOf_append_of_mem hused,
          List.idxOf_append_of_notMem hunused]
        omega

/-! ### Reasons -/

/-- The constraints that a backend puts on a circuit. -/
structure Admits (cap : Capabilities) (c : Circuit) : Prop where
  qubits : c.numQubits ≤ cap.numQubits
  operations : ∀ limit, cap.maxOps = some limit → c.numOps ≤ limit
  gates : ∀ name ∈ gateNames c.instructions.toList,
    name ∈ cap.gateSet.singleQubit ∨ name ∈ cap.gateSet.twoQubit
  conditions : dynamicCircuits ∈ cap.features ∨ ¬ Conditioned c.instructions.toList
  midCircuit : midCircuitMeasurement ∈ cap.features ∨ ¬ ActsMidCircuit c.instructions.toList

/-- The reasons to refuse a circuit, each for the constraint that the circuit breaks. -/
inductive Breaks (cap : Capabilities) (c : Circuit) : Violation → Prop where
  | qubits (hmore : cap.numQubits < c.numQubits) :
    Breaks cap c (.qubits c.numQubits cap.numQubits)
  | operations (limit : Nat) (hlimit : cap.maxOps = some limit) (hmore : limit < c.numOps) :
    Breaks cap c (.operations c.numOps limit)
  | gate (name : String) (hused : name ∈ gateNames c.instructions.toList)
    (hsingle : name ∉ cap.gateSet.singleQubit) (htwo : name ∉ cap.gateSet.twoQubit) :
    Breaks cap c (.gate name)
  | conditions (hcond : Conditioned c.instructions.toList)
    (hfeature : dynamicCircuits ∉ cap.features) : Breaks cap c .conditions
  | midCircuit (hacts : ActsMidCircuit c.instructions.toList)
    (hfeature : midCircuitMeasurement ∉ cap.features) : Breaks cap c .midCircuit

/-- A circuit is admitted iff there is no reason to refuse it. -/
theorem admits_iff_forall_not_breaks : cap.Admits c ↔ ∀ v, ¬ cap.Breaks c v := by
  constructor
  · intro h v hv
    cases hv with
    | qubits hmore => exact absurd h.qubits (Nat.not_le_of_lt hmore)
    | operations limit hlimit hmore =>
      exact absurd (h.operations limit hlimit) (Nat.not_le_of_lt hmore)
    | gate name hused hsingle htwo => exact (h.gates name hused).elim hsingle htwo
    | conditions hcond hfeature => exact h.conditions.elim hfeature fun hnot => hnot hcond
    | midCircuit hacts hfeature => exact h.midCircuit.elim hfeature fun hnot => hnot hacts
  · intro h
    refine ⟨?_, ?_, ?_, ?_, ?_⟩
    · by_contra hnot
      exact h _ (.qubits (Nat.lt_of_not_le hnot))
    · intro limit hlimit
      by_contra hnot
      exact h _ (.operations limit hlimit (Nat.lt_of_not_le hnot))
    · intro name hused
      by_contra hnot
      rw [not_or] at hnot
      exact h _ (.gate name hused hnot.1 hnot.2)
    · by_contra hnot
      rw [not_or, not_not] at hnot
      exact h _ (.conditions hnot.2 hnot.1)
    · by_contra hnot
      rw [not_or, not_not] at hnot
      exact h _ (.midCircuit hnot.2 hnot.1)

theorem mem_ite_singleton {α : Type} {p : Prop} [Decidable p] {a b : α} :
    a ∈ (if p then [b] else []) ↔ p ∧ a = b := by
  split <;> simp [*]

theorem actsMidCircuit_iff_of_valid (hc : c.validate = .ok ()) :
    actsMidCircuit c.numQubits [] c.instructions.toList = true ↔
      ActsMidCircuit c.instructions.toList :=
  actsMidCircuit_nil_iff fun inst hinst => (validate_eq_ok_iff.mp hc inst hinst).qubits_lt

/-- **The reasons** for which a valid circuit is refused are the true ones. -/
theorem mem_violations (hc : c.validate = .ok ()) {v : Violation} :
    v ∈ cap.violations c ↔ cap.Breaks c v := by
  unfold violations
  simp only [List.mem_append, mem_ite_singleton, List.mem_map, mem_unsupportedGates,
    Bool.and_eq_true, Bool.not_eq_true', hasConditions_iff, actsMidCircuit_iff_of_valid hc,
    ← Bool.not_eq_true, supports_iff, GateSet.contains_iff, not_or]
  constructor
  · rintro ((((⟨hmore, rfl⟩ | hops) | ⟨name, ⟨hused, hsingle, htwo⟩, rfl⟩) |
      ⟨⟨hcond, hfeature⟩, rfl⟩) | ⟨⟨hacts, hfeature⟩, rfl⟩)
    · exact .qubits hmore
    · split at hops
      · next limit hlimit =>
        obtain ⟨hmore, rfl⟩ := mem_ite_singleton.mp hops
        exact .operations limit hlimit hmore
      · cases hops
    · exact .gate name hused hsingle htwo
    · exact .conditions hcond hfeature
    · exact .midCircuit hacts hfeature
  · intro hv
    cases hv with
    | qubits hmore => exact .inl (.inl (.inl (.inl ⟨hmore, rfl⟩)))
    | operations limit hlimit hmore =>
      refine .inl (.inl (.inl (.inr ?_)))
      rw [hlimit]
      exact mem_ite_singleton.mpr ⟨hmore, rfl⟩
    | gate name hused hsingle htwo =>
      exact .inl (.inl (.inr ⟨name, ⟨hused, hsingle, htwo⟩, rfl⟩))
    | conditions hcond hfeature => exact .inl (.inr ⟨⟨hcond, hfeature⟩, rfl⟩)
    | midCircuit hacts hfeature => exact .inr ⟨⟨hacts, hfeature⟩, rfl⟩

/-! ### Their order -/

/-- The place of a reason in a report: reasons go by the constraint, and gates outside the gate set
by their first use. -/
def place (c : Circuit) : Violation → Nat × Nat
  | .qubits _ _ => (0, 0)
  | .operations _ _ => (1, 0)
  | .gate name => (2, (gateNames c.instructions.toList).idxOf name)
  | .conditions => (3, 0)
  | .midCircuit => (4, 0)

/-- The first reason has its place before the second one. -/
def PlacedBefore (c : Circuit) (v w : Violation) : Prop :=
  (place c v).1 < (place c w).1 ∨
    (place c v).1 = (place c w).1 ∧ (place c v).2 < (place c w).2

/-- Reasons in order, all for constraints before the one with the number `k`. -/
structure Placed (c : Circuit) (k : Nat) (vs : List Violation) : Prop where
  pairwise : vs.Pairwise (PlacedBefore c)
  below : ∀ v ∈ vs, (place c v).1 < k

/-- Reasons for the next constraint may follow. -/
theorem Placed.append {k : Nat} {vs ws : List Violation} (h : Placed c k vs)
    (hpairwise : ws.Pairwise (PlacedBefore c)) (hplace : ∀ w ∈ ws, (place c w).1 = k) :
    Placed c (k + 1) (vs ++ ws) where
  pairwise := by
    refine List.pairwise_append.mpr ⟨h.pairwise, hpairwise, ?_⟩
    intro v hv w hw
    apply Or.inl
    rw [hplace w hw]
    exact h.below v hv
  below := by
    intro v hv
    rcases List.mem_append.mp hv with hv | hv
    · exact Nat.lt_succ_of_lt (h.below v hv)
    · rw [hplace v hv]
      exact Nat.lt_succ_self k

/-- A constraint other than that on gates gives at most one reason. -/
theorem Placed.append_ite {p : Prop} [Decidable p] {k : Nat} {vs : List Violation}
    {w : Violation} (h : Placed c k vs) (hw : (place c w).1 = k) :
    Placed c (k + 1) (vs ++ if p then [w] else []) := by
  refine h.append ?_ ?_
  · split
    · exact List.pairwise_singleton _ _
    · exact .nil
  · intro v hv
    rw [(mem_ite_singleton.mp hv).2, hw]

/-- **Reasons are given in order**, and none twice. -/
theorem pairwise_violations : (cap.violations c).Pairwise (PlacedBefore c) := by
  have hnone : Placed c 0 [] := ⟨.nil, fun v hv => absurd hv List.not_mem_nil⟩
  have hqubits : Placed c 1
      ([] ++ if cap.numQubits < c.numQubits then [.qubits c.numQubits cap.numQubits] else []) :=
    hnone.append_ite rfl
  rw [List.nil_append] at hqubits
  have hall : Placed c 5 (cap.violations c) := by
    unfold violations
    refine (((hqubits.append ?_ ?_).append ?_ ?_).append_ite rfl).append_ite rfl
    · split
      · split
        · exact List.pairwise_singleton _ _
        · exact .nil
      · exact .nil
    · intro v hv
      split at hv
      · rw [(mem_ite_singleton.mp hv).2]
        rfl
      · cases hv
    · rw [List.pairwise_map]
      exact pairwise_unsupportedGates.imp fun hlt => .inr ⟨rfl, hlt⟩
    · intro v hv
      obtain ⟨name, -, rfl⟩ := List.mem_map.mp hv
      rfl
  exact hall.pairwise

/-! ### The report -/

theorem check_eq_valid_iff_violations : cap.check c = .valid ↔ cap.violations c = [] := by
  unfold check
  split
  · next hnil => simp [hnil]
  · next hne => exact iff_of_false (by simp) hne

theorem check_eq_valid_iff (hc : c.validate = .ok ()) :
    cap.check c = .valid ↔ cap.Admits c := by
  rw [check_eq_valid_iff_violations, List.eq_nil_iff_forall_not_mem, admits_iff_forall_not_breaks]
  simp only [mem_violations hc]

theorem check_eq_invalid_iff {reasons : List String} :
    cap.check c = .invalid reasons ↔
      cap.check c ≠ .valid ∧ reasons = (cap.violations c).map Violation.text := by
  unfold check
  split
  · simp
  · simp [eq_comm]

/-- **Reports**: a valid circuit passes iff it keeps the five constraints. Otherwise the reasons
that are given are the true ones, in the order of the constraints and, for gates outside the gate
set, of their first use, and none is given twice. -/
theorem check_reasons (hc : c.validate = .ok ()) :
    (cap.check c = .valid ↔ cap.Admits c) ∧
    ∃ vs : List Violation, (∀ v, v ∈ vs ↔ cap.Breaks c v) ∧ vs.Pairwise (PlacedBefore c) ∧
      ∀ reasons, cap.check c = .invalid reasons ↔
        ¬ cap.Admits c ∧ reasons = vs.map Violation.text := by
  refine ⟨check_eq_valid_iff hc, cap.violations c, fun v => mem_violations hc,
    pairwise_violations, fun reasons => ?_⟩
  rw [check_eq_invalid_iff, Ne, check_eq_valid_iff hc]

/-- A circuit that breaks all five constraints. The gate `y` is used twice and named once, before
`p`. -/
theorem check_reasons_crowded :
    let cap : Capabilities :=
      { simulator 1 with gateSet := .czNative, maxOps := some 3, features := [] }
    let c : Circuit := ⟨"crowded", 2, 1, #[⟨.gate { gate := .y }, [0], []⟩,
      ⟨.gate { gate := .p 0.5 }, [1], []⟩, ⟨.gate { gate := .y }, [1], []⟩, ⟨.measure, [0], [0]⟩,
      ⟨.gate { gate := .x, condition := some ⟨[0], true⟩ }, [0], []⟩]⟩
    c.validate = .ok () ∧ ¬ cap.Admits c ∧
    ∃ vs : List Violation, (∀ v, v ∈ vs ↔ cap.Breaks c v) ∧ vs.Pairwise (PlacedBefore c) ∧
      vs.map Violation.text = ["circuit uses 2 qubits, backend has 1",
        "circuit has 5 operations, backend allows 3", "gate 'y' is not in the backend gate set",
        "gate 'p' is not in the backend gate set",
        "classically conditioned gates require dynamic circuits",
        "mid-circuit measurement or reset is not supported"] := by
  intro cap c
  have hc : c.validate = .ok () := by decide +kernel
  have hcheck : cap.check c = .invalid ["circuit uses 2 qubits, backend has 1",
      "circuit has 5 operations, backend allows 3", "gate 'y' is not in the backend gate set",
      "gate 'p' is not in the backend gate set",
      "classically conditioned gates require dynamic circuits",
      "mid-circuit measurement or reset is not supported"] := by decide +kernel
  obtain ⟨-, vs, hbreaks, hpairwise, hreasons⟩ := @check_reasons cap c hc
  obtain ⟨hrefused, htexts⟩ := (hreasons _).mp hcheck
  exact ⟨hc, hrefused, vs, hbreaks, hpairwise, htexts.symm⟩

/-! ### Measured wires that are used again -/

/-- A wire is measured that an earlier instruction measures. -/
def MeasuresAgain (l : List Instruction) : Prop :=
  UsedAgain (fun inst => inst.action = .measure) l

/-- Where nothing else acts in mid-circuit, a measured wire is used again by a measurement. -/
theorem hasMidCircuitMeasurement_iff_measuresAgain
    (h : ¬ ActsMidCircuit c.instructions.toList) :
    c.hasMidCircuitMeasurement = true ↔ MeasuresAgain c.instructions.toList := by
  rw [hasMidCircuitMeasurement_iff]
  constructor
  · rintro ⟨j, inst, q, hget, hpassive, hq, hbefore⟩
    cases haction : inst.action with
    | gate g =>
      have hgate : inst.isGate = true := by
        simp [Instruction.isGate, Instruction.gateUse?, haction]
      exact absurd (.inr ⟨j, inst, q, hget, hgate, hq, hbefore⟩) h
    | measure => exact ⟨j, inst, q, hget, haction, hq, hbefore⟩
    | reset => exact absurd (.inl ⟨inst, List.mem_of_getElem? hget, haction⟩) h
    | barrier => simp [Instruction.isPassive, haction] at hpassive
    | snapshot => simp [Instruction.isPassive, haction] at hpassive
  · rintro ⟨j, inst, q, hget, haction, hq, hbefore⟩
    exact ⟨j, inst, q, hget, by simp [Instruction.isPassive, haction], hq, hbefore⟩

/-- The feature makes a difference only to circuits that act in mid-circuit. -/
theorem admits_iff_withFeature (hcap : midCircuitMeasurement ∉ cap.features) :
    cap.Admits c ↔ (cap.withFeature midCircuitMeasurement).Admits c ∧
      ¬ ActsMidCircuit c.instructions.toList := by
  have hwith : cap.withFeature midCircuitMeasurement
      = { cap with features := cap.features ++ [midCircuitMeasurement] } := by
    rw [withFeature, if_neg]
    rwa [supports_iff]
  have hdynamic : dynamicCircuits ∈ cap.features ++ [midCircuitMeasurement] ↔
      dynamicCircuits ∈ cap.features := by
    simp [dynamicCircuits, midCircuitMeasurement]
  rw [hwith]
  constructor
  · rintro ⟨hqubits, hops, hgates, hconds, hmid⟩
    exact ⟨⟨hqubits, hops, hgates, hconds.imp_left hdynamic.mpr, .inl (by simp)⟩,
      hmid.resolve_left hcap⟩
  · rintro ⟨⟨hqubits, hops, hgates, hconds, -⟩, hacts⟩
    exact ⟨hqubits, hops, hgates, hconds.imp_left hdynamic.mp, .inr hacts⟩

/-- **Measured wires that are used again**: a circuit in which an operation uses a measured wire
again passes the check of a backend without the feature iff a wire is measured again, no gate acts
on a measured wire, nothing is reset, and the circuit passes with the feature. The backend gives the
reason about mid-circuit operations iff a gate acts on a measured wire or something is reset. -/
theorem passes_midCircuit_iff (hc : c.validate = .ok ())
    (hcap : midCircuitMeasurement ∉ cap.features) :
    let l := c.instructions.toList
    (c.hasMidCircuitMeasurement = true ↔ UsedAgain (fun inst => inst.isPassive = false) l) ∧
    (c.hasMidCircuitMeasurement = true ∧ cap.check c = .valid ↔
      MeasuresAgain l ∧ ¬ ActsMidCircuit l ∧
        (cap.withFeature midCircuitMeasurement).check c = .valid) ∧
    ((∃ reasons, cap.check c = .invalid reasons ∧ Violation.midCircuit.text ∈ reasons) ↔
      ActsMidCircuit l) := by
  intro l
  refine ⟨hasMidCircuitMeasurement_iff, ?_, ?_⟩
  · rw [check_eq_valid_iff hc, check_eq_valid_iff hc, admits_iff_withFeature hcap]
    constructor
    · rintro ⟨hmid, hadmits, hacts⟩
      exact ⟨(hasMidCircuitMeasurement_iff_measuresAgain hacts).mp hmid, hacts, hadmits⟩
    · rintro ⟨hagain, hacts, hadmits⟩
      exact ⟨(hasMidCircuitMeasurement_iff_measuresAgain hacts).mpr hagain, hadmits, hacts⟩
  · have hsupports : cap.supports midCircuitMeasurement = false := by
      rwa [← Bool.not_eq_true, supports_iff]
    rw [reports_midCircuit_iff hsupports, actsMidCircuit_iff_of_valid hc]

/-- One wire is measured twice, so a measured wire is used again, and the circuit passes. -/
theorem passes_midCircuit_twice :
    let cap := (simulator 1).withoutFeature midCircuitMeasurement
    let c : Circuit := ⟨"twice", 1, 2, #[⟨.measure, [0], [0]⟩, ⟨.measure, [0], [1]⟩]⟩
    c.validate = .ok () ∧ midCircuitMeasurement ∉ cap.features ∧
      c.hasMidCircuitMeasurement = true ∧ cap.check c = .valid ∧
      MeasuresAgain c.instructions.toList ∧ ¬ ActsMidCircuit c.instructions.toList := by
  intro cap c
  have hc : c.validate = .ok () := by decide
  have hcap : midCircuitMeasurement ∉ cap.features := by decide
  have hmid : c.hasMidCircuitMeasurement = true := by decide
  have hcheck : cap.check c = .valid := by decide
  obtain ⟨-, hpasses, -⟩ := passes_midCircuit_iff hc hcap
  obtain ⟨hagain, hacts, -⟩ := hpasses.mp ⟨hmid, hcheck⟩
  exact ⟨hc, hcap, hmid, hcheck, hagain, hacts⟩

end Capabilities

end OneWay
