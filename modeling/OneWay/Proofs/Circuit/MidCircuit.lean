import OneWay.Backend.Capability

/-!
# Two ways to look for operations after a measurement

`Circuit.reusesMeasured` looks for any operation on a measured wire, `Capabilities.actsMidCircuit`
for a reset anywhere or a gate on a measured wire. Where nothing is reset, what the second finds
the first finds as well (`reusesMeasured_of_actsMidCircuit`).

`Circuit.UsedAgain` says by positions that an instruction of some kind uses a wire which an earlier
instruction measures. Both searches are instances of it, for different kinds of instructions
(`Circuit.hasMidCircuitMeasurement_iff`, `Capabilities.actsMidCircuit_nil_iff`).

`Capabilities.reports_midCircuit_iff` says that a backend without the feature names the second
among its reasons, in words that no other reason has.
-/

namespace OneWay

/-- One of the instructions is a reset. -/
def Circuit.Resets (l : List Instruction) : Prop := ∃ inst ∈ l, inst.action = .reset

namespace Circuit

theorem resets_append {l₁ l₂ : List Instruction} :
    Resets (l₁ ++ l₂) ↔ Resets l₁ ∨ Resets l₂ := by
  simp [Resets, or_and_right, exists_or]

theorem resets_cons {inst : Instruction} {l : List Instruction} :
    Resets (inst :: l) ↔ inst.action = .reset ∨ Resets l := by
  simp [Resets]

/-! ### Uses of measured wires, by position -/

/-- An instruction in front of the position measures the wire. -/
def MeasuredBefore (l : List Instruction) (j : Nat) (q : Qubit) : Prop :=
  ∃ i < j, ∃ inst, l[i]? = some inst ∧ inst.action = .measure ∧ q ∈ inst.qubits

/-- An instruction of some kind uses a wire that an earlier instruction measures. -/
def UsedAgain (kind : Instruction → Prop) (l : List Instruction) : Prop :=
  ∃ j inst q, l[j]? = some inst ∧ kind inst ∧ q ∈ inst.qubits ∧ MeasuredBefore l j q

/-- An instruction of some kind uses a wire that is in `measured` or that an earlier instruction
measures. -/
def UsesMeasured (kind : Instruction → Prop) (measured : List Qubit) (l : List Instruction) :
    Prop :=
  ∃ j inst q, l[j]? = some inst ∧ kind inst ∧ q ∈ inst.qubits ∧
    (q ∈ measured ∨ MeasuredBefore l j q)

theorem usesMeasured_nil {kind : Instruction → Prop} {l : List Instruction} :
    UsesMeasured kind [] l ↔ UsedAgain kind l := by
  simp [UsesMeasured, UsedAgain]

theorem measuredBefore_succ {inst : Instruction} {l : List Instruction} {j : Nat} {q : Qubit} :
    MeasuredBefore (inst :: l) (j + 1) q ↔
      (inst.action = .measure ∧ q ∈ inst.qubits) ∨ MeasuredBefore l j q := by
  constructor
  · rintro ⟨i, hi, m, hget, hm, hq⟩
    cases i with
    | zero =>
      obtain rfl : inst = m := by simpa using hget
      exact .inl ⟨hm, hq⟩
    | succ i => exact .inr ⟨i, by omega, m, by simpa using hget, hm, hq⟩
  · rintro (⟨hm, hq⟩ | ⟨i, hi, m, hget, hm, hq⟩)
    · exact ⟨0, Nat.succ_pos j, inst, rfl, hm, hq⟩
    · exact ⟨i + 1, by omega, m, by simpa using hget, hm, hq⟩

/-- The wires that an instruction measures. -/
def measuredBy (inst : Instruction) : List Qubit :=
  if inst.action = .measure then inst.qubits else []

theorem mem_measuredBy {inst : Instruction} {q : Qubit} :
    q ∈ measuredBy inst ↔ inst.action = .measure ∧ q ∈ inst.qubits := by
  unfold measuredBy
  split <;> simp [*]

/-- **One instruction**: it uses a measured wire itself, or a later one does when the wires that it
measures are counted in. -/
theorem usesMeasured_cons {kind : Instruction → Prop} {measured : List Qubit}
    {inst : Instruction} {l : List Instruction} :
    UsesMeasured kind measured (inst :: l) ↔
      (kind inst ∧ ∃ q ∈ inst.qubits, q ∈ measured) ∨
        UsesMeasured kind (measuredBy inst ++ measured) l := by
  constructor
  · rintro ⟨j, later, q, hget, hkind, hq, hmeasured⟩
    cases j with
    | zero =>
      obtain rfl : inst = later := by simpa using hget
      rcases hmeasured with hmeasured | ⟨i, hi, -⟩
      · exact .inl ⟨hkind, q, hq, hmeasured⟩
      · omega
    | succ j =>
      refine .inr ⟨j, later, q, by simpa using hget, hkind, hq, ?_⟩
      rw [measuredBefore_succ, ← mem_measuredBy] at hmeasured
      rw [List.mem_append, or_assoc]
      exact or_left_comm.mp hmeasured
  · rintro (⟨hkind, q, hq, hmeasured⟩ | ⟨j, later, q, hget, hkind, hq, hmeasured⟩)
    · exact ⟨0, inst, q, rfl, hkind, hq, .inl hmeasured⟩
    · refine ⟨j + 1, later, q, by simpa using hget, hkind, hq, ?_⟩
      rw [measuredBefore_succ, ← mem_measuredBy]
      rw [List.mem_append, or_assoc] at hmeasured
      exact or_left_comm.mp hmeasured

theorem measuredBy_of_isPassive {inst : Instruction} (h : inst.isPassive = true) :
    measuredBy inst = [] := by
  unfold measuredBy
  rw [if_neg]
  intro hmeasure
  simp [Instruction.isPassive, hmeasure] at h

theorem reusesMeasured_iff {measured : List Qubit} {l : List Instruction} :
    reusesMeasured measured l = true ↔
      UsesMeasured (fun inst => inst.isPassive = false) measured l := by
  induction l generalizing measured with
  | nil => simp [reusesMeasured, UsesMeasured]
  | cons inst l ih =>
    rw [reusesMeasured, usesMeasured_cons]
    by_cases hpassive : inst.isPassive = true
    · rw [if_pos hpassive, ih, measuredBy_of_isPassive hpassive, List.nil_append]
      simp [hpassive]
    · have hmeasured : (if inst.action = .measure then inst.qubits ++ measured else measured)
          = measuredBy inst ++ measured := by
        unfold measuredBy
        split <;> rfl
      rw [if_neg hpassive, Bool.or_eq_true, hmeasured, ih]
      simp [hpassive]

theorem hasMidCircuitMeasurement_iff {c : Circuit} :
    c.hasMidCircuitMeasurement = true ↔
      UsedAgain (fun inst => inst.isPassive = false) c.instructions.toList := by
  rw [hasMidCircuitMeasurement, reusesMeasured_iff, usesMeasured_nil]

end Circuit

namespace Capabilities

open Circuit

theorem actsMidCircuit_iff {n : Nat} {measured : List Qubit} {l : List Instruction}
    (hl : ∀ inst ∈ l, ∀ q ∈ inst.qubits, q < n) :
    actsMidCircuit n measured l = true ↔
      Resets l ∨ UsesMeasured (fun inst => inst.isGate = true) measured l := by
  induction l generalizing measured with
  | nil => simp [actsMidCircuit, Resets, UsesMeasured]
  | cons inst l ih =>
    rw [List.forall_mem_cons] at hl
    rw [actsMidCircuit, resets_cons, usesMeasured_cons]
    cases haction : inst.action with
    | gate g =>
      simp only [haction, Bool.or_eq_true, ih hl.2, List.any_eq_true, List.contains_iff_mem,
        Instruction.isGate, Instruction.gateUse?, measuredBy, reduceCtorEq, if_false,
        Option.isSome_some, true_and, false_or, List.nil_append]
      exact or_left_comm
    | measure =>
      -- no wire that is measured lies outside the register
      have hfilter : inst.qubits.filter (fun q => decide (q < n)) = inst.qubits := by
        rw [List.filter_eq_self]
        exact fun q hq => decide_eq_true (hl.1 q hq)
      simp [haction, ih hl.2, Instruction.isGate, Instruction.gateUse?, measuredBy, hfilter]
    | reset => simp
    | barrier => simp [haction, ih hl.2, Instruction.isGate, Instruction.gateUse?, measuredBy]
    | snapshot => simp [haction, ih hl.2, Instruction.isGate, Instruction.gateUse?, measuredBy]

theorem actsMidCircuit_nil_iff {n : Nat} {l : List Instruction}
    (hl : ∀ inst ∈ l, ∀ q ∈ inst.qubits, q < n) :
    actsMidCircuit n [] l = true ↔
      Resets l ∨ UsedAgain (fun inst => inst.isGate = true) l := by
  rw [actsMidCircuit_iff hl, usesMeasured_nil]

theorem actsMidCircuit_of_resets {n : Nat} {measured : List Qubit} {l : List Instruction}
    (h : Resets l) : actsMidCircuit n measured l = true := by
  induction l generalizing measured with
  | nil =>
    obtain ⟨inst, hinst, -⟩ := h
    exact absurd hinst List.not_mem_nil
  | cons inst l ih =>
    rw [actsMidCircuit]
    rcases resets_cons.mp h with hreset | h
    · rw [hreset]
    · split
      · rw [ih h, Bool.or_true]
      · exact ih h
      · rfl
      · exact ih h

/-- Where nothing is reset, a gate on a measured wire is an operation on a measured wire. -/
theorem reusesMeasured_of_actsMidCircuit {n : Nat} {l : List Instruction} (hreset : ¬ Resets l)
    {measured seen : List Qubit} (hseen : seen ⊆ measured)
    (h : actsMidCircuit n seen l = true) : reusesMeasured measured l = true := by
  induction l generalizing measured seen with
  | nil => cases h
  | cons inst l ih =>
    rw [resets_cons, not_or] at hreset
    rw [actsMidCircuit] at h
    rw [reusesMeasured]
    split at h
    · next g hg =>
      have hpassive : ¬ inst.isPassive = true := by simp [Instruction.isPassive, hg]
      rw [if_neg hpassive, hg, if_neg nofun, Bool.or_eq_true]
      rcases Bool.or_eq_true_iff.mp h with hany | h
      · obtain ⟨q, hq, hmem⟩ := List.any_eq_true.mp hany
        refine .inl (List.any_eq_true.mpr ⟨q, hq, ?_⟩)
        exact List.contains_iff_mem.mpr (hseen (List.contains_iff_mem.mp hmem))
      · exact .inr (ih hreset.2 hseen h)
    · next hg =>
      have hpassive : ¬ inst.isPassive = true := by simp [Instruction.isPassive, hg]
      rw [if_neg hpassive, if_pos hg, Bool.or_eq_true]
      refine .inr (ih hreset.2 ?_ h)
      exact List.append_subset.mpr ⟨fun q hq => List.mem_append_left _ ((List.mem_filter.mp hq).1),
        fun q hq => List.mem_append_right _ (hseen hq)⟩
    · next hg => exact absurd hg hreset.1
    · next hgate hmeasure hreset' =>
      have hpassive : inst.isPassive = true := by
        unfold Instruction.isPassive
        cases haction : inst.action with
        | gate g => exact absurd haction (hgate g)
        | measure => exact absurd haction hmeasure
        | reset => exact absurd haction hreset'
        | barrier => rfl
        | snapshot => rfl
      rw [if_pos hpassive]
      exact ih hreset.2 hseen h

/-! ### Reasons -/

theorem head?_toList_append {s : String} {c : Char} (h : s.toList.head? = some c) (t : String) :
    (s ++ t).toList.head? = some c := by
  rw [String.toList_append, List.head?_append, h, Option.some_or]

/-- No other violation is worded like this one. -/
theorem text_eq_midCircuit_iff {v : Violation} :
    v.text = Violation.midCircuit.text ↔ v = .midCircuit := by
  constructor
  · intro h
    -- the first letter tells
    have hhead : v.text.toList.head? = some 'm' := by
      rw [h]
      rfl
    have hother : ∀ {c : Char}, v.text.toList.head? = some c → c = 'm' :=
      fun hc => Option.some.inj (hc.symm.trans hhead)
    cases v with
    | qubits used available =>
      have hc : "circuit uses ".toList.head? = some 'c' := rfl
      have hm := hother (head?_toList_append
        (head?_toList_append (head?_toList_append hc used.repr) _) available.repr)
      cases hm
    | operations used allowed =>
      have hc : "circuit has ".toList.head? = some 'c' := rfl
      have hm := hother (head?_toList_append
        (head?_toList_append (head?_toList_append hc used.repr) _) allowed.repr)
      cases hm
    | gate name =>
      have hg : "gate '".toList.head? = some 'g' := rfl
      have hm := hother (head?_toList_append (head?_toList_append hg name) _)
      cases hm
    | conditions => cases hhead
    | midCircuit => rfl
  · rintro rfl
    rfl

theorem midCircuit_mem_violations {cap : Capabilities} {c : Circuit}
    (hcap : cap.supports midCircuitMeasurement = false) :
    .midCircuit ∈ cap.violations c ↔
      actsMidCircuit c.numQubits [] c.instructions.toList = true := by
  unfold violations
  simp only [List.mem_append, hcap]
  constructor
  · rintro ((((h | h) | h) | h) | h)
    · split at h <;> simp at h
    · split at h
      · split at h <;> simp at h
      · simp at h
    · simp at h
    · split at h <;> simp at h
    · split at h
      · next hacts => simpa using hacts
      · simp at h
  · intro h
    refine .inr ?_
    simp [h]

/-- The reasons for which a circuit is refused by a backend without the feature include the one
about operations after a measurement iff there are any. -/
theorem reports_midCircuit_iff {cap : Capabilities} {c : Circuit}
    (hcap : cap.supports midCircuitMeasurement = false) :
    (∃ reasons, cap.check c = .invalid reasons ∧ Violation.midCircuit.text ∈ reasons) ↔
      actsMidCircuit c.numQubits [] c.instructions.toList = true := by
  rw [← midCircuit_mem_violations hcap]
  unfold check
  cases hviolations : cap.violations c with
  | nil => simp
  | cons v l =>
    constructor
    · rintro ⟨reasons, hreasons, hmem⟩
      obtain rfl := Validation.invalid.inj hreasons
      obtain ⟨v', hv', htext⟩ := List.mem_map.mp hmem
      rw [← text_eq_midCircuit_iff.mp htext]
      exact hv'
    · intro hmem
      exact ⟨_, rfl, List.mem_map_of_mem hmem⟩

end Capabilities

end OneWay
