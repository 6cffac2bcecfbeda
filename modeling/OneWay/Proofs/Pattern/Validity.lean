import OneWay.Pattern.Validity
import OneWay.Proofs.Sorted

/-!
# Structural well-formedness

`Pattern.WellFormed` lists the rules that do not depend on the order of the commands, and
`Pattern.validate_eq_ok_iff` says that validation accepts exactly the patterns that keep them.
-/

namespace OneWay

/-- The command measures the node. -/
def Command.Measures (c : Command) (n : Node) : Prop :=
  ∃ plane angle s t, c = .measure n plane angle s t

/-- The angle of a measurement, in units of π. -/
def Command.angle? : Command → Option Float
  | .measure _ _ angle _ _ => some angle
  | _ => none

/-- The angles of all measurements, in units of π. -/
def Pattern.angles (p : Pattern) : List Float := p.commands.filterMap Command.angle?

namespace Pattern

variable {p : Pattern}

theorem declares_iff {n : Node} : p.declares n = true ↔ n ∈ p.nodes := SortedSet.contains_iff_mem

/-- The rules for a command of a pattern. -/
structure Allows (p : Pattern) (c : Command) : Prop where
  declared : ∀ n ∈ c.targets ++ c.dependencies, n ∈ p.nodes
  distinct : ∀ a b, c = .entangle a b → a ≠ b
  finite : ∀ n plane angle s t, c = .measure n plane angle s t → angle.isFinite = true
  not_output : ∀ n, c.Measures n → n ∉ p.outputs

/-- The rules that do not depend on the order of the commands. -/
structure WellFormed (p : Pattern) : Prop where
  edges_declared : ∀ e ∈ p.edges, e.lo ∈ p.nodes ∧ e.hi ∈ p.nodes
  edges_distinct : ∀ e ∈ p.edges, e.lo ≠ e.hi
  inputs_declared : ∀ n ∈ p.inputs, n ∈ p.nodes
  inputs_nodup : p.inputs.Nodup
  outputs_declared : ∀ n ∈ p.outputs, n ∈ p.nodes
  outputs_nodup : p.outputs.Nodup
  results_declared : ∀ n ∈ p.results.keys, n ∈ p.nodes
  commands_allowed : ∀ c ∈ p.commands, p.Allows c

/-! ### Faults of the parts -/

theorem undeclared?_eq_none_iff {location : Location} {n : Node} :
    p.undeclared? location n = none ↔ n ∈ p.nodes := by
  unfold undeclared?
  rw [← declares_iff]
  cases p.declares n <;> simp

theorem edgeFault?_eq_none_iff {e : Edge} :
    p.edgeFault? e = none ↔ (e.lo ∈ p.nodes ∧ e.hi ∈ p.nodes) ∧ e.lo ≠ e.hi := by
  unfold edgeFault?
  simp [Option.or_eq_none_iff, undeclared?_eq_none_iff, and_assoc]

theorem listFault?_eq_none_iff {location : Location} {seen l : List Node} :
    p.listFault? location seen l = none ↔
      (∀ n ∈ l, n ∈ p.nodes) ∧ l.Nodup ∧ ∀ n ∈ l, n ∉ seen := by
  induction l generalizing seen with
  | nil => simp [listFault?]
  | cons n l ih =>
    rw [listFault?, Option.or_eq_none_iff, undeclared?_eq_none_iff]
    by_cases hn : n ∈ seen
    · simp [hn]
    · rw [if_neg (by simpa using hn), ih]
      simp only [List.mem_cons, forall_eq_or_imp, List.nodup_cons, not_or]
      constructor
      · rintro ⟨hdecl, hall, hnodup, hseen⟩
        exact ⟨⟨hdecl, hall⟩, ⟨fun h => (hseen n h).1 rfl, hnodup⟩, hn, fun x hx => (hseen x hx).2⟩
      · rintro ⟨⟨hdecl, hall⟩, ⟨hnl, hnodup⟩, -, hseen⟩
        refine ⟨hdecl, hall, hnodup, fun x hx => ⟨?_, hseen x hx⟩⟩
        rintro rfl
        exact hnl hx

theorem actionFault?_eq_none_iff {location : Location} {c : Command} :
    p.actionFault? location c = none ↔
      (∀ a b, c = .entangle a b → a ≠ b) ∧
      (∀ n plane angle s t, c = .measure n plane angle s t → angle.isFinite = true) ∧
      ∀ n, c.Measures n → n ∉ p.outputs := by
  cases c with
  | entangle a b => simp [actionFault?, Command.Measures]
  | measure n plane angle s t =>
    have hparts : p.actionFault? location (.measure n plane angle s t) = none ↔
        angle.isFinite = true ∧ n ∉ p.outputs := by
      simp only [actionFault?, isOutput]
      by_cases hfin : angle.isFinite = true <;> by_cases hout : n ∈ p.outputs <;> simp [hfin, hout]
    rw [hparts]
    constructor
    · rintro ⟨hfin, hout⟩
      refine ⟨nofun, ?_, ?_⟩
      · rintro _ _ _ _ _ ⟨⟩
        exact hfin
      · rintro _ ⟨_, _, _, _, ⟨⟩⟩
        exact hout
    · rintro ⟨-, hfin, hout⟩
      exact ⟨hfin n plane angle s t rfl, hout n ⟨plane, angle, s, t, rfl⟩⟩
  | _ => simp [actionFault?, Command.Measures]

theorem commandFault?_eq_none_iff (location : Location) {c : Command} :
    p.commandFault? location c = none ↔ p.Allows c := by
  unfold commandFault?
  rw [Option.or_eq_none_iff, List.findSome?_eq_none_iff, actionFault?_eq_none_iff]
  simp only [undeclared?_eq_none_iff]
  constructor
  · rintro ⟨hdecl, hdist, hfin, hout⟩
    exact ⟨hdecl, hdist, hfin, hout⟩
  · rintro ⟨hdecl, hdist, hfin, hout⟩
    exact ⟨hdecl, hdist, hfin, hout⟩

theorem commandsFault?_eq_none_iff {l : List Command} (start : Nat) :
    ((l.zipIdx start).findSome? fun (c, i) => p.commandFault? (.command i) c) = none ↔
      ∀ c ∈ l, p.Allows c := by
  induction l generalizing start with
  | nil => simp
  | cons c l ih =>
    rw [List.zipIdx_cons, List.findSome?_cons, List.forall_mem_cons, ← ih (start + 1),
      ← commandFault?_eq_none_iff (.command start)]
    split <;> simp_all

theorem fault?_eq_none_iff : p.fault? = none ↔ p.WellFormed := by
  unfold fault?
  simp only [Option.or_eq_none_iff]
  rw [commandsFault?_eq_none_iff]
  simp only [List.findSome?_eq_none_iff, edgeFault?_eq_none_iff, listFault?_eq_none_iff,
    undeclared?_eq_none_iff]
  constructor
  · rintro ⟨hedges, ⟨hin, hin', -⟩, ⟨hout, hout', -⟩, hres, hcmd⟩
    exact ⟨fun e he => (hedges e he).1, fun e he => (hedges e he).2, hin, hin', hout, hout', hres,
      hcmd⟩
  · rintro ⟨hdecl, hdist, hin, hin', hout, hout', hres, hcmd⟩
    exact ⟨fun e he => ⟨hdecl e he, hdist e he⟩, ⟨hin, hin', fun _ _ => List.not_mem_nil⟩,
      ⟨hout, hout', fun _ _ => List.not_mem_nil⟩, hres, hcmd⟩

/-- **Structural validity**: validation accepts the well-formed patterns. -/
theorem validate_eq_ok_iff : p.validate = .ok () ↔ p.WellFormed := by
  rw [← fault?_eq_none_iff]
  unfold validate
  split
  · next f hf => simp [hf]
  · next hf => simp [hf]

end Pattern

end OneWay
