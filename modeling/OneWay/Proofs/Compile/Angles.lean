import OneWay.Proofs.Circuit.Angle
import OneWay.Proofs.Compile.Script

/-!
# The angles of compiled patterns

The only gates of a compilation that have angles are the preparations of given input states and the
rotations before measurements. Without input states, all angles of a circuit are finite iff those
of the pattern are finite in radians (`CompileContext.hasFiniteAngles_circuit_iff`).

Validation demands less: a pattern whose angles are finite in units of π only is compiled, and its
circuit has no program (`Pattern.program_overturned`).
-/

namespace OneWay

/-- All angles of the gate are finite, if the move applies one. -/
def Move.HasFiniteAngles : Move → Prop
  | .gate g _ => g.gate.HasFiniteAngles
  | _ => True

namespace Draft

theorem hasFiniteAngles_emits (d : Draft) (m : Move) :
    (∀ inst ∈ d.emits m, inst.HasFiniteAngles) ↔ m.HasFiniteAngles := by
  cases m with
  | claim n =>
    unfold emits
    cases d.free.popMin? <;> simp [Instruction.HasFiniteAngles, Move.HasFiniteAngles]
  | _ => simp [emits, Instruction.HasFiniteAngles, Move.HasFiniteAngles]

theorem hasFiniteAngles_trace (reuse : Bool) (d : Draft) (l : List Move) :
    (∀ inst ∈ d.trace reuse l, inst.HasFiniteAngles) ↔ ∀ m ∈ l, m.HasFiniteAngles := by
  induction l generalizing d with
  | nil => simp [trace]
  | cons m l ih =>
    rw [trace, List.forall_mem_append, hasFiniteAngles_emits, ih, List.forall_mem_cons]

/-- The gates of a rotation have finite angles iff its angle is finite in radians. -/
theorem hasFiniteAngles_rotation (plane : Plane) (angle : Float) :
    (∀ g ∈ rotation plane angle, g.HasFiniteAngles) ↔ (angle * Angle.pi).isFinite = true := by
  unfold rotation
  by_cases hzero : (angle * Angle.pi == 0.0) = true
  · have hfinite := Binary64.isFinite_of_beq_zero hzero
    cases plane <;> simp [hzero, hfinite, Gate.HasFiniteAngles, Gate.parameters]
  · cases plane <;>
      simp [hzero, Binary64.isFinite_neg, Gate.HasFiniteAngles, Gate.parameters]

end Draft

namespace Roster

variable {ctx : CompileContext}

theorem hasFiniteAngles_correction (r : Roster) {pauli : Gate} (hpauli : pauli.parameters = [])
    (n : Node) (domain : Domain) :
    ∀ m ∈ r.correction ctx pauli n domain, m.HasFiniteAngles := by
  have hgate : pauli.HasFiniteAngles := by simp [Gate.HasFiniteAngles, hpauli]
  intro m hm
  unfold correction at hm
  simp only at hm
  split at hm
  · split at hm
    · rwa [List.mem_singleton.mp hm]
    · cases hm
  · rwa [List.mem_singleton.mp hm]

/-- Clifford operators are products of gates without angles. -/
theorem parameters_gates (c : Clifford) : ∀ g ∈ c.gates, g.parameters = [] := by
  revert c
  decide

/-- What a command does has finite angles iff its own, if it has one, is finite in radians. -/
theorem hasFiniteAngles_act (r : Roster) (c : Command) :
    (∀ m ∈ r.act ctx c, m.HasFiniteAngles) ↔
      ∀ a ∈ c.angle?, (a * Angle.pi).isFinite = true := by
  have hnone : ∀ a ∈ (none : Option Float), (a * Angle.pi).isFinite = true := by simp
  cases c with
  | measure n plane angle s t =>
    simp only [act, List.forall_mem_append, List.forall_mem_map, List.forall_mem_singleton,
      Command.angle?, Option.mem_some_iff, forall_eq', ← Draft.hasFiniteAngles_rotation plane]
    have hx : ∀ m ∈ r.correction ctx .x n s, m.HasFiniteAngles :=
      r.hasFiniteAngles_correction rfl n s
    have hz : ∀ m ∈ r.correction ctx .z n t, m.HasFiniteAngles :=
      r.hasFiniteAngles_correction rfl n t
    exact ⟨fun h => h.1.2, fun h => ⟨⟨⟨hx, hz⟩, h⟩, trivial⟩⟩
  | clifford n c =>
    refine iff_of_true ?_ hnone
    simp only [act, List.forall_mem_map]
    intro g hg
    simp [Move.plain, Move.HasFiniteAngles, Gate.HasFiniteAngles, parameters_gates c g hg]
  | prepare n => exact iff_of_true (by simp [act]) hnone
  | entangle a b =>
    exact iff_of_true (by simp [act, Move.HasFiniteAngles, Gate.HasFiniteAngles, Gate.parameters])
      hnone
  | correctX n domain => exact iff_of_true (r.hasFiniteAngles_correction rfl n domain) hnone
  | correctZ n domain => exact iff_of_true (r.hasFiniteAngles_correction rfl n domain) hnone

section Preparation

variable (hprep : ∀ n, (Draft.preparation ctx n).gate.HasFiniteAngles)
include hprep

theorem hasFiniteAngles_touchAll (r : Roster) (l : List Node) :
    ∀ m ∈ r.touchAll ctx l, m.HasFiniteAngles := by
  induction l generalizing r with
  | nil => simp [touchAll]
  | cons n l ih =>
    rw [touchAll, List.forall_mem_append]
    refine ⟨?_, ih _⟩
    unfold touch
    split
    · simp
    · simpa [Move.HasFiniteAngles] using hprep n

theorem hasFiniteAngles_commandsMoves (r : Roster) (l : List Command) :
    (∀ m ∈ r.commandsMoves ctx l, m.HasFiniteAngles) ↔
      ∀ c ∈ l, ∀ a ∈ c.angle?, (a * Angle.pi).isFinite = true := by
  induction l generalizing r with
  | nil => simp [commandsMoves]
  | cons c l ih =>
    rw [commandsMoves, commandMoves, List.forall_mem_append, List.forall_mem_append, ih,
      hasFiniteAngles_act, List.forall_mem_cons,
      and_iff_right (hasFiniteAngles_touchAll hprep r c.targets)]

end Preparation

theorem hasFiniteAngles_claimAll (r : Roster) (l : List Node) :
    ∀ m ∈ r.claimAll l, m.HasFiniteAngles := by
  induction l generalizing r with
  | nil => simp [claimAll]
  | cons n l ih =>
    rw [claimAll]
    split
    · exact ih r
    · exact List.forall_mem_cons.mpr ⟨trivial, ih _⟩

theorem hasFiniteAngles_ending (r : Roster) : ∀ m ∈ r.ending ctx, m.HasFiniteAngles := by
  unfold ending lastClaims
  simp only [List.forall_mem_append]
  refine ⟨⟨?_, ?_⟩, ?_⟩
  · split
    · exact r.hasFiniteAngles_claimAll _
    · exact List.forall_mem_append.mpr
        ⟨r.hasFiniteAngles_claimAll _, hasFiniteAngles_claimAll _ _⟩
  · split <;> simp [Move.HasFiniteAngles]
  · split <;> simp [Move.HasFiniteAngles]

end Roster

namespace CompileContext

variable {ctx : CompileContext}

/-- Where the preparations have finite angles, all gates have iff the angles of the pattern are
finite in radians. -/
theorem hasFiniteAngles_circuit_iff
    (hprep : ∀ n, (Draft.preparation ctx n).gate.HasFiniteAngles) :
    ctx.draft.circuit.HasFiniteAngles ↔
      ∀ a ∈ ctx.pattern.angles, (a * Angle.pi).isFinite = true := by
  have hinstructions := Draft.instructions_playAll ctx.options.qubitReuse .start ctx.moves
  unfold Circuit.HasFiniteAngles draft
  rw [hinstructions, List.forall_mem_append, Draft.hasFiniteAngles_trace, moves, bodyMoves]
  simp only [List.forall_mem_append]
  rw [Roster.hasFiniteAngles_commandsMoves hprep]
  have hinputs := Roster.hasFiniteAngles_touchAll hprep {} ctx.pattern.inputs
  have hending : ∀ m ∈ ctx.bodyRoster.ending ctx, m.HasFiniteAngles :=
    ctx.bodyRoster.hasFiniteAngles_ending
  have hangles : (∀ a ∈ ctx.pattern.angles, (a * Angle.pi).isFinite = true) ↔
      ∀ c ∈ ctx.pattern.commands, ∀ a ∈ c.angle?, (a * Angle.pi).isFinite = true := by
    simp only [Pattern.angles, List.mem_filterMap]
    constructor
    · intro h c hc a ha
      exact h a ⟨c, hc, ha⟩
    · rintro h a ⟨c, hc, ha⟩
      exact h c hc a ha
  have hstart : ∀ inst ∈ Draft.start.circuit.instructions.toList, inst.HasFiniteAngles := by
    simp [Draft.start, Circuit.ofSize]
  rw [hangles]
  exact ⟨fun h => h.2.1.2, fun h => ⟨hstart, ⟨hinputs, h⟩, hending⟩⟩

end CompileContext

namespace Pattern

/-- Without input states, nodes are prepared by gates without angles. -/
theorem hasFiniteAngles_preparation (p : Pattern) (options : CompileOptions) (n : Node) :
    (Draft.preparation ⟨p, ∅, options⟩ n).gate.HasFiniteAngles := by
  simp [Draft.preparation, SortedMap.get?_empty, Gate.HasFiniteAngles, Gate.parameters]

/-- The angles of a well-formed pattern are finite in units of π. -/
theorem WellFormed.isFinite_angle {p : Pattern} (h : p.WellFormed) {a : Float}
    (ha : a ∈ p.angles) : a.isFinite = true := by
  obtain ⟨c, hc, hca⟩ := List.mem_filterMap.mp ha
  cases c with
  | measure n plane angle s t =>
    rw [← Option.some.inj hca]
    exact (h.commands_allowed _ hc).finite n plane angle s t rfl
  | _ => cases hca

/-- **Handing on**: the circuit of a pattern without input states has a program, and no simulator
reports an angle of it, iff the angles of the pattern lie within the limits. -/
theorem program_iff_angles_within {p : Pattern} {options : CompileOptions} {c : Compiled}
    (h : p.compile ∅ options = .ok c) :
    ((∃ text, c.circuit.program = .ok text) ↔
      ∀ a ∈ p.angles, -Angle.limit ≤ a ∧ a ≤ Angle.limit) ∧
    ∀ {σ : Type} (s : Simulator σ), (s.validate c.circuit).ReportsAngle ↔
      ∃ a ∈ p.angles, ¬ (-Angle.limit ≤ a ∧ a ≤ Angle.limit) := by
  obtain ⟨hacc, rfl⟩ := compile_eq_ok_iff.mp h
  have hvalid := Circuit.validate_eq_ok_iff.mpr hacc.sound.valid
  have hfinite : (CompileContext.draft ⟨p, ∅, options⟩).circuit.HasFiniteAngles ↔
      ∀ a ∈ p.angles, -Angle.limit ≤ a ∧ a ≤ Angle.limit := by
    rw [CompileContext.hasFiniteAngles_circuit_iff (hasFiniteAngles_preparation p options)]
    exact forall₂_congr fun a ha => Angle.isFinite_mul_pi (hacc.wellFormed.isFinite_angle ha)
  refine ⟨Circuit.exists_program_iff.trans ((and_iff_right hvalid).trans hfinite), fun s => ?_⟩
  refine (s.reportsAngle_validate_iff hvalid).trans ?_
  rw [hfinite]
  simp

/-- A measurement whose angle is finite in units of π, and not in radians. -/
def overturned : Pattern := .ofParts [0] [] [] [] [.measure 0 .yz 1e308 ∅ ∅] []

theorem exists_compile_overturned : ∃ c, overturned.compile ∅ {} = .ok c := by
  have hok : (overturned.compile ∅ {}).isOk = true := by decide +kernel
  cases h : overturned.compile ∅ {} with
  | ok compiled => exact ⟨compiled, rfl⟩
  | error f =>
    rw [h] at hok
    cases hok

theorem program_overturned :
    ∃ c, overturned.compile ∅ {} = .ok c ∧ (¬ ∃ text, c.circuit.program = .ok text) ∧
      ∀ s : Simulator ChaCha.Stream, (s.validate c.circuit).ReportsAngle := by
  obtain ⟨c, h⟩ := exists_compile_overturned
  have hangle : ¬ ∀ a ∈ overturned.angles, -Angle.limit ≤ a ∧ a ≤ Angle.limit := by decide +kernel
  obtain ⟨hprogram, hreports⟩ := program_iff_angles_within h
  exact ⟨c, h, mt hprogram.mp hangle, fun s => (hreports s).mpr (by simpa using hangle)⟩

end Pattern

end OneWay
