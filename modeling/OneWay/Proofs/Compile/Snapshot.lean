import OneWay.Proofs.Compile.Reuse
import OneWay.Proofs.Simulation.Observation

/-!
# Compiling with and without a snapshot

Saving the amplitudes is one move more at the end of a compilation, before the outputs are measured,
and no other move depends on it. Playing moves and leaving out passive instructions commute
(`Draft.active_playAll`), so the circuit that is compiled without a snapshot is the one compiled
with it, less its passive instructions (`CompileContext.draft_unsaved`). What that means for a
simulation is said in `OneWay.Proofs.Simulation.Observation`.
-/

namespace OneWay

/-! ### Drafts without what only watches -/

namespace Draft

/-- The draft without barriers and snapshots. -/
def active (d : Draft) : Draft := { d with circuit := d.circuit.active }

theorem active_push {inst : Instruction} (h : inst.isPassive = false) (d : Draft) :
    (d.push inst).active = d.active.push inst := by
  simp [active, push, Circuit.active, h]

theorem active_push_of_isPassive {inst : Instruction} (h : inst.isPassive = true) (d : Draft) :
    (d.push inst).active = d.active := by
  simp [active, push, Circuit.active, h]

theorem active_read (d : Draft) (n : Node) : (d.read n).active = d.active.read n := by
  simp [active, read, push, Circuit.active, Circuit.addBit, Instruction.isPassive, wireAt]

theorem active_claimed (d : Draft) : d.active.claimed = (d.claimed.1, d.claimed.2.active) := by
  have hfree : d.active.free = d.free := rfl
  unfold claimed
  rw [hfree]
  cases d.free.popMin? with
  | none => rfl
  | some popped => exact congrArg (popped.1, ·) (active_push rfl { d with free := popped.2 }).symm

/-- **One move** other than a snapshot does the same on a draft without passive instructions. -/
theorem active_play (reuse : Bool) {m : Move} (hm : m ≠ .snapshot) (d : Draft) :
    (d.play reuse m).active = d.active.play reuse m := by
  cases m with
  | claim n =>
    simp only [play, active_claimed]
    rfl
  | gate g nodes => exact active_push rfl d
  | measure n =>
    simp only [play, ← active_read]
    rfl
  | readOut n => exact active_read d n
  | snapshot => exact absurd rfl hm

/-- **Several moves** do the same on a draft without passive instructions, but for the snapshots. -/
theorem active_playAll (reuse : Bool) (d : Draft) (l : List Move) :
    (d.playAll reuse l).active = d.active.playAll reuse (l.filter (· ≠ .snapshot)) := by
  induction l generalizing d with
  | nil => rfl
  | cons m l ih =>
    rw [playAll_cons, ih]
    by_cases hm : m = .snapshot
    · rw [List.filter_cons_of_neg (by simpa using hm), hm]
      exact congrArg (playAll reuse · _) (active_push_of_isPassive rfl d)
    · rw [List.filter_cons_of_pos (by simpa using hm), playAll_cons, active_play reuse hm]

/-- **One move** adds a snapshot iff it is one. -/
theorem exists_snapshot_play (reuse : Bool) (d : Draft) (m : Move) :
    (∃ inst ∈ (d.play reuse m).circuit.instructions.toList, inst.action = .snapshot) ↔
      (∃ inst ∈ d.circuit.instructions.toList, inst.action = .snapshot) ∨ m = .snapshot := by
  have hemits : (∃ inst ∈ d.emits m, inst.action = .snapshot) ↔ m = .snapshot := by
    cases m with
    | claim n =>
      unfold emits
      cases d.free.popMin? <;> simp
    | gate | measure | readOut | snapshot => simp [emits]
  rw [instructions_play, ← hemits]
  simp only [List.mem_append, or_and_right, exists_or]

/-- **Several moves** add a snapshot iff one of them is one. -/
theorem exists_snapshot_playAll (reuse : Bool) (d : Draft) (l : List Move) :
    (∃ inst ∈ (d.playAll reuse l).circuit.instructions.toList, inst.action = .snapshot) ↔
      (∃ inst ∈ d.circuit.instructions.toList, inst.action = .snapshot) ∨ .snapshot ∈ l := by
  induction l generalizing d with
  | nil => simp
  | cons m l ih =>
    rw [playAll_cons, ih, exists_snapshot_play, List.mem_cons, or_assoc, eq_comm (a := m)]

end Draft

/-! ### Where the snapshot is -/

namespace Roster

variable (ctx : CompileContext)

theorem snapshot_not_mem_touchAll (r : Roster) (l : List Node) : .snapshot ∉ r.touchAll ctx l := by
  induction l generalizing r with
  | nil => exact List.not_mem_nil
  | cons n l ih =>
    have htouch : .snapshot ∉ r.touch ctx n := by
      unfold touch
      split <;> simp
    rw [touchAll, List.mem_append]
    exact not_or.mpr ⟨htouch, ih _⟩

theorem snapshot_not_mem_correction (r : Roster) (pauli : Gate) (n : Node) (domain : Domain) :
    .snapshot ∉ r.correction ctx pauli n domain := by
  simp only [correction, Move.plain]
  split
  · split <;> simp
  · simp

theorem snapshot_not_mem_act (r : Roster) (c : Command) : .snapshot ∉ r.act ctx c := by
  have hcorrection := snapshot_not_mem_correction ctx r
  cases c with
  | prepare | entangle => simp [act]
  | measure | correctX | correctZ | clifford => simp [act, Move.plain, hcorrection]

theorem snapshot_not_mem_commandsMoves (r : Roster) (l : List Command) :
    .snapshot ∉ r.commandsMoves ctx l := by
  induction l generalizing r with
  | nil => exact List.not_mem_nil
  | cons c l ih =>
    rw [commandsMoves, commandMoves, List.mem_append, List.mem_append]
    exact not_or.mpr ⟨not_or.mpr ⟨snapshot_not_mem_touchAll ctx r c.targets,
      snapshot_not_mem_act ctx r c⟩, ih _⟩

theorem snapshot_not_mem_claimAll (r : Roster) (l : List Node) : .snapshot ∉ r.claimAll l := by
  induction l generalizing r with
  | nil => exact List.not_mem_nil
  | cons n l ih =>
    rw [claimAll]
    split
    · exact ih r
    · simpa using ih _

theorem snapshot_not_mem_lastClaims (r : Roster) : .snapshot ∉ r.lastClaims ctx := by
  unfold lastClaims
  simp only
  split
  · exact snapshot_not_mem_claimAll r _
  · rw [List.mem_append]
    exact not_or.mpr ⟨snapshot_not_mem_claimAll r _, snapshot_not_mem_claimAll _ _⟩

end Roster

namespace CompileContext

theorem snapshot_not_mem_bodyMoves (ctx : CompileContext) : .snapshot ∉ ctx.bodyMoves := by
  rw [bodyMoves, List.mem_append]
  exact not_or.mpr ⟨Roster.snapshot_not_mem_touchAll ctx {} ctx.pattern.inputs,
    Roster.snapshot_not_mem_commandsMoves ctx _ ctx.pattern.commands⟩

/-- A snapshot is one of the moves iff it is asked for. -/
theorem snapshot_mem_moves_iff (ctx : CompileContext) :
    .snapshot ∈ ctx.moves ↔ ctx.options.saveStatevector = true := by
  have hbody := ctx.snapshot_not_mem_bodyMoves
  have hclaims := Roster.snapshot_not_mem_lastClaims ctx ctx.bodyRoster
  simp [moves, Roster.ending, hbody, hclaims]

variable (p : Pattern) (inputs : SortedMap Node InputState) (o : CompileOptions)

/-- Unless the amplitudes are saved, the moves are the same but for the snapshot. -/
theorem moves_unsaved :
    moves ⟨p, inputs, { o with saveStatevector := false }⟩
      = (moves ⟨p, inputs, o⟩).filter (· ≠ .snapshot) := by
  have hkeep : ∀ l : List Move, .snapshot ∉ l → l.filter (· ≠ .snapshot) = l := by
    intro l hl
    refine List.filter_eq_self.mpr fun m hm => ?_
    simpa using ne_of_mem_of_not_mem hm hl
  have hbody := bodyMoves_options p inputs { o with saveStatevector := false } o
  have hroster : bodyRoster ⟨p, inputs, { o with saveStatevector := false }⟩
      = bodyRoster ⟨p, inputs, o⟩ := by
    rw [bodyRoster, bodyRoster, hbody]
  have hreadOut : Move.snapshot ∉ if o.measureOutputs then p.outputs.map .readOut else [] := by
    split <;> simp
  have hsnapshot : (if o.saveStatevector then [Move.snapshot] else []).filter (· ≠ .snapshot)
      = [] := by
    split <;> rfl
  -- of all parts of the moves, the filter takes away the snapshot alone
  rw [moves, moves, hbody, hroster, Roster.ending, Roster.ending, List.filter_append,
    List.filter_append, List.filter_append, hkeep _ (snapshot_not_mem_bodyMoves ⟨p, inputs, o⟩),
    hkeep _ (Roster.snapshot_not_mem_lastClaims ⟨p, inputs, o⟩ _), hkeep _ hreadOut, hsnapshot]
  rfl

/-- **The circuit** that is compiled without saving the amplitudes is the one compiled with it, less
its passive instructions. -/
theorem draft_unsaved :
    draft ⟨p, inputs, { o with saveStatevector := false }⟩ = (draft ⟨p, inputs, o⟩).active := by
  rw [draft, draft, Draft.active_playAll, ← moves_unsaved]
  rfl

/-- The circuit has a snapshot iff it is asked for. -/
theorem exists_snapshot_draft_iff (ctx : CompileContext) :
    (∃ inst ∈ ctx.draft.circuit.instructions.toList, inst.action = .snapshot) ↔
      ctx.options.saveStatevector = true := by
  rw [draft, Draft.exists_snapshot_playAll, snapshot_mem_moves_iff]
  simp [Draft.start, Circuit.ofSize]

end CompileContext

/-! ### Compiled and simulated -/

namespace Pattern

variable {σ : Type} [RandomSource σ]

/-- Compiles a pattern and simulates the circuit. -/
def sample (p : Pattern) (inputs : SortedMap Node InputState) (options : CompileOptions)
    (t : Trigonometry) (noise : NoiseModel) (shots : Nat) (source : σ) :
    Except CompileFault (Except SimulationFault (ExecutionResult × σ)) :=
  (·.circuit.simulate t noise shots source) <$> p.compile inputs options

variable (p : Pattern) (inputs : SortedMap Node InputState) (o : CompileOptions) (t : Trigonometry)
  (noise : NoiseModel) (shots : Nat) (source : σ)

/-- Without saving the amplitudes, a pattern is compiled or refused as with it, and its simulation
differs in the amplitudes alone. -/
theorem sample_unsaved :
    p.sample inputs { o with saveStatevector := false } t noise shots source
      = (Prod.map .unwatched id <$> ·) <$> p.sample inputs o t noise shots source := by
  rw [sample, sample, compile_eq, compile_eq, CompileContext.draft_unsaved,
    CompileContext.fault?_options p inputs _ o]
  cases p.precheck inputs with
  | error f => rfl
  | ok u =>
    cases CompileContext.fault? ⟨p, inputs, o⟩ with
    | some f => rfl
    | none => exact congrArg Except.ok (Circuit.simulate_of_run Shot.run_active shots source)

/-- A simulation of at least one shot gives amplitudes iff they are saved. -/
theorem isSome_statevector_sample_iff {shots : Nat} (hshots : 1 ≤ shots) {source source' : σ}
    {r : ExecutionResult} (h : p.sample inputs o t noise shots source = .ok (.ok (r, source'))) :
    r.statevector.isSome = true ↔ o.saveStatevector = true := by
  cases hcompile : p.compile inputs o with
  | error f =>
    rw [sample, hcompile] at h
    cases h
  | ok c =>
    rw [sample, hcompile] at h
    rw [Circuit.isSome_statevector_iff hshots (Except.ok.inj h)]
    obtain ⟨-, rfl⟩ := compile_eq_ok_iff.mp hcompile
    exact CompileContext.exists_snapshot_draft_iff ⟨p, inputs, o⟩

end Pattern

/-- **Watching is neutral**: a valid circuit without its barriers, its snapshots and the labels of
its gates is valid and has the same simulation, in which the same is counted and the same numbers are
drawn; only the amplitudes are gone. Likewise for a pattern that is compiled without and with saving
the amplitudes, and these are in the result iff the option says so. -/
theorem watching_neutral {σ : Type} [RandomSource σ] (t : Trigonometry) (noise : NoiseModel)
    {shots : Nat} (hshots : 1 ≤ shots) (source : σ) :
    (∀ c : Circuit, c.validate = .ok () →
      c.active.unlabelled.validate = .ok () ∧
      c.active.unlabelled.simulate t noise shots source
        = (fun r => (r.1.unwatched, r.2)) <$> c.simulate t noise shots source) ∧
    ∀ (p : Pattern) (inputs : SortedMap Node InputState) (o : CompileOptions),
      p.sample inputs { o with saveStatevector := false } t noise shots source
        = ((fun r => (r.1.unwatched, r.2)) <$> ·)
          <$> p.sample inputs { o with saveStatevector := true } t noise shots source ∧
      ∀ r source', p.sample inputs o t noise shots source = .ok (.ok (r, source')) →
        (r.statevector.isSome = true ↔ o.saveStatevector = true) := by
  constructor
  · intro c hc
    have hrun : ∀ source : σ, Shot.run t noise c.active.unlabelled source
        = Shot.recording none <$> Shot.run t noise c source := by
      intro source
      rw [Shot.run_unlabelled, Shot.run_active]
    exact ⟨Circuit.validate_unlabelled (Circuit.validate_active hc),
      Circuit.simulate_of_run hrun shots source⟩
  · intro p inputs o
    refine ⟨p.sample_unsaved inputs { o with saveStatevector := true } t noise shots source, ?_⟩
    intro r source' h
    exact p.isSome_statevector_sample_iff inputs o t noise hshots h

/-- A pair of wires that is watched before, between and after its gates, and a pattern of which the
outputs are measured. -/
theorem watching_neutral_pair :
    let c : Circuit := ⟨"pair", 2, 2, #[⟨.snapshot, [0, 1], []⟩,
      ⟨.gate { gate := .h, label := some "prep" }, [0], []⟩, ⟨.barrier, [0, 1], []⟩,
      ⟨.gate { gate := .cx }, [0, 1], []⟩, ⟨.measure, [1], [0]⟩, ⟨.snapshot, [0, 1], []⟩,
      ⟨.gate { gate := .x, label := some "fix", condition := some ⟨[0], true⟩ }, [0], []⟩,
      ⟨.measure, [0], [1]⟩]⟩
    let bare : Circuit := ⟨"pair", 2, 2, #[⟨.gate { gate := .h }, [0], []⟩,
      ⟨.gate { gate := .cx }, [0, 1], []⟩, ⟨.measure, [1], [0]⟩,
      ⟨.gate { gate := .x, condition := some ⟨[0], true⟩ }, [0], []⟩, ⟨.measure, [0], [1]⟩]⟩
    1 ≤ 2 ∧ c.validate = .ok () ∧ ∀ (noise : NoiseModel) (source : Recorded),
      bare.simulate .machine noise 2 source
        = (fun r => (r.1.unwatched, r.2)) <$> c.simulate .machine noise 2 source ∧
      Pattern.relay.sample ∅ ⟨true, false, true⟩ .machine noise 2 source
        = ((fun r => (r.1.unwatched, r.2)) <$> ·)
          <$> Pattern.relay.sample ∅ ⟨true, true, true⟩ .machine noise 2 source := by
  intro c bare
  have hc : c.validate = .ok () := by decide
  have hbare : c.active.unlabelled = bare := by
    simp [c, bare, Circuit.active, Circuit.unlabelled, Instruction.isPassive,
      Instruction.unlabelled]
  refine ⟨by decide, hc, fun noise source => ?_⟩
  obtain ⟨hcircuit, hpattern⟩ := watching_neutral .machine noise (by decide : 1 ≤ 2) source
  exact ⟨hbare ▸ (hcircuit c hc).2, (hpattern .relay ∅ ⟨true, true, true⟩).1⟩

end OneWay
