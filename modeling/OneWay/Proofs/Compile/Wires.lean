import OneWay.Proofs.Compile.Outcomes
import OneWay.Proofs.Compile.Reuse

/-!
# The wires of a compiled pattern

Which nodes have a wire in the end, and which wires there are. `Draft.Covers` says that the wires
of a circuit are those that were given out; it holds after every move (`Draft.Covers.play`), with
wires reused or not.

`Pattern.compile_wires` states what the table of wires is like: unless wires are reused, it matches
the declared nodes with the wires; if they are, the nodes that the pattern mentions share the
wires, but no two output nodes do. A node keeps the wire that it got.
-/

namespace OneWay

/-! ### Wires that were given out -/

namespace Draft

variable {d : Draft} {r : Roster} {reuse : Bool}

/-- The wires of the circuit are those that were given out. -/
def Covers (d : Draft) : Prop := ∀ w, w < d.circuit.numQubits ↔ ∃ n, d.wires.get? n = some w

theorem covers_start : start.Covers := by
  intro w
  simp [start, Circuit.ofSize, SortedMap.get?_empty]

/-- The wires that are given out once a new node has got one. -/
theorem exists_get?_insert_iff {n : Node} (hnew : d.wires.get? n = none) (w v : Qubit) :
    (∃ x, (d.wires.insert n w).get? x = some v) ↔ v = w ∨ ∃ x, d.wires.get? x = some v := by
  simp only [SortedMap.get?_insert]
  constructor
  · rintro ⟨x, hx⟩
    split at hx
    · exact .inl (Option.some.inj hx).symm
    · exact .inr ⟨x, hx⟩
  · rintro (rfl | ⟨x, hx⟩)
    · exact ⟨n, if_pos rfl⟩
    · refine ⟨x, ?_⟩
      rw [if_neg]
      · exact hx
      · rintro rfl
        rw [hnew] at hx
        cases hx

theorem Sound.get?_eq_none (h : Sound reuse d r) {n : Node} (hn : n ∉ r.placed) :
    d.wires.get? n = none := by
  rw [← Option.not_isSome_iff_eq_none, h.placed n]
  exact hn

/-- **One move**: a new wire is given out at once. -/
theorem Covers.play (h : d.Covers) (hsound : Sound reuse d r) {m : Move} (hm : r.Admits m) :
    (d.play reuse m).Covers := by
  cases m with
  | claim n =>
    have hnew := hsound.get?_eq_none hm
    intro v
    obtain ⟨w, free, hfree, hplay⟩ | ⟨-, hplay⟩ := d.play_claim_cases n
    · -- a free wire is a wire of the circuit already
      have hw : w < d.circuit.numQubits := hsound.free_lt (hfree ▸ List.mem_cons_self ..)
      rw [hplay]
      show v < d.circuit.numQubits ↔ ∃ x, (d.wires.insert n w).get? x = some v
      rw [exists_get?_insert_iff hnew, ← h v]
      refine ⟨.inr, ?_⟩
      rintro (rfl | hv)
      · exact hw
      · exact hv
    · rw [hplay]
      show v < d.circuit.numQubits + 1 ↔
        ∃ x, (d.wires.insert n d.circuit.numQubits).get? x = some v
      rw [exists_get?_insert_iff hnew, ← h v, Nat.lt_succ_iff_lt_or_eq, or_comm]
  | _ => exact h

/-- **A run**: every wire was given out. -/
theorem Covers.playAll (h : d.Covers) (hsound : Sound reuse d r) {l : List Move}
    (hl : r.AdmitsAll l) : (d.playAll reuse l).Covers := by
  induction l generalizing d r with
  | nil => exact h
  | cons m l ih => exact ih (h.play hsound hl.1) (hsound.play hl.1) hl.2

end Draft

/-! ### Which nodes have a wire -/

namespace Roster

variable (ctx : CompileContext)

/-- Reading outputs gives out no wires and frees none. -/
theorem after_map_readOut_frame (r : Roster) (l : List Node) :
    (r.after (l.map .readOut)).placed = r.placed ∧
      (r.after (l.map .readOut)).measured = r.measured := by
  induction l generalizing r with
  | nil => exact ⟨rfl, rfl⟩
  | cons n l ih => exact ih _

theorem mem_placed_lastPlaced {r : Roster} {n : Node} :
    n ∈ (r.lastPlaced ctx).placed ↔ (n ∈ r.placed ∨ n ∈ ctx.pattern.outputs) ∨
      (ctx.options.qubitReuse = false ∧ n ∈ ctx.pattern.nodes) := by
  unfold lastPlaced
  cases ctx.options.qubitReuse with
  | true => simp [mem_placed_placeAll]
  | false => simp [mem_placed_placeAll, SortedSet.mem_def]

end Roster

namespace CompileContext

variable (ctx : CompileContext)

theorem mem_placed_bodyRoster {n : Node} :
    n ∈ ctx.bodyRoster.placed ↔
      n ∈ ctx.pattern.inputs ∨ ∃ c ∈ ctx.pattern.commands, n ∈ c.targets := by
  rw [bodyRoster_eq, Roster.mem_placed_steps, inputRoster_eq, Roster.mem_placed_placeAll]
  exact or_congr (or_iff_right List.not_mem_nil) Iff.rfl

theorem roster_frame : ctx.roster.placed = (ctx.bodyRoster.lastPlaced ctx).placed ∧
    ctx.roster.measured = ctx.bodyRoster.measured := by
  have hlast := (ctx.bodyRoster.lastPlaced_frame ctx).1
  rw [roster_eq]
  split
  · obtain ⟨hplaced, hmeasured⟩ :=
      (ctx.bodyRoster.lastPlaced ctx).after_map_readOut_frame ctx.pattern.outputs
    exact ⟨hplaced, hmeasured.trans hlast⟩
  · exact ⟨rfl, hlast⟩

/-- The nodes that have a wire in the end: those that the pattern uses and, unless wires are
reused, all that it declares. -/
theorem mem_placed_roster {n : Node} :
    n ∈ ctx.roster.placed ↔
      ((n ∈ ctx.pattern.inputs ∨ ∃ c ∈ ctx.pattern.commands, n ∈ c.targets) ∨
        n ∈ ctx.pattern.outputs) ∨ (ctx.options.qubitReuse = false ∧ n ∈ ctx.pattern.nodes) := by
  rw [ctx.roster_frame.1, Roster.mem_placed_lastPlaced, mem_placed_bodyRoster]

variable {ctx}

/-- Unless wires are reused, the declared nodes have wires, and no others. -/
theorem Accepted.mem_placed_plain (h : ctx.Accepted) (hplain : ctx.options.qubitReuse = false)
    {n : Node} : n ∈ ctx.roster.placed ↔ n ∈ ctx.pattern.nodes := by
  rw [mem_placed_roster]
  constructor
  · rintro (((hin | ⟨c, hc, htarget⟩) | hout) | hdeclared)
    · exact h.wellFormed.inputs_declared n hin
    · exact (h.wellFormed.commands_allowed c hc).declared n (List.mem_append_left _ htarget)
    · exact h.wellFormed.outputs_declared n hout
    · exact hdeclared.2
  · exact fun hn => .inr ⟨hplain, hn⟩

theorem Accepted.covers (h : ctx.Accepted) : ctx.draft.Covers :=
  Draft.covers_start.playAll (Draft.sound_start ctx.options.qubitReuse) h.admitsAll

/-- The nodes in the table of wires. -/
theorem Accepted.exists_get?_iff (h : ctx.Accepted) {n : Node} :
    (∃ w, ctx.draft.wires.get? n = some w) ↔ n ∈ ctx.roster.placed := by
  rw [← Option.isSome_iff_exists]
  exact h.sound.placed n

/-- Output nodes are not measured by a command, so they hold their wires. -/
theorem Accepted.outputs_live (h : ctx.Accepted) :
    ∀ n ∈ ctx.pattern.outputs, ctx.roster.Live n := by
  intro n hn
  refine ⟨ctx.mem_placed_roster.mpr (.inl (.inr hn)), ?_⟩
  rw [ctx.roster_frame.2]
  exact ctx.outputs_not_measured h.wellFormed n hn

/-- A node that has a wire between two moves has the same one after any later move. -/
theorem Accepted.get?_wires (h : ctx.Accepted) {l₁ l₂ l₃ : List Move}
    (hl : ctx.moves = l₁ ++ l₂ ++ l₃) {n : Node} {w : Qubit}
    (hn : (Draft.start.playAll ctx.options.qubitReuse l₁).wires.get? n = some w) :
    (Draft.start.playAll ctx.options.qubitReuse (l₁ ++ l₂)).wires.get? n = some w := by
  have hadmits := h.admitsAll
  rw [hl, Roster.admitsAll_append, Roster.admitsAll_append] at hadmits
  have hsound := (Draft.sound_start ctx.options.qubitReuse).playAll hadmits.1.1
  have hplaced := (hsound.placed n).mp (by rw [hn]; rfl)
  rw [Draft.playAll_append, Draft.Sound.get?_wires_playAll _ _ hadmits.1.2 hplaced]
  exact hn

/-- Unless wires are reused, no two nodes share one. -/
theorem Accepted.get?_injective_plain (h : ctx.Accepted) (hplain : ctx.options.qubitReuse = false)
    (a b : Node) (w : Qubit) (ha : ctx.draft.wires.get? a = some w)
    (hb : ctx.draft.wires.get? b = some w) : a = b := by
  have hholds : ∀ n, ctx.draft.wires.get? n = some w →
      n ∈ ctx.roster.holders ctx.options.qubitReuse := by
    intro n hn
    rw [hplain]
    exact h.exists_get?_iff.mp ⟨w, hn⟩
  exact h.sound.wireAt_injOn a (hholds a ha) b (hholds b hb)
    ((Draft.wireAt_of_get? ha).trans (Draft.wireAt_of_get? hb).symm)

/-- What is true of the table of wires of a compiled pattern. -/
structure KeepsWires (ctx : CompileContext) (c : Compiled) : Prop where
  /-- Unless wires are reused, each declared node has a wire of its own. -/
  plain : ctx.options.qubitReuse = false →
    (∀ n, (∃ w, c.wires.get? n = some w) ↔ n ∈ ctx.pattern.nodes) ∧
    (∀ a b w, c.wires.get? a = some w → c.wires.get? b = some w → a = b) ∧
    c.qubitCount = ctx.pattern.nodes.size
  /-- If wires are reused, the nodes that the pattern uses have one. -/
  shared : ctx.options.qubitReuse = true → ∀ n, (∃ w, c.wires.get? n = some w) ↔
    n ∈ ctx.pattern.inputs ∨ (∃ command ∈ ctx.pattern.commands, n ∈ command.targets) ∨
      n ∈ ctx.pattern.outputs
  range : ∀ w, w < c.qubitCount ↔ ∃ n, c.wires.get? n = some w
  outputs : c.outputs = ctx.pattern.outputs
  /-- The output wires are those of the output nodes, position by position. -/
  outputQubits : c.outputQubits.map some = c.outputs.map c.wires.get?
  distinct : c.outputQubits.Nodup
  /-- The moves lead to what is compiled. -/
  final : c = (Draft.start.playAll ctx.options.qubitReuse ctx.moves).compiled ctx
  /-- The drafts after each command are among the points between two moves. -/
  commands : ∀ k, ∃ l₁ l₂, ctx.moves = l₁ ++ l₂ ∧
    (Draft.allocateAll ctx .start ctx.pattern.inputs >>= fun d =>
      Draft.commands ctx d (ctx.pattern.commands.take k) 0)
      = .ok (Draft.start.playAll ctx.options.qubitReuse l₁)
  /-- From one such point to any later one, nodes keep their wires. -/
  kept : ∀ l₁ l₂ l₃, ctx.moves = l₁ ++ l₂ ++ l₃ → ∀ n w,
    (Draft.start.playAll ctx.options.qubitReuse l₁).wires.get? n = some w →
    (Draft.start.playAll ctx.options.qubitReuse (l₁ ++ l₂)).wires.get? n = some w

/-- Without reuse there are as many wires as declared nodes. -/
theorem Accepted.numQubits_plain (h : ctx.Accepted) (hplain : ctx.options.qubitReuse = false) :
    ctx.draft.circuit.numQubits = ctx.pattern.nodes.size := by
  have hsound := h.sound
  have hwires := congrArg List.length (hsound.plain hplain).2
  rw [List.length_map, List.length_range] at hwires
  have hnodes : ctx.roster.placed.Perm ctx.pattern.nodes.toList :=
    (List.perm_ext_iff_of_nodup hsound.roster.nodup ctx.pattern.nodes.nodup).mpr
      fun n => h.mem_placed_plain hplain
  rw [← hwires]
  exact hnodes.length_eq

end CompileContext

namespace Pattern

/-- **Wires**: what the table of wires of a compiled pattern is like. -/
theorem compile_wires {p : Pattern} {inputs : SortedMap Node InputState}
    {options : CompileOptions} {c : Compiled} (h : p.compile inputs options = .ok c) :
    CompileContext.KeepsWires ⟨p, inputs, options⟩ c := by
  obtain ⟨haccepted, rfl⟩ := compile_eq_ok_iff.mp h
  set ctx : CompileContext := ⟨p, inputs, options⟩
  have hsound := haccepted.sound
  have hlive := haccepted.outputs_live
  refine ⟨fun hplain => ⟨fun n => ?_, haccepted.get?_injective_plain hplain,
      haccepted.numQubits_plain hplain⟩, fun hreuse n => ?_, haccepted.covers, rfl, ?_, ?_, rfl,
    haccepted.commands_take, fun l₁ l₂ l₃ hl n w => haccepted.get?_wires hl⟩
  · rw [← haccepted.mem_placed_plain hplain]
    exact haccepted.exists_get?_iff
  · have hiff := haccepted.exists_get?_iff (n := n)
    rw [ctx.mem_placed_roster] at hiff
    rw [or_iff_left, or_assoc] at hiff
    · exact hiff
    · rintro ⟨hplain, -⟩
      rw [hreuse] at hplain
      cases hplain
  · show (ctx.pattern.outputs.map ctx.draft.wireAt).map some
      = ctx.pattern.outputs.map ctx.draft.wires.get?
    rw [List.map_map]
    refine List.map_congr_left fun n hn => ?_
    obtain ⟨w, hw⟩ := haccepted.exists_get?_iff.mpr (hlive n hn).1
    rw [hw, Function.comp_apply, Draft.wireAt_of_get? hw]
  · refine haccepted.wellFormed.outputs_nodup.map_on fun a ha b hb heq => ?_
    exact hsound.wireAt_injOn a (Roster.mem_holders_of_live (hlive a ha)) b
      (Roster.mem_holders_of_live (hlive b hb)) heq

/-- The five declared nodes of the chain have five wires; if wires are reused, node 7, on which no
command acts, has none. -/
theorem keepsWires_relay :
    ∃ plain shared, relay.compile ∅ {} = .ok plain ∧
      relay.compile ∅ { qubitReuse := true } = .ok shared ∧
      CompileContext.KeepsWires ⟨relay, ∅, {}⟩ plain ∧
      CompileContext.KeepsWires ⟨relay, ∅, { qubitReuse := true }⟩ shared ∧
      plain.qubitCount = 5 ∧ shared.wires.get? 7 = none := by
  obtain ⟨plain, hplain⟩ := exists_compile_relay {}
  obtain ⟨shared, hshared⟩ := exists_compile_relay { qubitReuse := true }
  have hwires := compile_wires hplain
  have hwires' := compile_wires hshared
  refine ⟨plain, shared, hplain, hshared, hwires, hwires', ?_, ?_⟩
  · rw [(hwires.plain rfl).2.2]
    decide +kernel
  · rw [Option.eq_none_iff_forall_ne_some]
    intro w hw
    have hused := (hwires'.shared rfl 7).mp ⟨w, hw⟩
    revert hused
    decide +kernel

end Pattern

end OneWay
