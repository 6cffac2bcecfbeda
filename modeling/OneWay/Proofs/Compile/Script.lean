import OneWay.Proofs.Compile.Correspondence
import OneWay.Proofs.Simulation.Control

/-!
# The instructions of a compilation, on nodes

The moves of a compilation say which instruction acts on which nodes before any wire is given out:
`Roster.script`. `Draft.trace` is the same list on wires, as it is emitted.

Unless wires are reused, a circuit is its script with nodes replaced by their wires
(`Pattern.relabel_instructions_plain`): each wire belongs to one node for good, so the table of
wires can be read backwards.
-/

namespace OneWay

/-! ### The nodes of wires -/

/-- The node of a wire. -/
def Compiled.nodeAt? (c : Compiled) (w : Qubit) : Option Node :=
  (c.wires.entries.find? (·.2 = w)).map (·.1)

/-- A table without repeated wires can be read backwards. -/
theorem Compiled.nodeAt?_eq_some {c : Compiled} {n : Node} {w : Qubit}
    (hn : c.wires.get? n = some w) (hinj : ∀ x, c.wires.get? x = some w → x = n) :
    c.nodeAt? w = some n := by
  unfold nodeAt?
  cases hfind : c.wires.entries.find? (·.2 = w) with
  | none =>
    have hne := List.find?_eq_none.mp hfind (n, w) (SortedMap.get?_eq_some_iff.mp hn)
    simp at hne
  | some e =>
    obtain ⟨x, w'⟩ := e
    have hw : w' = w := by simpa using List.find?_some hfind
    subst hw
    have hx := hinj x (SortedMap.get?_eq_some_iff.mpr (List.mem_of_find?_eq_some hfind))
    rw [hx]
    rfl

/-! ### What moves emit -/

namespace Roster

/-- The instructions of a move. -/
def emits (r : Roster) : Move → List (InstructionOn Node)
  | .claim _ => []
  | .gate g nodes => [⟨.gate g, nodes, []⟩]
  | .measure n | .readOut n => [⟨.measure, [n], [r.bits]⟩]
  | .snapshot => [⟨.snapshot, r.placed, []⟩]

/-- The instructions of several moves. -/
def script : Roster → List Move → List (InstructionOn Node)
  | _, [] => []
  | r, m :: l => r.emits m ++ (r.move m).script l

theorem script_append (r : Roster) (l₁ l₂ : List Move) :
    r.script (l₁ ++ l₂) = r.script l₁ ++ (r.after l₁).script l₂ := by
  induction l₁ generalizing r with
  | nil => rfl
  | cons m l ih => simp [script, ih]

end Roster

namespace Draft

/-- The instructions of a move, on wires. -/
def emits (d : Draft) : Move → List Instruction
  | .claim _ =>
    match d.free.popMin? with
    | some (w, _) => [⟨.reset, [w], []⟩]
    | none => []
  | .gate g nodes => [⟨.gate g, nodes.map d.wireAt, []⟩]
  | .measure n | .readOut n => [⟨.measure, [d.wireAt n], [d.circuit.numBits]⟩]
  | .snapshot => [⟨.snapshot, List.range d.circuit.numQubits, []⟩]

/-- The instructions of several moves, on wires. -/
def trace (reuse : Bool) : Draft → List Move → List Instruction
  | _, [] => []
  | d, m :: l => d.emits m ++ (d.play reuse m).trace reuse l

theorem instructions_play (reuse : Bool) (d : Draft) (m : Move) :
    (d.play reuse m).circuit.instructions.toList = d.circuit.instructions.toList ++ d.emits m := by
  cases m with
  | claim n =>
    unfold play claimed emits
    cases d.free.popMin? with
    | none => exact (List.append_nil _).symm
    | some popped => exact Array.toList_push
  | gate g nodes => exact Array.toList_push
  | measure n => exact Array.toList_push
  | readOut n => exact Array.toList_push
  | snapshot => exact Array.toList_push

/-- A run adds its trace to a circuit. -/
theorem instructions_playAll (reuse : Bool) (d : Draft) (l : List Move) :
    (d.playAll reuse l).circuit.instructions.toList
      = d.circuit.instructions.toList ++ d.trace reuse l := by
  induction l generalizing d with
  | nil => exact (List.append_nil _).symm
  | cons m l ih => rw [playAll_cons, ih, instructions_play, trace, List.append_assoc]

/-! ### Wires that are not reused -/

variable {d : Draft} {r : Roster}

/-- Wires that are labelled by their nodes give the nodes back. -/
theorem map_label_wireAt {f : Qubit → Option Node} {l : List Node}
    (h : ∀ n ∈ l, f (d.wireAt n) = some n) : (l.map d.wireAt).map f = l.map some := by
  rw [List.map_map]
  exact List.map_congr_left h

/-- Where each node has a wire of its own, a move emits its instructions with nodes replaced by
wires. -/
theorem Sound.relabel_emits (h : Sound false d r) {m : Move} (hm : r.Admits m)
    {f : Qubit → Option Node} (hf : ∀ n ∈ r.placed, f (d.wireAt n) = some n) :
    (d.emits m).map (·.relabel f) = (r.emits m).map (·.map some) := by
  cases m with
  | claim n =>
    have hfree := SortedSet.popMin?_eq_none_iff.mpr (h.plain rfl).1
    simp [emits, Roster.emits, hfree]
  | gate g nodes =>
    have hnodes := map_label_wireAt fun n hn => hf n (hm.2.2.1 n hn).1
    simp only [emits, Roster.emits, List.map_singleton, Instruction.relabel, InstructionOn.map,
      hnodes]
  | measure n =>
    simp [emits, Roster.emits, Instruction.relabel, InstructionOn.map, hf n hm.1, h.bits]
  | readOut n =>
    simp [emits, Roster.emits, Instruction.relabel, InstructionOn.map, hf n hm.1, h.bits]
  | snapshot =>
    have hplaced := map_label_wireAt hf
    rw [(h.plain rfl).2] at hplaced
    simp only [emits, Roster.emits, List.map_singleton, Instruction.relabel, InstructionOn.map,
      hplaced]

/-- **A run without reuse**: its trace is its script, with nodes replaced by wires. -/
theorem Sound.relabel_trace (h : Sound false d r) {l : List Move} (hl : r.AdmitsAll l)
    {f : Qubit → Option Node}
    (hf : ∀ n ∈ (r.after l).placed, f ((d.playAll false l).wireAt n) = some n) :
    (d.trace false l).map (·.relabel f) = (r.script l).map (·.map some) := by
  induction l generalizing d r with
  | nil => rfl
  | cons m l ih =>
    -- the label of a node that has a wire now is the one of the end, since nodes keep their wires
    have hnow : ∀ n ∈ r.placed, f (d.wireAt n) = some n := by
      intro n hn
      rw [← wireAt_playAll false d hl hn]
      exact hf n (Roster.mem_placed_after (m :: l) hn)
    rw [trace, Roster.script, List.map_append, List.map_append, h.relabel_emits hl.1 hnow,
      ih (h.play hl.1) hl.2 hf]

end Draft

namespace Pattern

/-- **Circuits without reuse**: the instructions of the circuit are those of the script, with nodes
replaced by wires. -/
theorem relabel_instructions_plain {ctx : CompileContext} (h : ctx.Accepted)
    (hplain : ctx.options.qubitReuse = false) :
    (ctx.draft.circuit.instructions.toList.map
        (·.relabel (ctx.draft.compiled ctx).nodeAt?))
      = (Roster.script {} ctx.moves).map (·.map some) := by
  have hsound := h.sound
  have hwires : ∀ n w, ctx.draft.wires.get? n = some w →
      n ∈ ctx.roster.placed ∧ ctx.draft.wireAt n = w := by
    intro n w hn
    exact ⟨(hsound.placed n).mp (by rw [hn]; rfl), Draft.wireAt_of_get? hn⟩
  rw [hplain] at hsound
  -- no two nodes share a wire, so the table names the node of each
  have hlabel : ∀ n ∈ ctx.roster.placed,
      (ctx.draft.compiled ctx).nodeAt? (ctx.draft.wireAt n) = some n := by
    intro n hn
    obtain ⟨w, hw⟩ := Option.isSome_iff_exists.mp ((hsound.placed n).mpr hn)
    rw [(hwires n w hw).2]
    refine Compiled.nodeAt?_eq_some hw fun x hx => ?_
    obtain ⟨hxp, hxw⟩ := hwires x w hx
    exact hsound.wireAt_injOn x hxp n hn (hxw.trans (hwires n w hw).2.symm)
  have hdraft : Draft.start.playAll false ctx.moves = ctx.draft := by
    rw [CompileContext.draft, hplain]
  have htrace := (Draft.sound_start false).relabel_trace h.admitsAll
    (f := (ctx.draft.compiled ctx).nodeAt?)
  have hinstructions := Draft.instructions_playAll false .start ctx.moves
  rw [hdraft] at htrace hinstructions
  rw [hinstructions]
  exact htrace hlabel

end Pattern

end OneWay
