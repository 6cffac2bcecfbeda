import OneWay.Proofs.Compile.Script

/-!
# A compiled pattern does what its commands say

`Pattern.interpretation` says what a pattern asks for, without wires, classical bits and conditions:
which operations are performed on which nodes if the measurements have given outcomes. The parity
of a domain is taken over the outcomes of its nodes, those that were read and those that are known
beforehand alike.

The compiled circuit, run under its classical control with the same outcomes, performs exactly these
operations (`Pattern.performed_eq_interpretation`).

`Roster.Realizes` is one part of that run: moves that perform some operations whenever the register
holds the outcomes so far. Parts are put together by `Roster.Realizes.append`.
-/

namespace OneWay

/-! ### What a pattern asks for -/

/-- What is known while a pattern is carried out. -/
structure Execution where
  /-- The nodes that came into play, in order. -/
  nodes : List Node := []
  /-- The outcomes that were read. -/
  recorded : SortedMap Node Bool := ∅
  /-- Number of measurements so far. -/
  measured : Nat := 0

namespace Execution

variable (p : Pattern) (inputs : SortedMap Node InputState) (outcomes : Nat → Bool)

/-- The outcome of a node: the one that was read, or else the one that is known beforehand. -/
def outcome (e : Execution) (n : Node) : Bool :=
  match e.recorded.get? n with
  | some b => b
  | none => p.results.getD n false

/-- The parity of the outcomes of some nodes. -/
def parity (e : Execution) : List Node → Bool
  | [] => false
  | n :: l => e.outcome p n ^^ e.parity l

/-- Brings a node into play, unless it is. -/
def join (e : Execution) (n : Node) : Execution :=
  if n ∈ e.nodes then e else { e with nodes := e.nodes ++ [n] }

theorem join_of_mem (e : Execution) {n : Node} (hn : n ∈ e.nodes) : e.join n = e := if_pos hn

theorem join_of_not_mem (e : Execution) {n : Node} (hn : n ∉ e.nodes) :
    e.join n = { e with nodes := e.nodes ++ [n] } := if_neg hn

/-- Brings several nodes into play. -/
def joinAll (e : Execution) (l : List Node) : Execution := l.foldl join e

/-- Prepares a node that comes into play: an input node in its given state, any other in the plus
state. -/
def prepare (e : Execution) (n : Node) : List (Operation Node) :=
  if n ∈ e.nodes then []
  else
    match inputs.get? n with
    | some state => [.gate (.u state.angles.1 state.angles.2 0.0) [n]]
    | none => [.gate .h [n]]

/-- Prepares the nodes that come into play. -/
def prepareAll (e : Execution) : List Node → List (Operation Node)
  | [] => []
  | n :: l => e.prepare inputs n ++ (e.join n).prepareAll l

/-- A Pauli gate where the parity of a domain is odd. -/
def correct (e : Execution) (pauli : Gate) (n : Node) (domain : Domain) : List (Operation Node) :=
  if e.parity p domain.toList then [.gate pauli [n]] else []

/-- Turns the axis of a measurement into the computational one; a turn by 0 is left out. -/
def turn (plane : Plane) (angle : Float) (n : Node) : List (Operation Node) :=
  let theta := angle * Angle.pi
  match plane with
  | .xy => if theta == 0.0 then [.gate .h [n]] else [.gate (.rz (-theta)) [n], .gate .h [n]]
  | .yz => if theta == 0.0 then [] else [.gate (.rx theta) [n]]
  | .xz => if theta == 0.0 then [] else [.gate (.ry (-theta)) [n]]

/-- What a command does to nodes in play. -/
def act (e : Execution) : Command → List (Operation Node)
  | .prepare _ => []
  | .entangle a b => [.gate .cz [a, b]]
  | .measure n plane angle s t =>
    e.correct p .x n s ++ e.correct p .z n t ++ turn plane angle n
      ++ [.measure n (outcomes e.measured)]
  | .correctX n domain => e.correct p .x n domain
  | .correctZ n domain => e.correct p .z n domain
  | .clifford n c => c.gates.map fun g => .gate g [n]

/-- Records the next outcome as that of a node. -/
def read (e : Execution) (n : Node) : Execution :=
  { e with recorded := e.recorded.insert n (outcomes e.measured), measured := e.measured + 1 }

/-- Takes the outcome of a command into account, if it has one. -/
def record (e : Execution) : Command → Execution
  | .measure n .. => e.read outcomes n
  | _ => e

/-- What is known after a command. -/
def step (e : Execution) (c : Command) : Execution := (e.joinAll c.targets).record outcomes c

/-- The operations of several commands. -/
def operations : Execution → List Command → List (Operation Node)
  | _, [] => []
  | e, c :: l =>
    e.prepareAll inputs c.targets ++ (e.joinAll c.targets).act p outcomes c
      ++ (e.step outcomes c).operations l

/-- What is known after several commands. -/
def steps (e : Execution) (l : List Command) : Execution := l.foldl (step outcomes) e

/-- Measures several nodes. -/
def readOut : Execution → List Node → List (Operation Node)
  | _, [] => []
  | e, n :: l => .measure n (outcomes e.measured) :: (e.read outcomes n).readOut l

/-- What is done after the last command, as the options ask: the amplitudes are recorded, and the
output nodes are measured. By then all declared nodes are in play. -/
def finish (options : CompileOptions) (e : Execution) : List (Operation Node) :=
  let last := e.joinAll (p.outputs ++ p.nodes.toList)
  (if options.saveStatevector then [.snapshot last.nodes] else [])
    ++ (if options.measureOutputs then last.readOut outcomes p.outputs else [])

end Execution

/-- The operations that a pattern asks for if its measurements have given outcomes. -/
def Pattern.interpretation (p : Pattern) (inputs : SortedMap Node InputState)
    (options : CompileOptions) (outcomes : Nat → Bool) : List (Operation Node) :=
  let start := ({} : Execution).joinAll p.inputs
  ({} : Execution).prepareAll inputs p.inputs
    ++ start.operations p inputs outcomes p.commands
    ++ (start.steps outcomes p.commands).finish p outcomes options

/-! ### Parts of a run -/

/-- A run on nodes at a point where the register holds the outcomes so far. -/
structure Control.Agrees (outcomes : Nat → Bool) (room : Nat) (k : Control) (r : Roster)
    (e : Execution) : Prop where
  size : k.register.size = room
  measured : k.measured = r.bits
  count : e.measured = r.bits
  stored : ∀ b, b < r.bits → k.register.getD b false = outcomes b
  nodes : e.nodes = r.placed
  valid : r.Valid
  recorded : ∀ n, e.recorded.get? n = (r.register.get? n).map outcomes

namespace Roster

/-- Moves that perform some operations. -/
def Realizes (outcomes : Nat → Bool) (room : Nat) (r : Roster) (e : Execution) (l : List Move)
    (operations : List (Operation Node)) (e' : Execution) : Prop :=
  ∀ k : Control, k.Agrees outcomes room r e →
    k.performed outcomes (r.script l) = operations ∧
      (k.after outcomes (r.script l)).Agrees outcomes room (r.after l) e'

namespace Realizes

variable {outcomes : Nat → Bool} {room : Nat} {r : Roster} {e e₁ e₂ : Execution}

theorem nil : Realizes outcomes room r e [] [] e := fun _ h => ⟨rfl, h⟩

theorem append {r₁ : Roster} {l₁ l₂ : List Move} {o₁ o₂ : List (Operation Node)}
    (h₁ : Realizes outcomes room r e l₁ o₁ e₁) (hr : r.after l₁ = r₁)
    (h₂ : Realizes outcomes room r₁ e₁ l₂ o₂ e₂) :
    Realizes outcomes room r e (l₁ ++ l₂) (o₁ ++ o₂) e₂ := by
  subst hr
  intro k hk
  obtain ⟨hperformed₁, hagrees₁⟩ := h₁ k hk
  obtain ⟨hperformed₂, hagrees₂⟩ := h₂ _ hagrees₁
  rw [script_append, Control.performed_append, Control.after_append, after_append, hperformed₁,
    hperformed₂]
  exact ⟨rfl, hagrees₂⟩

/-- A gate without condition. -/
theorem gate {g : GateUse} (hg : g.condition = none) (nodes : List Node) :
    Realizes outcomes room r e [.gate g nodes] [.gate g.gate nodes] e := by
  intro k hk
  have hallows : k.allows g = true := by rw [Control.allows, hg]
  refine ⟨?_, hk⟩
  simp [script, emits, Control.performed, Control.operations, hallows]

theorem map_plain (n : Node) (gates : List Gate) :
    Realizes outcomes room r e (gates.map (.plain n)) (gates.map fun g => .gate g [n]) e := by
  induction gates with
  | nil => exact nil
  | cons g gates ih => exact (gate rfl [n] : Realizes _ _ r e [.plain n g] _ e).append rfl ih

theorem snapshot : Realizes outcomes room r e [.snapshot] [.snapshot e.nodes] e := by
  intro k hk
  refine ⟨?_, hk⟩
  rw [hk.nodes]
  rfl

theorem claim {n : Node} (hn : n ∉ r.placed) :
    Realizes outcomes room r e [.claim n] [] { e with nodes := e.nodes ++ [n] } := by
  intro k hk
  have hvalid := hk.valid.move (m := .claim n) hn
  refine ⟨rfl, hk.size, hk.measured, hk.count, hk.stored, ?_, hvalid, hk.recorded⟩
  show e.nodes ++ [n] = r.placed ++ [n]
  rw [hk.nodes]

/-- A measurement stores the next outcome in a new classical bit. -/
theorem read {n : Node} {m : Move} (hm : m = .measure n ∨ m = .readOut n) (hn : r.Live n)
    (hroom : r.bits < room) :
    Realizes outcomes room r e [m] [.measure n (outcomes e.measured)] (e.read outcomes n) := by
  intro k hk
  have hscript : r.script [m] = [⟨.measure, [n], [r.bits]⟩] := by
    rcases hm with rfl | rfl <;> rfl
  have hvalid : (r.move m).Valid := by
    rcases hm with rfl | rfl
    · exact hk.valid.move (m := .measure n) hn
    · exact hk.valid.move (m := .readOut n) hn
  have hroster : (r.move m).register = r.register.insert n r.bits ∧
      (r.move m).bits = r.bits + 1 ∧ (r.move m).placed = r.placed := by
    rcases hm with rfl | rfl <;> exact ⟨rfl, rfl, rfl⟩
  obtain ⟨hregister, hbits, hplaced⟩ := hroster
  have hcount : e.measured = k.measured := hk.count.trans hk.measured.symm
  rw [hscript]
  constructor
  · rw [hcount]
    rfl
  · show Control.Agrees outcomes room (k.store outcomes r.bits) (r.move m) (e.read outcomes n)
    refine ⟨?_, ?_, ?_, fun b hb => ?_, ?_, hvalid, fun x => ?_⟩
    · exact (Array.size_setIfInBounds ..).trans hk.size
    · rw [hbits, ← hk.measured]
      rfl
    · rw [hbits, ← hk.count]
      rfl
    · show (k.register.setIfInBounds r.bits (outcomes k.measured)).getD b false = outcomes b
      have hlt : r.bits < k.register.size := by rw [hk.size]; exact hroom
      rw [hbits] at hb
      -- the new bit holds the new outcome, the others are as before
      by_cases hlast : b = r.bits
      · subst hlast
        rw [Array.getD_eq_getD_getElem?, Array.getElem?_setIfInBounds_self_of_lt hlt, hk.measured]
        rfl
      · have hne : r.bits ≠ b := fun heq => hlast heq.symm
        rw [Array.getD_eq_getD_getElem?, Array.getElem?_setIfInBounds_ne hne,
          ← Array.getD_eq_getD_getElem?]
        exact hk.stored b (Nat.lt_of_le_of_ne (Nat.le_of_lt_succ hb) hlast)
    · rw [hplaced, ← hk.nodes]
      rfl
    · show (e.recorded.insert n (outcomes e.measured)).get? x = _
      rw [hregister, SortedMap.get?_insert, SortedMap.get?_insert, hk.recorded x, hk.count]
      split <;> rfl

end Realizes

/-! ### Corrections -/

theorem foldl_xor (register : Array Bool) (bits : List Bit) (acc : Bool) :
    bits.foldl (fun acc b => acc ^^ register.getD b false) acc
      = (acc ^^ bits.foldl (fun acc b => acc ^^ register.getD b false) false) := by
  induction bits generalizing acc with
  | nil => simp
  | cons b bits ih =>
    rw [List.foldl_cons, List.foldl_cons, ih, ih (false ^^ _), Bool.false_xor, Bool.xor_assoc]

/-- The parity of a domain is that of its classical bits and its known outcomes. -/
theorem parity_eq (ctx : CompileContext) {outcomes : Nat → Bool} {room : Nat} {k : Control}
    {r : Roster} {e : Execution} (h : k.Agrees outcomes room r e) (l : List Node) :
    e.parity ctx.pattern l
      = ((r.measuredBits l).foldl (fun acc b => acc ^^ k.register.getD b false) false
        ^^ r.knownParity ctx l) := by
  induction l with
  | nil => rfl
  | cons n l ih =>
    rw [Execution.parity, ih, Execution.outcome, h.recorded n]
    cases hreg : r.register.get? n with
    | some b =>
      obtain ⟨hbits, hknown⟩ := domain_cons_of_some ctx hreg l
      rw [hbits, hknown, List.foldl_cons, h.stored b (h.valid.register_lt n b hreg),
        Bool.false_xor, foldl_xor _ _ (outcomes b), Bool.xor_assoc]
      rfl
    | none =>
      obtain ⟨hbits, hknown⟩ := domain_cons_of_none ctx hreg l
      rw [hbits, hknown, Bool.xor_left_comm]
      rfl

/-- A correction is performed where the parity of its domain is odd. -/
theorem realizes_correction (ctx : CompileContext) {outcomes : Nat → Bool} {room : Nat}
    {r : Roster} {e : Execution} (pauli : Gate) (n : Node) (domain : Domain) :
    Realizes outcomes room r e (r.correction ctx pauli n domain)
      (e.correct ctx.pattern pauli n domain) e := by
  intro k hk
  have hparity := parity_eq ctx hk domain.toList
  unfold correction Execution.correct
  simp only
  split
  · next hbits =>
    rw [List.isEmpty_iff.mp hbits, List.foldl_nil, Bool.false_xor] at hparity
    rw [hparity]
    split
    · exact Realizes.gate rfl [n] k hk
    · exact Realizes.nil k hk
  · -- the condition asks for odd parity together with the known outcomes
    set bits := r.measuredBits domain.toList
    set known := r.knownParity ctx domain.toList
    have hallows : k.allows { gate := pauli, condition := some ⟨bits, !known⟩ }
        = e.parity ctx.pattern domain.toList := by
      rw [hparity]
      show (bits.foldl _ false == !known) = _
      cases bits.foldl (fun acc b => acc ^^ k.register.getD b false) false <;>
        cases known <;> rfl
    refine ⟨?_, hk⟩
    simp only [script, emits, Control.performed, Control.operations, List.append_nil, hallows]

/-- Corrections depend on the outcomes so far only. -/
theorem realizes_correction_of_register (ctx : CompileContext) {outcomes : Nat → Bool}
    {room : Nat} {r r' : Roster} {e : Execution} (hreg : r'.register = r.register) (pauli : Gate)
    (n : Node) (domain : Domain) :
    Realizes outcomes room r' e (r.correction ctx pauli n domain)
      (e.correct ctx.pattern pauli n domain) e := by
  rw [← correction_congr ctx hreg]
  exact realizes_correction ctx pauli n domain

/-! ### Commands -/

variable (ctx : CompileContext) {outcomes : Nat → Bool} {room : Nat} {r : Roster} {e : Execution}

theorem realizes_touch (n : Node) :
    Realizes outcomes room r e (r.touch ctx n) (e.prepare ctx.inputs n) (e.join n) := by
  intro k hk
  have hmem : n ∈ e.nodes ↔ n ∈ r.placed := by rw [hk.nodes]
  by_cases hn : n ∈ r.placed
  · have htouch : r.touch ctx n = [] := if_pos hn
    have hprepare : e.prepare ctx.inputs n = [] := if_pos (hmem.mpr hn)
    rw [htouch, hprepare, e.join_of_mem (hmem.mpr hn)]
    exact Realizes.nil k hk
  · have hnew : n ∉ e.nodes := fun h => hn (hmem.mp h)
    have htouch : r.touch ctx n = [.claim n] ++ [.gate (Draft.preparation ctx n) [n]] := if_neg hn
    have hprepare : e.prepare ctx.inputs n = [] ++ [.gate (Draft.preparation ctx n).gate [n]] := by
      rw [Execution.prepare, if_neg hnew, Draft.preparation]
      cases ctx.inputs.get? n <;> rfl
    rw [htouch, hprepare, e.join_of_not_mem hnew]
    exact (Realizes.claim hn).append rfl (Realizes.gate rfl [n]) k hk

theorem realizes_touchAll (l : List Node) :
    Realizes outcomes room r e (r.touchAll ctx l) (e.prepareAll ctx.inputs l) (e.joinAll l) := by
  induction l generalizing r e with
  | nil => exact Realizes.nil
  | cons n l ih => exact (realizes_touch ctx n).append rfl ih

theorem map_rotation (plane : Plane) (angle : Float) (n : Node) :
    (Draft.rotation plane angle).map (fun g => Operation.gate g [n])
      = Execution.turn plane angle n := by
  unfold Draft.rotation Execution.turn
  cases plane <;> simp only <;> split <;> rfl

theorem realizes_act {r' : Roster} (hreg : r'.register = r.register) {c : Command}
    (hlive : ∀ n ∈ c.targets, r'.Live n) (hroom : (r'.record c).bits ≤ room) :
    Realizes outcomes room r' e (r.act ctx c) (e.act ctx.pattern outcomes c)
      (e.record outcomes c) := by
  cases c with
  | prepare n => exact Realizes.nil
  | entangle a b => exact Realizes.gate rfl [a, b]
  | measure n plane angle s t =>
    have hn := hlive n (List.mem_cons_self ..)
    rw [act, Execution.act, ← map_rotation]
    have hx : Realizes outcomes room r' e (r.correction ctx .x n s)
        (e.correct ctx.pattern .x n s) e := realizes_correction_of_register ctx hreg .x n s
    have hz : Realizes outcomes room r' e (r.correction ctx .z n t)
        (e.correct ctx.pattern .z n t) e := realizes_correction_of_register ctx hreg .z n t
    have hturn : Realizes outcomes room r' e ((Draft.rotation plane angle).map (.plain n))
        ((Draft.rotation plane angle).map fun g => .gate g [n]) e := Realizes.map_plain n _
    -- nothing before the measurement changes what is known of the nodes
    refine ((hx.append (after_correction ..) hz).append ?_ hturn).append ?_
      (Realizes.read (.inl rfl) hn hroom)
    · rw [after_append, after_correction, after_correction]
    · rw [after_append, after_append, after_correction, after_correction, after_map_plain]
  | correctX n domain => exact realizes_correction_of_register ctx hreg .x n domain
  | correctZ n domain => exact realizes_correction_of_register ctx hreg .z n domain
  | clifford n c => exact Realizes.map_plain n c.gates

/-- **One command**: its moves prepare the nodes that come into play and do what it says. -/
theorem realizes_commandMoves {c : Command} {i : Nat} (hf : r.fault? ctx i c = none)
    (hroom : (r.step c).bits ≤ room) :
    Realizes outcomes room r e (r.commandMoves ctx c)
      (e.prepareAll ctx.inputs c.targets
        ++ (e.joinAll c.targets).act ctx.pattern outcomes c) (e.step outcomes c) := by
  have htargets := ((fault?_eq_none_iff ctx).mp hf).1
  exact (realizes_touchAll ctx c.targets).append (after_touchAll ..)
    (realizes_act ctx (r.placeAll_frame c.targets).2.1 (live_placeAll htargets) hroom)

theorem bits_le_after (r : Roster) (l : List Move) : r.bits ≤ (r.after l).bits := by
  induction l generalizing r with
  | nil => exact Nat.le_refl _
  | cons m l ih =>
    have hmove : r.bits ≤ (r.move m).bits := by
      cases m with
      | measure n => exact Nat.le_succ _
      | readOut n => exact Nat.le_succ _
      | _ => exact Nat.le_refl _
    exact Nat.le_trans hmove (ih _)

/-- **Several commands**: their moves perform what they say. -/
theorem realizes_commandsMoves {l : List Command} {i : Nat} (hf : r.firstFault? ctx l i = none)
    (hroom : (r.steps l).bits ≤ room) :
    Realizes outcomes room r e (r.commandsMoves ctx l)
      (e.operations ctx.pattern ctx.inputs outcomes l) (e.steps outcomes l) := by
  induction l generalizing r e i with
  | nil => exact Realizes.nil
  | cons c l ih =>
    rw [firstFault?, Option.or_eq_none_iff, after_commandMoves] at hf
    have hstep : (r.step c).bits ≤ room := by
      have hle := bits_le_after (r.step c) ((r.step c).commandsMoves ctx l)
      rw [after_commandsMoves] at hle
      exact Nat.le_trans hle hroom
    rw [commandsMoves, after_commandMoves]
    exact (realizes_commandMoves ctx hf.1 hstep).append (after_commandMoves ..) (ih hf.2 hroom)

/-! ### The end of a pattern -/

theorem realizes_claimAll (l : List Node) :
    Realizes outcomes room r e (r.claimAll l) [] (e.joinAll l) := by
  induction l generalizing r e with
  | nil => exact Realizes.nil
  | cons n l ih =>
    intro k hk
    have hmem : n ∈ e.nodes ↔ n ∈ r.placed := by rw [hk.nodes]
    by_cases hn : n ∈ r.placed
    · have hclaim : r.claimAll (n :: l) = r.claimAll l := if_pos hn
      rw [hclaim, Execution.joinAll, List.foldl_cons, e.join_of_mem (hmem.mpr hn)]
      exact ih k hk
    · have hclaim : r.claimAll (n :: l) = [.claim n] ++ (r.after [.claim n]).claimAll l :=
        if_neg hn
      rw [hclaim, Execution.joinAll, List.foldl_cons,
        e.join_of_not_mem fun h => hn (hmem.mp h)]
      exact (Realizes.claim hn).append rfl ih k hk

theorem realizes_map_readOut {l : List Node} (hl : ∀ n ∈ l, r.Live n)
    (hroom : r.bits + l.length ≤ room) :
    Realizes outcomes room r e (l.map .readOut) (e.readOut outcomes l)
      (l.foldl (Execution.read outcomes) e) := by
  induction l generalizing r e with
  | nil => exact Realizes.nil
  | cons n l ih =>
    rw [List.length_cons] at hroom
    have hn := hl n (List.mem_cons_self ..)
    have hrest : (r.move (.readOut n)).bits + l.length ≤ room := by
      show r.bits + 1 + l.length ≤ room
      omega
    exact (Realizes.read (.inr rfl) hn (by omega)).append rfl
      (ih (fun x hx => hl x (List.mem_cons_of_mem _ hx)) hrest)

theorem bits_after_map_readOut (r : Roster) (l : List Node) :
    (r.after (l.map .readOut)).bits = r.bits + l.length := by
  induction l generalizing r with
  | nil => rfl
  | cons n l ih =>
    rw [List.map_cons, after_cons, ih, List.length_cons]
    show r.bits + 1 + l.length = r.bits + (l.length + 1)
    omega

theorem realizes_lastClaims (hplain : ctx.options.qubitReuse = false) :
    Realizes outcomes room r e (r.lastClaims ctx) []
      (e.joinAll (ctx.pattern.outputs ++ ctx.pattern.nodes.toList)) := by
  unfold lastClaims
  simp only [hplain]
  rw [Execution.joinAll, List.foldl_append]
  exact (realizes_claimAll ctx.pattern.outputs).append rfl
    (realizes_claimAll ctx.pattern.nodes.toList)

/-- **The end of a pattern**, where wires are not reused. -/
theorem realizes_ending (hplain : ctx.options.qubitReuse = false)
    (hout : ∀ n ∈ ctx.pattern.outputs, n ∉ r.measured)
    (hroom : (r.after (r.ending ctx)).bits ≤ room) :
    ∃ e', Realizes outcomes room r e (r.ending ctx)
      (e.finish ctx.pattern outcomes ctx.options) e' := by
  unfold Execution.finish
  set last := e.joinAll (ctx.pattern.outputs ++ ctx.pattern.nodes.toList)
  have hclaims : Realizes outcomes room r e (r.lastClaims ctx) [] last :=
    realizes_lastClaims ctx hplain
  have hsnapshot : Realizes outcomes room (r.lastPlaced ctx) last
      (if ctx.options.saveStatevector then [.snapshot] else [])
      (if ctx.options.saveStatevector then [.snapshot last.nodes] else []) last := by
    split
    · exact Realizes.snapshot
    · exact Realizes.nil
  have hafter : r.after (r.lastClaims ctx
      ++ if ctx.options.saveStatevector then [.snapshot] else []) = r.lastPlaced ctx := by
    rw [after_append, after_lastClaims]
    split <;> rfl
  rw [ending, after_append, hafter] at hroom
  have hreadOut : ∃ e', Realizes outcomes room (r.lastPlaced ctx) last
      (if ctx.options.measureOutputs then ctx.pattern.outputs.map .readOut else [])
      (if ctx.options.measureOutputs then last.readOut outcomes ctx.pattern.outputs else [])
      e' := by
    split
    · next hmeasure =>
      rw [if_pos hmeasure, bits_after_map_readOut] at hroom
      exact ⟨_, realizes_map_readOut (fun n hn => live_lastPlaced ctx hn (hout n hn)) hroom⟩
    · exact ⟨_, Realizes.nil⟩
  obtain ⟨e', hreadOut⟩ := hreadOut
  exact ⟨e', (hclaims.append (after_lastClaims ..) hsnapshot).append hafter hreadOut⟩

end Roster

namespace Pattern

/-- The script of an accepted pattern performs what the pattern asks for. -/
theorem performed_script {ctx : CompileContext} (h : ctx.Accepted)
    (hplain : ctx.options.qubitReuse = false) (outcomes : Nat → Bool) :
    (Control.start ctx.roster.bits).performed outcomes (Roster.script {} ctx.moves)
      = ctx.pattern.interpretation ctx.inputs ctx.options outcomes := by
  set room := ctx.roster.bits with hroom
  set start := ({} : Execution).joinAll ctx.pattern.inputs
  have hinputs : Roster.Realizes outcomes room {} {} ctx.inputMoves
      (({} : Execution).prepareAll ctx.inputs ctx.pattern.inputs) start :=
    Roster.realizes_touchAll ctx ctx.pattern.inputs
  -- inputs, commands and end, each with the roster that the part before leaves behind
  have hroster : ctx.roster = ctx.bodyRoster.after (ctx.bodyRoster.ending ctx) := by
    rw [CompileContext.roster, CompileContext.moves, Roster.after_append]
    rfl
  have hbody : (ctx.inputRoster.steps ctx.pattern.commands).bits ≤ room := by
    rw [← ctx.bodyRoster_eq, hroom, hroster]
    exact Roster.bits_le_after ..
  have hcommands : Roster.Realizes outcomes room ctx.inputRoster start _ _ _ :=
    Roster.realizes_commandsMoves ctx h.ordered hbody
  have hending : ∃ e, Roster.Realizes outcomes room ctx.bodyRoster
      (start.steps outcomes ctx.pattern.commands) (ctx.bodyRoster.ending ctx) _ e :=
    Roster.realizes_ending ctx hplain (ctx.outputs_not_measured h.wellFormed)
      (Nat.le_of_eq (congrArg Roster.bits hroster.symm))
  obtain ⟨e, hending⟩ := hending
  have hstart : (Control.start room).Agrees outcomes room {} {} :=
    ⟨Array.size_replicate, rfl, rfl, fun b hb => absurd hb (Nat.not_lt_zero b), rfl,
      Roster.valid_empty, fun n => rfl⟩
  exact (((hinputs.append rfl hcommands).append rfl hending) _ hstart).1

/-- **Meaning**: unless wires are reused, a compiled pattern performs on its wires what the pattern
asks for on its nodes, whatever the outcomes. Every shot of a simulation is such a run. -/
theorem performed_eq_interpretation {p : Pattern} {inputs : SortedMap Node InputState}
    {options : CompileOptions} {c : Compiled} (hplain : options.qubitReuse = false)
    (h : p.compile inputs options = .ok c) :
    (∀ outcomes, (c.circuit.performed outcomes).map (Operation.map c.nodeAt?)
      = (p.interpretation inputs options outcomes).map (Operation.map some)) ∧
    ∀ (σ : Type) [RandomSource σ] t noise (source : σ) shot,
      Shot.run t noise c.circuit source = .ok shot →
      ∃ outcomes, Shot.Follows t noise (Shot.start c.circuit source)
        (c.circuit.performed outcomes) shot := by
  obtain ⟨haccepted, rfl⟩ := compile_eq_ok_iff.mp h
  refine ⟨fun outcomes => ?_, fun σ _ t noise source shot hrun => ?_⟩
  · set ctx : CompileContext := ⟨p, inputs, options⟩
    have hbits : ctx.draft.circuit.numBits = ctx.roster.bits := haccepted.sound.bits
    have hsteps : ctx.draft.circuit.steps.map (·.map (ctx.draft.compiled ctx).nodeAt?)
        = (Roster.script {} ctx.moves).map (·.map some) := by
      rw [Circuit.steps_map, ← relabel_instructions_plain haccepted hplain]
    show (Circuit.performed ctx.draft.circuit outcomes).map _ = _
    rw [Circuit.performed, ← Control.performed_map, hsteps, Control.performed_map, hbits,
      performed_script haccepted hplain]
  · obtain ⟨outcomes, hfollows, -⟩ := Shot.run_follows hrun
    exact ⟨outcomes, hfollows⟩

/-- If only the first measurement of the chain gives 1, the known outcome cancels the phase flip
of node 1 and flips node 2. -/
theorem performed_relay :
    ∃ c, relay.compile ∅ {} = .ok c ∧
      (c.circuit.performed (· = 0)).map (Operation.map c.nodeAt?)
        = [.gate .h [some 0], .gate .h [some 1], .gate .cz [some 0, some 1],
          .gate (.rz (-(0.25 * Angle.pi))) [some 0], .gate .h [some 0], .measure (some 0) true,
          .gate .h [some 2], .gate .cz [some 1, some 2], .gate .x [some 1],
          .gate (.rx (0.5 * Angle.pi)) [some 1], .measure (some 1) false, .gate .x [some 2],
          .gate .z [some 2]] := by
  obtain ⟨c, h⟩ := exists_compile_relay {}
  refine ⟨c, h, ((performed_eq_interpretation rfl h).1 _).trans ?_⟩
  decide +kernel

end Pattern

end OneWay
