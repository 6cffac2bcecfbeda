import OneWay.Compile.Draft

/-!
# Compilation as a sequence of moves on nodes

What a compilation does can be said without wires: it gives nodes their wires, applies gates to
nodes, measures nodes. A `Move` is one such step, and `CompileContext.moves` lists the moves that a
pattern asks for. Which moves these are does not depend on how wires are given out; that is left to
`Draft.play`, the effect of a move on a draft.

A `Roster` is what the choice of the moves depends on: which nodes have a wire, which were measured
and where their outcomes are kept. `Roster.fault?` is the reason for which a command is refused.

Nothing in this module can fail. That an accepted pattern is compiled by playing its moves is
proved in `OneWay.Proofs.Compile.Correspondence`.
-/

namespace OneWay

/-- One step of a compilation, on nodes. -/
inductive Move where
  /-- Give a node a wire in the state 0. -/
  | claim (node : Node)
  /-- Apply a gate. -/
  | gate (use : GateUse) (nodes : List Node)
  /-- Measure a node that is not used again. -/
  | measure (node : Node)
  /-- Measure an output node. -/
  | readOut (node : Node)
  /-- Record the amplitudes. -/
  | snapshot
  deriving DecidableEq, Repr

namespace Move

/-- A plain gate on one node. -/
def plain (n : Node) (g : Gate) : Move := .gate { gate := g } [n]

end Move

/-! ### The effect of a move on a draft -/

namespace Draft

/-- The wire of a node. -/
def wireAt (d : Draft) (n : Node) : Qubit := d.wires.getD n 0

/-- The draft with one instruction more, which is not checked. -/
def push (d : Draft) (inst : Instruction) : Draft :=
  { d with circuit := { d.circuit with instructions := d.circuit.instructions.push inst } }

/-- The least free wire, reset, or else a new one, and the draft without it. -/
def claimed (d : Draft) : Qubit × Draft :=
  match d.free.popMin? with
  | some (wire, free) => (wire, { d with free }.push ⟨.reset, [wire], []⟩)
  | none => (d.circuit.numQubits, { d with circuit := d.circuit.addQubit.2 })

/-- The draft after a node was measured into a new classical bit. -/
def read (d : Draft) (n : Node) : Draft :=
  { { d with circuit := d.circuit.addBit.2 }.push
      ⟨.measure, [d.wireAt n], [d.circuit.numBits]⟩ with
    register := d.register.insert n d.circuit.numBits }

/-- The effect of a move, where `reuse` tells whether wires of measured nodes become free. -/
def play (reuse : Bool) (d : Draft) : Move → Draft
  | .claim n => { d.claimed.2 with wires := d.wires.insert n d.claimed.1 }
  | .gate g nodes => d.push ⟨.gate g, nodes.map d.wireAt, []⟩
  | .measure n =>
    { d.read n with
      measured := d.measured.insert n
      free := if reuse then d.free.insert (d.wireAt n) else d.free }
  | .readOut n => d.read n
  | .snapshot => d.push ⟨.snapshot, List.range d.circuit.numQubits, []⟩

/-- The effect of several moves. -/
def playAll (reuse : Bool) (d : Draft) (l : List Move) : Draft := l.foldl (play reuse) d

@[simp] theorem playAll_nil (reuse : Bool) (d : Draft) : d.playAll reuse [] = d := rfl

@[simp] theorem playAll_cons (reuse : Bool) (d : Draft) (m : Move) (l : List Move) :
    d.playAll reuse (m :: l) = (d.play reuse m).playAll reuse l := rfl

theorem playAll_append (reuse : Bool) (d : Draft) (l₁ l₂ : List Move) :
    d.playAll reuse (l₁ ++ l₂) = (d.playAll reuse l₁).playAll reuse l₂ :=
  List.foldl_append

/-- What compilation gives once all moves are played. -/
def compiled (ctx : CompileContext) (d : Draft) : Compiled where
  circuit := d.circuit
  wires := d.wires
  register := d.register
  outputs := ctx.pattern.outputs
  outputQubits := ctx.pattern.outputs.map d.wireAt
  options := ctx.options

end Draft

/-! ### What the moves depend on -/

/-- What is known of the nodes during a compilation. -/
structure Roster where
  /-- The nodes that have a wire, in the order in which they got it. -/
  placed : List Node := []
  /-- The nodes that were measured by a command. -/
  measured : SortedSet Node := ∅
  /-- The classical bits of the nodes that were measured. -/
  register : SortedMap Node Bit := ∅
  /-- Number of classical bits. -/
  bits : Nat := 0

namespace Roster

/-- The effect of a move. -/
def move (r : Roster) : Move → Roster
  | .claim n => { r with placed := r.placed ++ [n] }
  | .measure n =>
    { r with
      measured := r.measured.insert n
      register := r.register.insert n r.bits
      bits := r.bits + 1 }
  | .readOut n => { r with register := r.register.insert n r.bits, bits := r.bits + 1 }
  | .gate .. | .snapshot => r

/-- The effect of several moves. -/
def after (r : Roster) (l : List Move) : Roster := l.foldl move r

@[simp] theorem after_nil (r : Roster) : r.after [] = r := rfl

@[simp] theorem after_cons (r : Roster) (m : Move) (l : List Move) :
    r.after (m :: l) = (r.move m).after l := rfl

theorem after_append (r : Roster) (l₁ l₂ : List Move) :
    r.after (l₁ ++ l₂) = (r.after l₁).after l₂ :=
  List.foldl_append

/-! ### The moves of a command -/

variable (ctx : CompileContext)

/-- Gives a node its wire and prepares it, unless it has one. -/
def touch (r : Roster) (n : Node) : List Move :=
  if n ∈ r.placed then [] else [.claim n, .gate (Draft.preparation ctx n) [n]]

/-- Gives several nodes their wires. -/
def touchAll (r : Roster) : List Node → List Move
  | [] => []
  | n :: l => r.touch ctx n ++ (r.after (r.touch ctx n)).touchAll l

/-- The classical bits of the nodes of a domain that were measured. -/
def measuredBits (r : Roster) (l : List Node) : List Bit := l.filterMap r.register.get?

/-- The parity of the outcomes of a domain that are known beforehand. -/
def knownParity (r : Roster) : List Node → Bool
  | [] => false
  | n :: l =>
    if r.register.contains n then r.knownParity l
    else ctx.pattern.results.getD n false ^^ r.knownParity l

/-- A Pauli gate that acts where the parity of a domain is odd. -/
def correction (r : Roster) (pauli : Gate) (n : Node) (domain : Domain) : List Move :=
  let bits := r.measuredBits domain.toList
  let known := r.knownParity ctx domain.toList
  if bits.isEmpty then if known then [.plain n pauli] else []
  else [.gate { gate := pauli, condition := some ⟨bits, !known⟩ } [n]]

/-- What a command does once the nodes that it acts on have wires. -/
def act (r : Roster) : Command → List Move
  | .prepare _ => []
  | .entangle a b => [.gate { gate := .cz } [a, b]]
  | .measure n plane angle s t =>
    r.correction ctx .x n s ++ r.correction ctx .z n t
      ++ (Draft.rotation plane angle).map (.plain n) ++ [.measure n]
  | .correctX n domain => r.correction ctx .x n domain
  | .correctZ n domain => r.correction ctx .z n domain
  | .clifford n c => c.gates.map (.plain n)

/-- The moves of a command. -/
def commandMoves (r : Roster) (c : Command) : List Move := r.touchAll ctx c.targets ++ r.act ctx c

/-- The moves of several commands. -/
def commandsMoves (r : Roster) : List Command → List Move
  | [] => []
  | c :: l => r.commandMoves ctx c ++ (r.after (r.commandMoves ctx c)).commandsMoves l

/-- Gives nodes a wire, but for those that have one, and leaves them in the state 0. -/
def claimAll (r : Roster) : List Node → List Move
  | [] => []
  | n :: l => if n ∈ r.placed then r.claimAll l else .claim n :: (r.move (.claim n)).claimAll l

/-- The moves at the end of a pattern that give out wires. Unless wires are reused, every declared
node gets one. -/
def lastClaims (r : Roster) : List Move :=
  let outputs := r.claimAll ctx.pattern.outputs
  if ctx.options.qubitReuse then outputs
  else outputs ++ (r.after outputs).claimAll ctx.pattern.nodes.toList

/-- The moves after the last command. -/
def ending (r : Roster) : List Move :=
  r.lastClaims ctx ++ (if ctx.options.saveStatevector then [.snapshot] else [])
    ++ (if ctx.options.measureOutputs then ctx.pattern.outputs.map .readOut else [])

/-! ### Refused commands -/

/-- The fault of using a node that was measured. -/
def measuredFault? (r : Roster) (location : Location) (n : Node) : Option PatternFault :=
  if r.measured.contains n then some (.alreadyMeasured n location) else none

/-- The fault of preparing a node that has a wire. -/
def preparedFault? (r : Roster) (location : Location) : Command → Option PatternFault
  | .prepare n => if n ∈ r.placed then some (.alreadyPrepared n location) else none
  | _ => none

/-- The fault of a node that depends on one without outcome. -/
def domainFault? (r : Roster) (location : Location) (n dependency : Node) : Option PatternFault :=
  if r.register.contains dependency || ctx.pattern.results.contains dependency then none
  else some (.unmeasuredDomain n dependency location)

/-- The first fault of a command. -/
def fault? (r : Roster) (index : Nat) (c : Command) : Option PatternFault :=
  let location := Location.command index
  (c.targets.findSome? (r.measuredFault? location)).or <|
  (r.preparedFault? location c).or <|
  c.targets.findSome? fun n => c.dependencies.findSome? (r.domainFault? ctx location n)

/-- The first fault of several commands from an index on. -/
def firstFault? (r : Roster) : List Command → Nat → Option PatternFault
  | [], _ => none
  | c :: l, i =>
    (r.fault? ctx i c).or ((r.after (r.commandMoves ctx c)).firstFault? l (i + 1))

end Roster

/-! ### The moves of a pattern -/

namespace CompileContext

/-- The moves before the first command. -/
def inputMoves (ctx : CompileContext) : List Move := ({} : Roster).touchAll ctx ctx.pattern.inputs

/-- What is known of the nodes before the first command. -/
def inputRoster (ctx : CompileContext) : Roster := ({} : Roster).after ctx.inputMoves

/-- The moves up to the last command. -/
def bodyMoves (ctx : CompileContext) : List Move :=
  ctx.inputMoves ++ ctx.inputRoster.commandsMoves ctx ctx.pattern.commands

/-- What is known of the nodes after the last command. -/
def bodyRoster (ctx : CompileContext) : Roster := ({} : Roster).after ctx.bodyMoves

/-- All moves that the compilation of a pattern consists of. -/
def moves (ctx : CompileContext) : List Move := ctx.bodyMoves ++ ctx.bodyRoster.ending ctx

end CompileContext

end OneWay
