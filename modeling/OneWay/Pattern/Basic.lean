import OneWay.Sorted.Map
import OneWay.Pattern.Fault

/-!
# Measurement patterns

A pattern declares its nodes, the edges of its graph state, its input and output nodes in
register order, its commands in execution order and the outcomes that are known beforehand.

`Pattern.extend` grows a pattern step by step and declares the nodes that a step acts on.
-/

namespace OneWay

/-- An edge of the graph state. The smaller node comes first, so each edge has one form. -/
structure Edge where
  lo : Node
  hi : Node
  ordered : lo ≤ hi
  deriving DecidableEq, Repr

namespace Edge

/-- The edge between two nodes, in whichever order they are given. -/
def between (a b : Node) : Edge :=
  if h : a ≤ b then ⟨a, b, h⟩
  else ⟨b, a, by
    rw [UInt32.le_iff_toNat_le] at h ⊢
    omega⟩

instance : Ord Edge := ⟨compareLex (compareOn Edge.lo) (compareOn Edge.hi)⟩

instance : Std.TransOrd Edge :=
  inferInstanceAs (Std.TransCmp (compareLex (compareOn Edge.lo) (compareOn Edge.hi)))

instance : Std.LawfulEqOrd Edge where
  compare_self {e} := by
    show (compare e.lo e.lo).then (compare e.hi e.hi) = .eq
    simp
  eq_of_compare {e f} h := by
    have h' : (compare e.lo f.lo).then (compare e.hi f.hi) = .eq := h
    rw [Ordering.then_eq_eq] at h'
    obtain ⟨lo, hi, _⟩ := e
    obtain ⟨lo', hi', _⟩ := f
    have h₁ : lo = lo' := Std.LawfulEqCmp.eq_of_compare h'.1
    have h₂ : hi = hi' := Std.LawfulEqCmp.eq_of_compare h'.2
    subst h₁ h₂
    rfl

end Edge

/-- A measurement pattern. -/
structure Pattern where
  /-- The declared nodes. -/
  nodes : SortedSet Node
  /-- The edges of the graph state. -/
  edges : SortedSet Edge
  /-- The nodes that carry the input, in register order. -/
  inputs : List Node
  /-- The nodes that carry the output, in register order. -/
  outputs : List Node
  /-- The commands in execution order. -/
  commands : List Command
  /-- The outcomes that are known beforehand. -/
  results : SortedMap Node Bool
  deriving DecidableEq, Repr, Inhabited

namespace Pattern

/-- The pattern without nodes. -/
def empty : Pattern := ⟨∅, ∅, [], [], [], ∅⟩

/-- A pattern from lists of its parts. -/
def ofParts (nodes : List Node) (edges : List (Node × Node)) (inputs outputs : List Node)
    (commands : List Command) (results : List (Node × Bool)) : Pattern where
  nodes := .ofList nodes
  edges := .ofList (edges.map fun (a, b) => Edge.between a b)
  inputs := inputs
  outputs := outputs
  commands := commands
  results := .ofList results

/-- Whether a node is declared. -/
def declares (p : Pattern) (n : Node) : Bool := p.nodes.contains n

/-- Whether a node is an input node. -/
def isInput (p : Pattern) (n : Node) : Bool := p.inputs.contains n

/-- Whether a node is an output node. -/
def isOutput (p : Pattern) (n : Node) : Bool := p.outputs.contains n

/-- Number of measurement commands. -/
def numMeasurements (p : Pattern) : Nat := p.commands.countP Command.isMeasure

/-- The edges of the graph state between declared nodes. -/
def graphEdges (p : Pattern) : List Edge :=
  p.edges.toList.filter fun e => p.declares e.lo && p.declares e.hi

/-! ### Growing a pattern -/

/-- One addition to a pattern. -/
inductive Step where
  /-- Declare a node. -/
  | node (n : Node)
  /-- Append an input node. -/
  | input (n : Node)
  /-- Append an output node. -/
  | output (n : Node)
  /-- Append a command. -/
  | command (c : Command)
  /-- Record an outcome. -/
  | result (n : Node) (outcome : Bool)
  deriving DecidableEq, Repr

/-- The pattern with a node declared. -/
def declare (p : Pattern) (n : Node) : Pattern := { p with nodes := p.nodes.insert n }

/-- The pattern with one addition. The nodes that the addition acts on are declared; those of the
domains of a command are not. An entanglement becomes an edge. -/
def extend (p : Pattern) : Step → Pattern
  | .node n => p.declare n
  | .input n => { p.declare n with inputs := p.inputs ++ [n] }
  | .output n => { p.declare n with outputs := p.outputs ++ [n] }
  | .result n b => { p.declare n with results := p.results.insert n b }
  | .command (.entangle a b) =>
    { (p.declare a).declare b with
      edges := p.edges.insert (Edge.between a b)
      commands := p.commands ++ [.entangle a b] }
  | .command c => { c.targets.foldl declare p with commands := p.commands ++ [c] }

/-- The pattern grown from nothing. -/
def ofSteps (steps : List Step) : Pattern := steps.foldl extend empty

end Pattern

end OneWay
