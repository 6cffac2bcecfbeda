import OneWay.Pattern.Command

/-!
# What can be wrong with a pattern

A `PatternFault` names the offending node and the place in the pattern where it was found.
-/

namespace OneWay

/-- A place in a pattern. -/
inductive Location where
  /-- The command at an index. -/
  | command (index : Nat)
  | edges
  | inputNodes
  | outputNodes
  /-- The outcomes that are known beforehand. -/
  | results
  deriving DecidableEq, Repr

/-- The place in words. -/
def Location.text : Location → String
  | .command i => s!"command #{i}"
  | .edges => "edges"
  | .inputNodes => "input nodes"
  | .outputNodes => "output nodes"
  | .results => "results"

/-- A way in which a pattern is malformed. -/
inductive PatternFault where
  /-- A node is used that the pattern does not declare. -/
  | undeclared (node : Node) (location : Location)
  /-- A command depends on a node that has no outcome yet. -/
  | unmeasuredDomain (node domainNode : Node) (location : Location)
  /-- An output node is measured. -/
  | outputMeasured (node : Node) (location : Location)
  /-- A measurement angle is infinite or no number. -/
  | nonFiniteAngle (node : Node) (angle : Float) (location : Location)
  /-- A command acts on a node that was measured before. -/
  | alreadyMeasured (node : Node) (location : Location)
  /-- A preparation of a node that is in use. -/
  | alreadyPrepared (node : Node) (location : Location)
  /-- A node is entangled with itself. -/
  | selfEntangled (node : Node) (location : Location)
  /-- A node stands twice in an ordered list. -/
  | duplicate (node : Node) (location : Location)
  /-- There are only 24 Clifford operators. -/
  | invalidClifford (index : Nat)
  deriving DecidableEq, Repr

namespace PatternFault

/-- Where the fault is; an invalid operator number stands outside any pattern. -/
def location? : PatternFault → Option Location
  | .undeclared _ l | .unmeasuredDomain _ _ l | .outputMeasured _ l | .nonFiniteAngle _ _ l
  | .alreadyMeasured _ l | .alreadyPrepared _ l | .selfEntangled _ l | .duplicate _ l => some l
  | .invalidClifford _ => none

/-- The fault in words. -/
def message : PatternFault → String
  | .undeclared n l =>
    s!"Node {n.toNat} referenced by {l.text} is not declared in the pattern"
  | .unmeasuredDomain n d l =>
    s!"{l.text} on node {n.toNat} depends on node {d.toNat}, which has not been measured"
  | .outputMeasured n l => s!"Output node {n.toNat} is measured by {l.text}"
  | .nonFiniteAngle n a l =>
    s!"Node {n.toNat} is measured by {l.text} with non-finite angle {Decimal.inMessage a}"
  | .alreadyMeasured n l => s!"Node {n.toNat} is used by {l.text} after being measured"
  | .alreadyPrepared n l => s!"Node {n.toNat} is prepared by {l.text} but is already live"
  | .selfEntangled n l => s!"Node {n.toNat} is entangled with itself in {l.text}"
  | .duplicate n l => s!"Node {n.toNat} appears more than once in {l.text}"
  | .invalidClifford i => s!"Invalid Clifford index {i} (expected 0..24)"

end PatternFault

end OneWay
