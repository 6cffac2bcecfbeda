import OneWay.Sorted.Set
import OneWay.Decimal.Layout

/-!
# Commands of a measurement pattern

A pattern is a sequence of commands on numbered nodes: preparations `N`, entanglements `E`,
measurements `M`, Pauli corrections `X` and `Z`, and Clifford operators `C`. Measurements and
corrections depend on earlier outcomes through *domains*: what counts is the parity of the
outcomes of the nodes in the domain.

The single-qubit Clifford operators are 24 up to a phase, numbered in the usual order of
measurement calculus: 0 is the identity, 1 to 3 are the Paulis X, Y and Z, 4 and 5 are S and its
inverse, 6 is H, and the others are products of these.
-/

namespace OneWay

/-- A node of a pattern, by its number. -/
abbrev Node := UInt32

/-- The nodes whose outcomes a command depends on. -/
abbrev Domain := SortedSet Node

/-- A single-qubit Clifford operator, by its number. -/
abbrev Clifford := Fin 24

namespace Clifford

/-- The operator with a given number, if the number is below 24. -/
def ofIndex? (index : Nat) : Option Clifford :=
  if h : index < 24 then some ⟨index, h⟩ else none

/-- The numbers of the inverses. -/
def conjugates : Vector Clifford 24 :=
  #v[0, 1, 2, 3, 5, 4, 6, 15, 12, 9, 10, 11, 8, 13, 14, 7, 20, 22, 23, 21, 16, 19, 17, 18]

/-- The Hermitian conjugate, which is the inverse. -/
def conj (c : Clifford) : Clifford := conjugates.get c

/-- Whether the operator is the identity or a Pauli operator. -/
def isPauli (c : Clifford) : Bool := c.val < 4

/-- All operators in order. -/
def all : List Clifford := List.finRange 24

end Clifford

/-- The plane of the Bloch sphere that holds the axis of a measurement. -/
inductive Plane where
  | xy
  | yz
  | xz
  deriving DecidableEq, Repr, Inhabited

/-- The name of a plane. -/
def Plane.name : Plane → String
  | .xy => "XY"
  | .yz => "YZ"
  | .xz => "XZ"

/-- The plane of a given name. -/
def Plane.ofName? : String → Option Plane
  | "XY" => some .xy
  | "YZ" => some .yz
  | "XZ" => some .xz
  | _ => none

/-- One step of a pattern. -/
inductive Command where
  /-- Bring a fresh node into the plus state. -/
  | prepare (node : Node)
  /-- Entangle two nodes by a controlled phase flip. -/
  | entangle (a b : Node)
  /-- Measure a node at an angle, in units of π, within a plane. The parity of `sDomain` flips
  the sign of the angle and the parity of `tDomain` adds π to it. -/
  | measure (node : Node) (plane : Plane) (angle : Float) (sDomain tDomain : Domain)
  /-- Flip a node where the parity of the domain is odd. -/
  | correctX (node : Node) (domain : Domain)
  /-- Flip the phase of a node where the parity of the domain is odd. -/
  | correctZ (node : Node) (domain : Domain)
  /-- Apply a Clifford operator to a node. -/
  | clifford (node : Node) (operator : Clifford)
  deriving DecidableEq, Repr, Inhabited

namespace Command

/-- The letter of a command. -/
def mnemonic : Command → String
  | .prepare .. => "N"
  | .entangle .. => "E"
  | .measure .. => "M"
  | .correctX .. => "X"
  | .correctZ .. => "Z"
  | .clifford .. => "C"

/-- The nodes that a command acts on. -/
def targets : Command → List Node
  | .entangle a b => [a, b]
  | .prepare n | .measure n .. | .correctX n _ | .correctZ n _ | .clifford n _ => [n]

/-- The nodes whose outcomes a command depends on, domain by domain. -/
def dependencies : Command → List Node
  | .measure _ _ _ s t => s.toList ++ t.toList
  | .correctX _ d | .correctZ _ d => d.toList
  | _ => []

/-- Whether the command is a measurement. -/
def isMeasure : Command → Bool
  | .measure .. => true
  | _ => false

/-- A domain in braces. -/
def domainText (d : Domain) : String :=
  "\x7b" ++ ",".intercalate (d.toList.map fun n => Nat.repr n.toNat) ++ "\x7d"

/-- The command in the notation of measurement calculus. -/
def text : Command → String
  | .prepare n => s!"N({n.toNat})"
  | .entangle a b => s!"E({a.toNat},{b.toNat})"
  | .measure n plane angle s t =>
    s!"M({n.toNat},{plane.name},{Decimal.inMessage angle},s={domainText s},t={domainText t})"
  | .correctX n d => s!"X({n.toNat},{domainText d})"
  | .correctZ n d => s!"Z({n.toNat},{domainText d})"
  | .clifford n c => s!"C({n.toNat},{c.val})"

end Command

end OneWay
