import OneWay.Pattern.Basic

/-!
# Structural validity

`Pattern.fault?` is the first violation of the rules that do not depend on the order of the
commands: every node that is used is declared, the input and output lists repeat no node, no node
is entangled with itself, angles are finite and output nodes are not measured.

Edges are looked at first, then the input nodes, the output nodes, the known results and the
commands.
-/

namespace OneWay.Pattern

/-- The fault of using a node that is not declared. -/
def undeclared? (p : Pattern) (location : Location) (n : Node) : Option PatternFault :=
  if p.declares n then none else some (.undeclared n location)

/-- The first fault of an edge. -/
def edgeFault? (p : Pattern) (e : Edge) : Option PatternFault :=
  (p.undeclared? .edges e.lo).or <| (p.undeclared? .edges e.hi).or <|
    if e.lo = e.hi then some (.selfEntangled e.lo .edges) else none

/-- The first fault of an ordered node list whose earlier nodes are `seen`. -/
def listFault? (p : Pattern) (location : Location) (seen : List Node) :
    List Node → Option PatternFault
  | [] => none
  | n :: l =>
    (p.undeclared? location n).or <|
      if seen.contains n then some (.duplicate n location)
      else p.listFault? location (n :: seen) l

/-- The fault of a command whose nodes are declared. -/
def actionFault? (p : Pattern) (location : Location) : Command → Option PatternFault
  | .entangle a b => if a = b then some (.selfEntangled a location) else none
  | .measure n _ angle _ _ =>
    if !angle.isFinite then some (.nonFiniteAngle n angle location)
    else if p.isOutput n then some (.outputMeasured n location)
    else none
  | _ => none

/-- The first fault of a command. -/
def commandFault? (p : Pattern) (location : Location) (c : Command) : Option PatternFault :=
  ((c.targets ++ c.dependencies).findSome? (p.undeclared? location)).or
    (p.actionFault? location c)

/-- The first fault of a pattern. -/
def fault? (p : Pattern) : Option PatternFault :=
  (p.edges.toList.findSome? p.edgeFault?).or <|
  (p.listFault? .inputNodes [] p.inputs).or <|
  (p.listFault? .outputNodes [] p.outputs).or <|
  (p.results.keys.findSome? (p.undeclared? .results)).or <|
  p.commands.zipIdx.findSome? fun (c, i) => p.commandFault? (.command i) c

/-- Accepts a pattern without structural fault. -/
def validate (p : Pattern) : Except PatternFault Unit :=
  match p.fault? with
  | some f => .error f
  | none => .ok ()

/-- The pattern grown from nothing, if it has no structural fault. -/
def build (steps : List Step) : Except PatternFault Pattern := do
  let p := ofSteps steps
  p.validate
  pure p

end OneWay.Pattern
