import OneWay.Json.Printer
import OneWay.Datum.Record
import OneWay.Pattern.Basic

/-!
# Pattern documents

Commands are tagged by `op`. The known results are left out of a document when there are none;
edges, inputs, commands and results may be absent from a document that is read, nodes and outputs
may not.
-/

namespace OneWay

namespace Node

/-- A node as a value. -/
def toJson (n : Node) : Json := .nat n.toNat

/-- Reads a node. -/
def ofDatum? (v : Datum) : Option Node := v.nat32?.map UInt32.ofNat

/-- Reads a node that is a key. -/
def ofKey? (k : Key) : Option Node := k.nat32?.map UInt32.ofNat

/-- A node as the name of a field. -/
def key (n : Node) : String := Nat.repr n.toNat

end Node

/-- Reads a plane: its name, alone or with an empty payload. -/
def Plane.ofDatum? (v : Datum) : Option Plane :=
  match v.variant? with
  | some (name, none) | some (name, some .null) | some (name, some (.mapping [])) =>
    Plane.ofName? name
  | _ => none

/-- Reads the number of a Clifford operator. -/
def Clifford.ofDatum? (v : Datum) : Option Clifford :=
  (v.natBelow? 256).bind Clifford.ofIndex?

namespace Domain

/-- A domain as a value. -/
def toJson (d : Domain) : Json := .ofList Node.toJson d.toList

/-- Reads a domain; its nodes may come in any order. -/
def ofDatum? (v : Datum) : Option Domain := (v.list? Node.ofDatum?).map SortedSet.ofList

end Domain

namespace Command

/-- A command as a value. -/
def toJson : Command → Json
  | .prepare n => .obj [("op", .str "prepare"), ("node", Node.toJson n)]
  | .entangle a b => .obj [("op", .str "entangle"), ("a", Node.toJson a), ("b", Node.toJson b)]
  | .measure n plane angle s t =>
    .obj [("op", .str "measure"), ("node", Node.toJson n), ("plane", .str plane.name),
      ("angle", .real angle), ("s_domain", Domain.toJson s), ("t_domain", Domain.toJson t)]
  | .correctX n d =>
    .obj [("op", .str "correct_x"), ("node", Node.toJson n), ("domain", Domain.toJson d)]
  | .correctZ n d =>
    .obj [("op", .str "correct_z"), ("node", Node.toJson n), ("domain", Domain.toJson d)]
  | .clifford n c =>
    .obj [("op", .str "clifford"), ("node", Node.toJson n), ("clifford", .nat c.val)]

/-- Reads the fields of a command of a given kind. -/
def ofFields? (kind : String) (fields : Datum) : Option Command :=
  match kind with
  | "prepare" =>
    match fields.record? ["node"] with
    | some [n] => do pure (.prepare (← Datum.required Node.ofDatum? n))
    | _ => none
  | "entangle" =>
    match fields.record? ["a", "b"] with
    | some [a, b] => do
      pure (.entangle (← Datum.required Node.ofDatum? a) (← Datum.required Node.ofDatum? b))
    | _ => none
  | "measure" =>
    match fields.record? ["node", "plane", "angle", "s_domain", "t_domain"] with
    | some [n, plane, angle, s, t] => do
      pure (.measure (← Datum.required Node.ofDatum? n) (← Datum.required Plane.ofDatum? plane)
        (← Datum.required Datum.real? angle) (← Datum.optional ∅ Domain.ofDatum? s)
        (← Datum.optional ∅ Domain.ofDatum? t))
    | _ => none
  | "correct_x" =>
    match fields.record? ["node", "domain"] with
    | some [n, d] => do
      pure (.correctX (← Datum.required Node.ofDatum? n) (← Datum.required Domain.ofDatum? d))
    | _ => none
  | "correct_z" =>
    match fields.record? ["node", "domain"] with
    | some [n, d] => do
      pure (.correctZ (← Datum.required Node.ofDatum? n) (← Datum.required Domain.ofDatum? d))
    | _ => none
  | "clifford" =>
    match fields.record? ["node", "clifford"] with
    | some [n, c] => do
      pure (.clifford (← Datum.required Node.ofDatum? n) (← Datum.required Clifford.ofDatum? c))
    | _ => none
  | _ => none

/-- Reads a command that has some levels to nest in. -/
def ofDatum? (levels : Nat) (v : Datum) : Option Command :=
  match v.tagged? levels "op" with
  | some (kind, fields) => ofFields? kind fields
  | none => none

end Command

namespace Edge

/-- An edge as a value. -/
def toJson (e : Edge) : Json := .arr [Node.toJson e.lo, Node.toJson e.hi]

/-- Reads an edge; its nodes may come in either order. -/
def ofDatum? (v : Datum) : Option Edge :=
  (v.pair? Node.ofDatum? Node.ofDatum?).map fun (a, b) => between a b

end Edge

namespace Pattern

/-- A pattern as a value. -/
def toJson (p : Pattern) : Json :=
  .ofFields [
    some ("nodes", .ofList Node.toJson p.nodes.toList),
    some ("edges", .ofList Edge.toJson p.edges.toList),
    some ("input_nodes", .ofList Node.toJson p.inputs),
    some ("output_nodes", .ofList Node.toJson p.outputs),
    some ("commands", .ofList Command.toJson p.commands),
    if p.results.isEmpty then none
    else some ("results", .obj (p.results.entries.map fun (n, b) => (Node.key n, .bool b)))]

/-- Reads a pattern. -/
def ofDatum? (v : Datum) : Option Pattern :=
  match v.record? ["nodes", "edges", "input_nodes", "output_nodes", "commands", "results"] with
  | some [nodes, edges, inputs, outputs, commands, results] => do
    pure {
      nodes := .ofList (← Datum.required (Datum.list? Node.ofDatum?) nodes)
      edges := .ofList (← Datum.optional [] (Datum.list? Edge.ofDatum?) edges)
      inputs := ← Datum.optional [] (Datum.list? Node.ofDatum?) inputs
      outputs := ← Datum.required (Datum.list? Node.ofDatum?) outputs
      commands := ← Datum.optional [] (Datum.list? (Command.ofDatum? (Json.maxDepth - 2))) commands
      results := .ofList (← Datum.optional [] (Datum.table? Node.ofKey? Datum.bool?) results) }
  | _ => none

/-- The document of a pattern. -/
def document (p : Pattern) : String := p.toJson.pretty

/-- Reads a pattern document. -/
def ofDocument? (reader : Decimal.Reader) (text : String) : Option Pattern :=
  (Json.read reader text).bind ofDatum?

end Pattern

end OneWay
