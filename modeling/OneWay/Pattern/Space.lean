import OneWay.Pattern.Basic

/-!
# How many nodes are live at once

Input nodes are live from the start. Any other node becomes live when a command first acts on it
and stops being live when it is measured. Output nodes that no command acts on are counted at the
end.
-/

namespace OneWay.Pattern

/-- What is live during a walk through the commands. -/
structure Liveness where
  /-- The nodes that are live now. -/
  live : SortedSet Node
  /-- The nodes that were live at some time. -/
  seen : SortedSet Node
  /-- The largest number of nodes that were live at once. -/
  peak : Nat

namespace Liveness

/-- Brings a node to life, unless it was live before. -/
def touch (s : Liveness) (n : Node) : Liveness :=
  if s.seen.contains n then s
  else { s with live := s.live.insert n, seen := s.seen.insert n }

/-- Takes the present number of live nodes into account. -/
def record (s : Liveness) : Liveness := { s with peak := max s.peak s.live.size }

/-- The effect of one command. -/
def step (s : Liveness) (c : Command) : Liveness :=
  let s := (c.targets.foldl touch s).record
  match c with
  | .measure n .. => { s with live := s.live.erase n }
  | _ => s

end Liveness

/-- The largest number of nodes that are live at once. -/
def maxSpace (p : Pattern) : Nat :=
  let inputs := SortedSet.ofList p.inputs
  let start : Liveness := { live := inputs, seen := inputs, peak := inputs.size }
  (p.outputs.foldl Liveness.touch (p.commands.foldl Liveness.step start)).record.peak

end OneWay.Pattern
