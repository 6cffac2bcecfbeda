import OneWay.Backend.Fault
import OneWay.Compile.Draft
import OneWay.Simulation.Counts

/-!
# Outcomes of the output nodes

A run of a compiled pattern counts outcomes of the whole classical register. `Compiled.outcomes`
keeps of each outcome the bits of the output nodes, in the order of those nodes, and adds up what
agrees on them.
-/

namespace OneWay

/-- Why a pattern cannot be run or its outcomes cannot be reported. -/
inductive RunnerFault where
  | compile (fault : CompileFault)
  | backend (fault : BackendFault)
  | outputsNotMeasured
  /-- An outcome that is not as wide as the classical register. -/
  | registerMismatch (bitstring : String) (expected got : Nat)
  /-- An output node whose bit is outside the classical register. -/
  | bitOutOfRange (bit : Bit)
  deriving DecidableEq, Repr

namespace RunnerFault

/-- The fault in words. -/
def message : RunnerFault → String
  | .compile f => "Compilation failed: " ++ f.message
  | .backend f => "Backend error: " ++ f.message
  | .outputsNotMeasured => "Compiled pattern does not measure its output nodes"
  | .registerMismatch b e g => s!"Bitstring '{b}' has {g} bits, register has {e}"
  | .bitOutOfRange b => s!"Classical bit {b} is outside the register"

/-- The fault and what caused it, outermost first. -/
def chain (f : RunnerFault) : List String :=
  match f with
  | .compile cause => f.message :: cause.chain
  | .backend cause => [f.message, cause.message]
  | _ => [f.message]

end RunnerFault

namespace Compiled

/-- The characters of an outcome, one for each of its bytes. -/
def outcomeChars (bitstring : String) : List Char :=
  bitstring.toUTF8.data.toList.map fun b => Char.ofNat b.toNat

/-- Some of the characters of an outcome, by position. -/
def selectBits (chars : List Char) : List Bit → Except RunnerFault (List Char)
  | [] => .ok []
  | b :: bits =>
    match chars[b]? with
    | some c => (selectBits chars bits).map (c :: ·)
    | none => .error (.bitOutOfRange b)

/-- The outcome of the output nodes in an outcome of the register. -/
def outcomeOf (width : Nat) (bits : List Bit) (bitstring : String) :
    Except RunnerFault String :=
  let chars := outcomeChars bitstring
  if chars.length = width then (selectBits chars bits).map String.ofList
  else .error (.registerMismatch bitstring width chars.length)

/-- Adds the outcomes of the output nodes in some entries to counts. -/
def addOutcomes (width : Nat) (bits : List Bit) :
    List (String × Nat) → Counts → Except RunnerFault Counts
  | [], counts => .ok counts
  | (bitstring, n) :: l, counts =>
    match outcomeOf width bits bitstring with
    | .ok key => addOutcomes width bits l (counts.add key n)
    | .error f => .error f

/-- The counts of the outcomes of the output nodes. -/
def outcomes (c : Compiled) (counts : Counts) : Except RunnerFault Counts :=
  match c.outputBits? with
  | some bits => addOutcomes c.bitCount bits counts.toList ∅
  | none => .error .outputsNotMeasured

end Compiled

end OneWay
