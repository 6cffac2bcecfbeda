import OneWay.Decimal.Layout
import OneWay.Simulation.Counts

/-!
# The report of a run

The most frequent outcomes are listed with their counts, their shares and bars of one block for
every two percent.
-/

namespace OneWay.Cli

/-- How many outcomes are listed. -/
def maxListed : Nat := 16

/-- A text with blanks in front up to a width. -/
def padLeft (width : Nat) (text : String) : String :=
  String.ofList (List.replicate (width - text.length) ' ') ++ text

/-- The share of a count in percent. -/
def percentage (count total : Nat) : Float := Float.ofNat count / Float.ofNat total * 100.0

/-- The bar for a share. -/
def bar (percent : Float) : String :=
  String.ofList (List.replicate (percent / 2.0).round.toUInt64.toNat '█')

/-- The line of an outcome. -/
def outcomeLine (total : Nat) (bitstring : String) (count : Nat) : String :=
  let percent := percentage count total
  let share := padLeft 5 (Decimal.fixed 2 percent)
  s!"  {bitstring}: {padLeft 6 (toString count)} ({share}%) {bar percent}\n"

/-- The report of the counts. -/
def report (counts : Counts) (label : String) (milliseconds : Nat) : String :=
  let ranked := counts.ranked
  let listed := (ranked.take maxListed).map fun (b, n) => outcomeLine counts.total b n
  let more :=
    if maxListed < ranked.length then
      s!"  ... and {ranked.length - maxListed} more outcomes\n"
    else ""
  s!"\n✓ Results by {label} ({counts.total} shots):\n" ++ String.join listed ++ more
    ++ s!"\n  Execution time: {milliseconds} ms\n"

end OneWay.Cli
