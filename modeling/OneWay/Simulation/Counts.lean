import OneWay.Complex
import OneWay.Json.Printer
import OneWay.Datum.Record

/-!
# Counts of measurement outcomes

`Counts` maps bitstrings to the number of times they were observed. Character `i` of a bitstring
is classical bit `i`.
-/

namespace OneWay

/-- How often each bitstring was observed. -/
structure Counts where
  table : SortedMap String Nat
  deriving DecidableEq, Repr, Inhabited

namespace Counts

/-- No observations. -/
def empty : Counts := ⟨∅⟩

instance : EmptyCollection Counts := ⟨empty⟩

/-- Adds observations of a bitstring. -/
def add (c : Counts) (bitstring : String) (count : Nat) : Counts :=
  ⟨c.table.insertWith (· + ·) bitstring count⟩

/-- The counts of a list of observations; those of one bitstring are added up. -/
def ofPairs (pairs : List (String × Nat)) : Counts :=
  pairs.foldl (fun c e => c.add e.1 e.2) empty

/-- Observations of a bitstring. -/
def get (c : Counts) (bitstring : String) : Nat := c.table.getD bitstring 0

/-- Number of observations. -/
def total (c : Counts) : Nat := c.table.values.foldl (· + ·) 0

/-- Number of distinct bitstrings. -/
def size (c : Counts) : Nat := c.table.size

/-- Whether nothing was observed. -/
def isEmpty (c : Counts) : Bool := c.table.isEmpty

/-- The entries in the order of their bitstrings. -/
def toList (c : Counts) : List (String × Nat) := c.table.entries

/-- Whether an entry comes before another: by a larger count, or by a smaller bitstring where the
counts agree. -/
def ranksBefore (a b : String × Nat) : Bool :=
  b.2 < a.2 || (a.2 == b.2 && !(b.1 < a.1))

/-- The entries from the most to the least frequent. -/
def ranked (c : Counts) : List (String × Nat) := c.toList.mergeSort ranksBefore

/-- The most frequent entry. -/
def top? (c : Counts) : Option (String × Nat) := c.ranked.head?

/-- The relative frequencies, none if nothing was observed. -/
def frequencies (c : Counts) : List (String × Float) :=
  if c.total = 0 then []
  else c.toList.map fun (k, n) => (k, Float.ofNat n / Float.ofNat c.total)

/-- Counts as a value. -/
def toJson (c : Counts) : Json := .obj (c.toList.map fun (k, n) => (k, .nat n))

/-- Reads counts; the last entry of a bitstring counts. -/
def ofDatum? (v : Datum) : Option Counts :=
  (v.table? Key.text? Datum.nat64?).map fun l => ⟨.ofList l⟩

end Counts

/-- What the execution of a circuit yields. -/
structure ExecutionResult where
  counts : Counts
  shots : Nat
  /-- The amplitudes at the first snapshot. -/
  statevector : Option (Array Complex) := none
  deriving DecidableEq, Repr, Inhabited

end OneWay
