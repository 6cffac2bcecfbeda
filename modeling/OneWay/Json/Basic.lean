import OneWay.Sorted.Map

/-!
# JSON values

`Json` is what documents are written from. It keeps the fields of an object in the order in which
they stand and tells integers from other numbers.

`Json.canonical` is the form in which free-form settings are kept: fields sorted by name, the
last of several fields of one name.
-/

namespace OneWay

/-- A number of a document. -/
inductive Number where
  /-- A numeral without fraction and exponent. Readers produce those from `-2 ^ 63` up to, but
  not including, `2 ^ 64`. -/
  | int (value : Int)
  /-- Any other numeral. -/
  | real (value : Float)
  deriving DecidableEq, Repr, Inhabited

/-- A JSON value. -/
inductive Json where
  | null
  | bool (value : Bool)
  | num (value : Number)
  | str (value : String)
  | arr (items : List Json)
  | obj (fields : List (String × Json))
  deriving Repr, Inhabited

namespace Json

/-- A natural number as a value. -/
def nat (n : Nat) : Json := .num (.int n)

/-- A binary64 number as a value. -/
def real (x : Float) : Json := .num (.real x)

/-- The value of an optional field, `null` if there is none. -/
def ofOption {α : Type} (f : α → Json) : Option α → Json
  | none => .null
  | some a => f a

/-- A list of values. -/
def ofList {α : Type} (f : α → Json) (l : List α) : Json := .arr (l.map f)

mutual

/-- The value with the fields of every object sorted by name; of several fields of one name only
the last is kept. What is no finite number becomes `null`, as when it is written. -/
def canonical : Json → Json
  | .num (.real x) => if x.isFinite then .num (.real x) else .null
  | .arr items => .arr (canonicalItems items)
  | .obj fields => .obj (SortedMap.ofList (canonicalFields fields)).entries
  | v => v

/-- The canonical forms of a list of values. -/
def canonicalItems : List Json → List Json
  | [] => []
  | v :: l => canonical v :: canonicalItems l

/-- The fields of an object with canonical values. -/
def canonicalFields : List (String × Json) → List (String × Json)
  | [] => []
  | (k, v) :: l => (k, canonical v) :: canonicalFields l

end

end Json

end OneWay
