import OneWay.Datum.Basic
import OneWay.Decimal.Reader
import OneWay.Yaml.Node

/-!
# What the nodes of a document stand for

A plain scalar may be a text, a number or nothing at all, and which of them it is depends on what
is expected in its place. A `Shape` says what is expected, and `Document.resolve?` turns a document
into a datum accordingly. Fields that are not expected are left out unseen.
-/

namespace OneWay.Yaml

/-! ### Plain scalars -/

/-- The value of a digit, if it is one in the base. -/
def digitValue? (base : Nat) (c : Char) : Option Nat := (hexDigit? c).filter (· < base)

/-- A run of digits in a base. -/
def natural? (base : Nat) : List Char → Option Nat
  | [] => none
  | cs => cs.foldl (fun n? c => do pure (base * (← n?) + (← digitValue? base c))) (some 0)

/-- Digits in the base that the first two characters name, ten if they name none. Decimal digits
with a zero in front are no number. -/
def magnitude? : List Char → Option Nat
  | '0' :: 'x' :: cs => natural? 16 cs
  | '0' :: 'o' :: cs => natural? 8 cs
  | '0' :: 'b' :: cs => natural? 2 cs
  | '0' :: _ :: _ => none
  | cs => natural? 10 cs

/-- A natural number, which may have a plus sign and no minus sign. -/
def unsigned? : List Char → Option Nat
  | '+' :: cs => magnitude? cs
  | cs => magnitude? cs

/-- An integer. -/
def integer? : List Char → Option Int
  | '-' :: cs => (magnitude? cs).map fun n => -Int.ofNat n
  | cs => (unsigned? cs).map Int.ofNat

/-- An exponent. -/
def exponent? : List Char → Option Int
  | [] => some 0
  | e :: cs =>
    if e = 'e' || e = 'E' then
      match cs with
      | '+' :: cs => (natural? 10 cs).map Int.ofNat
      | '-' :: cs => (natural? 10 cs).map fun n => -Int.ofNat n
      | cs => (natural? 10 cs).map Int.ofNat
    else none

/-- A decimal numeral without a sign: digits with a point anywhere, then an exponent. -/
def unsignedReal? (negative : Bool) (cs : List Char) : Option Float :=
  let whole := cs.takeWhile Char.isDigit
  let rest := cs.dropWhile Char.isDigit
  let (fraction, rest) :=
    match rest with
    | '.' :: rest => (rest.takeWhile Char.isDigit, rest.dropWhile Char.isDigit)
    | rest => ([], rest)
  if whole.isEmpty && fraction.isEmpty then none
  else
    match exponent? rest with
    | some e =>
      let x := Decimal.nearest negative (Decimal.ofDigits (whole ++ fraction))
        (e - Int.ofNat fraction.length)
      if x.isFinite then some x else none
    | none => none

/-- A finite real number. -/
def finite? : List Char → Option Float
  | '+' :: cs => unsignedReal? false cs
  | '-' :: cs => unsignedReal? true cs
  | cs => unsignedReal? false cs

/-- A real number, an infinity or what is no number. -/
def real? (text : String) : Option Float :=
  if [".inf", ".Inf", ".INF", "+.inf", "+.Inf", "+.INF"].contains text then some (1.0 / 0.0)
  else if ["-.inf", "-.Inf", "-.INF"].contains text then some (-1.0 / 0.0)
  else if [".nan", ".NaN", ".NAN"].contains text then some (0.0 / 0.0)
  else finite? text.toList

/-- A truth value. -/
def truth? (text : String) : Option Bool :=
  if ["true", "True", "TRUE"].contains text then some true
  else if ["false", "False", "FALSE"].contains text then some false
  else none

/-- Whether a scalar spells nothing. -/
def isNull (text : String) : Bool := ["null", "Null", "NULL", "~"].contains text

/-- Whether a text is decimal digits with a zero in front. -/
def isPadded : List Char → Bool
  | '+' :: '0' :: cs | '-' :: '0' :: cs | '0' :: cs => !cs.isEmpty && cs.all Char.isDigit
  | _ => false

/-- What an integer stands for. One that needs more than 64 bits is refused, and one that needs
more than 128 is none. -/
def integerDatum? (i : Int) : Option (Option Datum) :=
  if -0x8000000000000000 ≤ i ∧ i < 0x10000000000000000 then some (some (.num (.int i)))
  else if -0x80000000000000000000000000000000 ≤ i ∧ i < 0x100000000000000000000000000000000 then
    none
  else some none

/-- What a plain scalar stands for where anything is expected. -/
def plainDatum? (text : String) : Option Datum := do
  if text.isEmpty || isNull text then pure .null
  else if let some b := truth? text then pure (.bool b)
  else
    match ← (integer? text.toList).elim (some none) integerDatum? with
    | some v => pure v
    | none =>
      if isPadded text.toList then pure (.str text)
      else
        match real? text with
        | some x => pure (.num (.real x))
        | none => pure (.str text)

/-! ### Tags -/

/-- The tag of a standard kind of scalar. -/
def standardTag (kind : String) : String := "tag:yaml.org,2002:" ++ kind

/-- Whether a tag is one that a document makes up. -/
def isLocal (tag : Option String) : Bool := tag.any ("!".isPrefixOf ·)

/-- What a scalar stands for where anything is expected. -/
def scalarDatum? (tag : Option String) (style : ScalarStyle) (text : String) : Option Datum :=
  match tag with
  | none => if style = .plain then plainDatum? text else some (.str text)
  | some tag =>
    if tag = standardTag "bool" then (truth? text).map .bool
    else if tag = standardTag "int" then
      ((integer? text.toList).bind integerDatum?).join
    else if tag = standardTag "float" then (real? text).map fun x => .num (.real x)
    else if tag = standardTag "null" then if isNull text then some .null else none
    else if isLocal (some tag) then none
    else some (.str text)

/-- Whether a scalar can be of a standard kind that is expected. -/
def canBe (kind : String) (tag : Option String) (style : ScalarStyle) : Bool :=
  style = .plain || (style = .literal && tag = some (standardTag kind))

/-- Whether a node stands for nothing where something or nothing is expected. -/
def isAbsent? : Node → Option Bool
  | .scalar tag .plain text =>
    match tag with
    | none => some (text.isEmpty || isNull text)
    | some tag =>
      if tag = standardTag "null" then if isNull text then some true else none else some false
  | _ => some false

/-! ### Shapes -/

/-- What is expected in a place. -/
inductive Shape where
  | any
  | text
  | truth
  | natural
  | real
  | list (item : Shape)
  /-- Anything, but the tag is a text; it stands in a field of that name or is the first item. -/
  | tagged (tag : String)
  /-- Fields by name. The truth value tells whether the field may be empty. -/
  | record (fields : List (String × Bool × Shape))
  deriving Inhabited

/-- Resolving may fail, and the number of aliases that may still be followed is limited. -/
abbrev Resolve := StateT Nat Option

namespace Document

/-- The node that a node stands for. -/
def follow (d : Document) : Node → Resolve Node
  | .alias anchor => do
    match ← get with
    | 0 => failure
    | left + 1 =>
      set left
      match d.target? anchor with
      | some n => pure n
      | none => failure
  | n => pure n

/-- The key of a mapping where anything is expected. -/
def keyOf (n : Node) (v : Datum) : Key :=
  match n, v with
  | _, .str text => .name text false
  | .scalar _ _ text, .num (.int i) => if "-".isPrefixOf text then .other else .index i.toNat
  | _, _ => .other

/-- What a scalar stands for where a shape is expected. An empty one is an empty list or record
where these are expected. -/
def scalar? (tag : Option String) (style : ScalarStyle) (text : String) : Shape → Option Datum
  | .any => scalarDatum? tag style text
  | .text => some (.str text)
  | .truth => if canBe "bool" tag style then (truth? text).map .bool else none
  | .natural =>
    if canBe "int" tag style then (unsigned? text.toList).map fun n => .num (.int n) else none
  | .real => if canBe "float" tag style then (real? text).map fun x => .num (.real x) else none
  | .list _ => if style = .plain ∧ text.isEmpty then some (.list []) else none
  | .record _ => if style = .plain ∧ text.isEmpty then some (.mapping []) else none
  | .tagged _ => none

/-- What a node stands for where a shape is expected and some levels are left to nest in. -/
def resolve (d : Document) (levels : Nat) (shape : Shape) (n : Node) : Resolve Datum := do
  let n ← d.follow n
  match levels, n with
  | _, .scalar tag style text => StateT.lift (scalar? tag style text shape)
  | levels + 1, .list tag items =>
    match shape with
    | .list item => return .list (← items.mapM (d.resolve levels item))
    | .any =>
      if isLocal tag then failure else return .list (← items.mapM (d.resolve levels .any))
    | .tagged _ =>
      match items with
      | first :: rest =>
        if isLocal tag then failure
        else
          let kind ← d.resolve levels .text first
          return .list (kind :: (← rest.mapM (d.resolve levels .any)))
      | [] => failure
    | _ => failure
  | levels + 1, .mapping tag fields =>
    match shape with
    | .record shapes =>
      let known ← fields.filterMapM fun (k, v) => do
        match ← d.follow k with
        | .scalar _ _ name =>
          match shapes.find? (·.1 = name) with
          | some (_, mayBeEmpty, shape) =>
            let v ← d.follow v
            if mayBeEmpty && (← StateT.lift (isAbsent? v)) then
              return some (.name name false, .null)
            else return some (.name name false, ← d.resolve levels shape v)
          | none => return none
        | _ => failure
      return .mapping known
    | .any | .tagged _ =>
      if isLocal tag then failure
      else
        let expected : Key → Shape
          | .name text _ =>
            match shape with
            | .tagged tag => if text = tag then .text else .any
            | _ => .any
          | _ => .any
        let all ← fields.mapM fun (k, v) => do
          let k ← d.follow k
          let key := keyOf k (← d.resolve levels .any k)
          return (key, ← d.resolve levels (expected key) v)
        return .mapping all
    | _ => failure
  | _, _ => failure

/-- How many levels of a document may be nested where they are read. -/
def maxDepth : Nat := 128

/-- What a document stands for where a shape is expected. -/
def resolve? (d : Document) (shape : Shape) : Option Datum :=
  ((d.resolve maxDepth shape (d.root.getD .empty)).run (100 * d.size)).map (·.1)

end Document

end OneWay.Yaml
