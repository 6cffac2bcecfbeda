import OneWay.Json.Basic

/-!
# What stands in a document

Readers of documents work on `Datum`, whatever the format of the document. It differs from `Json`,
which documents are written from, in what only readers have to care about: keys that are no names,
and parts that are well formed and yet have no value, which may be skipped and not read.

`Json.datum` is the datum of a value, and `Datum.json?` goes back where there is a value.
-/

namespace OneWay

/-- What stands before a value in a mapping. -/
inductive Key where
  /-- A text, which may have been spelt with escapes. -/
  | name (text : String) (escaped : Bool)
  /-- A number, which stands for the field at that place of a record. -/
  | index (place : Nat)
  /-- Something that names no field. -/
  | other
  deriving DecidableEq, Repr, Inhabited

namespace Key

/-- The text of a key. -/
def text? : Key → Option String
  | .name text _ => some text
  | _ => none

/-- Whether a key is a text. -/
def isName (k : Key) (text : String) : Bool := k.text? = some text

/-- Whether a key stands for a field of a record whose fields have these names. -/
def refersTo (k : Key) (names : List String) (name : String) : Bool :=
  match k with
  | .name text _ => text = name
  | .index place => names[place]? = some name
  | .other => false

end Key

/-- What stands in a document. -/
inductive Datum where
  | null
  | bool (value : Bool)
  | num (value : Number)
  | str (value : String)
  | list (items : List Datum)
  /-- Fields in the order in which they stand, repetitions included. -/
  | mapping (fields : List (Key × Datum))
  /-- Something that has no value: a text with half of a surrogate pair, a number beyond the
  binary64 range. -/
  | unreadable
  deriving Repr, Inhabited

namespace Datum

mutual

/-- Whether a datum has a value throughout. -/
def isReadable : Datum → Bool
  | .unreadable => false
  | .list items => itemsReadable items
  | .mapping fields => fieldsReadable fields
  | _ => true

/-- Whether all items have values. -/
def itemsReadable : List Datum → Bool
  | [] => true
  | v :: l => isReadable v && itemsReadable l

/-- Whether all fields have values. -/
def fieldsReadable : List (Key × Datum) → Bool
  | [] => true
  | (_, v) :: l => isReadable v && fieldsReadable l

end

mutual

/-- How many lists and mappings stand inside one another. -/
def depth : Datum → Nat
  | .list items => depthItems items + 1
  | .mapping fields => depthFields fields + 1
  | _ => 0

/-- The largest depth in a list. -/
def depthItems : List Datum → Nat
  | [] => 0
  | v :: l => max (depth v) (depthItems l)

/-- The largest depth in a list of fields. -/
def depthFields : List (Key × Datum) → Nat
  | [] => 0
  | (_, v) :: l => max (depth v) (depthFields l)

end

mutual

/-- The value of a datum, if it has one throughout and all its keys are texts. -/
def json? : Datum → Option Json
  | .null => some .null
  | .bool b => some (.bool b)
  | .num n => some (.num n)
  | .str s => some (.str s)
  | .list items => (jsonItems? items).map .arr
  | .mapping fields => (jsonFields? fields).map .obj
  | .unreadable => none

/-- The values of a list. -/
def jsonItems? : List Datum → Option (List Json)
  | [] => some []
  | v :: l => do
    let v ← json? v
    let l ← jsonItems? l
    pure (v :: l)

/-- The fields with their names. -/
def jsonFields? : List (Key × Datum) → Option (List (String × Json))
  | [] => some []
  | (k, v) :: l => do
    let k ← k.text?
    let v ← json? v
    let l ← jsonFields? l
    pure ((k, v) :: l)

end

end Datum

namespace Json

mutual

/-- A value as it stands in a document. -/
def datum : Json → Datum
  | .null => .null
  | .bool b => .bool b
  | .num n => .num n
  | .str s => .str s
  | .arr items => .list (datumItems items)
  | .obj fields => .mapping (datumFields fields)

/-- A list of values as they stand in a document. -/
def datumItems : List Json → List Datum
  | [] => []
  | v :: l => datum v :: datumItems l

/-- Fields as they stand in a document. -/
def datumFields : List (String × Json) → List (Key × Datum)
  | [] => []
  | (k, v) :: l => (.name k false, datum v) :: datumFields l

end

end Json

end OneWay
