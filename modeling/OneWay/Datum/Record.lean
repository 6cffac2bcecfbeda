import OneWay.Datum.Basic
import OneWay.Json.Parser

/-!
# Reading typed values out of documents

Readers give `none` for a datum of another shape; documents are accepted or refused as a whole.

A *record* is a mapping with the fields of the record, unknown ones ignored and known ones at
most once, or a list of the fields in their order, where fields that have a default may be left
off at the end. `Datum.record?` brings both forms to a list with one place per field.

A *tagged record* carries its kind in a field of its own or as the first item of the list;
`Datum.tagged?` splits it. It is set aside until its kind is known, which needs all of it to be
readable and not nested too deeply.
-/

namespace OneWay

/-- How many arrays and objects of a JSON document may stand inside one another where they are
read. -/
def Json.maxDepth : Nat := 127

namespace Datum

/-! ### Scalars -/

/-- A natural number below `limit`. -/
def natBelow? (limit : Nat) : Datum → Option Nat
  | .num (.int i) => if 0 ≤ i ∧ i < limit then some i.toNat else none
  | _ => none

/-- A 32-bit natural number. -/
def nat32? : Datum → Option Nat := natBelow? 0x100000000

/-- A 64-bit natural number. -/
def nat64? : Datum → Option Nat := natBelow? 0x10000000000000000

/-- A binary64 number; integers count as numbers. -/
def real? : Datum → Option Float
  | .num (.int i) => some (Float.ofInt i)
  | .num (.real x) => some x
  | _ => none

/-- A truth value. -/
def bool? : Datum → Option Bool
  | .bool b => some b
  | _ => none

/-- A text. -/
def string? : Datum → Option String
  | .str s => some s
  | _ => none

/-! ### Containers -/

/-- Reads every item of a list. -/
def readAll {α β : Type} (read : α → Option β) : List α → Option (List β)
  | [] => some []
  | a :: l =>
    match read a with
    | some b => (readAll read l).map (b :: ·)
    | none => none

/-- A list, each item read by `read`. -/
def list? {α : Type} (read : Datum → Option α) : Datum → Option (List α)
  | .list items => readAll read items
  | _ => none

/-- A list of exactly two items. -/
def pair? {α β : Type} (left : Datum → Option α) (right : Datum → Option β) :
    Datum → Option (α × β)
  | .list [a, b] =>
    match left a, right b with
    | some a, some b => some (a, b)
    | _, _ => none
  | _ => none

/-- A mapping from keys to values. -/
def table? {κ ν : Type} (key : Key → Option κ) (read : Datum → Option ν) :
    Datum → Option (List (κ × ν))
  | .mapping fields =>
    readAll (fun (k, v) =>
      match key k, read v with
      | some k, some v => some (k, v)
      | _, _ => none) fields
  | _ => none

/-- A value or `null`. -/
def nullable? {α : Type} (read : Datum → Option α) : Datum → Option (Option α)
  | .null => some none
  | v => (read v).map some

end Datum

/-- The 32-bit number that a key spells by its decimal digits, without escapes and with no zero in
front. -/
def Key.nat32? : Key → Option Nat
  | .name text false =>
    -- what is rounded is no integer, so the reader does not matter
    match Json.number? .nearest text.toList with
    | some (n, []) => Datum.nat32? (.num n)
    | _ => none
  | _ => none

namespace Datum

/-! ### Records -/

/-- The value of the first field that a test accepts. -/
def lookup (test : Key → Bool) : List (Key × Datum) → Option Datum
  | [] => none
  | (k, v) :: l => if test k then some v else lookup test l

/-- How many fields a test accepts. -/
def occurrences (test : Key → Bool) (fields : List (Key × Datum)) : Nat :=
  fields.countP fun f => test f.1

/-- One place for each of the names of a record, in their order. -/
def record? (names : List String) : Datum → Option (List (Option Datum))
  | .mapping fields =>
    let test (name : String) (k : Key) := k.refersTo names name
    if fields.all (·.1 ≠ .other) && names.all fun n => occurrences (test n) fields ≤ 1 then
      some (names.map fun n => lookup (test n) fields)
    else none
  | .list items =>
    if items.length ≤ names.length then
      some (items.map some ++ List.replicate (names.length - items.length) none)
    else none
  | _ => none

/-- A field that must be there. -/
def required {α : Type} (read : Datum → Option α) : Option Datum → Option α
  | some v => read v
  | none => none

/-- A field that has a default. -/
def optional {α : Type} (default : α) (read : Datum → Option α) : Option Datum → Option α
  | some v => read v
  | none => some default

/-- Whether a datum can be set aside: all of it is readable, and it fits into the levels that are
left. -/
def isStorable (levels : Nat) (v : Datum) : Bool := v.isReadable && v.depth ≤ levels

/-- The kind of a tagged record and its other fields. -/
def tagged? (levels : Nat) (tag : String) (v : Datum) : Option (String × Datum) :=
  if isStorable levels v then
    match v with
    | .mapping fields =>
      if occurrences (·.isName tag) fields = 1 then
        match lookup (·.isName tag) fields with
        | some (.str kind) => some (kind, .mapping (fields.filter fun f => !f.1.isName tag))
        | _ => none
      else none
    | .list (.str kind :: items) => some (kind, .list items)
    | _ => none
  else none

/-- One of several kinds: a name alone, or a mapping with one field, the name and a payload. -/
def variant? : Datum → Option (String × Option Datum)
  | .str name => some (name, none)
  | .mapping [(.name text _, payload)] => some (text, some payload)
  | _ => none

end Datum

/-- The fields that stand in an object, absent optional ones left out. -/
def Json.ofFields (fields : List (Option (String × Json))) : Json := .obj (fields.filterMap id)

end OneWay
