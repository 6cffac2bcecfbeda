import OneWay.Backend.Fault
import OneWay.Json.Printer
import OneWay.Datum.Record
import OneWay.Text.Printable

/-!
# Backend settings

Settings name a backend and may give it an endpoint, a token and any further settings, which are
kept as JSON values by name. The token is read but neither written nor shown.
-/

namespace OneWay

/-- The settings of a backend. -/
structure BackendConfig where
  name : String
  endpoint : Option String := none
  token : Option String := none
  extra : SortedMap String Json := ∅
  deriving Repr, Inhabited

namespace BackendConfig

/-- The settings with one more. -/
def withExtra (c : BackendConfig) (key : String) (v : Json) : BackendConfig :=
  { c with extra := c.extra.insert key v.canonical }

/-- The settings with defaults for those that are not given. -/
def withDefaults (c : BackendConfig) (defaults : SortedMap String Json) : BackendConfig :=
  let extra := defaults.entries.foldl (fun m (k, v) => m.insertWith (fun old _ => old) k v) c.extra
  { c with extra }

/-- A setting that is a natural number, if it is given. -/
def nat? (c : BackendConfig) (key : String) : Except BackendFault (Option Nat) :=
  match c.extra.get? key with
  | none | some .null => .ok none
  | some v =>
    match v.datum.nat64? with
    | some n => .ok (some n)
    | none => .error (.configuration s!"'{key}' must be a non-negative integer")

/-- Settings as a value; the token is left out. -/
def toJson (c : BackendConfig) : Json :=
  .obj ([("name", .str c.name)] ++ (c.endpoint.map fun e => ("endpoint", .str e)).toList
    ++ c.extra.entries)

/-- The names of the settings that are not kept among the further ones. -/
def ownFields : List String := ["name", "endpoint", "token"]

/-- Reads settings. -/
def ofDatum? (v : Datum) : Option BackendConfig :=
  match v with
  | .mapping fields =>
    if v.isStorable Json.maxDepth then
      match v.record? ownFields with
      | some [name, endpoint, token] => do
        let rest := fields.filter fun f => ownFields.all fun n => !f.1.isName n
        pure {
          name := ← Datum.required Datum.string? name
          endpoint := ← Datum.optional none (Datum.nullable? Datum.string?) endpoint
          token := ← Datum.optional none (Datum.nullable? Datum.string?) token
          extra := .ofList ((← Datum.jsonFields? rest).map fun (k, v) => (k, v.canonical)) }
      | _ => none
    else none
  | _ => none

/-! ### Outlines -/

mutual

/-- A value with the kinds of its parts. -/
def outlineOf : Json → String
  | .null => "Null"
  | .bool b => "Bool(" ++ toString b ++ ")"
  | .num n => "Number(" ++ Json.numberText n ++ ")"
  | .str s => "String(" ++ Text.quoted s ++ ")"
  | .arr items => "Array [" ++ ", ".intercalate (outlineItems items) ++ "]"
  | .obj fields => "Object \x7b" ++ ", ".intercalate (outlineFields fields) ++ "\x7d"

/-- The items of a list. -/
def outlineItems : List Json → List String
  | [] => []
  | v :: l => outlineOf v :: outlineItems l

/-- Fields with their names. -/
def outlineFields : List (String × Json) → List String
  | [] => []
  | (k, v) :: l => (Text.quoted k ++ ": " ++ outlineOf v) :: outlineFields l

end

/-- The settings as a record with named fields, the token hidden. -/
def outline (c : BackendConfig) : String :=
  let endpoint :=
    match c.endpoint with
    | some e => "Some(" ++ Text.quoted e ++ ")"
    | none => "None"
  "BackendConfig \x7b name: " ++ Text.quoted c.name ++ ", endpoint: " ++ endpoint
    ++ ", token: \"[REDACTED]\", extra: \x7b"
    ++ ", ".intercalate (outlineFields c.extra.entries) ++ "\x7d \x7d"

end BackendConfig

end OneWay
