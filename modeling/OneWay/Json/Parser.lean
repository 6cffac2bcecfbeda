import OneWay.Datum.Basic
import OneWay.Decimal.Reader

/-!
# Reading JSON

`Json.read` accepts exactly the JSON grammar: one value, blanks around it and nothing else. A
reader takes the characters from its start on and gives what it has read and what follows it, or
nothing if the text is malformed. The grammar allows numbers of any size and single halves of
surrogate pairs; what contains them is well formed but unreadable. How the numerals are rounded is
left to a `Decimal.Reader`.

The recursive readers count down a bound on their steps; `Json.read` starts them with the length
of the text, and every step takes a character.
-/

namespace OneWay.Json

/-- Blanks between tokens. -/
def isBlank (c : Char) : Bool := c == ' ' || c == '\n' || c == '\t' || c == '\r'

/-- The text from its first character that is no blank. -/
def skipBlanks (cs : List Char) : List Char := cs.dropWhile isBlank

/-! ### Strings -/

/-- The value of a hexadecimal digit. -/
def hexDigit? (c : Char) : Option Nat :=
  if '0' ≤ c ∧ c ≤ '9' then some (c.toNat - '0'.toNat)
  else if 'a' ≤ c ∧ c ≤ 'f' then some (c.toNat - 'a'.toNat + 10)
  else if 'A' ≤ c ∧ c ≤ 'F' then some (c.toNat - 'A'.toNat + 10)
  else none

/-- Four hexadecimal digits. -/
def hex4? : List Char → Option (Nat × List Char)
  | a :: b :: c :: d :: rest => do
    let a ← hexDigit? a
    let b ← hexDigit? b
    let c ← hexDigit? c
    let d ← hexDigit? d
    pure (((a * 16 + b) * 16 + c) * 16 + d, rest)
  | _ => none

/-- The character that a letter after a backslash stands for. -/
def unescape? : Char → Option Char
  | '"' => some '"'
  | '\\' => some '\\'
  | '/' => some '/'
  | 'b' => some '\x08'
  | 'f' => some '\x0c'
  | 'n' => some '\n'
  | 'r' => some '\r'
  | 't' => some '\t'
  | _ => none

/-- What a backslash and a `u` stand for. A code unit of the upper half of a surrogate pair
followed by an escaped one of the lower half is a character, and so is a unit of neither half;
half of a pair alone is none. -/
def unicodeEscape? (cs : List Char) : Option (Option Char × List Char) := do
  let (unit, rest) ← hex4? cs
  if 0xD800 ≤ unit ∧ unit < 0xDC00 then
    match rest with
    | '\\' :: 'u' :: following =>
      let (low, following) ← hex4? following
      if 0xDC00 ≤ low ∧ low < 0xE000 then
        pure (some (Char.ofNat (0x10000 + (unit - 0xD800) * 0x400 + (low - 0xDC00))), following)
      else pure (none, rest)
    | _ => pure (none, rest)
  else if 0xDC00 ≤ unit ∧ unit < 0xE000 then pure (none, rest)
  else pure (some (Char.ofNat unit), rest)

/-- A string of a document. -/
structure Spelling where
  /-- The text, if there is one. -/
  text : Option String
  /-- Whether the string holds escapes. -/
  escaped : Bool

/-- The string from after its opening quote to its closing one. `acc` holds the characters already
read, last first, as long as there is a text. -/
def stringBody? : Nat → Option (List Char) → Bool → List Char → Option (Spelling × List Char)
  | 0, _, _, _ => none
  | fuel + 1, acc, escaped, cs =>
    match cs with
    | [] => none
    | '"' :: rest => some (⟨acc.map fun l => String.ofList l.reverse, escaped⟩, rest)
    | '\\' :: 'u' :: rest =>
      match unicodeEscape? rest with
      | some (c?, rest) =>
        stringBody? fuel (do let l ← acc; let c ← c?; pure (c :: l)) true rest
      | none => none
    | '\\' :: e :: rest =>
      match unescape? e with
      | some c => stringBody? fuel (acc.map (c :: ·)) true rest
      | none => none
    | c :: rest =>
      if c.toNat < 32 || c == '\\' then none
      else stringBody? fuel (acc.map (c :: ·)) escaped rest

/-- A string from after its opening quote on. -/
def string? (fuel : Nat) (cs : List Char) : Option (Spelling × List Char) :=
  stringBody? fuel (some []) false cs

/-- A string as a datum. -/
def Spelling.datum (s : Spelling) : Datum :=
  match s.text with
  | some text => .str text
  | none => .unreadable

/-! ### Numbers -/

/-- A run of decimal digits and what follows it. -/
def digits (cs : List Char) : List Char × List Char :=
  (cs.takeWhile Char.isDigit, cs.dropWhile Char.isDigit)

/-- The digits before the point: a zero alone, or a run that starts with another digit. -/
def whole? (cs : List Char) : Option (List Char × List Char) :=
  match cs with
  | '0' :: rest => some (['0'], rest)
  | c :: _ => if c.isDigit then some (digits cs) else none
  | [] => none

/-- The digits after a point, none if there is no point. -/
def fraction? (cs : List Char) : Option (List Char × List Char) :=
  match cs with
  | '.' :: rest =>
    match digits rest with
    | ([], _) => none
    | ds => some ds
  | _ => some ([], cs)

/-- The digits of an exponent. -/
def exponentDigits? (negative : Bool) (cs : List Char) : Option (Option Int × List Char) :=
  match digits cs with
  | ([], _) => none
  | (ds, rest) =>
    let n : Int := Decimal.ofDigits ds
    some (some (if negative then -n else n), rest)

/-- The exponent, if there is one. -/
def exponent? (cs : List Char) : Option (Option Int × List Char) :=
  match cs with
  | e :: rest =>
    if e == 'e' || e == 'E' then
      match rest with
      | '+' :: rest => exponentDigits? false rest
      | '-' :: rest => exponentDigits? true rest
      | _ => exponentDigits? false rest
    else some (none, cs)
  | [] => some (none, [])

/-- The number of an integer numeral: an integer where 64 bits hold it, and never a negative
zero. -/
def integer (reader : Decimal.Reader) (negative : Bool) (whole : List Char) : Number :=
  let n := Decimal.ofDigits whole
  let real := .real (reader ⟨negative, whole, [], 0⟩)
  if negative then
    if n = 0 ∨ 0x8000000000000000 < n then real else .int (-n)
  else if n < 0x10000000000000000 then .int n
  else real

/-- A number without its sign. -/
def unsigned? (reader : Decimal.Reader) (negative : Bool) (cs : List Char) :
    Option (Number × List Char) := do
  let (whole, cs) ← whole? cs
  let (fraction, cs) ← fraction? cs
  let (exponent, cs) ← exponent? cs
  if fraction.isEmpty ∧ exponent.isNone then
    pure (integer reader negative whole, cs)
  else
    pure (.real (reader ⟨negative, whole, fraction, exponent.getD 0⟩), cs)

/-- A number. -/
def number? (reader : Decimal.Reader) (cs : List Char) : Option (Number × List Char) :=
  match cs with
  | '-' :: rest => unsigned? reader true rest
  | _ => unsigned? reader false cs

/-- A number as a datum. -/
def numberDatum : Number → Datum
  | .int i => .num (.int i)
  | .real x => if x.isFinite then .num (.real x) else .unreadable

/-! ### Values -/

/-- An object with its fields. It is readable only if all its names are. -/
def object (fields : List (Spelling × Datum)) : Datum :=
  let named? := fields.mapM fun (s, v) => s.text.map fun text => (Key.name text s.escaped, v)
  match named? with
  | some fields => .mapping fields
  | none => .unreadable

mutual

/-- A value, blanks before it allowed. -/
def value? (reader : Decimal.Reader) : Nat → List Char → Option (Datum × List Char)
  | 0, _ => none
  | fuel + 1, cs =>
    match skipBlanks cs with
    | '[' :: rest =>
      match skipBlanks rest with
      | ']' :: rest => some (.list [], rest)
      | _ =>
        match value? reader fuel rest with
        | some (v, rest) => items? reader fuel [v] rest
        | none => none
    | '{' :: rest =>
      match skipBlanks rest with
      | '}' :: rest => some (.mapping [], rest)
      | rest =>
        match field? reader fuel rest with
        | some (f, rest) => fields? reader fuel [f] rest
        | none => none
    | '"' :: rest => (string? fuel rest).map fun (s, rest) => (s.datum, rest)
    | 't' :: 'r' :: 'u' :: 'e' :: rest => some (.bool true, rest)
    | 'f' :: 'a' :: 'l' :: 's' :: 'e' :: rest => some (.bool false, rest)
    | 'n' :: 'u' :: 'l' :: 'l' :: rest => some (.null, rest)
    | rest => (number? reader rest).map fun (n, rest) => (numberDatum n, rest)

/-- The items after those in `acc`, which holds them last first, up to the closing bracket. -/
def items? (reader : Decimal.Reader) : Nat → List Datum → List Char → Option (Datum × List Char)
  | 0, _, _ => none
  | fuel + 1, acc, cs =>
    match skipBlanks cs with
    | ']' :: rest => some (.list acc.reverse, rest)
    | ',' :: rest =>
      match value? reader fuel rest with
      | some (v, rest) => items? reader fuel (v :: acc) rest
      | none => none
    | _ => none

/-- A name, a colon and a value. -/
def field? (reader : Decimal.Reader) : Nat → List Char → Option ((Spelling × Datum) × List Char)
  | 0, _ => none
  | fuel + 1, cs =>
    match skipBlanks cs with
    | '"' :: rest =>
      match string? fuel rest with
      | some (name, rest) =>
        match skipBlanks rest with
        | ':' :: rest => (value? reader fuel rest).map fun (v, rest) => ((name, v), rest)
        | _ => none
      | none => none
    | _ => none

/-- The fields after those in `acc`, which holds them last first, up to the closing brace. -/
def fields? (reader : Decimal.Reader) :
    Nat → List (Spelling × Datum) → List Char → Option (Datum × List Char)
  | 0, _, _ => none
  | fuel + 1, acc, cs =>
    match skipBlanks cs with
    | '}' :: rest => some (object acc.reverse, rest)
    | ',' :: rest =>
      match field? reader fuel rest with
      | some (f, rest) => fields? reader fuel (f :: acc) rest
      | none => none
    | _ => none

end

/-- What a text holds, if it is one JSON value. -/
def read (reader : Decimal.Reader) (text : String) : Option Datum :=
  let cs := text.toList
  match value? reader (2 * cs.length + 2) cs with
  | some (v, rest) => if (skipBlanks rest).isEmpty then some v else none
  | none => none

/-- The value of a text, if it is one JSON value and readable throughout. -/
def parse (reader : Decimal.Reader) (text : String) : Option Json :=
  (read reader text).bind Datum.json?

end OneWay.Json
