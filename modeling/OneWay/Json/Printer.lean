import OneWay.Json.Basic
import OneWay.Decimal.Layout

/-!
# Writing JSON

Every writer takes the characters that follow and puts its own in front of them, so writing is
linear in the length of the text.

* `Json.compact` writes no blanks.
* `Json.pretty` puts every item and field on a line of its own, indented by two blanks a level;
  empty arrays and objects stay on one line.

A number that is not finite is written as `null`.
-/

namespace OneWay.Json

/-- The letter of a short escape. -/
def shortEscape? (c : Char) : Option Char :=
  match c with
  | '"' => some '"'
  | '\\' => some '\\'
  | '\n' => some 'n'
  | '\t' => some 't'
  | '\r' => some 'r'
  | '\x08' => some 'b'
  | '\x0c' => some 'f'
  | _ => none

/-- One character of a string: quotes, backslashes and control characters are escaped. -/
def writeChar (c : Char) (rest : List Char) : List Char :=
  match shortEscape? c with
  | some e => '\\' :: e :: rest
  | none =>
    if c.toNat < 32 then
      '\\' :: 'u' :: '0' :: '0' :: Nat.digitChar (c.toNat / 16) :: Nat.digitChar (c.toNat % 16)
        :: rest
    else c :: rest

/-- The characters of a string and its closing quote. -/
def writeChars : List Char → List Char → List Char
  | [], rest => '"' :: rest
  | c :: cs, rest => writeChar c (writeChars cs rest)

/-- A string in quotes. -/
def writeString (s : String) (rest : List Char) : List Char :=
  '"' :: writeChars s.toList rest

/-- The text of a number. -/
def numberText : Number → String
  | .int i => if i < 0 then "-" ++ Nat.repr i.natAbs else Nat.repr i.natAbs
  | .real x => if x.isFinite then Decimal.Layout.document.finite x else "null"

mutual

/-- A value without blanks. -/
def write : Json → List Char → List Char
  | .null, rest => "null".toList ++ rest
  | .bool b, rest => (if b then "true".toList else "false".toList) ++ rest
  | .num n, rest => (numberText n).toList ++ rest
  | .str s, rest => writeString s rest
  | .arr [], rest => '[' :: ']' :: rest
  | .arr (v :: l), rest => '[' :: write v (writeItems l rest)
  | .obj [], rest => '{' :: '}' :: rest
  | .obj ((k, v) :: l), rest => '{' :: writeString k (':' :: write v (writeFields l rest))

/-- The items after the first and the closing bracket. -/
def writeItems : List Json → List Char → List Char
  | [], rest => ']' :: rest
  | v :: l, rest => ',' :: write v (writeItems l rest)

/-- The fields after the first and the closing brace. -/
def writeFields : List (String × Json) → List Char → List Char
  | [], rest => '}' :: rest
  | (k, v) :: l, rest => ',' :: writeString k (':' :: write v (writeFields l rest))

end

/-- A line break and the indentation of `level`. -/
def writeBreak (level : Nat) (rest : List Char) : List Char :=
  '\n' :: (List.replicate (2 * level) ' ' ++ rest)

mutual

/-- A value on lines of its own, nested at `level`. -/
def writePretty (level : Nat) : Json → List Char → List Char
  | .arr [], rest => '[' :: ']' :: rest
  | .arr (v :: l), rest =>
    '[' :: writeBreak (level + 1) (writePretty (level + 1) v (writePrettyItems level l rest))
  | .obj [], rest => '{' :: '}' :: rest
  | .obj ((k, v) :: l), rest =>
    '{' :: writeBreak (level + 1) (writeString k
      (':' :: ' ' :: writePretty (level + 1) v (writePrettyFields level l rest)))
  | v, rest => write v rest

/-- The items after the first and the closing bracket. -/
def writePrettyItems (level : Nat) : List Json → List Char → List Char
  | [], rest => writeBreak level (']' :: rest)
  | v :: l, rest =>
    ',' :: writeBreak (level + 1) (writePretty (level + 1) v (writePrettyItems level l rest))

/-- The fields after the first and the closing brace. -/
def writePrettyFields (level : Nat) : List (String × Json) → List Char → List Char
  | [], rest => writeBreak level ('}' :: rest)
  | (k, v) :: l, rest =>
    ',' :: writeBreak (level + 1) (writeString k
      (':' :: ' ' :: writePretty (level + 1) v (writePrettyFields level l rest)))

end

/-- The text of a value without blanks. -/
def compact (v : Json) : String := String.ofList (v.write [])

/-- The text of a value on several lines. -/
def pretty (v : Json) : String := String.ofList (v.writePretty 0 [])

end OneWay.Json
