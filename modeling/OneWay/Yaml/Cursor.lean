/-!
# Places in a document

A `Cursor` is a place in the text of a YAML document: the characters from there on, how many came
before, and the line and column.
-/

namespace OneWay.Yaml

/-! ### Characters -/

/-- Blanks separate words within a line. -/
def isBlank (c : Char) : Bool := c = ' ' || c = '\t'

/-- Characters that end a line. -/
def isBreak (c : Char) : Bool :=
  c = '\n' || c = '\r' || c = '\u0085' || c = '\u2028' || c = '\u2029'

/-- Blanks and breaks. -/
def isSpace (c : Char) : Bool := isBlank c || isBreak c

/-- The characters of names. -/
def isWord (c : Char) : Bool := c.isAlphanum || c = '_' || c = '-'

/-- Whether a document may contain a character. -/
def isAllowed (c : Char) : Bool :=
  let n := c.toNat
  c = '\t' || c = '\n' || c = '\r' || (0x20 ≤ n && n ≤ 0x7E) || n = 0x85
    || (0xA0 ≤ n && n ≤ 0xFFFD) || 0x10000 ≤ n

/-- Whether a text ends here or starts with a blank or a break. -/
def startsWithSpace : List Char → Bool
  | [] => true
  | c :: _ => isSpace c

/-- Whether a text ends here or starts with a break. -/
def startsWithBreak : List Char → Bool
  | [] => true
  | c :: _ => isBreak c

/-- The value of a hexadecimal digit. -/
def hexDigit? (c : Char) : Option Nat :=
  if c.isDigit then some (c.toNat - '0'.toNat)
  else if 'a' ≤ c ∧ c ≤ 'f' then some (c.toNat - 'a'.toNat + 10)
  else if 'A' ≤ c ∧ c ≤ 'F' then some (c.toNat - 'A'.toNat + 10)
  else none

/-- The number that hexadecimal digits spell. -/
def hexNumber? (cs : List Char) : Option Nat :=
  cs.foldl (fun n? c => do pure (16 * (← n?) + (← hexDigit? c))) (some 0)

/-! ### Cursors -/

/-- A place in a text. -/
structure Cursor where
  rest : List Char
  /-- A bound on the number of characters from here on. -/
  bound : Nat
  index : Nat := 0
  line : Nat := 0
  column : Nat := 0
  deriving Repr

namespace Cursor

/-- The start of a text. -/
def ofText (cs : List Char) : Cursor := { rest := cs, bound := cs.length }

/-- The next character. -/
def peek (c : Cursor) : Option Char := c.rest.head?

/-- The place some characters further in the line. -/
def advance (c : Cursor) (n : Nat) : Cursor :=
  { c with rest := c.rest.drop n, index := c.index + n, column := c.column + n }

/-- The place after the next character, which is no break. -/
def next (c : Cursor) : Cursor := c.advance 1

/-- The place after the characters of a kind. -/
def skipWhile (c : Cursor) (p : Char → Bool) : Cursor := c.advance (c.rest.takeWhile p).length

/-- The place after a break of some characters. -/
def afterBreak (c : Cursor) (width : Nat) : Cursor :=
  { c with rest := c.rest.drop width, index := c.index + width, line := c.line + 1, column := 0 }

/-- The break that stands here and the place after it. Most breaks read as line feeds. -/
def takeBreak (c : Cursor) : List Char × Cursor :=
  match c.rest with
  | '\r' :: '\n' :: _ => (['\n'], c.afterBreak 2)
  | ch :: _ =>
    if ch = '\u2028' || ch = '\u2029' then ([ch], c.afterBreak 1)
    else if isBreak ch then (['\n'], c.afterBreak 1)
    else ([], c)
  | [] => ([], c)

/-- The place after the break that stands here. -/
def skipBreak (c : Cursor) : Cursor := c.takeBreak.2

/-- Skips blanks and a comment; nothing else may stand before the end of the line, which is skipped
too. -/
def skipLineEnd? (c : Cursor) : Option Cursor :=
  let c := c.skipWhile isBlank
  let c := if c.peek = some '#' then c.skipWhile (!isBreak ·) else c
  if startsWithBreak c.rest then some c.skipBreak else none

/-- Whether three marks alone stand at the start of a line. -/
def hasMark (c : Cursor) (mark : Char) : Bool :=
  c.column = 0 && c.rest.take 3 = [mark, mark, mark] && startsWithSpace (c.rest.drop 3)

/-- Whether the start or the end of a document is marked here. -/
def atDocumentMark (c : Cursor) : Bool := c.hasMark '-' || c.hasMark '.'

end Cursor

end OneWay.Yaml
