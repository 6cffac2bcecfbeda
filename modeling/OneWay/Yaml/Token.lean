import OneWay.Yaml.Scalar

/-!
# Tokens

The tokens of a YAML document, and the readers of those that are neither scalars nor single
characters: anchors, tags and directives.
-/

namespace OneWay.Yaml

/-- A token. -/
inductive Token where
  /-- The version that a document asks for. -/
  | version (major minor : Nat)
  /-- A handle and what it abbreviates in tags. -/
  | handle (name start : String)
  | documentStart
  | documentEnd
  | blockListStart
  | blockMappingStart
  /-- The end of a block list or a block mapping. -/
  | blockEnd
  | flowListStart
  | flowListEnd
  | flowMappingStart
  | flowMappingEnd
  /-- The dash before an item of a block list. -/
  | item
  /-- The comma in a flow collection. -/
  | separator
  /-- What stands before a key, written or not. -/
  | key
  /-- The colon before a value. -/
  | value
  | alias (name : String)
  | anchor (name : String)
  | tag (handle suffix : String)
  | scalar (style : ScalarStyle) (text : String)
  deriving DecidableEq, Repr, Inhabited

/-! ### Anchors -/

/-- Whether the name of an anchor can end before a text. -/
def endsAnchor (cs : List Char) : Bool :=
  startsWithSpace cs || cs.head?.any ['?', ':', ',', ']', '\x7d', '%', '@', '\x60'].contains

/-- The name of an anchor or an alias, from after its mark. -/
def anchorName? (c : Cursor) : Option (String × Cursor) :=
  let name := c.rest.takeWhile isWord
  let c := c.advance name.length
  if name.isEmpty || !endsAnchor c.rest then none else some (String.ofList name, c)

/-! ### Tags -/

/-- A handle, or what could be the start of one: an exclamation mark, a name and perhaps a second
mark. -/
def takeHandle? (c : Cursor) : Option (List Char × Cursor) :=
  match c.rest with
  | '!' :: cs =>
    let name := cs.takeWhile isWord
    let c := c.advance (name.length + 1)
    if c.peek = some '!' then some ('!' :: name ++ ['!'], c.next) else some ('!' :: name, c)
  | _ => none

/-- Whether a character may stand in the address of a tag; some may only in brackets. -/
def isAddress (bracketed : Bool) (c : Char) : Bool :=
  isWord c
    || [';', '/', '?', ':', '@', '&', '=', '+', '$', '.', '%', '!', '~', '*', '\x27', '(',
        ')'].contains c
    || (bracketed && [',', '[', ']'].contains c)

/-- An octet that is written as a percent sign and two hexadecimal digits. -/
def octet? : List Char → Option Nat
  | '%' :: a :: b :: _ => hexNumber? [a, b]
  | _ => none

/-- How many octets a character has that starts with a given one, and the bits of it in there. -/
def octetHead? (n : Nat) : Option (Nat × Nat) :=
  if n < 0x80 then some (1, n)
  else if n < 0xC0 then none
  else if n < 0xE0 then some (2, n - 0xC0)
  else if n < 0xF0 then some (3, n - 0xE0)
  else if n < 0xF8 then some (4, n - 0xF0)
  else none

/-- The further octets of a character. -/
def octetTail? : Nat → Nat → Cursor → Option (Nat × Cursor)
  | 0, n, c => some (n, c)
  | k + 1, n, c => do
    let o ← octet? c.rest
    if 0x80 ≤ o ∧ o < 0xC0 then octetTail? k (n * 64 + (o - 0x80)) (c.advance 3) else none

/-- A character that is written as octets. -/
def octets? (c : Cursor) : Option (Char × Cursor) := do
  let (width, bits) ← octetHead? (← octet? c.rest)
  let (n, c) ← octetTail? (width - 1) bits (c.advance 3)
  pure (Char.ofNat n, c)

/-- The characters of an address after those in `acc`, which holds them last first. -/
def address? (bracketed : Bool) : Nat → List Char → Cursor → Option (List Char × Cursor)
  | 0, _, _ => none
  | fuel + 1, acc, c =>
    match c.peek with
    | none => some (acc.reverse, c)
    | some ch =>
      if !isAddress bracketed ch then some (acc.reverse, c)
      else if ch = '%' then
        match octets? c with
        | some (ch, c) => address? bracketed fuel (ch :: acc) c
        | none => none
      else address? bracketed fuel (ch :: acc) c.next

/-- An address, which may be empty. -/
def takeAddress? (bracketed : Bool) (c : Cursor) : Option (List Char × Cursor) :=
  address? bracketed (c.bound + 1) [] c

/-- A list that is not empty. -/
def nonempty? (cs : List Char) : Option String :=
  if cs.isEmpty then none else some (String.ofList cs)

/-- Whether a tag can end before a text. -/
def endsTag (flow : Bool) (cs : List Char) : Bool :=
  startsWithSpace cs || (flow && cs.head? = some ',')

/-- The handle and the suffix of a tag. A tag in brackets has no handle, and neither has a mark
alone. -/
def tagParts? (c : Cursor) : Option (String × String × Cursor) := do
  if c.rest.take 2 = ['!', '<'] then
    let (suffix, c) ← takeAddress? true (c.advance 2)
    if c.peek = some '>' then pure ("", ← nonempty? suffix, c.next) else none
  else
    let (handle, c) ← takeHandle? c
    let (suffix, c) ← takeAddress? false c
    if 1 < handle.length ∧ handle.getLast? = some '!' then
      pure (String.ofList handle, ← nonempty? suffix, c)
    else
      match nonempty? (handle.tail ++ suffix) with
      | some suffix => pure ("!", suffix, c)
      | none => pure ("", "!", c)

/-- A tag. -/
def tag? (flow : Bool) (c : Cursor) : Option (Token × Cursor) := do
  let (handle, suffix, c) ← tagParts? c
  if endsTag flow c.rest then pure (.tag handle suffix, c) else none

/-! ### Directives -/

/-- A number of at most nine digits. -/
def versionNumber? (c : Cursor) : Option (Nat × Cursor) :=
  let digits := c.rest.takeWhile Char.isDigit
  if digits.isEmpty || 9 < digits.length then none
  else
    let n := digits.foldl (fun n d => 10 * n + (d.toNat - '0'.toNat)) 0
    some (n, c.advance digits.length)

/-- The version after its directive's name. -/
def versionValue? (c : Cursor) : Option (Token × Cursor) := do
  let (major, c) ← versionNumber? (c.skipWhile isBlank)
  if c.peek = some '.' then
    let (minor, c) ← versionNumber? c.next
    pure (.version major minor, c)
  else none

/-- A handle and what it abbreviates, after the directive's name. -/
def handleValue? (c : Cursor) : Option (Token × Cursor) := do
  let (handle, c) ← takeHandle? (c.skipWhile isBlank)
  let isHandle := handle = ['!'] || handle.getLast? = some '!'
  if !isHandle || !c.peek.any isBlank then none
  else
    let (start, c) ← takeAddress? true (c.skipWhile isBlank)
    if startsWithSpace c.rest then
      pure (.handle (String.ofList handle) (← nonempty? start), c)
    else none

/-- A directive from after its mark to the end of its line. -/
def directive? (c : Cursor) : Option (Token × Cursor) := do
  let name := c.rest.takeWhile isWord
  let c := c.advance name.length
  if !startsWithSpace c.rest then none
  else
    let (token, c) ←
      if name = "YAML".toList then versionValue? c
      else if name = "TAG".toList then handleValue? c
      else none
    pure (token, ← c.skipLineEnd?)

end OneWay.Yaml
