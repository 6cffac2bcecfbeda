import OneWay.Yaml.Token

/-!
# From characters to tokens

Block collections have no closing marks: they start where a line is indented more than the one
before and end where one is indented less, so the lexer keeps the columns of the open ones. A key
needs no mark, either: whether something is one shows only at the colon behind it. The lexer
remembers where a key could have started and puts the missing tokens there when it meets the
colon, which must stand in the same line and at most 1024 characters behind.
-/

namespace OneWay.Yaml

/-- A place where a key may have started. -/
structure KeyStart where
  /-- How many tokens come before it. -/
  token : Nat
  /-- Whether nothing but a key can stand there. -/
  required : Bool
  index : Nat
  line : Nat
  column : Nat
  deriving Repr

/-- What has been read of a document. -/
structure Lexer where
  cursor : Cursor
  /-- The tokens so far, last first. -/
  tokens : List Token := []
  /-- The number of tokens. -/
  count : Nat := 0
  /-- The columns of the open block collections, innermost first. -/
  columns : List Nat := []
  /-- Where a key may have started in the innermost collection. -/
  keyStart : Option KeyStart := none
  /-- The same for the collections around each open flow collection, innermost first. -/
  outerStarts : List (Option KeyStart) := []
  /-- Whether a key may start here. -/
  keyAllowed : Bool := true

namespace Lexer

/-- Whether the lexer is in a flow collection. -/
def inFlow (l : Lexer) : Bool := !l.outerStarts.isEmpty

/-- The column right of the innermost block collection. -/
def indent (l : Lexer) : Nat :=
  match l.columns with
  | column :: _ => column + 1
  | [] => 0

/-! ### Tokens -/

/-- Adds a token. -/
def emit (l : Lexer) (t : Token) : Lexer := { l with tokens := t :: l.tokens, count := l.count + 1 }

/-- Adds a token behind the first `place` ones. -/
def insert (l : Lexer) (place : Nat) (t : Token) : Lexer :=
  let behind := l.count - place
  { l with tokens := l.tokens.take behind ++ t :: l.tokens.drop behind, count := l.count + 1 }

/-- Adds a token of some characters. -/
def emitWide (l : Lexer) (t : Token) (width : Nat) : Lexer :=
  { l.emit t with cursor := l.cursor.advance width }

/-! ### Indentation -/

/-- Opens a block collection at a column right of the innermost one. -/
def openBlock (l : Lexer) (column place : Nat) (t : Token) : Lexer :=
  if !l.inFlow && l.indent ≤ column then
    { l.insert place t with columns := column :: l.columns }
  else l

/-- Closes some block collections. -/
def closeColumns (l : Lexer) (columns : List Nat) : Lexer :=
  let closed := l.columns.length - columns.length
  { l with
    columns, tokens := List.replicate closed .blockEnd ++ l.tokens, count := l.count + closed }

/-- Closes the block collections right of a column. -/
def closeBlocks (l : Lexer) (column : Nat) : Lexer :=
  if l.inFlow then l else l.closeColumns (l.columns.dropWhile (column < ·))

/-- Closes all block collections. -/
def closeAll (l : Lexer) : Lexer := if l.inFlow then l else l.closeColumns []

/-! ### Keys without marks -/

/-- Forgets where a key may have started, unless a key is required there. -/
def dropKey? (l : Lexer) : Option Lexer :=
  if l.keyStart.any (·.required) then none else some { l with keyStart := none }

/-- Remembers that a key may start here. -/
def markKey? (l : Lexer) : Option Lexer :=
  if l.keyAllowed then do
    let c := l.cursor
    let l ← l.dropKey?
    pure { l with
      keyStart := some {
        token := l.count
        required := !l.inFlow && l.columns.head? = some c.column
        index := c.index
        line := c.line
        column := c.column } }
  else some l

/-- What remains of the start of a key when the lexer has reached a place. -/
def expire? (c : Cursor) : Option KeyStart → Option (Option KeyStart)
  | none => some none
  | some k =>
    if k.line < c.line || k.index + 1024 < c.index then
      if k.required then none else some none
    else some (some k)

/-- Forgets the starts of keys that lie too far behind. -/
def expireKeys? (l : Lexer) : Option Lexer := do
  pure { l with
    keyStart := ← expire? l.cursor l.keyStart
    outerStarts := ← l.outerStarts.mapM (expire? l.cursor) }

/-! ### Blanks and comments -/

/-- Skips blanks, comments and breaks before a token, and byte order marks at the starts of lines.
No tab may stand where a key can start. -/
def skipSpace : Nat → Lexer → Lexer
  | 0, l => l
  | fuel + 1, l =>
    let c := l.cursor
    let c := if c.column = 0 && c.peek = some '\ufeff' then c.next else c
    let tabs := l.inFlow || !l.keyAllowed
    let c := c.skipWhile fun ch => ch = ' ' || (tabs && ch = '\t')
    let c := if c.peek = some '#' then c.skipWhile (!isBreak ·) else c
    if c.peek.any isBreak then
      skipSpace fuel { l with cursor := c.skipBreak, keyAllowed := l.keyAllowed || !l.inFlow }
    else { l with cursor := c }

/-! ### Single tokens -/

/-- The start or the end of a document. -/
def documentMark? (l : Lexer) (t : Token) : Option Lexer := do
  let l ← l.closeAll.dropKey?
  pure { l.emitWide t 3 with keyAllowed := false }

/-- A directive. -/
def directive? (l : Lexer) : Option Lexer := do
  let l ← l.closeAll.dropKey?
  let (t, cursor) ← Yaml.directive? l.cursor.next
  pure { l.emit t with cursor, keyAllowed := false }

/-- The start of a flow collection. -/
def openFlow? (l : Lexer) (t : Token) : Option Lexer := do
  let l ← l.markKey?
  pure { l.emitWide t 1 with
    keyStart := none, outerStarts := l.keyStart :: l.outerStarts, keyAllowed := true }

/-- The end of a flow collection. -/
def closeFlow? (l : Lexer) (t : Token) : Option Lexer := do
  let l ← l.dropKey?
  let l :=
    match l.outerStarts with
    | keyStart :: outerStarts => { l with keyStart, outerStarts }
    | [] => l
  pure { l.emitWide t 1 with keyAllowed := false }

/-- A comma. -/
def separator? (l : Lexer) : Option Lexer := do
  let l ← l.dropKey?
  pure { l.emitWide .separator 1 with keyAllowed := true }

/-- The mark of an item or of a key, which may open a block collection. -/
def blockMark? (l : Lexer) (mark opening : Token) (keyAllowed : Bool) : Option Lexer := do
  if !l.inFlow && !l.keyAllowed then none
  else
    let l ← (l.openBlock l.cursor.column l.count opening).dropKey?
    pure { l.emitWide mark 1 with keyAllowed }

/-- A colon: the key before it gets its mark, and perhaps opens a block mapping. -/
def value? (l : Lexer) : Option Lexer :=
  match l.keyStart with
  | some k =>
    let l := (l.insert k.token .key).openBlock k.column k.token .blockMappingStart
    some { l.emitWide .value 1 with keyStart := none, keyAllowed := false }
  | none => l.blockMark? .value .blockMappingStart (!l.inFlow)

/-- An anchor, an alias, a tag or a scalar, any of which may start a key. -/
def keyed? (l : Lexer) (read : Cursor → Option (Token × Cursor)) : Option Lexer := do
  let l ← l.markKey?
  let (t, cursor) ← read l.cursor
  pure { l.emit t with cursor, keyAllowed := false }

/-- The name of an anchor or an alias after its mark. -/
def named? (token : String → Token) (c : Cursor) : Option (Token × Cursor) :=
  (anchorName? c.next).map fun (name, c) => (token name, c)

/-- A scalar in quotes. -/
def quoted? (single : Bool) (c : Cursor) : Option (Token × Cursor) :=
  let style := if single then ScalarStyle.singleQuoted else .doubleQuoted
  (Yaml.quoted? single (c.bound + 1) [] c.next).map fun (text, c) =>
    (.scalar style (String.ofList text.reverse), c)

/-- A block scalar. -/
def blockScalar? (l : Lexer) (literal : Bool) : Option Lexer := do
  let l ← l.dropKey?
  let (text, cursor) ← block? literal l.indent l.cursor.next
  let style := if literal then ScalarStyle.literal else .folded
  pure { l.emit (.scalar style (String.ofList text.reverse)) with cursor, keyAllowed := true }

/-- A plain scalar. After a break behind it a key may start. -/
def plainScalar? (l : Lexer) : Option Lexer := do
  let l ← l.markKey?
  let (text, gap, cursor) ←
    plain? l.inFlow l.indent (l.cursor.bound + 1) [] {} l.cursor
  pure { l.emit (.scalar .plain (String.ofList text.reverse)) with
    cursor, keyAllowed := gap.break?.isSome }

/-- The characters that start no plain scalar. -/
def indicators : List Char :=
  ['-', '?', ':', ',', '[', ']', '\x7b', '\x7d', '#', '&', '*', '!', '|', '>', '\x27', '"', '%',
    '@', '\x60']

/-- Whether a plain scalar starts with a text. Three of the indicators may start one if no blank
follows. -/
def startsPlain (flow : Bool) (cs : List Char) : Bool :=
  match cs with
  | [] => false
  | c :: rest =>
    !(isSpace c || indicators.contains c)
      || (c = '-' && !rest.head?.any isBlank)
      || (!flow && (c = '?' || c = ':') && !startsWithSpace rest)

/-- The token that starts with a character. -/
def token? (l : Lexer) (ch : Char) : Option Lexer :=
  let loose := l.inFlow || startsWithSpace (l.cursor.rest.drop 1)
  if l.cursor.column = 0 && ch = '%' then l.directive?
  else if l.cursor.hasMark '-' then l.documentMark? .documentStart
  else if l.cursor.hasMark '.' then l.documentMark? .documentEnd
  else if ch = '[' then l.openFlow? .flowListStart
  else if ch = '\x7b' then l.openFlow? .flowMappingStart
  else if ch = ']' then l.closeFlow? .flowListEnd
  else if ch = '\x7d' then l.closeFlow? .flowMappingEnd
  else if ch = ',' then l.separator?
  else if ch = '-' && startsWithSpace (l.cursor.rest.drop 1) then
    l.blockMark? .item .blockListStart true
  else if ch = '?' && loose then l.blockMark? .key .blockMappingStart (!l.inFlow)
  else if ch = ':' && loose then l.value?
  else if ch = '*' then l.keyed? (named? .alias)
  else if ch = '&' then l.keyed? (named? .anchor)
  else if ch = '!' then l.keyed? (tag? l.inFlow)
  else if ch = '|' && !l.inFlow then l.blockScalar? true
  else if ch = '>' && !l.inFlow then l.blockScalar? false
  else if ch = '\x27' then l.keyed? (quoted? true)
  else if ch = '"' then l.keyed? (quoted? false)
  else if startsPlain l.inFlow l.cursor.rest then l.plainScalar?
  else none

/-! ### All tokens -/

/-- Reads all tokens. -/
def run : Nat → Lexer → Option (List Token)
  | 0, _ => none
  | fuel + 1, l => do
    let l ← (skipSpace (l.cursor.bound + 1) l).expireKeys?
    match l.cursor.peek with
    | none =>
      let l ← l.closeAll.dropKey?
      pure l.tokens.reverse
    | some ch => run fuel (← (l.closeBlocks l.cursor.column).token? ch)

end Lexer

/-- The tokens of a document. -/
def tokens? (document : String) : Option (List Token) :=
  let cs := document.toList
  if cs.all isAllowed then Lexer.run (cs.length + 2) { cursor := .ofText cs } else none

end OneWay.Yaml
