import OneWay.Yaml.Cursor

/-!
# Scalars

A scalar is written plainly, in quotes or as a block of lines. Within plain and quoted scalars a
line break reads as a blank, and further breaks after it as themselves.

Readers take the place where a scalar starts and give its text and the place after it, or nothing
if it is malformed. The loops count down a bound on their steps, which the length of the text
provides.
-/

namespace OneWay.Yaml

/-- How a scalar is written. -/
inductive ScalarStyle where
  | plain
  | singleQuoted
  | doubleQuoted
  | literal
  | folded
  deriving DecidableEq, Repr, Inhabited

/-! ### Gaps between words -/

/-- The blanks and breaks between two words. -/
structure Gap where
  /-- The blanks before the first break, last first. -/
  blanks : List Char := []
  /-- What the first break reads as. -/
  break? : Option (List Char) := none
  /-- The further breaks, last first. -/
  more : List Char := []
  deriving Repr

namespace Gap

/-- What the gap stands for, last character first. -/
def folded (g : Gap) : List Char :=
  match g.break? with
  | none => g.blanks
  | some ['\n'] => if g.more.isEmpty then [' '] else g.more
  | some first => g.more ++ first

/-- Reads a gap to its end. After a break, no tab may stand left of a column. -/
def take? (tabColumn : Nat) : Nat → Gap → Cursor → Option (Gap × Cursor)
  | 0, _, _ => none
  | fuel + 1, g, c =>
    match c.peek with
    | none => some (g, c)
    | some ch =>
      if isBlank ch then
        if g.break?.isNone then take? tabColumn fuel { g with blanks := ch :: g.blanks } c.next
        else if ch = '\t' && c.column < tabColumn then none
        else take? tabColumn fuel g c.next
      else if isBreak ch then
        let (text, c) := c.takeBreak
        if g.break?.isNone then take? tabColumn fuel { break? := some text } c
        else take? tabColumn fuel { g with more := text ++ g.more } c
      else some (g, c)

end Gap

/-! ### Plain scalars -/

/-- The indicators of flow collections. -/
def flowIndicators : List Char := [',', '[', ']', '\x7b', '\x7d']

/-- The rest of a plain word, after the characters in `acc`, which holds them last first. -/
def plainWord? (flow : Bool) (acc : List Char) : List Char → Option (List Char)
  | [] => some acc
  | c :: cs =>
    if isSpace c then some acc
    else if flow && c = ':' && cs.head?.any ('?' :: flowIndicators).contains then none
    else if (c = ':' && startsWithSpace cs) || (flow && flowIndicators.contains c) then some acc
    else plainWord? flow (c :: acc) cs

/-- A plain scalar after the words in `text`, which holds them last first, and a gap. In block
collections it ends with the first line that is indented less than `indent`. The gap that follows
the scalar is answered, too. -/
def plain? (flow : Bool) (indent : Nat) :
    Nat → List Char → Gap → Cursor → Option (List Char × Gap × Cursor)
  | 0, _, _, _ => none
  | fuel + 1, text, gap, c =>
    if c.atDocumentMark || c.peek = some '#' then some (text, gap, c)
    else
      match plainWord? flow [] c.rest with
      | none => none
      | some [] => some (text, gap, c)
      | some word =>
        let text := word ++ gap.folded ++ text
        let c := c.advance word.length
        if c.peek.any isSpace then
          match Gap.take? indent (c.bound + 1) {} c with
          | none => none
          | some (gap, c) =>
            if !flow && c.column < indent then some (text, gap, c)
            else plain? flow indent fuel text gap c
        else some (text, {}, c)

/-! ### Quoted scalars -/

/-- The character that a letter after a backslash stands for. -/
def unescape? : Char → Option Char
  | '0' => some '\x00'
  | 'a' => some '\x07'
  | 'b' => some '\x08'
  | 't' | '\t' => some '\t'
  | 'n' => some '\n'
  | 'v' => some '\x0b'
  | 'f' => some '\x0c'
  | 'r' => some '\r'
  | 'e' => some '\x1b'
  | ' ' => some ' '
  | '"' => some '"'
  | '/' => some '/'
  | '\\' => some '\\'
  | 'N' => some '\u0085'
  | '_' => some '\u00a0'
  | 'L' => some '\u2028'
  | 'P' => some '\u2029'
  | _ => none

/-- How many hexadecimal digits follow a letter after a backslash. -/
def codeLength? : Char → Option Nat
  | 'x' => some 2
  | 'u' => some 4
  | 'U' => some 8
  | _ => none

/-- The character of a code point in hexadecimal digits. -/
def codePoint? (digits : List Char) (length : Nat) : Option Char := do
  let n ← hexNumber? digits
  if digits.length = length ∧ (n < 0xD800 ∨ (0xE000 ≤ n ∧ n < 0x110000)) then
    pure (Char.ofNat n)
  else none

/-- The character that an escape stands for and the width of the escape. -/
def escape? (c : Char) (cs : List Char) : Option (Char × Nat) :=
  match codeLength? c with
  | some length => (codePoint? (cs.take length) length).map fun ch => (ch, length + 2)
  | none => (unescape? c).map fun ch => (ch, 2)

/-- The rest of a word in quotes, after the characters in `acc`, which holds them last first. The
truth value tells whether the word ends with an escaped break. -/
def quotedWord? (single : Bool) :
    Nat → List Char → Cursor → Option (List Char × Bool × Cursor)
  | 0, _, _ => none
  | fuel + 1, acc, c =>
    match c.rest with
    | [] => some (acc, false, c)
    | ch :: cs =>
      if isSpace ch then some (acc, false, c)
      else if single then
        if ch = '\x27' then
          if cs.head? = some '\x27' then quotedWord? single fuel (ch :: acc) (c.advance 2)
          else some (acc, false, c)
        else quotedWord? single fuel (ch :: acc) c.next
      else if ch = '"' then some (acc, false, c)
      else if ch = '\\' then
        match cs with
        | [] => none
        | e :: cs =>
          if isBreak e then some (acc, true, c.next.skipBreak)
          else
            match escape? e cs with
            | some (ch, width) => quotedWord? single fuel (ch :: acc) (c.advance width)
            | none => none
      else quotedWord? single fuel (ch :: acc) c.next

/-- A scalar from after its opening quote, after the words in `text`, which holds them last
first. -/
def quoted? (single : Bool) : Nat → List Char → Cursor → Option (List Char × Cursor)
  | 0, _, _ => none
  | fuel + 1, text, c =>
    if c.atDocumentMark then none
    else
      match quotedWord? single (c.bound + 1) text c with
      | none => none
      | some (text, escapedBreak, c) =>
        match c.peek with
        | none => none
        | some ch =>
          if ch = (if single then '\x27' else '"') then some (text, c.next)
          else
            let gap : Gap := if escapedBreak then { break? := some [] } else {}
            match Gap.take? 0 (c.bound + 1) gap c with
            | none => none
            | some (gap, c) => quoted? single fuel (gap.folded ++ text) c

/-! ### Block scalars -/

/-- What becomes of the breaks at the end of a block scalar. -/
inductive Chomping where
  /-- All are dropped. -/
  | strip
  /-- One is kept. -/
  | clip
  /-- All are kept. -/
  | keep
  deriving DecidableEq, Repr

/-- The chomping that a character asks for. -/
def chomping? : Char → Option Chomping
  | '+' => some .keep
  | '-' => some .strip
  | _ => none

/-- Reads the chomping of a block scalar. -/
def takeChomping (c : Cursor) : Chomping × Cursor :=
  match c.peek.bind chomping? with
  | some chomping => (chomping, c.next)
  | none => (.clip, c)

/-- Reads the number that gives the indentation of a block scalar; zero stands for none and may not
be written. -/
def takeIncrement? (c : Cursor) : Option (Nat × Cursor) :=
  match c.peek with
  | some ch =>
    if ch = '0' then none
    else if ch.isDigit then some (ch.toNat - '0'.toNat, c.next)
    else some (0, c)
  | none => some (0, c)

/-- Reads what stands after the mark of a block scalar: the chomping and the indentation, in either
order. -/
def blockHeader? (c : Cursor) : Option (Chomping × Nat × Cursor) :=
  if (c.peek.bind chomping?).isSome then do
    let (chomping, c) := takeChomping c
    let (increment, c) ← takeIncrement? c
    pure (chomping, increment, ← c.skipLineEnd?)
  else do
    let (increment, c) ← takeIncrement? c
    let (chomping, c) := if increment = 0 then (Chomping.clip, c) else takeChomping c
    pure (chomping, increment, ← c.skipLineEnd?)

/-- Skips the indentation of a line, at most `indent` columns of it; all of it if that is zero. -/
def skipIndentation (indent : Nat) (c : Cursor) : Cursor :=
  let blanks := (c.rest.takeWhile (· = ' ')).length
  c.advance (if indent = 0 then blanks else min blanks (indent - c.column))

/-- Reads empty lines: their breaks after those in `breaks`, last first, and the largest
indentation seen. -/
def emptyLines? (indent : Nat) :
    Nat → List Char → Nat → Cursor → Option (List Char × Nat × Cursor)
  | 0, _, _, _ => none
  | fuel + 1, breaks, widest, c =>
    let c := skipIndentation indent c
    let widest := max widest c.column
    match c.peek with
    | none => some (breaks, widest, c)
    | some ch =>
      if ch = '\t' && (indent = 0 || c.column < indent) then none
      else if isBreak ch then
        let (text, c) := c.takeBreak
        emptyLines? indent fuel (text ++ breaks) widest c
      else some (breaks, widest, c)

/-- What has been read of a block scalar; all texts are kept last character first. -/
structure BlockText where
  text : List Char := []
  /-- The break after the last line with text. -/
  lineEnd : List Char := []
  /-- The breaks of the empty lines after it. -/
  breaks : List Char := []
  /-- Whether the last line starts with a blank. -/
  isIndented : Bool := false
  deriving Repr

namespace BlockText

/-- The text before a line with text: breaks between lines that start with no blank are folded,
unless the scalar is literal. -/
def joined (b : BlockText) (literal indented : Bool) : List Char :=
  if !literal && b.lineEnd = ['\n'] && !b.isIndented && !indented then
    if b.breaks.isEmpty then ' ' :: b.text else b.breaks ++ b.text
  else b.breaks ++ b.lineEnd ++ b.text

/-- Adds a line. -/
def addLine (b : BlockText) (literal : Bool) (line lineEnd : List Char) : BlockText :=
  let indented := line.head?.any isBlank
  { text := line.reverse ++ b.joined literal indented, lineEnd, isIndented := indented }

/-- The whole text. -/
def finish (b : BlockText) : Chomping → List Char
  | .strip => b.text
  | .clip => b.lineEnd ++ b.text
  | .keep => b.breaks ++ b.lineEnd ++ b.text

end BlockText

/-- Reads the lines of a block scalar, which are indented by `indent`. -/
def blockLines? (literal : Bool) (indent : Nat) :
    Nat → BlockText → Cursor → Option (BlockText × Cursor)
  | 0, _, _ => none
  | fuel + 1, b, c =>
    if c.column = indent && !c.rest.isEmpty then
      let line := c.rest.takeWhile (!isBreak ·)
      let (lineEnd, c) := (c.advance line.length).takeBreak
      let b := b.addLine literal line lineEnd
      match emptyLines? indent (c.bound + 1) [] 0 c with
      | some (breaks, _, c) => blockLines? literal indent fuel { b with breaks } c
      | none => none
    else some (b, c)

/-- A block scalar from after its mark. Its lines are indented by more than `parent` columns, which
is the number of columns up to the indentation of the collection around it. -/
def block? (literal : Bool) (parent : Nat) (c : Cursor) : Option (List Char × Cursor) := do
  let (chomping, increment, c) ← blockHeader? c
  let given := if increment = 0 then 0 else parent - 1 + increment
  let (breaks, widest, c) ← emptyLines? given (c.bound + 1) [] 0 c
  let indent := if given = 0 then max widest (max parent 1) else given
  let (b, c) ← blockLines? literal indent (c.bound + 1) { breaks } c
  pure (b.finish chomping, c)

end OneWay.Yaml
