import OneWay.Circuit.Program
import OneWay.Decimal.Reader

/-!
# Reading programs

`Listing.read?` is the grammar of programs as a reader of their text: header, declarations, one
statement a line, and blocks of three lines for gates under a test. A `Listing` is what is read:
the sizes of the registers and the statements in order. Blanks between operands do not count.

`Circuit.listing` is the same data of a circuit, `Circuit.normalForm` what of a circuit a program
is meant to keep.
-/

namespace OneWay

variable {γ δ ε : Type}

/-! ### Tests -/

/-- The test of a block. -/
inductive Test where
  /-- The test `false`. -/
  | never
  /-- The test `c[bit] == value`. -/
  | bit (bit : Bit) (value : Bool)
  /-- The test `(c[i] ^ ... ^ c[j]) == value`. -/
  | parity (bits : List Bit) (value : Bool)
  deriving DecidableEq, Repr

namespace Test

/-- Whether a test succeeds. -/
def holds (register : Array Bool) : Test → Bool
  | never => false
  | bit b value => register.getD b false == value
  | parity bits value => (bits.map (register.getD · false)).foldr xor false == value

/-- The demand that a test makes. -/
def condition : Test → Condition
  | never => ⟨[], true⟩
  | bit b value => ⟨[b], value⟩
  | parity bits value => ⟨bits, value⟩

end Test

/-! ### Statements -/

/-- A statement, with a guard on each gate. -/
inductive Statement (γ : Type) where
  | gate (name : String) (angles : List String) (qubits : List Qubit) (guard : γ)
  | measure (qubit : Qubit) (bit : Bit)
  | reset (qubit : Qubit)
  | barrier (qubits : List Qubit)
  | snapshot (qubits : List Qubit)
  deriving DecidableEq, Repr

/-- The statement with another guard. -/
def Statement.map (f : γ → δ) : Statement γ → Statement δ
  | gate name angles qubits guard => gate name angles qubits (f guard)
  | measure q b => measure q b
  | reset q => reset q
  | barrier qubits => barrier qubits
  | snapshot qubits => snapshot qubits

/-- The sizes of the registers and the statements of a program. -/
structure Listing (γ : Type) where
  numQubits : Nat
  numBits : Nat
  statements : List (Statement γ)
  deriving DecidableEq, Repr

/-- The listing with other guards. -/
def Listing.map (f : γ → δ) (p : Listing γ) : Listing δ :=
  { p with statements := p.statements.map (·.map f) }

/-! ### Listings of circuits -/

/-- The statements of an instruction, one for each wire that is measured or reset. -/
def Instruction.statements (guard : Option Condition → γ) (inst : Instruction) :
    List (Statement γ) :=
  match inst.action with
  | .gate g =>
    [.gate g.gate.name (g.gate.parameters.map Angle.text) inst.qubits (guard g.condition)]
  | .measure => (inst.qubits.zip inst.bits).map fun (q, b) => .measure q b
  | .reset => inst.qubits.map .reset
  | .barrier => [.barrier inst.qubits]
  | .snapshot => [.snapshot inst.qubits]

namespace Circuit

/-- The listing of a circuit, with guards made of the conditions. -/
def listing (guard : Option Condition → γ) (c : Circuit) : Listing γ where
  numQubits := c.numQubits
  numBits := c.numBits
  statements := c.instructions.toList.flatMap (·.statements guard)

/-- What a program keeps of a circuit. A condition that always holds by its form is dropped. -/
def normalForm (c : Circuit) : Listing (Option Condition) :=
  c.listing (·.filter (· ≠ ⟨[], false⟩))

end Circuit

/-! ### The reader -/

namespace Reader

/-- What follows the given start of a text. -/
def after? : List Char → List Char → Option (List Char)
  | [], text => some text
  | _ :: _, [] => none
  | c :: start, d :: text => if c = d then after? start text else none

/-- The text before the first occurrence of a character, and the text after it. -/
def cut? (c : Char) : List Char → Option (List Char × List Char)
  | [] => none
  | d :: text => if d = c then some ([], text) else (cut? c text).map fun (l, r) => (d :: l, r)

/-- The items of a text between separators, without blanks. -/
def items (separator : Char) (text : List Char) : List (List Char) :=
  let text := text.filter (· ≠ ' ')
  if text.isEmpty then [] else text.splitOn separator

/-- A numeral. -/
def number? (digits : List Char) : Option Nat :=
  if !digits.isEmpty && digits.all (·.isDigit) then some (Decimal.ofDigits digits) else none

/-- A number between the given texts. -/
def numberBetween? (start ending text : List Char) : Option Nat := do
  let (digits, rest) ← cut? ']' (← after? start text)
  if rest = ending then number? digits else none

/-- An element of a register, such as `q[2]`. -/
def element? (register : Char) (text : List Char) : Option Nat :=
  numberBetween? [register, '['] [] text

/-- Wires up to the end of a statement. -/
def operands? (text : List Char) : Option (List Qubit) := do
  let (wires, rest) ← cut? ';' text
  if rest.isEmpty then (items ',' wires).mapM (element? 'q') else none

/-- A single wire up to the end of a statement. -/
def operand? (text : List Char) : Option Qubit := do
  match ← operands? text with
  | [q] => some q
  | _ => none

/-- The gate that a word stands for. -/
def gateName? : String → Option String
  | "U" => some "u"
  | word =>
    let words := ["id", "x", "y", "z", "h", "s", "sdg", "rx", "ry", "rz", "p", "cx", "cz"]
    if word ∈ words then some word else none

/-- A statement outside of a block. -/
def statement? (line : List Char) : Option (Statement (Option Test)) :=
  let rest := line.dropWhile (·.isAlpha)
  match String.ofList (line.takeWhile (·.isAlpha)) with
  | "" => do
    let wires ← after? "// @pragma save_statevector ".toList rest
    return .snapshot (← operands? wires)
  | "c" => do
    let (bit, rest) ← cut? ' ' line
    let wire ← after? "= measure ".toList rest
    return .measure (← operand? wire) (← element? 'c' bit)
  | "reset" => do return .reset (← operand? (← after? [' '] rest))
  | "barrier" =>
    if rest = [';'] then some (.barrier [])
    else do return .barrier (← operands? (← after? [' '] rest))
  | word => do
    let name ← gateName? word
    match rest with
    | '(' :: rest =>
      let (angles, rest) ← cut? ')' rest
      let wires ← after? [' '] rest
      return .gate name ((items ',' angles).map String.ofList) (← operands? wires) none
    | _ => return .gate name [] (← operands? (← after? [' '] rest)) none

/-- The value on the right of a test and the text after it. -/
def value? : List Char → Option (Bool × List Char)
  | '0' :: rest => some (false, rest)
  | '1' :: rest => some (true, rest)
  | _ => none

/-- A test and the text after it. -/
def test? (text : List Char) : Option (Test × List Char) :=
  match text with
  | 'c' :: _ => do
    let (bit, rest) ← cut? ' ' text
    let (value, rest) ← value? (← after? "== ".toList rest)
    return (.bit (← element? 'c' bit) value, rest)
  | '(' :: text => do
    let (bits, rest) ← cut? ')' text
    let (value, rest) ← value? (← after? " == ".toList rest)
    return (.parity (← (items '^' bits).mapM (element? 'c')) value, rest)
  | _ => do return (.never, ← after? "false".toList text)

/-- The test in the first line of a block. -/
def opening? (line : List Char) : Option Test := do
  let (test, rest) ← test? (← after? "if (".toList line)
  if rest = ") \x7b".toList then some test else none

/-- The statement in the second line of a block, which applies a gate. -/
def inner? (test : Test) (line : List Char) : Option (Statement (Option Test)) := do
  match ← statement? (← after? "  ".toList line) with
  | .gate name angles qubits _ => some (.gate name angles qubits (some test))
  | _ => none

/-- The statements of several lines. -/
def statements? : List (List Char) → Option (List (Statement (Option Test)))
  | [] => some []
  | line :: lines =>
    match statement? line with
    | some statement => (statements? lines).map (statement :: ·)
    | none =>
      match lines with
      | inner :: closing :: lines => do
        let statement ← inner? (← opening? line) inner
        if closing = "\x7d".toList then (statements? lines).map (statement :: ·) else none
      | _ => none

/-- The size of a register, zero unless it is declared in the first line, and the other lines. -/
def declared (start ending : List Char) : List (List Char) → Nat × List (List Char)
  | [] => (0, [])
  | line :: lines =>
    match numberBetween? start ending line with
    | some size => (size, lines)
    | none => (0, line :: lines)

/-- The declarations, the blank line after them and the statements. -/
def body? (lines : List (List Char)) : Option (Listing (Option Test)) :=
  let (numQubits, lines) := declared "qubit[".toList " q;".toList lines
  let (numBits, lines) := declared "bit[".toList " c;".toList lines
  if 0 < numQubits ∨ 0 < numBits then
    match lines with
    | [] :: lines => do return ⟨numQubits, numBits, ← statements? lines⟩
    | _ => none
  else do return ⟨0, 0, ← statements? lines⟩

end Reader

/-- The listing of a program. -/
def Listing.read? (text : String) : Option (Listing (Option Test)) :=
  -- each line ends with a line break, so the last piece is empty
  match (text.toList.splitOn '\n').dropLast with
  | version :: gates :: blank :: lines =>
    if version = "OPENQASM 3.0;".toList ∧ gates = "include \"stdgates.inc\";".toList ∧ blank = []
    then Reader.body? lines
    else none
  | _ => none

namespace Reader

/-! ### Pieces of text -/

theorem after?_append (start text : List Char) : after? start (start ++ text) = some text := by
  induction start with
  | nil => rfl
  | cons c start ih => rw [List.cons_append, after?, if_pos rfl, ih]

theorem eq_append_of_after? {start text rest : List Char} (h : after? start text = some rest) :
    text = start ++ rest := by
  induction start generalizing text with
  | nil => exact Option.some.inj h
  | cons c start ih =>
    cases text with
    | nil => cases h
    | cons d text =>
      rw [after?] at h
      obtain ⟨rfl, hrest⟩ := Option.ite_none_right_eq_some.mp h
      rw [ih hrest, List.cons_append]

theorem cut?_append {c : Char} {before : List Char} (h : c ∉ before) (text : List Char) :
    cut? c (before ++ c :: text) = some (before, text) := by
  induction before with
  | nil => rw [List.nil_append, cut?, if_pos rfl]
  | cons d before ih =>
    rw [List.mem_cons, not_or] at h
    rw [List.cons_append, cut?, if_neg (Ne.symm h.1), ih h.2]
    rfl

theorem filter_intercalate (keep : Char → Bool) (separator : List Char) (l : List (List Char)) :
    (separator.intercalate l).filter keep
      = (separator.filter keep).intercalate (l.map (·.filter keep)) := by
  induction l with
  | nil => rfl
  | cons x l ih =>
    cases l with
    | nil => simp
    | cons y l =>
      rw [List.intercalate_cons_cons, List.filter_append, List.filter_append, ih]
      rw [List.map_cons, List.map_cons, List.map_cons, List.intercalate_cons_cons]

theorem mem_of_mem_intercalate {c : Char} {separator : List Char} {l : List (List Char)}
    (h : c ∈ separator.intercalate l) : c ∈ separator ∨ ∃ x ∈ l, c ∈ x := by
  induction l with
  | nil => cases h
  | cons x l ih =>
    cases l with
    | nil => exact .inr ⟨x, List.mem_singleton_self x, by simpa using h⟩
    | cons y l =>
      rw [List.intercalate_cons_cons, List.mem_append, List.mem_append] at h
      rcases h with (h | h) | h
      · exact .inr ⟨x, List.mem_cons_self .., h⟩
      · exact .inl h
      · refine (ih h).imp_right ?_
        rintro ⟨z, hz, hc⟩
        exact ⟨z, List.mem_cons_of_mem _ hz, hc⟩

/-- Items without blanks and separators are read back, whatever blanks are between them. -/
theorem items_intercalate {c : Char} {separator : List Char}
    (hseparator : separator.filter (· ≠ ' ') = [c]) {l : List (List Char)}
    (hl : ∀ x ∈ l, x ≠ [] ∧ ' ' ∉ x ∧ c ∉ x) : items c (separator.intercalate l) = l := by
  have hfilter : l.map (·.filter (· ≠ ' ')) = l := by
    rw [List.map_congr_left (g := id), List.map_id]
    intro x hx
    exact List.filter_eq_self.mpr fun d hd => decide_eq_true fun h => (hl x hx).2.1 (h ▸ hd)
  unfold items
  rw [filter_intercalate, hseparator, hfilter]
  cases l with
  | nil => rfl
  | cons x l =>
    have hne : ¬ ([c].intercalate (x :: l)).isEmpty = true := by
      cases l with
      | nil => simpa using (hl x (List.mem_singleton_self x)).1
      | cons y l => simp
    rw [if_neg hne]
    exact List.splitOn_intercalate c (fun y hy => (hl y hy).2.2) (List.cons_ne_nil x l)

theorem number?_toDigits (n : Nat) : number? (Nat.toDigits 10 n) = some n := by
  have hdigits : (Nat.toDigits 10 n).all (·.isDigit) = true :=
    List.all_eq_true.mpr fun c hc => Nat.isDigit_of_mem_toDigits (by decide) (by decide) hc
  have hvalue : Decimal.ofDigits (Nat.toDigits 10 n) = n := by
    unfold Decimal.ofDigits
    rw [← Nat.ofDigitChars_eq_foldl, Nat.ofDigitChars_ten_toDigits]
  unfold number?
  rw [hdigits, hvalue]
  simp [Nat.toDigits_ne_nil]

theorem not_mem_toDigits {c : Char} (h : c.isDigit = false) (n : Nat) : c ∉ Nat.toDigits 10 n := by
  intro hc
  have hdigit := Nat.isDigit_of_mem_toDigits (by decide) (by decide) hc
  simp [h] at hdigit

theorem numberBetween?_append (start ending : List Char) (n : Nat) :
    numberBetween? start ending (start ++ (Nat.toDigits 10 n ++ ']' :: ending)) = some n := by
  have hcut : ']' ∉ Nat.toDigits 10 n := not_mem_toDigits (by decide) n
  unfold numberBetween?
  simp [after?_append, cut?_append hcut, number?_toDigits]

theorem exists_of_numberBetween? {start ending text : List Char} {n : Nat}
    (h : numberBetween? start ending text = some n) : ∃ rest, text = start ++ rest := by
  unfold numberBetween? at h
  obtain ⟨rest, hrest, -⟩ := Option.bind_eq_some_iff.mp h
  exact ⟨rest, eq_append_of_after? hrest⟩

/-! ### Lines -/

theorem statements?_cons_of_some {line : List Char} {statement : Statement (Option Test)}
    (h : statement? line = some statement) (lines : List (List Char)) :
    statements? (line :: lines) = (statements? lines).map (statement :: ·) := by
  rw [statements?.eq_def]
  simp only [h]

theorem statements?_block {line inner : List Char} {test : Test}
    {statement : Statement (Option Test)} (h : statement? line = none)
    (hopening : opening? line = some test) (hinner : inner? test inner = some statement)
    (lines : List (List Char)) :
    statements? (line :: inner :: "\x7d".toList :: lines)
      = (statements? lines).map (statement :: ·) := by
  rw [statements?.eq_def]
  simp only [h, hopening, hinner, Option.bind_eq_bind, Option.bind_some, if_true]

/-- Outside of statements, only the first line of a block can start statements. -/
theorem statements?_eq_none {line : List Char} (h : statement? line = none)
    (hopening : opening? line = none) (lines : List (List Char)) :
    statements? (line :: lines) = none := by
  rw [statements?.eq_def]
  simp only [h, hopening]
  split <;> rfl

/-! ### Elements of registers -/

/-- The text of an element of a register. -/
def elementText (register : Char) (i : Nat) : List Char :=
  [register, '['] ++ (Nat.toDigits 10 i ++ [']'])

theorem element?_elementText (register : Char) (i : Nat) :
    element? register (elementText register i) = some i :=
  numberBetween?_append [register, '['] [] i

/-- A character that can be in the text of an element. -/
def inElement (register c : Char) : Bool := c == register || c == '[' || c == ']' || c.isDigit

theorem not_mem_elementText {c register : Char} (h : inElement register c = false) (i : Nat) :
    c ∉ elementText register i := by
  simp only [inElement, Bool.or_eq_false_iff, beq_eq_false_iff_ne] at h
  simp [elementText, h.1, not_mem_toDigits h.2]

/-- The text of several elements. -/
def elementsText (register : Char) (separator : List Char) (l : List Nat) : List Char :=
  separator.intercalate (l.map (elementText register))

theorem not_mem_elementsText {c register : Char} {separator : List Char}
    (h : inElement register c = false) (hseparator : c ∉ separator)
    (l : List Nat) : c ∉ elementsText register separator l := by
  intro hc
  rcases mem_of_mem_intercalate hc with hc | ⟨x, hx, hc⟩
  · exact hseparator hc
  · obtain ⟨i, -, rfl⟩ := List.mem_map.mp hx
    exact not_mem_elementText h i hc

/-- The elements are read back. -/
theorem mapM_elementsText {c register : Char} {separator : List Char}
    (hseparator : separator.filter (· ≠ ' ') = [c])
    (hblank : inElement register ' ' = false) (hc : inElement register c = false) (l : List Nat) :
    (items c (elementsText register separator l)).mapM (element? register) = some l := by
  have hl : ∀ x ∈ l.map (elementText register), x ≠ [] ∧ ' ' ∉ x ∧ c ∉ x := by
    intro x hx
    obtain ⟨i, -, rfl⟩ := List.mem_map.mp hx
    exact ⟨List.cons_ne_nil _ _, not_mem_elementText hblank i, not_mem_elementText hc i⟩
  have helement : element? register ∘ elementText register = some :=
    funext (element?_elementText register)
  rw [elementsText, items_intercalate hseparator hl, List.mapM_map, helement]
  exact List.mapM_pure.trans (congrArg some (List.map_id l))

end Reader

end OneWay
