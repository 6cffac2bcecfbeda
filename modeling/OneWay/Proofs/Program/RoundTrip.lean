import OneWay.Proofs.Program.Reader
import OneWay.Proofs.Program.Spelling

/-!
# Programs determine their circuits

Reading the program of a circuit gives the listing of the circuit back, up to what a normal form
drops. `Written` relates lines to the statements they are read as, whatever lines follow; it holds
of single lines and of blocks, and of lines one after the other, hence of all that is written for
the instructions of a circuit (`Circuit.written_bodyLines`). The header and the declarations are
read back separately (`Circuit.body?_declarations`).

A test is read as its own syntax, with a meaning of its own, and `Test.holds_condition` compares
this meaning with that of the condition it was written for.
-/

namespace OneWay

open Reader

/-! ### Operands -/

namespace Circuit

theorem toList_qubitText (q : Qubit) : (qubitText q).toList = elementText 'q' q := by
  simp [qubitText, elementText, ToString.toString, Nat.toList_repr]

theorem toList_bitText (b : Bit) : (bitText b).toList = elementText 'c' b := by
  simp [bitText, elementText, ToString.toString, Nat.toList_repr]

theorem toList_qubitsText (qubits : List Qubit) :
    (qubitsText qubits).toList = elementsText 'q' ", ".toList qubits := by
  have htext : String.toList ∘ qubitText = elementText 'q' := funext toList_qubitText
  rw [qubitsText, String.toList_intercalate, List.map_map, htext, elementsText]

theorem operands?_elementsText (qubits : List Qubit) :
    operands? (elementsText 'q' ", ".toList qubits ++ [';']) = some qubits := by
  have hcut : ';' ∉ elementsText 'q' ", ".toList qubits :=
    not_mem_elementsText (by decide) (by decide) qubits
  unfold operands?
  rw [cut?_append hcut]
  exact mapM_elementsText (by decide) (by decide) (by decide) qubits

theorem operand?_elementText (q : Qubit) : operand? (elementText 'q' q ++ [';']) = some q := by
  have hwires := operands?_elementsText [q]
  rw [elementsText, List.map_singleton, List.intercalate_singleton] at hwires
  rw [operand?, hwires]
  rfl

theorem newline_not_mem_operands (qubits : List Qubit) :
    '\n' ∉ elementsText 'q' ", ".toList qubits :=
  not_mem_elementsText (by decide) (by decide) qubits

/-! ### Statements -/

/-- The text of several angles. -/
def anglesText (angles : List Float) : List Char :=
  ", ".toList.intercalate (angles.map fun x => (Angle.text x).toList)

theorem not_mem_anglesText {c : Char} (hletter : Angle.isLetter c = false)
    (hseparator : c ∉ ", ".toList) (angles : List Float) : c ∉ anglesText angles := by
  intro hc
  rcases mem_of_mem_intercalate hc with hc | ⟨x, hx, hc⟩
  · exact hseparator hc
  · obtain ⟨angle, -, rfl⟩ := List.mem_map.mp hx
    exact (Angle.spelled_text angle).not_mem hletter hc

theorem items_anglesText (angles : List Float) :
    (items ',' (anglesText angles)).map String.ofList = angles.map Angle.text := by
  have hangles : ∀ x ∈ angles.map fun x => (Angle.text x).toList,
      x ≠ [] ∧ ' ' ∉ x ∧ ',' ∉ x := by
    intro x hx
    obtain ⟨angle, -, rfl⟩ := List.mem_map.mp hx
    have hspelled := Angle.spelled_text angle
    exact ⟨hspelled.1, hspelled.not_mem (by decide), hspelled.not_mem (by decide)⟩
  rw [anglesText, items_intercalate (by decide) hangles, List.map_map]
  exact List.map_congr_left fun x _ => String.ofList_toList

theorem toList_gateStatement {g : Gate} {qubits : List Qubit} {s : String}
    (h : gateStatement g qubits = .ok s) :
    s.toList = (gateWord g).toList ++
      ((if g.parameters.isEmpty then [] else '(' :: (anglesText g.parameters ++ [')'])) ++
        ' ' :: (elementsText 'q' ", ".toList qubits ++ [';'])) := by
  unfold gateStatement at h
  split at h
  · cases h
  · rw [← Except.ok.inj h]
    split
    · simp [ToString.toString, toList_qubitsText]
    · simp [ToString.toString, toList_qubitsText, anglesText, String.toList_intercalate,
        Function.comp_def]

theorem newline_not_mem_gateStatement {g : Gate} {qubits : List Qubit} {s : String}
    (h : gateStatement g qubits = .ok s) : '\n' ∉ s.toList := by
  have hword : '\n' ∉ (gateWord g).toList := by
    cases g <;> simp [gateWord, Gate.name]
  have hangles : '\n' ∉ anglesText g.parameters :=
    not_mem_anglesText (by decide) (by decide) g.parameters
  have hqubits := newline_not_mem_operands qubits
  rw [toList_gateStatement h]
  split
  · simpa [hword] using hqubits
  · simpa [hword, hangles] using hqubits

theorem statement?_gateWord (g : Gate) (rest : List Char) :
    statement? ((gateWord g).toList ++ ' ' :: rest)
      = do return .gate g.name [] (← operands? rest) none := by
  cases g <;> simp only [gateWord, Gate.name] <;> rfl

theorem statement?_gateWord_angles (g : Gate) (rest : List Char) :
    statement? ((gateWord g).toList ++ '(' :: rest) = do
      let (angles, rest) ← cut? ')' rest
      let wires ← after? [' '] rest
      return .gate g.name ((items ',' angles).map String.ofList) (← operands? wires) none := by
  cases g <;> simp only [gateWord, Gate.name] <;> rfl

/-- The application of a gate is read back. -/
theorem statement?_gateStatement {g : Gate} {qubits : List Qubit} {s : String}
    (h : gateStatement g qubits = .ok s) :
    statement? s.toList = some (.gate g.name (g.parameters.map Angle.text) qubits none) := by
  rw [toList_gateStatement h]
  split
  · next hnone =>
    rw [List.nil_append, statement?_gateWord, operands?_elementsText, List.isEmpty_iff.mp hnone]
    rfl
  · have hcut : ')' ∉ anglesText g.parameters :=
      not_mem_anglesText (by decide) (by decide) g.parameters
    rw [List.cons_append, List.append_assoc, statement?_gateWord_angles, List.cons_append,
      List.nil_append, cut?_append hcut]
    simp only [Option.bind_eq_bind, Option.bind_some, after?, if_true, operands?_elementsText,
      items_anglesText]
    rfl

end Circuit

/-! ### Tests -/

/-- The test of a condition; none if it always holds by its form. -/
def Condition.test? : Condition → Option Test
  | ⟨[], false⟩ => none
  | ⟨[], true⟩ => some .never
  | ⟨[b], value⟩ => some (.bit b value)
  | ⟨bits, value⟩ => some (.parity bits value)

namespace Test

/-- The text of a test. -/
def text : Test → List Char
  | never => "false".toList
  | bit b value => elementText 'c' b ++ (" == ".toList ++ [if value then '1' else '0'])
  | parity bits value =>
    '(' :: (elementsText 'c' " ^ ".toList bits ++ (") == ".toList ++ [if value then '1' else '0']))

theorem newline_not_mem_text (t : Test) : '\n' ∉ t.text := by
  cases t with
  | never => decide
  | bit b value =>
    have hbit : '\n' ∉ elementText 'c' b := not_mem_elementText (by decide) b
    cases value <;> simp [text, hbit]
  | parity bits value =>
    have hbits : '\n' ∉ elementsText 'c' " ^ ".toList bits :=
      not_mem_elementsText (by decide) (by decide) bits
    cases value <;> simpa [text] using hbits

/-- Tests are read back. -/
theorem test?_text (t : Test) (rest : List Char) : test? (t.text ++ rest) = some (t, rest) := by
  have hvalue : ∀ value : Bool, value? ((if value then '1' else '0') :: rest)
      = some (value, rest) := by
    intro value
    cases value <;> rfl
  cases t with
  | never => rfl
  | bit b value =>
    have hcut : ' ' ∉ elementText 'c' b := not_mem_elementText (by decide) b
    have htext : (bit b value).text ++ rest = elementText 'c' b ++ ' ' :: ("== ".toList ++
        ((if value then '1' else '0') :: rest)) := by
      simp [text]
    rw [htext]
    show (cut? ' ' (elementText 'c' b ++ _)).bind (fun x =>
      (after? "== ".toList x.2).bind fun text => (value? text).bind fun y =>
        (element? 'c' x.1).bind fun i => some (Test.bit i y.1, y.2)) = _
    rw [cut?_append hcut]
    simp only [Option.bind_some, after?_append, hvalue, element?_elementText]
  | parity bits value =>
    have hcut : ')' ∉ elementsText 'c' " ^ ".toList bits :=
      not_mem_elementsText (by decide) (by decide) bits
    have htext : (parity bits value).text ++ rest = '(' :: (elementsText 'c' " ^ ".toList bits ++
        ')' :: (" == ".toList ++ ((if value then '1' else '0') :: rest))) := by
      simp [text]
    have hseparator : " ^ ".toList.filter (· ≠ ' ') = ['^'] := by decide
    have hbits := mapM_elementsText hseparator (by decide : inElement 'c' ' ' = false)
      (by decide) bits
    rw [htext]
    show (cut? ')' (elementsText 'c' " ^ ".toList bits ++ _)).bind (fun x =>
      (after? " == ".toList x.2).bind fun text => (value? text).bind fun y =>
        ((items '^' x.1).mapM (element? 'c')).bind fun l => some (Test.parity l y.1, y.2)) = _
    rw [cut?_append hcut]
    simp only [Option.bind_some, after?_append, hvalue, hbits]

theorem holds_condition (t : Test) (register : Array Bool) :
    t.condition.holds register = t.holds register := by
  cases t with
  | never => rfl
  | bit b value => simp [condition, holds, Condition.holds]
  | parity bits value =>
    -- the condition adds the bits up from the left, the test from the right
    have hfold : ∀ acc : Bool, bits.foldl (fun acc b => acc ^^ register.getD b false) acc
        = (acc ^^ (bits.map (register.getD · false)).foldr xor false) := by
      induction bits with
      | nil => simp
      | cons b bits ih =>
        intro acc
        rw [List.foldl_cons, ih, List.map_cons, List.foldr_cons, Bool.xor_assoc]
    rw [condition, Condition.holds, hfold, Bool.false_xor, holds]

end Test

namespace Condition

/-- The test that is written for a condition. -/
theorem toList_testText? (c : Condition) :
    (Circuit.testText? c).map String.toList = c.test?.map Test.text := by
  have htarget : ∀ value : Bool, (if value then "1" else "0").toList
      = [if value then '1' else '0'] := by decide
  have hbit : String.toList ∘ Circuit.bitText = elementText 'c' := funext Circuit.toList_bitText
  obtain ⟨bits, value⟩ := c
  match bits with
  | [] => cases value <;> rfl
  | [b] =>
    simp [Circuit.testText?, test?, Test.text, ToString.toString, Circuit.toList_bitText, htarget]
  | a :: b :: bits =>
    simp [Circuit.testText?, test?, Test.text, ToString.toString, Circuit.toList_bitText, htarget,
      hbit, elementsText, String.toList_intercalate]

theorem map_condition_test? (c : Condition) :
    c.test?.map Test.condition = (some c).filter (· ≠ ⟨[], false⟩) := by
  obtain ⟨bits, value⟩ := c
  match bits, value with
  | [], false => rfl
  | [], true => rfl
  | [b], value => rfl
  | a :: b :: bits, value => rfl

theorem all_holds_test? (c : Condition) (register : Array Bool) :
    c.test?.all (·.holds register) = c.holds register := by
  obtain ⟨bits, value⟩ := c
  match bits, value with
  | [], false => rfl
  | [], true => rfl
  | [b], value => exact (Test.holds_condition (.bit b value) register).symm
  | a :: b :: bits, value => exact (Test.holds_condition (.parity _ value) register).symm

end Condition

/-! ### Lines -/

/-- Lines without line breaks that are read as the given statements, whatever lines follow. -/
structure Written (lines : List String) (statements : List (Statement (Option Test))) : Prop where
  unbroken : ∀ line ∈ lines, '\n' ∉ line.toList
  read : ∀ rest, statements? (lines.map String.toList ++ rest)
    = (statements? rest).map (statements ++ ·)

namespace Written

theorem nil : Written [] [] where
  unbroken := fun _ h => absurd h List.not_mem_nil
  read := fun rest => by simp

theorem append {lines₁ lines₂ : List String} {l₁ l₂ : List (Statement (Option Test))}
    (h₁ : Written lines₁ l₁) (h₂ : Written lines₂ l₂) :
    Written (lines₁ ++ lines₂) (l₁ ++ l₂) where
  unbroken := fun line h => (List.mem_append.mp h).elim (h₁.unbroken line) (h₂.unbroken line)
  read := fun rest => by
    rw [List.map_append, List.append_assoc, h₁.read, h₂.read, Option.map_map]
    simp only [Function.comp_def, List.append_assoc]

theorem map {α : Type} {line : α → String} {statement : α → Statement (Option Test)}
    (h : ∀ x, Written [line x] [statement x]) (l : List α) :
    Written (l.map line) (l.map statement) := by
  induction l with
  | nil => exact nil
  | cons x l ih => exact (h x).append ih

/-- A line that is a statement of its own. -/
theorem line {line : String} {text : List Char} {statement : Statement (Option Test)}
    (htext : line.toList = text) (hbreak : '\n' ∉ text) (h : statement? text = some statement) :
    Written [line] [statement] where
  unbroken := by
    intro line' hline
    rw [List.mem_singleton.mp hline, htext]
    exact hbreak
  read := fun rest => by
    rw [List.map_singleton, List.singleton_append, htext, statements?_cons_of_some h]
    rfl

/-- A block of three lines is one statement under a test. -/
theorem block {s : String} {name : String} {angles : List String} {qubits : List Qubit}
    (hbreak : '\n' ∉ s.toList) (hs : statement? s.toList = some (.gate name angles qubits none))
    {test : String} {t : Test} (htest : test.toList = t.text) :
    Written [s!"if ({test}) " ++ "\x7b", "  " ++ s, "\x7d"]
      [.gate name angles qubits (some t)] where
  unbroken := by
    simp [ToString.toString, htest, t.newline_not_mem_text, hbreak]
  read := fun rest => by
    have hfirst : (s!"if ({test}) " ++ "\x7b").toList
        = "if (".toList ++ (t.text ++ ") \x7b".toList) := by
      simp [ToString.toString, htest]
    have hsecond : ("  " ++ s).toList = "  ".toList ++ s.toList := String.toList_append
    -- `if` is not the name of a gate, so the line is no statement
    have hline : statement? ("if (".toList ++ (t.text ++ ") \x7b".toList)) = none := rfl
    have hopening : opening? ("if (".toList ++ (t.text ++ ") \x7b".toList)) = some t := by
      unfold opening?
      rw [after?_append]
      simp only [Option.bind_eq_bind, Option.bind_some, t.test?_text, if_true]
    have hinner : inner? t ("  ".toList ++ s.toList)
        = some (.gate name angles qubits (some t)) := by
      unfold inner?
      rw [after?_append]
      simp only [Option.bind_eq_bind, Option.bind_some, hs]
    rw [List.map_cons, List.map_cons, hfirst, hsecond]
    exact statements?_block hline hopening hinner rest

end Written

namespace Circuit

theorem written_measure (q : Qubit) (b : Bit) :
    Written [s!"{bitText b} = measure {qubitText q};"] [.measure q b] := by
  have htext : (s!"{bitText b} = measure {qubitText q};").toList
      = elementText 'c' b ++ ' ' :: ("= measure ".toList ++ (elementText 'q' q ++ [';'])) := by
    simp [ToString.toString, toList_bitText, toList_qubitText]
  have hbit : '\n' ∉ elementText 'c' b := not_mem_elementText (by decide) b
  have hqubit : '\n' ∉ elementText 'q' q := not_mem_elementText (by decide) q
  have hcut : ' ' ∉ elementText 'c' b := not_mem_elementText (by decide) b
  refine .line htext (by simp [hbit, hqubit]) ?_
  show (cut? ' ' (elementText 'c' b ++ _)).bind (fun x =>
    (after? "= measure ".toList x.2).bind fun text => (operand? text).bind fun q =>
      (element? 'c' x.1).bind fun i => some (Statement.measure q i)) = _
  rw [cut?_append hcut]
  simp only [Option.bind_some, after?_append, operand?_elementText, element?_elementText]

theorem written_reset (q : Qubit) : Written [s!"reset {qubitText q};"] [.reset q] := by
  have htext : (s!"reset {qubitText q};").toList
      = "reset ".toList ++ (elementText 'q' q ++ [';']) := by
    simp [ToString.toString, toList_qubitText]
  have hqubit : '\n' ∉ elementText 'q' q := not_mem_elementText (by decide) q
  refine .line htext (by simp [hqubit]) ?_
  show (operand? (elementText 'q' q ++ [';'])).bind (fun q => some (Statement.reset q)) = _
  rw [operand?_elementText]
  rfl

/-- A statement about several wires. -/
theorem written_operands {start : String} {statement : List Qubit → Statement (Option Test)}
    (hbreak : '\n' ∉ start.toList)
    (hread : ∀ text, statement? (start.toList ++ text)
      = (operands? text).bind fun qubits => some (statement qubits)) (qubits : List Qubit) :
    Written [start ++ qubitsText qubits ++ ";"] [statement qubits] := by
  have htext : (start ++ qubitsText qubits ++ ";").toList
      = start.toList ++ (elementsText 'q' ", ".toList qubits ++ [';']) := by
    simp [toList_qubitsText]
  refine .line htext (by simpa [hbreak] using newline_not_mem_operands qubits) ?_
  rw [hread, operands?_elementsText]
  rfl

theorem written_barrier (qubits : List Qubit) :
    Written [if qubits.isEmpty then "barrier;" else s!"barrier {qubitsText qubits};"]
      [.barrier qubits] := by
  split
  · next hnone =>
    rw [List.isEmpty_iff.mp hnone]
    exact .line rfl (by decide) rfl
  · exact written_operands (by decide : '\n' ∉ "barrier ".toList) (fun _ => rfl) qubits

theorem written_snapshot (qubits : List Qubit) :
    Written [s!"// @pragma save_statevector {qubitsText qubits};"] [.snapshot qubits] :=
  written_operands (by decide : '\n' ∉ "// @pragma save_statevector ".toList) (fun _ => rfl) qubits

/-- A gate under a condition. -/
theorem written_conditioned {g : Gate} {qubits : List Qubit} {s : String}
    (h : gateStatement g qubits = .ok s) (condition : Option Condition) :
    Written (conditioned condition s) [.gate g.name (g.parameters.map Angle.text) qubits
      (condition.bind Condition.test?)] := by
  have htext : (condition.bind testText?).map String.toList
      = (condition.bind Condition.test?).map Test.text := by
    cases condition with
    | none => rfl
    | some c => exact c.toList_testText?
  unfold conditioned
  cases htest : condition.bind Condition.test? with
  | none =>
    rw [htest, Option.map_none, Option.map_eq_none_iff] at htext
    rw [htext]
    exact .line rfl (newline_not_mem_gateStatement h) (statement?_gateStatement h)
  | some t =>
    rw [htest, Option.map_some, Option.map_eq_some_iff] at htext
    obtain ⟨test, htext, hlist⟩ := htext
    rw [htext]
    exact .block (newline_not_mem_gateStatement h) (statement?_gateStatement h) hlist

/-- The lines of an instruction. -/
theorem written_instructionLines {inst : Instruction} {lines : List String}
    (h : instructionLines inst = .ok lines) :
    Written lines (inst.statements (·.bind Condition.test?)) := by
  obtain ⟨action, qubits, bits⟩ := inst
  unfold instructionLines at h
  unfold Instruction.statements
  cases action with
  | gate g =>
    dsimp only at h ⊢
    cases hs : gateStatement g.gate qubits with
    | error f =>
      rw [hs] at h
      cases h
    | ok s =>
      rw [hs] at h
      rw [← Except.ok.inj h]
      exact written_conditioned hs g.condition
  | measure =>
    dsimp only at h ⊢
    rw [← Except.ok.inj h]
    exact .map (fun (q, b) => written_measure q b) _
  | reset =>
    dsimp only at h ⊢
    rw [← Except.ok.inj h]
    exact .map written_reset _
  | barrier =>
    dsimp only at h ⊢
    rw [← Except.ok.inj h]
    exact written_barrier qubits
  | snapshot =>
    dsimp only at h ⊢
    rw [← Except.ok.inj h]
    exact written_snapshot qubits

/-- The lines of several instructions. -/
theorem written_bodyLines {l : List Instruction} {body : List String}
    (h : bodyLines l = .ok body) :
    Written body (l.flatMap (·.statements (·.bind Condition.test?))) := by
  induction l generalizing body with
  | nil =>
    obtain rfl := Except.ok.inj h
    exact .nil
  | cons inst l ih =>
    cases hfirst : instructionLines inst with
    | error f => simp [bodyLines, hfirst, bind, Except.bind] at h
    | ok first =>
      cases hothers : bodyLines l with
      | error f => simp [bodyLines, hfirst, hothers, bind, Except.bind] at h
      | ok others =>
        have hbody : body = first ++ others := by
          simpa [bodyLines, hfirst, hothers, bind, Except.bind, pure, Except.pure] using h.symm
        rw [hbody]
        exact (written_instructionLines hfirst).append (ih hothers)

/-! ### Declarations -/

/-- Statements do not start with a declaration. -/
theorem declared_of_statements? {start ending : List Char} {lines : List (List Char)}
    {statements : List (Statement (Option Test))}
    (hstart : ∀ text, statement? (start ++ text) = none ∧ opening? (start ++ text) = none)
    (h : statements? lines = some statements) : declared start ending lines = (0, lines) := by
  cases lines with
  | nil => rfl
  | cons line lines =>
    rw [declared]
    cases hsize : numberBetween? start ending line with
    | none => rfl
    | some size =>
      obtain ⟨text, hline⟩ := exists_of_numberBetween? hsize
      obtain ⟨hstatement, hopening⟩ := hstart text
      rw [← hline] at hstatement hopening
      rw [statements?_eq_none hstatement hopening] at h
      cases h

/-- The declaration of a register that is not empty is read back. -/
theorem declared_append {start ending : List Char} {size : Nat} {line : String}
    (hline : line.toList = start ++ (Nat.toDigits 10 size ++ ']' :: ending))
    {rest : List (List Char)} (hrest : size = 0 → declared start ending rest = (0, rest)) :
    declared start ending ((if 0 < size then [line] else []).map String.toList ++ rest)
      = (size, rest) := by
  split
  · rw [List.map_singleton, List.singleton_append, declared, hline, numberBetween?_append]
  · next hsize =>
    have hzero : size = 0 := by omega
    rw [List.map_nil, List.nil_append, hrest hzero, hzero]

/-- The declarations and the blank line after them. -/
theorem body?_declarations {n m : Nat} {lines : List (List Char)}
    {statements : List (Statement (Option Test))} (h : statements? lines = some statements) :
    body? ((if 0 < n then [s!"qubit[{n}] q;"] else []).map String.toList ++
        ((if 0 < m then [s!"bit[{m}] c;"] else []).map String.toList ++
          ((if 0 < n ∨ 0 < m then [""] else []).map String.toList ++ lines)))
      = some ⟨n, m, statements⟩ := by
  have hqubits : (s!"qubit[{n}] q;").toList
      = "qubit[".toList ++ (Nat.toDigits 10 n ++ ']' :: " q;".toList) := by
    simp [ToString.toString, Nat.toList_repr]
  have hbits : (s!"bit[{m}] c;").toList
      = "bit[".toList ++ (Nat.toDigits 10 m ++ ']' :: " c;".toList) := by
    simp [ToString.toString, Nat.toList_repr]
  -- a register that is not declared: the line in its place is no declaration of it
  have hafterBits : m = 0 → declared "bit[".toList " c;".toList
      ((if 0 < n ∨ 0 < m then [""] else []).map String.toList ++ lines)
        = (0, (if 0 < n ∨ 0 < m then [""] else []).map String.toList ++ lines) := by
    intro hm
    by_cases hn : 0 < n
    · rw [if_pos (.inl hn)]
      rfl
    · rw [if_neg (by omega)]
      exact declared_of_statements? (fun _ => ⟨rfl, rfl⟩) h
  have hafterQubits : n = 0 → declared "qubit[".toList " q;".toList
      ((if 0 < m then [s!"bit[{m}] c;"] else []).map String.toList ++
        ((if 0 < n ∨ 0 < m then [""] else []).map String.toList ++ lines))
        = (0, (if 0 < m then [s!"bit[{m}] c;"] else []).map String.toList ++
            ((if 0 < n ∨ 0 < m then [""] else []).map String.toList ++ lines)) := by
    intro hn
    by_cases hm : 0 < m
    · rw [if_pos hm, List.map_singleton, hbits]
      rfl
    · rw [if_neg hm, if_neg (by omega)]
      exact declared_of_statements? (fun _ => ⟨rfl, rfl⟩) h
  unfold body?
  simp only [declared_append hqubits hafterQubits, declared_append hbits hafterBits]
  by_cases hregisters : 0 < n ∨ 0 < m
  · simp only [if_pos hregisters, List.map_singleton, List.singleton_append]
    show (statements? lines).bind (fun l => some (⟨n, m, l⟩ : Listing (Option Test))) = _
    rw [h]
    rfl
  · have hzero : n = 0 ∧ m = 0 := by omega
    simp only [if_neg hregisters, List.map_nil, List.nil_append]
    rw [h, hzero.1, hzero.2]
    rfl

/-! ### Programs -/

theorem splitOn_join {lines : List String} (h : ∀ line ∈ lines, '\n' ∉ line.toList) :
    (String.join (lines.map (· ++ "\n"))).toList.splitOn '\n'
      = lines.map String.toList ++ [[]] := by
  rw [String.toList_join]
  induction lines with
  | nil => rfl
  | cons line lines ih =>
    have hline : '\n' ∉ line.toList := h line (List.mem_cons_self ..)
    have hlines := ih fun line' hline' => h line' (List.mem_cons_of_mem _ hline')
    have hbreak : "\n".toList = ['\n'] := rfl
    rw [List.map_cons, List.flatMap_cons, String.toList_append, List.append_assoc, hbreak,
      List.singleton_append, List.splitOn_append_cons_self_of_not_mem hline, hlines]
    rfl

theorem exists_of_program {c : Circuit} {text : String} (h : c.program = .ok text) :
    ∃ body, bodyLines c.instructions.toList = .ok body ∧
      text = String.join ((c.headLines ++ body).map (· ++ "\n")) := by
  unfold program at h
  cases hvalid : c.validate with
  | error f =>
    rw [hvalid] at h
    cases h
  | ok u =>
    cases hbody : bodyLines c.instructions.toList with
    | error f =>
      rw [hvalid, hbody] at h
      cases h
    | ok body =>
      rw [hvalid, hbody] at h
      exact ⟨body, rfl, (Except.ok.inj h).symm⟩

theorem newline_not_mem_headLines (c : Circuit) : ∀ line ∈ c.headLines, '\n' ∉ line.toList := by
  have hsize : ∀ n, '\n' ∉ Nat.toDigits 10 n := not_mem_toDigits (by decide)
  intro line hline
  unfold headLines at hline
  simp only [List.mem_append] at hline
  rcases hline with ((hline | hline) | hline) | hline
  · revert line
    decide
  · split at hline
    · rw [List.mem_singleton.mp hline]
      simp [ToString.toString, Nat.toList_repr, hsize]
    · cases hline
  · split at hline
    · rw [List.mem_singleton.mp hline]
      simp [ToString.toString, Nat.toList_repr, hsize]
    · cases hline
  · split at hline
    · rw [List.mem_singleton.mp hline]
      decide
    · cases hline

/-- A program is read back as the listing of its circuit. -/
theorem read?_eq_listing {c : Circuit} {text : String} (h : c.program = .ok text) :
    Listing.read? text = some (c.listing (·.bind Condition.test?)) := by
  obtain ⟨body, hbody, rfl⟩ := exists_of_program h
  have hwritten := written_bodyLines hbody
  have hlines : ∀ line ∈ c.headLines ++ body, '\n' ∉ line.toList := by
    intro line hline
    exact (List.mem_append.mp hline).elim (c.newline_not_mem_headLines line)
      (hwritten.unbroken line)
  have hstatements : statements? (body.map String.toList)
      = some (c.instructions.toList.flatMap (·.statements (·.bind Condition.test?))) := by
    simpa [statements?] using hwritten.read []
  unfold Listing.read?
  rw [splitOn_join hlines, List.dropLast_concat, headLines]
  simp only [List.append_assoc, List.map_append, List.map_cons, List.cons_append,
    List.nil_append]
  exact body?_declarations hstatements

/-! ### Meanings of guards -/

variable {γ δ : Type}

theorem map_listing (f : Option Condition → γ) (g : γ → δ) (c : Circuit) :
    (c.listing f).map g = c.listing (g ∘ f) := by
  have hinst : ∀ inst : Instruction,
      (inst.statements f).map (·.map g) = inst.statements (g ∘ f) := by
    intro inst
    unfold Instruction.statements
    cases inst.action <;> simp [Statement.map, Function.comp_def]
  unfold listing Listing.map
  simp only [List.map_flatMap, hinst]

/-- Tests read as conditions give the normal form. -/
theorem map_condition_listing (c : Circuit) :
    (c.listing (·.bind Condition.test?)).map (·.map Test.condition) = c.normalForm := by
  rw [map_listing, normalForm]
  congr 1
  funext condition
  cases condition with
  | none => rfl
  | some demand => exact demand.map_condition_test?

/-- Tests let a gate through iff its condition holds. -/
theorem map_holds_listing (c : Circuit) (register : Array Bool) :
    (c.listing (·.bind Condition.test?)).map (·.all (·.holds register))
      = c.listing (·.all (·.holds register)) := by
  rw [map_listing]
  congr 1
  funext condition
  cases condition with
  | none => rfl
  | some demand => exact demand.all_holds_test? register

/-- **Programs are read back**: the listing that is read from the program of a circuit has the
normal form of the circuit, and for every register its guards let through the gates whose
conditions hold. So circuits with one program have one normal form. -/
theorem program_determines_normalForm {c : Circuit} {text : String} (h : c.program = .ok text) :
    (∃ p, Listing.read? text = some p ∧ p.map (·.map Test.condition) = c.normalForm ∧
      ∀ register, p.map (·.all (·.holds register)) = c.listing (·.all (·.holds register))) ∧
    ∀ c' : Circuit, c'.program = .ok text → c'.normalForm = c.normalForm := by
  have hread := read?_eq_listing h
  refine ⟨⟨_, hread, c.map_condition_listing, c.map_holds_listing⟩, fun c' h' => ?_⟩
  have hlisting := Option.some.inj ((read?_eq_listing h').symm.trans hread)
  rw [← c'.map_condition_listing, ← c.map_condition_listing, hlisting]

/-- Conditions of every form, a measurement of two wires and a barrier on none. -/
def sampler : Circuit where
  name := "sampler"
  numQubits := 2
  numBits := 2
  instructions := #[
    ⟨.measure, [0, 1], [1, 0]⟩,
    ⟨.gate { gate := .x, condition := some ⟨[0, 1], true⟩ }, [1], []⟩,
    ⟨.gate { gate := .z, condition := some ⟨[1], false⟩ }, [0], []⟩,
    ⟨.gate { gate := .h, condition := some ⟨[], true⟩ }, [0], []⟩,
    ⟨.gate { gate := .cx, label := some "plain", condition := some ⟨[], false⟩ }, [1, 0], []⟩,
    ⟨.barrier, [], []⟩]

theorem normalForm_sampler :
    ∃ text p, sampler.program = .ok text ∧ Listing.read? text = some p ∧
      p.map (·.map Test.condition) = ⟨2, 2, [
        .measure 0 1, .measure 1 0,
        .gate "x" [] [1] (some ⟨[0, 1], true⟩),
        .gate "z" [] [0] (some ⟨[1], false⟩),
        .gate "h" [] [0] (some ⟨[], true⟩),
        .gate "cx" [] [1, 0] none,
        .barrier []]⟩ := by
  cases hprogram : sampler.program with
  | error f =>
    have hsome : sampler.program.toOption.isSome = true := by decide +kernel
    rw [hprogram] at hsome
    cases hsome
  | ok text =>
    obtain ⟨⟨p, hread, hnormal, -⟩, -⟩ := program_determines_normalForm hprogram
    exact ⟨text, p, rfl, hread, hnormal⟩

end Circuit

end OneWay
