import OneWay.Proofs.Json.Number

/-!
# Values in documents

A value that is written is read as itself, on several lines (`Json.read_pretty`) or on one
(`Json.read_compact`), if its numbers are and the names of its fields need no escapes.

The proof says for each reader what it makes of a text whatever follows (`Json.Reads`), and how
these facts are put together; the writers put them together in the same way.
-/

namespace OneWay.Json

/-! ### Strings -/

theorem unescape?_shortEscape? {c e : Char} (h : shortEscape? c = some e) :
    e ≠ 'u' ∧ unescape? e = some c := by
  unfold shortEscape? at h
  split at h <;> cases h
  all_goals exact ⟨by decide, rfl⟩

/-- A control character is read as it was written. -/
theorem unicodeEscape?_control {c : Char} (hc : c.toNat < 32) (rest : List Char) :
    unicodeEscape? ('0' :: '0' :: Nat.digitChar (c.toNat / 16) :: Nat.digitChar (c.toNat % 16)
      :: rest) = some (some c, rest) := by
  have hhex : ∀ d < 16, hexDigit? (Nat.digitChar d) = some d := by decide
  have hunit : ((0 * 16 + 0) * 16 + c.toNat / 16) * 16 + c.toNat % 16 = c.toNat := by omega
  have hzero : hexDigit? '0' = some 0 := by decide
  unfold unicodeEscape? hex4?
  simp only [hzero, hhex _ (show c.toNat / 16 < 16 by omega),
    hhex _ (show c.toNat % 16 < 16 by omega), Option.bind_eq_bind, Option.bind_some,
    Option.pure_def, hunit]
  rw [if_neg (by omega), if_neg (by omega), Char.ofNat_toNat]

/-- Whether a character stands for itself in a string. -/
def isLiteral (c : Char) : Bool := (shortEscape? c).isNone && 32 ≤ c.toNat

theorem isLiteral_of_isDigit {c : Char} (h : c.isDigit = true) : isLiteral c = true := by
  have hlow : 32 ≤ c.toNat := by
    rw [Char.isDigit_iff_toNat] at h
    exact Nat.le_trans (by decide) h.1
  have hshort : shortEscape? c = none := by
    unfold shortEscape?
    split
    all_goals first
      | rfl
      | simp at h
  rw [isLiteral, hshort, decide_eq_true hlow]
  rfl

theorem stringBody?_writeChar (fuel : Nat) (acc : List Char) (escaped : Bool) (c : Char)
    (rest : List Char) :
    stringBody? (fuel + 1) (some acc) escaped (writeChar c rest)
      = stringBody? fuel (some (c :: acc)) (escaped || !isLiteral c) rest := by
  unfold writeChar isLiteral
  cases hshort : shortEscape? c with
  | some e =>
    obtain ⟨hu, hunescape⟩ := unescape?_shortEscape? hshort
    simp [stringBody?, hunescape]
  | none =>
    by_cases hcontrol : c.toNat < 32
    · have hlow : ¬ 32 ≤ c.toNat := by omega
      simp only [hcontrol, if_true, hlow, stringBody?, unicodeEscape?_control hcontrol]
      simp
    · have hquote : c ≠ '"' := by
        rintro rfl
        cases hshort
      have hslash : c ≠ '\\' := by
        rintro rfl
        cases hshort
      have hlow : 32 ≤ c.toNat := by omega
      simp [hcontrol, hlow, stringBody?, hslash]

theorem length_le_writeChar (c : Char) (rest : List Char) :
    rest.length + 1 ≤ (writeChar c rest).length := by
  unfold writeChar
  split
  · simp
  · split <;> simp

/-- What is left of a text is not longer than the text. -/
theorem length_le_writeChars (cs rest : List Char) :
    rest.length + 1 ≤ (writeChars cs rest).length := by
  induction cs with
  | nil => exact Nat.le_refl _
  | cons c cs ih => exact Nat.le_trans (Nat.le_succ_of_le ih) (length_le_writeChar c _)

/-- The characters of a string are read up to its end. -/
theorem stringBody?_writeChars (cs : List Char) {fuel : Nat} (acc : List Char) (escaped : Bool)
    {rest : List Char} (hfuel : (writeChars cs rest).length ≤ fuel) :
    stringBody? fuel (some acc) escaped (writeChars cs rest)
      = some (⟨some (String.ofList (acc.reverse ++ cs)), escaped || !cs.all isLiteral⟩, rest) := by
  induction cs generalizing fuel acc escaped with
  | nil =>
    cases fuel with
    | zero => exact absurd hfuel (by simp [writeChars])
    | succ fuel => simp [writeChars, stringBody?]
  | cons c cs ih =>
    have hlen := length_le_writeChar c (writeChars cs rest)
    obtain ⟨fuel, rfl⟩ : ∃ k, fuel = k + 1 := ⟨fuel - 1, by rw [writeChars] at hfuel; omega⟩
    rw [writeChars] at hfuel ⊢
    rw [stringBody?_writeChar, ih _ _ (by omega)]
    simp [Bool.or_assoc]

/-- A string is read as it was written. -/
theorem string?_writeChars (s : String) {fuel : Nat} {rest : List Char}
    (hfuel : (writeChars s.toList rest).length ≤ fuel) :
    string? fuel (writeChars s.toList rest) = some (⟨some s, !s.toList.all isLiteral⟩, rest) := by
  unfold string?
  rw [stringBody?_writeChars s.toList [] false hfuel]
  simp

/-! ### Blanks -/

theorem skipBlanks_cons {c : Char} (hc : isBlank c = true) (cs : List Char) :
    skipBlanks (c :: cs) = skipBlanks cs := List.dropWhile_cons_of_pos hc

theorem skipBlanks_of_not {c : Char} (hc : isBlank c = false) (cs : List Char) :
    skipBlanks (c :: cs) = c :: cs := List.dropWhile_cons_of_neg (by simp [hc])

theorem skipBlanks_writeBreak (level : Nat) (cs : List Char) :
    skipBlanks (writeBreak level cs) = skipBlanks cs := by
  unfold writeBreak
  rw [skipBlanks_cons rfl]
  exact List.dropWhile_append_of_pos fun c hc => by
    rw [(List.mem_replicate.mp hc).2]
    rfl

/-! ### What the readers make of a text -/

/-- A reader takes a text up to `rest` as `a`, with any bound on its steps that is not below the
length of the text. -/
structure Reads {α : Type} (reader : Nat → List Char → Option (α × List Char)) (a : α)
    (cs rest : List Char) : Prop where
  length_le : rest.length ≤ cs.length
  eq_some : ∀ fuel, cs.length ≤ fuel → reader fuel cs = some (a, rest)

/-- The text is read as the items `l`, whatever items stand before. -/
def ReadsItems (r : Decimal.Reader) (l : List Datum) (cs rest : List Char) : Prop :=
  ∀ acc, Reads (items? r · acc) (.list (acc.reverse ++ l)) cs rest

/-- The text is read as the fields `l`, whatever fields stand before. -/
def ReadsFields (r : Decimal.Reader) (l : List (Spelling × Datum)) (cs rest : List Char) : Prop :=
  ∀ acc, Reads (fields? r · acc) (object (acc.reverse ++ l)) cs rest

variable {r : Decimal.Reader} {v : Datum} {l : List Datum}
variable {f : Spelling × Datum} {fs : List (Spelling × Datum)}
variable {cs cs' mid rest : List Char}

/-- A text that is not empty leaves a step to take. -/
theorem exists_fuel {c : Char} {fuel : Nat} (h : (c :: cs).length ≤ fuel) :
    ∃ k, fuel = k + 1 ∧ cs.length ≤ k :=
  ⟨fuel - 1, by simp at h; omega, by simp at h; omega⟩

/-- Two texts in a row, with a character before them. -/
theorem length_le_cons {c : Char} (hmid : mid.length ≤ cs.length)
    (hrest : rest.length ≤ mid.length) : rest.length ≤ (c :: cs).length :=
  (hrest.trans hmid).trans (Nat.le_succ _)

section Blanks

variable {α : Type} {reader : Nat → List Char → Option (α × List Char)} {a : α}

/-- A reader skips the blanks that it finds. -/
def SkipsBlanks (reader : Nat → List Char → Option (α × List Char)) : Prop :=
  ∀ fuel cs cs', skipBlanks cs' = skipBlanks cs → reader fuel cs' = reader fuel cs

theorem skipsBlanks_value? : SkipsBlanks (value? r) := by
  intro fuel cs cs' h
  cases fuel <;> simp only [value?, h]

theorem skipsBlanks_items? (acc : List Datum) : SkipsBlanks (items? r · acc) := by
  intro fuel cs cs' h
  cases fuel <;> simp only [items?, h]

theorem skipsBlanks_field? : SkipsBlanks (field? r) := by
  intro fuel cs cs' h
  cases fuel <;> simp only [field?, h]

theorem skipsBlanks_fields? (acc : List (Spelling × Datum)) : SkipsBlanks (fields? r · acc) := by
  intro fuel cs cs' h
  cases fuel <;> simp only [fields?, h]

theorem Reads.blanks (h : Reads reader a cs rest) (hreader : SkipsBlanks reader)
    (hlen : cs.length ≤ cs'.length) (hskip : skipBlanks cs' = skipBlanks cs) :
    Reads reader a cs' rest where
  length_le := h.length_le.trans hlen
  eq_some fuel hfuel := by
    rw [hreader fuel cs cs' hskip]
    exact h.eq_some fuel (hlen.trans hfuel)

/-- What follows a line break is read as without it. -/
theorem Reads.writeBreak (h : Reads reader a cs rest) (hreader : SkipsBlanks reader)
    (level : Nat) : Reads reader a (writeBreak level cs) rest := by
  refine h.blanks hreader ?_ (skipBlanks_writeBreak level cs)
  simp [Json.writeBreak]
  omega

end Blanks

/-- A value does not start with a bracket that closes. -/
theorem Reads.skipBlanks_ne (h : Reads (value? r) v cs rest) : ∀ l, skipBlanks cs ≠ ']' :: l := by
  intro l hl
  have hread := h.eq_some (cs.length + 1) (Nat.le_succ _)
  simp only [value?, hl] at hread
  revert hread
  simp [number?, unsigned?, whole?]

theorem reads_arr_nil (rest : List Char) :
    Reads (value? r) (.list []) ('[' :: ']' :: rest) rest where
  length_le := length_le_cons (Nat.le_succ _) (Nat.le_refl _)
  eq_some fuel hfuel := by
    obtain ⟨k, rfl, -⟩ := exists_fuel hfuel
    simp only [value?, skipBlanks_of_not (c := '[') rfl, skipBlanks_of_not (c := ']') rfl]

theorem Reads.arr (hv : Reads (value? r) v cs mid) (hl : ReadsItems r l mid rest) :
    Reads (value? r) (.list (v :: l)) ('[' :: cs) rest where
  length_le := length_le_cons hv.length_le (hl []).length_le
  eq_some fuel hfuel := by
    obtain ⟨k, rfl, hk⟩ := exists_fuel hfuel
    simp only [value?, skipBlanks_of_not (c := '[') rfl]
    split
    · next heq => exact absurd heq (hv.skipBlanks_ne _)
    · rw [hv.eq_some k hk]
      exact (hl [v]).eq_some k (hv.length_le.trans hk)

theorem readsItems_nil (rest : List Char) : ReadsItems r [] (']' :: rest) rest := fun acc =>
  { length_le := Nat.le_succ _
    eq_some := by
      intro fuel hfuel
      obtain ⟨k, rfl, -⟩ := exists_fuel hfuel
      simp only [items?, skipBlanks_of_not (c := ']') rfl, List.append_nil] }

theorem ReadsItems.cons (hv : Reads (value? r) v cs mid) (hl : ReadsItems r l mid rest) :
    ReadsItems r (v :: l) (',' :: cs) rest := fun acc =>
  { length_le := length_le_cons hv.length_le (hl acc).length_le
    eq_some := by
      intro fuel hfuel
      obtain ⟨k, rfl, hk⟩ := exists_fuel hfuel
      have hrest := (hl (v :: acc)).eq_some k (hv.length_le.trans hk)
      rw [List.reverse_cons, List.append_assoc, List.singleton_append] at hrest
      simp only [items?, skipBlanks_of_not (c := ',') rfl, hv.eq_some k hk]
      exact hrest }

theorem reads_obj_nil (rest : List Char) :
    Reads (value? r) (.mapping []) ('{' :: '}' :: rest) rest where
  length_le := length_le_cons (Nat.le_succ _) (Nat.le_refl _)
  eq_some fuel hfuel := by
    obtain ⟨k, rfl, -⟩ := exists_fuel hfuel
    simp only [value?, skipBlanks_of_not (c := '{') rfl, skipBlanks_of_not (c := '}') rfl]

theorem Reads.field (s : String) (hv : Reads (value? r) v cs rest) :
    Reads (field? r) (⟨some s, !s.toList.all isLiteral⟩, v) (writeString s (':' :: cs)) rest where
  length_le := by
    have hname := length_le_writeChars s.toList (':' :: cs)
    exact length_le_cons (Nat.le_of_succ_le hname) (hv.length_le.trans (Nat.le_succ _))
  eq_some fuel hfuel := by
    obtain ⟨k, rfl, hk⟩ := exists_fuel hfuel
    have hname := length_le_writeChars s.toList (':' :: cs)
    rw [List.length_cons] at hname
    simp only [field?, writeString, skipBlanks_of_not (c := '"') rfl, string?_writeChars s hk,
      skipBlanks_of_not (c := ':') rfl, hv.eq_some k (by omega), Option.map_some]

/-- A field does not start with a brace that closes. -/
theorem Reads.skipBlanks_field_ne (h : Reads (field? r) f cs rest) :
    ∀ l, skipBlanks cs ≠ '}' :: l := by
  intro l hl
  have hread := h.eq_some (cs.length + 1) (Nat.le_succ _)
  simp [field?, hl] at hread

theorem skipBlanks_skipBlanks (cs : List Char) : skipBlanks (skipBlanks cs) = skipBlanks cs := by
  induction cs with
  | nil => rfl
  | cons c cs ih =>
    by_cases hc : isBlank c = true
    · rw [skipBlanks_cons hc, ih]
    · rw [skipBlanks_of_not (by simpa using hc), skipBlanks_of_not (by simpa using hc)]

theorem Reads.obj (hf : Reads (field? r) f cs mid) (hl : ReadsFields r fs mid rest) :
    Reads (value? r) (object (f :: fs)) ('{' :: cs) rest where
  length_le := length_le_cons hf.length_le (hl []).length_le
  eq_some fuel hfuel := by
    obtain ⟨k, rfl, hk⟩ := exists_fuel hfuel
    simp only [value?, skipBlanks_of_not (c := '{') rfl]
    split
    · next heq => exact absurd heq (hf.skipBlanks_field_ne _)
    · -- the blanks before the first field have been skipped already
      rw [skipsBlanks_field? k cs _ (skipBlanks_skipBlanks cs), hf.eq_some k hk]
      exact (hl [f]).eq_some k (hf.length_le.trans hk)

theorem readsFields_nil (rest : List Char) : ReadsFields r [] ('}' :: rest) rest := fun acc =>
  { length_le := Nat.le_succ _
    eq_some := by
      intro fuel hfuel
      obtain ⟨k, rfl, -⟩ := exists_fuel hfuel
      simp only [fields?, skipBlanks_of_not (c := '}') rfl, List.append_nil] }

theorem ReadsFields.cons (hf : Reads (field? r) f cs mid) (hl : ReadsFields r fs mid rest) :
    ReadsFields r (f :: fs) (',' :: cs) rest := fun acc =>
  { length_le := length_le_cons hf.length_le (hl acc).length_le
    eq_some := by
      intro fuel hfuel
      obtain ⟨k, rfl, hk⟩ := exists_fuel hfuel
      have hrest := (hl (f :: acc)).eq_some k (hf.length_le.trans hk)
      rw [List.reverse_cons, List.append_assoc, List.singleton_append] at hrest
      simp only [fields?, skipBlanks_of_not (c := ',') rfl, hf.eq_some k hk]
      exact hrest }

/-! ### Scalars -/

theorem reads_null (rest : List Char) : Reads (value? r) .null ("null".toList ++ rest) rest where
  length_le := by
    rw [List.length_append]
    exact Nat.le_add_left _ _
  eq_some fuel hfuel := by
    obtain ⟨k, rfl, -⟩ :=
      exists_fuel (show ('n' :: ("ull".toList ++ rest)).length ≤ fuel from hfuel)
    rfl

theorem reads_bool (b : Bool) (rest : List Char) :
    Reads (value? r) (.bool b) ((if b then "true".toList else "false".toList) ++ rest) rest where
  length_le := by
    rw [List.length_append]
    exact Nat.le_add_left _ _
  eq_some fuel hfuel := by
    cases b with
    | true =>
      obtain ⟨k, rfl, -⟩ :=
        exists_fuel (show ('t' :: ("rue".toList ++ rest)).length ≤ fuel from hfuel)
      rfl
    | false =>
      obtain ⟨k, rfl, -⟩ :=
        exists_fuel (show ('f' :: ("alse".toList ++ rest)).length ≤ fuel from hfuel)
      rfl

theorem reads_str (s : String) (rest : List Char) :
    Reads (value? r) (.str s) (writeString s rest) rest where
  length_le := by
    have := length_le_writeChars s.toList rest
    rw [writeString, List.length_cons]
    omega
  eq_some fuel hfuel := by
    obtain ⟨k, rfl, hk⟩ := exists_fuel hfuel
    simp only [value?, writeString, skipBlanks_of_not (c := '"') rfl, string?_writeChars s hk,
      Option.map_some, Spelling.datum]

/-- A number starts with a sign or a digit. -/
theorem starts_of_number? {n : Number} (h : number? r cs = some (n, rest)) :
    ∃ c l, cs = c :: l ∧ (c = '-' ∨ c.isDigit = true) := by
  unfold number? at h
  split at h
  · exact ⟨_, _, rfl, .inl rfl⟩
  · cases hwhole : whole? cs with
    | none => simp [unsigned?, hwhole] at h
    | some p =>
      unfold whole? at hwhole
      split at hwhole
      · exact ⟨_, _, rfl, .inr (by decide)⟩
      · rw [Option.ite_none_right_eq_some] at hwhole
        exact ⟨_, _, rfl, .inr hwhole.1⟩
      · cases hwhole

theorem value?_of_number? {n : Number} (h : number? r cs = some (n, rest)) (fuel : Nat) :
    value? r (fuel + 1) cs = some (numberDatum n, rest) := by
  obtain ⟨c, l, rfl, hc⟩ := starts_of_number? h
  have hne : ∀ c', c' ≠ '-' → c'.isDigit = false → c ≠ c' := by
    rintro c' hminus hdigit rfl
    simp [hminus, hdigit] at hc
  have hblank : isBlank c = false := by
    simp [isBlank, hne ' ' (by decide) (by decide), hne '\n' (by decide) (by decide),
      hne '\t' (by decide) (by decide), hne '\r' (by decide) (by decide)]
  simp only [value?, skipBlanks_of_not hblank]
  split
  all_goals first
    | next heq =>
      rw [h]
      rfl
    | next heq => exact absurd (List.cons.inj heq).1 (hne _ (by decide) (by decide))

theorem reads_num {n : Number} (hn : Returns r n) (hrest : Ends rest) :
    Reads (value? r) (.num n) ((numberText n).toList ++ rest) rest where
  length_le := by
    rw [List.length_append]
    exact Nat.le_add_left _ _
  eq_some fuel hfuel := by
    have hread := number?_numberText hn hrest
    obtain ⟨c, l, htext, -⟩ := starts_of_number? hread
    rw [htext] at hfuel
    obtain ⟨k, rfl, -⟩ := exists_fuel hfuel
    have hdatum : numberDatum n = .num n := by
      cases n with
      | int i => rfl
      | real x => exact if_pos (ReadsBack.isFinite hn)
    rw [value?_of_number? hread, hdatum]

/-! ### Values -/

mutual

/-- Numbers are read as they were written, and names need no escapes. -/
def IsPlain (r : Decimal.Reader) : Json → Prop
  | .num n => Returns r n
  | .arr items => ItemsPlain r items
  | .obj fields => FieldsPlain r fields
  | _ => True

/-- All items are plain. -/
def ItemsPlain (r : Decimal.Reader) : List Json → Prop
  | [] => True
  | v :: l => IsPlain r v ∧ ItemsPlain r l

/-- All fields are plain. -/
def FieldsPlain (r : Decimal.Reader) : List (String × Json) → Prop
  | [] => True
  | (k, v) :: l => k.toList.all isLiteral = true ∧ IsPlain r v ∧ FieldsPlain r l

end

theorem isPlain_ofList {α : Type} {f : α → Json} {l : List α} (h : ∀ a ∈ l, (f a).IsPlain r) :
    (ofList f l).IsPlain r := by
  induction l with
  | nil => trivial
  | cons a l ih =>
    obtain ⟨ha, hl⟩ := List.forall_mem_cons.mp h
    exact ⟨ha, ih hl⟩

theorem isPlain_obj {fields : List (String × Json)}
    (hnames : ∀ f ∈ fields, f.1.toList.all isLiteral = true) (h : ∀ f ∈ fields, f.2.IsPlain r) :
    (obj fields).IsPlain r := by
  induction fields with
  | nil => trivial
  | cons f fields ih =>
    obtain ⟨hf, hfields⟩ := List.forall_mem_cons.mp h
    obtain ⟨hname, hrest⟩ := List.forall_mem_cons.mp hnames
    exact ⟨hname, hf, ih hrest hfields⟩

/-- A field as its readers see it. -/
def spelled (f : String × Json) : Spelling × Datum :=
  (⟨some f.1, !f.1.toList.all isLiteral⟩, f.2.datum)

theorem object_spelled {fields : List (String × Json)} (h : FieldsPlain r fields) :
    object (fields.map spelled) = .mapping (datumFields fields) := by
  have hnamed : (fields.map spelled).mapM (fun f => f.1.text.map fun text =>
      (Key.name text f.1.escaped, f.2)) = some (datumFields fields) := by
    induction fields with
    | nil => rfl
    | cons f fields ih =>
      obtain ⟨k, v⟩ := f
      obtain ⟨hk, -, hfields⟩ := h
      rw [List.map_cons, List.mapM_cons, ih hfields]
      simp only [spelled, hk]
      rfl
  unfold object
  simp only [hnamed]

theorem ends_writeBreak (level : Nat) (cs : List Char) : Ends (writeBreak level cs) := by
  rintro c ⟨⟩
  decide

theorem ends_writePrettyItems (level : Nat) (l : List Json) (rest : List Char) :
    Ends (writePrettyItems level l rest) := by
  cases l with
  | nil => exact ends_writeBreak level _
  | cons v l =>
    rintro c ⟨⟩
    decide

theorem ends_writePrettyFields (level : Nat) (l : List (String × Json)) (rest : List Char) :
    Ends (writePrettyFields level l rest) := by
  cases l with
  | nil => exact ends_writeBreak level _
  | cons f l =>
    rintro c ⟨⟩
    decide

mutual

theorem reads_writePretty (level : Nat) (v : Json) (hv : v.IsPlain r) {rest : List Char}
    (hrest : Ends rest) : Reads (value? r) v.datum (v.writePretty level rest) rest := by
  match v with
  | .null => exact reads_null rest
  | .bool b => exact reads_bool b rest
  | .num n => exact reads_num hv hrest
  | .str s => exact reads_str s rest
  | .arr [] => exact reads_arr_nil rest
  | .arr (v :: l) =>
    have hfirst := reads_writePretty (level + 1) v hv.1 (ends_writePrettyItems level l rest)
    exact (hfirst.writeBreak skipsBlanks_value? _).arr (reads_writePrettyItems level l hv.2 rest)
  | .obj [] => exact reads_obj_nil rest
  | .obj ((k, v) :: l) =>
    have hfirst := reads_writePretty (level + 1) v hv.2.1 (ends_writePrettyFields level l rest)
    have hfield := (hfirst.blanks skipsBlanks_value? (Nat.le_succ _)
      (skipBlanks_cons (c := ' ') rfl _)).field k
    have hobj := (hfield.writeBreak skipsBlanks_field? (level + 1)).obj
      (reads_writePrettyFields level l hv.2.2 rest)
    rw [show datum (.obj ((k, v) :: l)) = object (((k, v) :: l).map spelled) from
      (object_spelled hv).symm]
    exact hobj

theorem reads_writePrettyItems (level : Nat) (l : List Json) (hl : ItemsPlain r l)
    (rest : List Char) : ReadsItems r (datumItems l) (writePrettyItems level l rest) rest := by
  match l with
  | [] =>
    exact fun acc => (readsItems_nil rest acc).writeBreak (skipsBlanks_items? acc) _
  | v :: l =>
    have hfirst := reads_writePretty (level + 1) v hl.1 (ends_writePrettyItems level l rest)
    exact ReadsItems.cons (hfirst.writeBreak skipsBlanks_value? _)
      (reads_writePrettyItems level l hl.2 rest)

theorem reads_writePrettyFields (level : Nat) (l : List (String × Json)) (hl : FieldsPlain r l)
    (rest : List Char) :
    ReadsFields r (l.map spelled) (writePrettyFields level l rest) rest := by
  match l with
  | [] =>
    exact fun acc => (readsFields_nil rest acc).writeBreak (skipsBlanks_fields? acc) _
  | (k, v) :: l =>
    have hfirst := reads_writePretty (level + 1) v hl.2.1 (ends_writePrettyFields level l rest)
    have hfield := (hfirst.blanks skipsBlanks_value? (Nat.le_succ _)
      (skipBlanks_cons (c := ' ') rfl _)).field k
    exact ReadsFields.cons (hfield.writeBreak skipsBlanks_field? _)
      (reads_writePrettyFields level l hl.2.2 rest)

end

theorem ends_writeItems (l : List Json) (rest : List Char) : Ends (writeItems l rest) := by
  cases l
  all_goals
    rintro c ⟨⟩
    decide

theorem ends_writeFields (l : List (String × Json)) (rest : List Char) :
    Ends (writeFields l rest) := by
  cases l
  all_goals
    rintro c ⟨⟩
    decide

mutual

theorem reads_write (v : Json) (hv : v.IsPlain r) {rest : List Char} (hrest : Ends rest) :
    Reads (value? r) v.datum (v.write rest) rest := by
  match v with
  | .null => exact reads_null rest
  | .bool b => exact reads_bool b rest
  | .num n => exact reads_num hv hrest
  | .str s => exact reads_str s rest
  | .arr [] => exact reads_arr_nil rest
  | .arr (v :: l) =>
    have hfirst := reads_write v hv.1 (ends_writeItems l rest)
    exact hfirst.arr (reads_writeItems l hv.2 rest)
  | .obj [] => exact reads_obj_nil rest
  | .obj ((k, v) :: l) =>
    have hfirst := reads_write v hv.2.1 (ends_writeFields l rest)
    have hobj := (hfirst.field k).obj (reads_writeFields l hv.2.2 rest)
    rw [show datum (.obj ((k, v) :: l)) = object (((k, v) :: l).map spelled) from
      (object_spelled hv).symm]
    exact hobj

theorem reads_writeItems (l : List Json) (hl : ItemsPlain r l) (rest : List Char) :
    ReadsItems r (datumItems l) (writeItems l rest) rest := by
  match l with
  | [] => exact readsItems_nil rest
  | v :: l =>
    have hfirst := reads_write v hl.1 (ends_writeItems l rest)
    exact ReadsItems.cons hfirst (reads_writeItems l hl.2 rest)

theorem reads_writeFields (l : List (String × Json)) (hl : FieldsPlain r l) (rest : List Char) :
    ReadsFields r (l.map spelled) (writeFields l rest) rest := by
  match l with
  | [] => exact readsFields_nil rest
  | (k, v) :: l =>
    have hfirst := reads_write v hl.2.1 (ends_writeFields l rest)
    exact ReadsFields.cons (hfirst.field k) (reads_writeFields l hl.2.2 rest)

end

/-- A text that is read to its end is one value. -/
theorem Reads.read (h : Reads (value? r) v cs []) : read r (String.ofList cs) = some v := by
  unfold Json.read
  rw [String.toList_ofList]
  simp only [h.eq_some _ (show cs.length ≤ 2 * cs.length + 2 by omega)]
  rfl

/-- **Documents** are read as they were written. -/
theorem read_pretty {v : Json} (hv : v.IsPlain r) : read r v.pretty = some v.datum :=
  (reads_writePretty 0 v hv ends_nil).read

/-- **Lines** are read as they were written. -/
theorem read_compact {v : Json} (hv : v.IsPlain r) : read r v.compact = some v.datum :=
  (reads_write v hv ends_nil).read

end OneWay.Json
