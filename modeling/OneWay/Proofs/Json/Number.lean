import OneWay.Json.Parser
import OneWay.Json.Printer
import OneWay.Proofs.Decimal.Shortest

/-!
# Numbers in documents

An integer that is written is read as itself, whatever follows it that cannot be part of a number
(`Json.number?_numberText`). A binary64 number is if the reader of numerals gives it back
(`Json.ReadsBack`).

The reader that rounds to the nearest number gives back all finite numbers
(`Json.readsBack_nearest_iff`). This rests on the decimal that is selected: the digits are laid out
without a change of value (`Json.spells_finite`), and every decimal that belongs to a number is
read as this number.
-/

namespace OneWay

namespace Decimal

/-! ### Runs of digits -/

theorem ofDigits_eq (l : List Char) : ofDigits l = Nat.ofDigitChars 10 l 0 :=
  Nat.ofDigitChars_eq_foldl.symm

theorem ofDigits_append (l l' : List Char) :
    ofDigits (l ++ l') = ofDigits l * 10 ^ l'.length + ofDigits l' := by
  simp only [ofDigits_eq]
  rw [Nat.ofDigitChars_append, Nat.ofDigitChars_eq_ofDigitChars_zero, Nat.mul_comm]

theorem ofDigits_replicate (k : Nat) : ofDigits (List.replicate k '0') = 0 := by
  rw [ofDigits_eq, Nat.ofDigitChars_replicate_zero, Nat.mul_zero]

theorem ofDigits_toDigits (n : Nat) : ofDigits (Nat.toDigits 10 n) = n := by
  rw [ofDigits_eq, Nat.ofDigitChars_ten_toDigits]

/-- The digits of a number other than zero do not start with a zero. -/
theorem head_toDigits {n : Nat} (hn : 0 < n) : (Nat.toDigits 10 n).head? ≠ some '0' := by
  induction n using Nat.strongRecOn with
  | ind n ih =>
    rw [Nat.toDigits_eq_if (by decide)]
    by_cases hlt : n < 10
    · rw [if_pos hlt]
      exact (by decide : ∀ n < 10, 0 < n → [Nat.digitChar n].head? ≠ some '0') n hlt hn
    · rw [if_neg hlt, List.head?_append_of_ne_nil _ Nat.toDigits_ne_nil]
      exact ih (n / 10) (by omega) (by omega)

/-- A run of digits that can stand at the start of a number. -/
structure Run (l : List Char) : Prop where
  ne_nil : l ≠ []
  digits : ∀ c ∈ l, c.isDigit = true
  leading : l.head? = some '0' → l = ['0']

theorem run_toDigits (n : Nat) : Run (Nat.toDigits 10 n) where
  ne_nil := Nat.toDigits_ne_nil
  digits _ hc := Nat.isDigit_of_mem_toDigits (by decide) (by decide) hc
  leading h := by
    rcases Nat.eq_zero_or_pos n with rfl | hn
    · rfl
    · exact absurd h (head_toDigits hn)

/-- Only zeros at the end are left out of the digits. -/
theorem Scaled.toDigits_eq (d : Scaled) : ∃ zeros : Nat,
    Nat.toDigits 10 d.digits = d.significant ++ List.replicate zeros '0' := by
  have hzero : ∀ c ∈ (Nat.toDigits 10 d.digits).reverse.takeWhile (· == '0'), c = '0' :=
    fun c hc => beq_iff_eq.mp (List.all_eq_true.mp List.all_takeWhile c hc)
  have hdropped := List.eq_replicate_iff.mpr ⟨rfl, hzero⟩
  refine ⟨((Nat.toDigits 10 d.digits).reverse.takeWhile (· == '0')).length, ?_⟩
  rw [significant, ← List.reverse_replicate, ← hdropped, ← List.reverse_append,
    List.takeWhile_append_dropWhile, List.reverse_reverse]

theorem Scaled.run_significant {d : Scaled} (hd : 0 < d.digits) : Run d.significant := by
  obtain ⟨zeros, hsplit⟩ := d.toDigits_eq
  have hrun := run_toDigits d.digits
  have hne : d.significant ≠ [] := by
    intro hnil
    have hvalue := ofDigits_toDigits d.digits
    rw [hsplit, hnil, List.nil_append, ofDigits_replicate] at hvalue
    omega
  refine ⟨hne, fun c hc => hrun.digits c (hsplit ▸ List.mem_append_left _ hc), fun hhead => ?_⟩
  have hdigits : (Nat.toDigits 10 d.digits).head? = some '0' := by
    rw [hsplit, List.head?_append_of_ne_nil _ hne, hhead]
  exact absurd hdigits (head_toDigits hd)

/-- The digits that are kept have the value of the decimal. -/
theorem Scaled.value_significant (d : Scaled) :
    (ofDigits d.significant : ℚ) * 10 ^ (d.exponent + ((Nat.toDigits 10 d.digits).length : Int)
      - d.significant.length) = d.value := by
  obtain ⟨zeros, hsplit⟩ := d.toDigits_eq
  have hvalue := ofDigits_toDigits d.digits
  have hexp : d.exponent + ((Nat.toDigits 10 d.digits).length : Int) - d.significant.length
      = zeros + d.exponent := by
    rw [hsplit, List.length_append, List.length_replicate]
    omega
  rw [hsplit, ofDigits_append, List.length_replicate, ofDigits_replicate, Nat.add_zero] at hvalue
  rw [hexp, zpow_add₀ (by norm_num), zpow_natCast, ← mul_assoc, value, ← hvalue]
  push_cast
  rfl

end Decimal

namespace Json

open Decimal

/-! ### The parts of a number -/

/-- What can follow a number. -/
def Ends (rest : List Char) : Prop :=
  ∀ c ∈ rest.head?, c.isDigit = false ∧ c ≠ '.' ∧ c ≠ 'e' ∧ c ≠ 'E'

variable {l fraction rest : List Char}

theorem digits_append (hl : ∀ c ∈ l, c.isDigit = true)
    (hrest : ∀ c ∈ rest.head?, c.isDigit = false) : digits (l ++ rest) = (l, rest) := by
  have hstop : rest.takeWhile Char.isDigit = [] ∧ rest.dropWhile Char.isDigit = rest := by
    cases rest with
    | nil => exact ⟨rfl, rfl⟩
    | cons c rest => simp [hrest c rfl]
  unfold digits
  rw [List.takeWhile_append_of_pos hl, List.dropWhile_append_of_pos hl, hstop.1, hstop.2,
    List.append_nil]

theorem whole?_append (hl : Run l) (hrest : ∀ c ∈ rest.head?, c.isDigit = false) :
    whole? (l ++ rest) = some (l, rest) := by
  cases l with
  | nil => exact absurd rfl hl.ne_nil
  | cons c l =>
    unfold whole?
    by_cases hc : c = '0'
    · subst hc
      obtain rfl : l = [] := by simpa using hl.leading rfl
      rfl
    · have hdigit := hl.digits c (List.mem_cons_self ..)
      have hrun := digits_append hl.digits hrest
      split
      · next heq => exact absurd (List.cons.inj heq).1 hc
      · next heq =>
        obtain ⟨rfl, -⟩ := List.cons.inj heq
        rw [if_pos hdigit, hrun]
      · next heq => cases heq

theorem fraction?_append (hne : fraction ≠ []) (hfraction : ∀ c ∈ fraction, c.isDigit = true)
    (hrest : ∀ c ∈ rest.head?, c.isDigit = false) :
    fraction? ('.' :: (fraction ++ rest)) = some (fraction, rest) := by
  simp only [fraction?, digits_append hfraction hrest]
  cases fraction with
  | nil => exact absurd rfl hne
  | cons c fraction => rfl

theorem fraction?_none (hrest : ∀ c ∈ rest.head?, c ≠ '.') : fraction? rest = some ([], rest) := by
  unfold fraction?
  split
  · exact absurd rfl (hrest '.' rfl)
  · rfl

theorem exponent?_none (hrest : ∀ c ∈ rest.head?, c ≠ 'e' ∧ c ≠ 'E') :
    exponent? rest = some (none, rest) := by
  unfold exponent?
  split
  · next c rest =>
    rw [if_neg]
    simp [hrest c rfl]
  · rfl

theorem exponentDigits?_append (negative : Bool) (n : Nat)
    (hrest : ∀ c ∈ rest.head?, c.isDigit = false) :
    exponentDigits? negative (Nat.toDigits 10 n ++ rest)
      = some (some (if negative then -(n : Int) else n), rest) := by
  have hrun := run_toDigits n
  have hvalue := ofDigits_toDigits n
  unfold exponentDigits?
  rw [digits_append hrun.digits hrest]
  cases hdigits : Nat.toDigits 10 n with
  | nil => exact absurd hdigits hrun.ne_nil
  | cons c l =>
    rw [hdigits] at hvalue
    simp only [hvalue]

theorem exponent?_append (e : Int) (hrest : ∀ c ∈ rest.head?, c.isDigit = false) :
    exponent? ('e' :: (if e < 0 then '-' else '+') :: (Nat.toDigits 10 e.natAbs ++ rest))
      = some (some e, rest) := by
  by_cases he : e < 0
  · have habs : -(e.natAbs : Int) = e := by omega
    rw [if_pos he]
    show exponentDigits? true _ = _
    rw [exponentDigits?_append true _ hrest, if_pos rfl, habs]
  · have habs : (e.natAbs : Int) = e := by omega
    rw [if_neg he]
    show exponentDigits? false _ = _
    rw [exponentDigits?_append false _ hrest, if_neg Bool.false_ne_true, habs]

theorem unsigned?_real (r : Reader) (negative : Bool) {cs cs₁ cs₂ cs₃ whole : List Char}
    {exponent : Option Int}
    (hwhole : whole? cs = some (whole, cs₁)) (hfraction : fraction? cs₁ = some (fraction, cs₂))
    (hexponent : exponent? cs₂ = some (exponent, cs₃))
    (hreal : fraction ≠ [] ∨ exponent ≠ none) :
    unsigned? r negative cs
      = some (.real (r ⟨negative, whole, fraction, exponent.getD 0⟩), cs₃) := by
  have hkind : ¬ (fraction.isEmpty = true ∧ exponent.isNone = true) := by
    simpa [Classical.or_iff_not_imp_left] using hreal
  unfold unsigned?
  rw [hwhole]
  simp only [Option.bind_eq_bind, Option.bind_some, hfraction, hexponent, if_neg hkind]
  rfl

/-! ### The layouts -/

/-- A text without a sign is taken for a numeral that is no integer and has the value `v`. -/
structure Spells (text : List Char) (v : ℚ) : Prop where
  starts : ∃ c l, text = c :: l ∧ c.isDigit = true
  reads : ∃ (whole fraction : List Char) (exponent : Int),
    (ofDigits (whole ++ fraction) : ℚ) * 10 ^ (exponent - fraction.length) = v ∧
    ∀ r negative rest, Ends rest → unsigned? r negative (text ++ rest)
      = some (.real (r ⟨negative, whole, fraction, exponent⟩), rest)

theorem Run.starts (h : Run l) (rest : List Char) :
    ∃ c l', l ++ rest = c :: l' ∧ c.isDigit = true := by
  cases l with
  | nil => exact absurd rfl h.ne_nil
  | cons c l => exact ⟨c, l ++ rest, rfl, h.digits c (List.mem_cons_self ..)⟩

theorem not_isDigit_head {c : Char} (hc : c.isDigit = false) (l : List Char) :
    ∀ c' ∈ (c :: l).head?, c'.isDigit = false := by
  rintro c' ⟨⟩
  exact hc

/-- Digits with a point. -/
theorem spells_point (hl : Run l) (hne : fraction ≠ [])
    (hfraction : ∀ c ∈ fraction, c.isDigit = true) :
    Spells (l ++ '.' :: fraction)
      (ofDigits (l ++ fraction) * 10 ^ (-(fraction.length : Int))) where
  starts := Run.starts hl _
  reads := by
    refine ⟨l, fraction, 0, by rw [Int.zero_sub], fun r negative rest hrest => ?_⟩
    rw [List.append_assoc, List.cons_append, unsigned?_real r negative
      (whole?_append hl (not_isDigit_head (by decide) _))
      (fraction?_append hne hfraction fun c hc => (hrest c hc).1)
      (exponent?_none fun c hc => (hrest c hc).2.2) (.inl hne)]
    rfl

/-- Digits with an exponent, and a point if there are several. -/
theorem spells_exponent (hl : Run l) (hfraction : ∀ c ∈ fraction, c.isDigit = true) (e : Int) :
    Spells (l ++ (if fraction.isEmpty then [] else '.' :: fraction)
        ++ 'e' :: (if e < 0 then '-' else '+') :: Nat.toDigits 10 e.natAbs)
      (ofDigits (l ++ fraction) * 10 ^ (e - fraction.length)) where
  starts := by
    rw [List.append_assoc]
    exact Run.starts hl _
  reads := by
    refine ⟨l, fraction, e, rfl, fun r negative rest hrest => ?_⟩
    have hexp := exponent?_append e fun c hc => (hrest c hc).1
    rw [List.append_assoc, List.append_assoc, List.cons_append, List.cons_append]
    by_cases hnil : fraction = []
    · subst hnil
      rw [List.isEmpty_nil, if_pos rfl, List.nil_append, unsigned?_real r negative
        (whole?_append hl (not_isDigit_head (by decide) _))
        (fraction?_none (by rintro c ⟨⟩; decide)) hexp (.inr (by simp))]
      rfl
    · rw [if_neg (by simpa using hnil), List.cons_append, unsigned?_real r negative
        (whole?_append hl (not_isDigit_head (by decide) _))
        (fraction?_append hnil hfraction (not_isDigit_head (by decide) _)) hexp (.inl hnil)]
      rfl

theorem isDigit_of_mem_replicate {k : Nat} {c : Char} (hc : c ∈ List.replicate k '0') :
    c.isDigit = true := by
  rw [(List.mem_replicate.mp hc).2]
  decide

/-- Digits whose first has the exponent `e`, as a value. -/
def spread (digits : List Char) (e : Int) : ℚ :=
  ofDigits digits * 10 ^ (e + 1 - digits.length)

theorem spells_below_one (hl : Run l) {e : Int} (he : e < 0) :
    Spells ("0.".toList ++ List.replicate ((-e).toNat - 1) '0' ++ l) (spread l e) := by
  have hone : Run ['0'] := run_toDigits 0
  have hspells := spells_point hone (List.append_ne_nil_of_right_ne_nil
    (List.replicate ((-e).toNat - 1) '0') hl.ne_nil) fun c hc =>
      (List.mem_append.mp hc).elim isDigit_of_mem_replicate (hl.digits c)
  have hvalue : ofDigits (['0'] ++ (List.replicate ((-e).toNat - 1) '0' ++ l)) = ofDigits l := by
    rw [ofDigits_append, ofDigits_append, ofDigits_replicate]
    simp [ofDigits]
  have hexp : -((List.replicate ((-e).toNat - 1) '0' ++ l).length : Int) = e + 1 - l.length := by
    rw [List.length_append, List.length_replicate]
    omega
  rw [hvalue, hexp] at hspells
  exact hspells

theorem spells_integral (hl : Run l) {e : Int} (he : 0 ≤ e) (hzero : l = ['0'] → e = 0)
    (hlen : l.length ≤ e.toNat + 1) :
    Spells (l ++ List.replicate (e.toNat + 1 - l.length) '0' ++ ".0".toList) (spread l e) := by
  have hrun : Run (l ++ List.replicate (e.toNat + 1 - l.length) '0') := by
    refine ⟨List.append_ne_nil_of_left_ne_nil hl.ne_nil _, fun c hc =>
      (List.mem_append.mp hc).elim (hl.digits c) isDigit_of_mem_replicate, fun hhead => ?_⟩
    rw [List.head?_append_of_ne_nil _ hl.ne_nil] at hhead
    have hl' := hl.leading hhead
    rw [hl', hzero hl']
    rfl
  have hone : Run ['0'] := run_toDigits 0
  have hspells := spells_point hrun hone.ne_nil hone.digits
  have hvalue : (ofDigits (l ++ List.replicate (e.toNat + 1 - l.length) '0' ++ ['0']) : ℚ)
      * 10 ^ (-((['0'].length : Nat) : Int)) = spread l e := by
    have hexp : e + 1 - l.length = ((e.toNat + 1 - l.length : Nat) : Int) := by omega
    rw [spread, hexp, zpow_natCast, ofDigits_append, ofDigits_append, ofDigits_replicate,
      List.length_replicate]
    simp [ofDigits]
  rw [hvalue] at hspells
  exact hspells

theorem Run.take (hl : Run l) (k : Nat) : Run (l.take (k + 1)) := by
  obtain ⟨hne, hdigits, hleading⟩ := hl
  cases l with
  | nil => exact absurd rfl hne
  | cons c l =>
    refine ⟨by simp, fun c hc => hdigits c (List.mem_of_mem_take hc), fun hhead => ?_⟩
    simp [hleading hhead]

theorem spells_mixed (hl : Run l) {e : Int} (he : 0 ≤ e) (hlen : e.toNat + 1 < l.length) :
    Spells (l.take (e.toNat + 1) ++ '.' :: l.drop (e.toNat + 1)) (spread l e) := by
  have hspells := spells_point (Run.take hl e.toNat)
    (by simpa using hlen : l.drop (e.toNat + 1) ≠ [])
    fun c hc => hl.digits c (List.mem_of_mem_drop hc)
  have hexp : -((l.drop (e.toNat + 1)).length : Int) = e + 1 - l.length := by
    rw [List.length_drop]
    omega
  rw [List.take_append_drop, hexp] at hspells
  exact hspells

/-- Positional notation keeps the value. -/
theorem spells_positionally (hl : Run l) (e : Int) (hzero : l = ['0'] → e = 0) :
    Spells (Layout.document.positionally l e) (spread l e) := by
  unfold Layout.positionally
  by_cases he : e < 0
  · rw [if_pos he]
    exact spells_below_one hl he
  · rw [if_neg he]
    dsimp only
    split
    · next hlen => exact spells_integral hl (not_lt.mp he) hzero hlen
    · next hlen => exact spells_mixed hl (not_lt.mp he) (not_le.mp hlen)

/-- Scientific notation keeps the value. -/
theorem spells_scientifically (hl : Run l) (e : Int) :
    Spells (scientifically l e) (spread l e) := by
  have hspells := spells_exponent (Run.take hl 0)
    (fun c hc => hl.digits c (List.mem_of_mem_drop hc) : ∀ c ∈ l.drop 1, c.isDigit = true) e
  have hpos := List.length_pos_iff.mpr hl.ne_nil
  have hexp : e - ((l.drop 1).length : Int) = e + 1 - l.length := by
    rw [List.length_drop]
    omega
  rw [List.take_append_drop, hexp] at hspells
  exact hspells

/-- The digits of a decimal have its value in either notation. -/
theorem spells_scaled {d : Scaled} (hd : 0 < d.digits) {e : Int}
    (he : d.exponent + ((Nat.toDigits 10 d.digits).length : Int) - 1 = e) :
    Spells (if Layout.document.positional e then Layout.document.positionally d.significant e
      else scientifically d.significant e) d.value := by
  have hvalue : spread d.significant e = d.value := by
    rw [← d.value_significant, spread, ← he]
    congr 2
    omega
  -- a zero alone would have no value
  have hnonzero : d.significant ≠ ['0'] := by
    intro hzero
    have hpos : 0 < d.value := mul_pos (by exact_mod_cast hd) (by positivity)
    rw [← hvalue, hzero] at hpos
    simp [spread, ofDigits] at hpos
  have hrun := Scaled.run_significant hd
  rw [← hvalue]
  split
  · exact spells_positionally hrun e fun hzero => absurd hzero hnonzero
  · exact spells_scientifically hrun e

/-! ### Numbers -/

theorem nearest_zero (negative : Bool) (k : Int) : nearest negative 0 k
    = .ofModel (.pack (.zero (if negative then .negative else .positive))) := by
  have hzero : nearestMagnitude 0 k = 0.0 := rfl
  unfold nearest
  rw [hzero]
  cases negative <;> rfl

/-- A finite number is a sign and digits whose value belongs to it. -/
theorem spells_finite {x : Float} (hx : x.isFinite = true) : ∃ text v, Spells text v ∧
    (Layout.document.finite x).toList = (if isNegative x then ['-'] else []) ++ text ∧
    ∀ (n : Nat) (k : Int), (n : ℚ) * 10 ^ k = v → nearest (isNegative x) n k = x := by
  rcases Magnitude.ofFloat_cases hx with ⟨hzero, heq⟩ | ⟨h, heq⟩
  · have hone : Run ['0'] := run_toDigits 0
    refine ⟨_, _, spells_positionally hone 0 fun _ => rfl, ?_, fun n k hv => ?_⟩
    · simp only [Layout.finite, if_pos hzero, String.toList_ofList]
    · have hn : n = 0 := by
        have hten : (10 : ℚ) ^ k ≠ 0 := zpow_ne_zero k (by norm_num)
        simpa [spread, ofDigits, hten] using hv
      rw [hn, nearest_zero]
      exact heq.symm
  · have hcatch := h.catches_shortest .even
    have hpositive := (hcatch.between h.canonical).1
    have hdigits : 0 < ((Magnitude.ofFloat x).shortest .even).digits := by
      refine Nat.pos_of_ne_zero fun hnone => ?_
      rw [Scaled.value, hnone, Nat.cast_zero, zero_mul] at hpositive
      exact absurd hpositive (not_lt.mpr (by positivity))
    refine ⟨_, _, spells_scaled hdigits rfl, ?_, fun n k hv => ?_⟩
    · simp only [Layout.finite, if_neg h.canonical.pos.ne', String.toList_ofList]
      rfl
    · exact nearest_eq h.canonical heq (by rwa [hv])

/-! ### Reading back -/

variable {r : Reader}

theorem number?_of_isDigit {c : Char} (hc : c.isDigit = true) (l : List Char) :
    number? r (c :: l) = unsigned? r false (c :: l) := by
  unfold number?
  split
  · next heq =>
    obtain ⟨rfl, -⟩ := List.cons.inj heq
    exact absurd hc (by decide)
  · rfl

theorem Spells.number? {text : List Char} {v : ℚ} (h : Spells text v) (negative : Bool) :
    ∃ n : Numeral, n.negative = negative ∧
      (ofDigits (n.whole ++ n.fraction) : ℚ) * 10 ^ (n.exponent - n.fraction.length) = v ∧
      ∀ r rest, Ends rest → Json.number? r ((if negative then ['-'] else []) ++ text ++ rest)
        = some (.real (r n), rest) := by
  obtain ⟨whole, fraction, exponent, hv, hread⟩ := h.reads
  refine ⟨⟨negative, whole, fraction, exponent⟩, rfl, hv, fun r rest hrest => ?_⟩
  cases negative with
  | true => exact hread r true rest hrest
  | false =>
    obtain ⟨c, l, rfl, hc⟩ := h.starts
    exact (number?_of_isDigit hc _).trans (hread r false rest hrest)

/-- A number is read from its text as itself. -/
def ReadsBack (r : Reader) (x : Float) : Prop :=
  number? r (numberText (.real x)).toList = some (.real x, [])

instance (r : Reader) (x : Float) : Decidable (ReadsBack r x) :=
  inferInstanceAs (Decidable (_ = _))

theorem ends_nil : Ends [] := by rintro c ⟨⟩

/-- The text of a number is one numeral, whatever the reader and whatever follows. -/
theorem number?_real {x : Float} (hx : x.isFinite = true) : ∃ n : Numeral,
    Reader.nearest n = x ∧ ∀ r rest, Ends rest →
      number? r ((numberText (.real x)).toList ++ rest) = some (.real (r n), rest) := by
  obtain ⟨text, v, hspells, htext, hback⟩ := spells_finite hx
  obtain ⟨n, hsign, hv, hread⟩ := hspells.number? (isNegative x)
  refine ⟨n, ?_, fun r rest hrest => ?_⟩
  · rw [Reader.nearest, hsign]
    exact hback _ _ hv
  · simp only [numberText, if_pos hx]
    rw [htext, hread r rest hrest]

/-- What is not finite is written as no number. -/
theorem ReadsBack.isFinite {x : Float} (h : ReadsBack r x) : x.isFinite = true := by
  by_contra hx
  rw [ReadsBack, numberText, if_neg hx] at h
  cases h

/-- **Rounding to the nearest** number gives back the finite numbers. -/
theorem readsBack_nearest_iff {x : Float} : ReadsBack .nearest x ↔ x.isFinite = true := by
  refine ⟨ReadsBack.isFinite, fun hx => ?_⟩
  obtain ⟨n, hn, hread⟩ := number?_real hx
  have hall := hread .nearest [] ends_nil
  rwa [List.append_nil, hn] at hall

/-- The quick reader does not: it takes the text of 1/11 for the number above. -/
example : Json.number? .quick (numberText (.real (1.0 / 11.0))).toList
    = some (.real (.ofBits ((1.0 / 11.0 : Float).toBits + 1)), []) := by
  decide +kernel

/-- The numbers that are read as they were written. -/
def Returns (r : Reader) : Number → Prop
  | .int i => -2 ^ 63 ≤ i ∧ i < 2 ^ 64
  | .real x => ReadsBack r x

theorem unsigned?_toDigits (negative : Bool) (n : Nat) (hrest : Ends rest) :
    unsigned? r negative (Nat.toDigits 10 n ++ rest)
      = some (integer r negative (Nat.toDigits 10 n), rest) := by
  unfold unsigned?
  rw [whole?_append (run_toDigits n) fun c hc => (hrest c hc).1]
  simp only [Option.bind_eq_bind, Option.bind_some, fraction?_none fun c hc => (hrest c hc).2.1,
    exponent?_none fun c hc => (hrest c hc).2.2]
  rfl

/-- **Numbers** are read as they were written. -/
theorem number?_numberText {n : Number} (h : Returns r n) (hrest : Ends rest) :
    number? r ((numberText n).toList ++ rest) = some (n, rest) := by
  cases n with
  | int i =>
    obtain ⟨hlow, hhigh⟩ := h
    simp only [numberText]
    by_cases hneg : i < 0
    · have hint : integer r true (Nat.toDigits 10 i.natAbs) = .int i := by
        unfold integer
        rw [ofDigits_toDigits, if_pos rfl, if_neg (by omega)]
        congr 1
        omega
      rw [if_pos hneg, String.toList_append, Nat.toList_repr]
      show unsigned? r true (Nat.toDigits 10 i.natAbs ++ rest) = _
      rw [unsigned?_toDigits true _ hrest, hint]
    · have hint : integer r false (Nat.toDigits 10 i.natAbs) = .int i := by
        unfold integer
        rw [ofDigits_toDigits, if_neg Bool.false_ne_true, if_pos (by omega)]
        congr 1
        omega
      obtain ⟨c, l, htext, hc⟩ := Run.starts (run_toDigits i.natAbs) rest
      rw [if_neg hneg, Nat.toList_repr, htext, number?_of_isDigit hc, ← htext,
        unsigned?_toDigits false _ hrest, hint]
  | real x =>
    obtain ⟨n, -, hread⟩ := number?_real (ReadsBack.isFinite h)
    have halone := hread r [] ends_nil
    rw [List.append_nil, show number? r _ = _ from h] at halone
    have hx : x = r n := by simpa using halone
    rw [hread r rest hrest, ← hx]

end Json

end OneWay
