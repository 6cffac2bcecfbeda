import OneWay.Circuit.Program

/-!
# Characters of angles

The text of an angle has no blank, comma or bracket, so that a list of angles can be read back
(`Angle.spelled_text`).
-/

namespace OneWay.Angle

/-- A character that can be in the text of an angle. -/
def isLetter (c : Char) : Bool := c.isAlphanum || c == '-' || c == '.' || c == '*' || c == '/'

/-- Some of these characters, and no others. -/
def Spelled (s : String) : Prop := s.toList ≠ [] ∧ ∀ c ∈ s.toList, isLetter c = true

instance (s : String) : Decidable (Spelled s) :=
  decidable_of_iff ((!s.toList.isEmpty && s.toList.all isLetter) = true) (by simp [Spelled])

theorem isLetter_of_mem_toDigits {n : Nat} {c : Char} (h : c ∈ Nat.toDigits 10 n) :
    isLetter c = true := by
  have hdigit : c.isDigit = true := Nat.isDigit_of_mem_toDigits (by decide) (by decide) h
  simp [isLetter, Char.isAlphanum, hdigit]

theorem spelled_repr (n : Nat) : Spelled n.repr := by
  unfold Spelled
  rw [Nat.toList_repr]
  exact ⟨Nat.toDigits_ne_nil, fun c hc => isLetter_of_mem_toDigits hc⟩

theorem Spelled.not_mem {s : String} (hs : Spelled s) {c : Char} (h : isLetter c = false) :
    c ∉ s.toList := by
  intro hc
  rw [hs.2 c hc] at h
  cases h

theorem Spelled.append {s t : String} (hs : Spelled s) (ht : Spelled t) : Spelled (s ++ t) := by
  unfold Spelled
  rw [String.toList_append]
  refine ⟨List.append_ne_nil_of_left_ne_nil hs.1 _, fun c hc => ?_⟩
  exact (List.mem_append.mp hc).elim (hs.2 c) (ht.2 c)

theorem Spelled.signed {s : String} (hs : Spelled s) (negative : Bool) :
    Spelled ((if negative then "-" else "") ++ s) := by
  cases negative with
  | true => exact Spelled.append (by decide) hs
  | false => simpa using hs

theorem spelled_fractionText (negative : Bool) (numer denom : Nat) :
    Spelled (fractionText negative numer denom) := by
  have hmultiple : Spelled (if numer = 1 then "pi" else s!"{numer}*pi") := by
    split
    · decide
    · exact (spelled_repr numer).append (by decide : Spelled "*pi")
  have hsigned := hmultiple.signed negative
  by_cases hdenom : denom = 1
  · simpa only [fractionText, if_pos hdenom] using hsigned
  · have hslash : Spelled "/" := by decide
    simp only [fractionText, if_neg hdenom]
    exact (hsigned.append hslash).append (spelled_repr denom)

theorem spelled_placed (places scaled : Nat) : Spelled (Decimal.placed places scaled) := by
  have hdigits : ∀ c ∈ Decimal.padded (places + 1) scaled, isLetter c = true := by
    intro c hc
    rcases List.mem_append.mp hc with hc | hc
    · rw [List.eq_of_mem_replicate hc]
      decide
    · exact isLetter_of_mem_toDigits hc
  have hne : Decimal.padded (places + 1) scaled ≠ [] :=
    List.append_ne_nil_of_right_ne_nil _ Nat.toDigits_ne_nil
  unfold Spelled Decimal.placed
  rw [String.toList_ofList]
  split
  · next hzero => 
    subst hzero
    simpa using ⟨hne, hdigits⟩
  · refine ⟨by simp, fun c hc => ?_⟩
    rcases List.mem_append.mp hc with hc | hc
    · exact hdigits c (List.mem_of_mem_take hc)
    · rcases List.mem_cons.mp hc with rfl | hc
      · decide
      · exact hdigits c (List.mem_of_mem_drop hc)

theorem spelled_fixed (places : Nat) (x : Float) : Spelled (Decimal.fixed places x) := by
  by_cases hnan : x.isNaN = true
  · simp only [Decimal.fixed, if_pos hnan]
    decide
  by_cases hinf : x.isInf = true
  · have hword : Spelled "inf" := by decide
    simpa only [Decimal.fixed, if_neg hnan, if_pos hinf] using hword.signed (Decimal.isNegative x)
  · simpa only [Decimal.fixed, if_neg hnan, if_neg hinf]
      using (spelled_placed places _).signed (Decimal.isNegative x)

/-- The text of an angle. -/
theorem spelled_text (x : Float) : Spelled (text x) := by
  unfold text
  split
  · decide
  · cases hfraction : [1, 2, 4, 8].findSome? (fraction? x) with
    | none => exact spelled_fixed 6 x
    | some s =>
      obtain ⟨denom, -, hs⟩ := List.exists_of_findSome?_eq_some hfraction
      unfold fraction? at hs
      obtain ⟨-, htext⟩ := Option.ite_none_right_eq_some.mp hs
      obtain rfl := Option.some.inj htext
      exact spelled_fractionText _ _ denom

end OneWay.Angle
