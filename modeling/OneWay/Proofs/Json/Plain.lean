import OneWay.Proofs.Datum
import OneWay.Proofs.Json.Number

/-!
# What readers make of a text

`Datum.IsPlain` holds of a datum whose numbers are those that a document can hold: integers of 64
bits and finite binary64 numbers. Whatever a text is read as is plain (`Json.isPlain_read`), so are
the parts that typed readers take out of it, and a number of it is finite
(`Datum.IsPlain.isFinite_of_real?`).
-/

namespace OneWay

/-- The numbers that documents can hold: integers of 64 bits, signed or not, and finite numbers. -/
def Number.IsPlain : Number → Prop
  | .int i => -2 ^ 63 ≤ i ∧ i < 2 ^ 64
  | .real x => x.isFinite = true

/-- All numbers of a datum fit into a document. -/
inductive Datum.IsPlain : Datum → Prop where
  | null : IsPlain .null
  | bool (b : Bool) : IsPlain (.bool b)
  | num {n : Number} (h : n.IsPlain) : IsPlain (.num n)
  | str (s : String) : IsPlain (.str s)
  | list {items : List Datum} (h : ∀ v ∈ items, IsPlain v) : IsPlain (.list items)
  | mapping {fields : List (Key × Datum)} (h : ∀ f ∈ fields, IsPlain f.2) :
    IsPlain (.mapping fields)
  | unreadable : IsPlain .unreadable

namespace Json

/-! ### The readers of values -/

variable {r : Decimal.Reader}

theorem isPlain_numberDatum_real (x : Float) : (numberDatum (.real x)).IsPlain := by
  rw [numberDatum]
  split
  · next h => exact .num h
  · exact .unreadable

theorem isPlain_numberDatum_integer (negative : Bool) (whole : List Char) :
    (numberDatum (integer r negative whole)).IsPlain := by
  unfold integer
  dsimp only
  split
  · split
    · exact isPlain_numberDatum_real _
    · exact .num ⟨by omega, by omega⟩
  · split
    · exact .num ⟨by omega, by omega⟩
    · exact isPlain_numberDatum_real _

theorem isPlain_of_unsigned? {negative : Bool} {cs rest : List Char} {n : Number}
    (h : unsigned? r negative cs = some (n, rest)) : (numberDatum n).IsPlain := by
  unfold unsigned? at h
  simp only [Option.bind_eq_bind, Option.bind_eq_some_iff] at h
  obtain ⟨⟨whole, cs⟩, -, ⟨fraction, cs⟩, -, ⟨exponent, cs⟩, -, h⟩ := h
  split at h
  all_goals cases h
  · exact isPlain_numberDatum_integer _ _
  · exact isPlain_numberDatum_real _

theorem isPlain_of_number? {cs rest : List Char} {n : Number} (h : number? r cs = some (n, rest)) :
    (numberDatum n).IsPlain := by
  unfold number? at h
  split at h
  all_goals exact isPlain_of_unsigned? h

theorem isPlain_object {fields : List (Spelling × Datum)} (h : ∀ f ∈ fields, f.2.IsPlain) :
    (object fields).IsPlain := by
  have hnamed {named : List (Key × Datum)}
      (hsome : fields.mapM (fun f => f.1.text.map fun text => (Key.name text f.1.escaped, f.2))
        = some named) : ∀ f ∈ named, f.2.IsPlain := by
    induction fields generalizing named with
    | nil =>
      cases hsome
      simp
    | cons f fields ih =>
      obtain ⟨hf, hfields⟩ := List.forall_mem_cons.mp h
      simp only [List.mapM_cons, Option.bind_eq_bind, Option.bind_eq_some_iff,
        Option.map_eq_some_iff] at hsome
      obtain ⟨_, ⟨text, -, rfl⟩, named, hrest, heq⟩ := hsome
      cases heq
      exact List.forall_mem_cons.mpr ⟨hf, ih hfields hrest⟩
  unfold object
  dsimp only
  split
  · next hsome => exact .mapping (hnamed hsome)
  · exact .unreadable

/-- **Values**: the four readers keep each other plain. The induction is on the bound that they
count down. -/
theorem isPlain_of_value? (fuel : Nat) :
    (∀ {cs v rest}, value? r fuel cs = some (v, rest) → v.IsPlain)
      ∧ (∀ {acc cs v rest}, (∀ a ∈ acc, a.IsPlain) → items? r fuel acc cs = some (v, rest) →
        v.IsPlain)
      ∧ (∀ {cs f rest}, field? r fuel cs = some (f, rest) → f.2.IsPlain)
      ∧ ∀ {acc cs v rest}, (∀ f ∈ acc, f.2.IsPlain) → fields? r fuel acc cs = some (v, rest) →
        v.IsPlain := by
  induction fuel with
  | zero =>
    refine ⟨fun h => ?_, fun _ h => ?_, fun h => ?_, fun _ h => ?_⟩
    all_goals cases h
  | succ fuel ih =>
    obtain ⟨ihvalue, ihitems, ihfield, ihfields⟩ := ih
    refine ⟨fun {cs v rest} h => ?_, fun {acc cs v rest} hacc h => ?_, fun {cs f rest} h => ?_,
      fun {acc cs v rest} hacc h => ?_⟩
    · rw [value?] at h
      split at h
      · split at h
        · cases h
          exact .list (by simp)
        · split at h
          · next hfirst => exact ihitems (by simpa using ihvalue hfirst) h
          · cases h
      · split at h
        · cases h
          exact .mapping (by simp)
        · split at h
          · next hfirst => exact ihfields (by simpa using ihfield hfirst) h
          · cases h
      · obtain ⟨⟨s, _⟩, -, hs⟩ := Option.map_eq_some_iff.mp h
        cases hs
        unfold Spelling.datum
        split
        · exact .str _
        · exact .unreadable
      · cases h
        exact .bool true
      · cases h
        exact .bool false
      · cases h
        exact .null
      · obtain ⟨⟨n, _⟩, hn, heq⟩ := Option.map_eq_some_iff.mp h
        cases heq
        exact isPlain_of_number? hn
    · rw [items?] at h
      split at h
      · cases h
        exact .list fun v hv => hacc v (List.mem_reverse.mp hv)
      · split at h
        · next hnext => exact ihitems (List.forall_mem_cons.mpr ⟨ihvalue hnext, hacc⟩) h
        · cases h
      · cases h
    · rw [field?] at h
      split at h
      · split at h
        · split at h
          · obtain ⟨⟨v, _⟩, hv, heq⟩ := Option.map_eq_some_iff.mp h
            cases heq
            exact ihvalue hv
          · cases h
        · cases h
      · cases h
    · rw [fields?] at h
      split at h
      · cases h
        exact isPlain_object fun f hf => hacc f (List.mem_reverse.mp hf)
      · split at h
        · next hnext => exact ihfields (List.forall_mem_cons.mpr ⟨ihfield hnext, hacc⟩) h
        · cases h
      · cases h

/-- **Documents** hold plain data. -/
theorem isPlain_read {text : String} {v : Datum} (h : read r text = some v) : v.IsPlain := by
  unfold read at h
  dsimp only at h
  split at h
  · next hv =>
    rw [Option.ite_none_right_eq_some] at h
    cases h.2
    exact (isPlain_of_value? _).1 hv
  · cases h

end Json

/-! ### The readers of parts -/

/-- An integer of 64 bits is finite as a binary64 number. -/
theorem isFinite_ofInt {i : Int} (hlow : -2 ^ 63 ≤ i) (hhigh : i < 2 ^ 64) :
    (Float.ofInt i).isFinite = true := by
  have hnat (n : Nat) (hn : n < 2 ^ 64) : (Float.ofNat n).isFinite = true := by
    rcases Nat.eq_zero_or_pos n with rfl | hpos
    · decide +kernel
    · have hrounded := Binary64.rounded_ofScientific (e := 0) hpos (by omega) (by omega)
      refine hrounded.isFinite ?_
      rw [zpow_zero, mul_one]
      exact_mod_cast lt_of_lt_of_le hn (Nat.pow_le_pow_right (by omega) (by omega))
  cases i with
  | ofNat n => exact hnat n (Int.ofNat_lt.mp hhigh)
  | negSucc n =>
    have hneg : Float.ofInt (.negSucc n) = -Float.ofNat (n + 1) := rfl
    rw [hneg, Binary64.isFinite_neg]
    exact hnat (n + 1) (by omega)

namespace Datum

variable {v : Datum}

theorem IsPlain.isFinite_of_real? (hv : v.IsPlain) {x : Float} (h : v.real? = some x) :
    x.isFinite = true := by
  cases hv with
  | num hn =>
    unfold real? at h
    split at h
    · next heq =>
      cases heq
      cases h
      exact isFinite_ofInt hn.1 hn.2
    · next heq =>
      cases heq
      cases h
      exact hn
    · cases h
  | _ => cases h

theorem lookup_mem {test : Key → Bool} {fields : List (Key × Datum)}
    (h : lookup test fields = some v) : ∃ k, (k, v) ∈ fields := by
  induction fields with
  | nil => cases h
  | cons f fields ih =>
    rw [lookup] at h
    split at h
    · cases h
      exact ⟨_, List.mem_cons_self⟩
    · obtain ⟨k, hk⟩ := ih h
      exact ⟨k, List.mem_cons_of_mem _ hk⟩

theorem IsPlain.of_record? (hv : v.IsPlain) {names : List String} {places : List (Option Datum)}
    (h : v.record? names = some places) {w : Datum} (hw : some w ∈ places) : w.IsPlain := by
  cases hv with
  | mapping hfields =>
    rw [record?, Option.ite_none_right_eq_some] at h
    cases h.2
    obtain ⟨n, -, hn⟩ := List.mem_map.mp hw
    obtain ⟨k, hk⟩ := lookup_mem hn
    exact hfields _ hk
  | list hitems =>
    rw [record?, Option.ite_none_right_eq_some] at h
    cases h.2
    rcases List.mem_append.mp hw with hw | hw
    · exact hitems w (by simpa using hw)
    · cases (List.mem_replicate.mp hw).2
  | _ => cases h

theorem IsPlain.of_tagged? (hv : v.IsPlain) {levels : Nat} {tag kind : String} {fields : Datum}
    (h : v.tagged? levels tag = some (kind, fields)) : fields.IsPlain := by
  unfold tagged? at h
  rw [Option.ite_none_right_eq_some] at h
  replace h := h.2
  cases hv with
  | mapping hfields =>
    simp only [Option.ite_none_right_eq_some] at h
    replace h := h.2
    split at h
    · cases h
      exact .mapping fun f hf => hfields f (List.mem_of_mem_filter hf)
    · cases h
  | list hitems =>
    split at h
    · next heq => cases heq
    · next heq =>
      cases heq
      cases h
      exact .list fun w hw => hitems w (List.mem_cons_of_mem _ hw)
    · cases h
  | _ => cases h

/-- An item that is read was plain. -/
theorem IsPlain.of_list? (hv : v.IsPlain) {α : Type} {read : Datum → Option α} {l : List α}
    (h : v.list? read = some l) {a : α} (ha : a ∈ l) : ∃ w, w.IsPlain ∧ read w = some a := by
  cases hv with
  | list hitems =>
    rw [list?, readAll_eq_some_iff] at h
    obtain ⟨w, hw, hread⟩ := List.exists_of_mem_map (h ▸ List.mem_map_of_mem ha)
    exact ⟨w, hitems w hw, hread⟩
  | _ => cases h

end Datum

end OneWay
