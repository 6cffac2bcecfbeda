import OneWay.Proofs.Runner.Conservation
import OneWay.Proofs.Simulation.Counts

/-!
# Outcomes of the output nodes as a marginal

`Compiled.outcomes` goes through the counts of the whole register and keeps of each bitstring the
characters of the output nodes. Bitstrings that agree on these are counted together, so each outcome
of the output nodes is counted as often as all bitstrings that show it
(`Compiled.outcomes_marginal`).

That each output node finds its character is not checked by `Compiled.outcomes`. It follows from the
classical bits that the compiler has given to the output nodes.
-/

namespace OneWay

namespace Counts

/-- Sums over bitstrings are sums over entries. -/
theorem sum_map_get (c : Counts) (P : String → Prop) [DecidablePred P] :
    ((c.table.keys.filter fun b => P b).map c.get).sum
      = ((c.toList.filter fun e => P e.1).map (·.2)).sum := by
  unfold SortedMap.keys
  rw [List.filter_map, List.map_map]
  refine congrArg List.sum (List.map_congr_left fun e he => ?_)
  exact get_of_mem (List.mem_of_mem_filter he)

end Counts

namespace Compiled

variable {width : Nat} {bits : List Bit}

/-! ### What a bitstring shows -/

/-- What a bitstring of the register has for a node: the byte at the classical bit of the node. -/
def charOf? (c : Compiled) (b : String) (n : Node) : Option Char :=
  (c.register.get? n).bind fun i => b.toUTF8.data[i]?.map fun byte => Char.ofNat byte.toNat

/-- The characters of `k` are those that the bitstring `b` of the register has for the output nodes,
one for each of them and in their order. -/
def Shows (c : Compiled) (b k : String) : Prop := c.outputs.map (c.charOf? b) = k.toList.map some

instance (c : Compiled) (b k : String) : Decidable (c.Shows b k) :=
  inferInstanceAs (Decidable (_ = _))

theorem length_outcomeChars (b : String) : (outcomeChars b).length = b.utf8ByteSize := by
  rw [outcomeChars, List.length_map, Array.length_toList]
  rfl

theorem getElem?_outcomeChars (b : String) (i : Nat) :
    (outcomeChars b)[i]? = b.toUTF8.data[i]?.map fun byte => Char.ofNat byte.toNat := by
  rw [outcomeChars, List.getElem?_map, Array.getElem?_toList]

/-! ### Adding up what agrees -/

theorem map_getElem?_of_selectBits {chars l : List Char} (h : selectBits chars bits = .ok l) :
    bits.map (chars[·]?) = l.map some := by
  induction bits generalizing l with
  | nil =>
    obtain rfl := Except.ok.inj h
    rfl
  | cons b bits ih =>
    rw [selectBits] at h
    cases hb : chars[b]? with
    | none =>
      rw [hb] at h
      cases h
    | some ch =>
      rw [hb] at h
      cases hrest : selectBits chars bits with
      | error f =>
        rw [hrest] at h
        cases h
      | ok rest =>
        rw [hrest] at h
        obtain rfl := Except.ok.inj h
        rw [List.map_cons, List.map_cons, hb, ih hrest]

/-- A bitstring as wide as the register has an outcome of the output nodes, the one that it
shows. -/
theorem exists_outcomeOf_shows {c : Compiled} (hc : c.outputBits? = some bits)
    (hbits : ∀ b ∈ bits, b < c.bitCount) {b : String} (hb : b.utf8ByteSize = c.bitCount) :
    ∃ key, outcomeOf c.bitCount bits b = .ok key ∧ ∀ k, c.Shows b k ↔ key = k := by
  have hlength : (outcomeChars b).length = c.bitCount := (length_outcomeChars b).trans hb
  have hrange : ∀ i ∈ bits, i < (outcomeChars b).length := by rwa [hlength]
  obtain ⟨l, hl, -, -⟩ := exists_selectBits hrange
  refine ⟨String.ofList l, ?_, fun k => ?_⟩
  · rw [outcomeOf, if_pos hlength, hl]
    rfl
  · have hread : c.outputs.map c.register.get? = bits.map some := Datum.readAll_eq_some_iff.mp hc
    have hchars : c.outputs.map (c.charOf? b) = l.map some := calc
      c.outputs.map (c.charOf? b)
        = (c.outputs.map c.register.get?).map (·.bind ((outcomeChars b)[·]?)) := by
          rw [List.map_map]
          refine List.map_congr_left fun n _ => ?_
          simp only [charOf?, Function.comp_apply, getElem?_outcomeChars]
      _ = bits.map ((outcomeChars b)[·]?) := by
          rw [hread, List.map_map]
          rfl
      _ = l.map some := map_getElem?_of_selectBits hl
    unfold Shows
    rw [hchars, (Option.some_injective _).list_map.eq_iff]
    exact ⟨fun h => by rw [h, String.ofList_toList], fun h => by rw [← h, String.toList_ofList]⟩

/-- **One entry after another**: of entries as wide as the register, each is added to the outcome
that it shows. -/
theorem exists_addOutcomes_shows {c : Compiled} (hc : c.outputBits? = some bits)
    (hbits : ∀ b ∈ bits, b < c.bitCount) {l : List (String × Nat)}
    (hl : ∀ e ∈ l, e.1.utf8ByteSize = c.bitCount) (counts : Counts) :
    ∃ f, addOutcomes c.bitCount bits l counts = .ok f ∧
      (∀ k, f.get k = counts.get k + ((l.filter fun e => c.Shows e.1 k).map (·.2)).sum) ∧
      f.total = counts.total + (l.map (·.2)).sum := by
  induction l generalizing counts with
  | nil => exact ⟨counts, rfl, by simp, by simp⟩
  | cons e l ih =>
    obtain ⟨hwidth, hl⟩ := List.forall_mem_cons.mp hl
    obtain ⟨key, hkey, hshows⟩ := exists_outcomeOf_shows hc hbits hwidth
    obtain ⟨f, hf, hget, htotal⟩ := ih hl (counts.add key e.2)
    refine ⟨f, by rw [addOutcomes, hkey]; exact hf, fun k => ?_, ?_⟩
    · rw [hget, Counts.get_add, List.filter_cons]
      by_cases hk : key = k <;> simp [hshows, hk, Nat.add_assoc]
    · rw [htotal, Counts.total_add, List.map_cons, List.sum_cons, Nat.add_assoc]

/-- The first entry of another width ends the addition. -/
theorem addOutcomes_of_width_ne {c : Compiled} (hc : c.outputBits? = some bits)
    (hbits : ∀ b ∈ bits, b < c.bitCount) {l rest : List (String × Nat)} {b : String} {n : Nat}
    (hl : ∀ e ∈ l, e.1.utf8ByteSize = c.bitCount) (hb : b.utf8ByteSize ≠ c.bitCount)
    (counts : Counts) :
    addOutcomes c.bitCount bits (l ++ (b, n) :: rest) counts
      = .error (.registerMismatch b c.bitCount b.utf8ByteSize) := by
  induction l generalizing counts with
  | nil =>
    rw [List.nil_append, addOutcomes, outcomeOf, length_outcomeChars, if_neg hb]
  | cons e l ih =>
    obtain ⟨hwidth, hl⟩ := List.forall_mem_cons.mp hl
    obtain ⟨key, hkey, -⟩ := exists_outcomeOf_shows hc hbits hwidth
    rw [List.cons_append, addOutcomes, hkey]
    exact ih hl (counts.add key e.2)

end Compiled

/-- Of the bitstrings of another width there is a first one, in the order of bitstrings. -/
theorem Counts.exists_first_width_ne {counts : Counts} {width : Nat}
    (h : ∃ b ∈ counts.table.keys, b.utf8ByteSize ≠ width) :
    ∃ l b n rest, counts.toList = l ++ (b, n) :: rest ∧ b.utf8ByteSize ≠ width ∧
      (∀ e ∈ l, e.1.utf8ByteSize = width) ∧
      ∀ b' ∈ counts.table.keys, b'.utf8ByteSize ≠ width → b ≤ b' := by
  obtain ⟨b₀, hkey, hb₀⟩ := h
  obtain ⟨e₀, he₀, rfl⟩ := List.mem_map.mp hkey
  obtain ⟨⟨b, n⟩, hfind⟩ := Option.isSome_iff_exists.mp <|
    (List.find?_isSome (p := fun e : String × Nat => e.1.utf8ByteSize ≠ width)).mpr
      ⟨e₀, he₀, by simpa using hb₀⟩
  obtain ⟨hb, l, rest, hlist, hl⟩ := List.find?_eq_some_iff_append.mp hfind
  have hbefore : ∀ e ∈ l, e.1.utf8ByteSize = width := fun e he => by simpa using hl e he
  refine ⟨l, b, n, rest, hlist, by simpa using hb, hbefore, fun b' hb' hwidth => ?_⟩
  obtain ⟨e, he, rfl⟩ := List.mem_map.mp hb'
  have hsorted := counts.table.sorted
  rw [hlist] at he hsorted
  rcases List.mem_append.mp he with he | he
  · exact absurd (hbefore e he) hwidth
  rcases List.mem_cons.mp he with rfl | he
  · exact String.le_refl _
  · -- what comes later in the list is larger
    have hcompare := (List.pairwise_cons.mp (List.pairwise_append.mp hsorted).2.1).1 e he
    exact String.not_lt.mp (String.lt_asymm (compareOfLessAndEq_eq_lt.mp hcompare))

/-- **Marginal**: where the outputs of a pattern are measured and all bitstrings are as wide as the
register, every outcome of the output nodes is counted as often as the bitstrings that show it, and
no observation is lost. Otherwise the first bitstring of another width is reported. -/
theorem Compiled.outcomes_marginal {p : Pattern} {inputs : SortedMap Node InputState}
    {options : CompileOptions} {c : Compiled} (h : p.compile inputs options = .ok c)
    (hmeasured : options.measureOutputs = true) (counts : Counts) :
    ((∀ b ∈ counts.table.keys, b.utf8ByteSize = c.bitCount) →
      ∃ f, c.outcomes counts = .ok f ∧
        (∀ k, f.get k = ((counts.table.keys.filter fun b => c.Shows b k).map counts.get).sum) ∧
        f.total = counts.total) ∧
    ((∃ b ∈ counts.table.keys, b.utf8ByteSize ≠ c.bitCount) →
      ∃ b ∈ counts.table.keys, b.utf8ByteSize ≠ c.bitCount ∧
        (∀ b' ∈ counts.table.keys, b'.utf8ByteSize ≠ c.bitCount → b ≤ b') ∧
        c.outcomes counts = .error (.registerMismatch b c.bitCount b.utf8ByteSize)) := by
  obtain ⟨haccepted, rfl⟩ := Pattern.compile_eq_ok_iff.mp h
  obtain ⟨bits, hbits, -, hlt⟩ := haccepted.exists_outputBits hmeasured
  constructor
  · intro hwidth
    have hentries : ∀ e ∈ counts.toList, e.1.utf8ByteSize = _ := fun e he =>
      hwidth e.1 (List.mem_map_of_mem he)
    obtain ⟨f, hf, hget, htotal⟩ := exists_addOutcomes_shows hbits hlt hentries ∅
    refine ⟨f, by rw [outcomes, hbits]; exact hf, fun k => ?_, ?_⟩
    · rw [hget, counts.sum_map_get]
      exact Nat.zero_add _
    · rw [htotal, counts.total_eq_sum]
      exact Nat.zero_add _
  · intro hother
    obtain ⟨l, b, n, rest, hlist, hb, hl, hfirst⟩ := Counts.exists_first_width_ne hother
    have hmem : (b, n) ∈ counts.toList := by
      rw [hlist]
      simp
    refine ⟨b, List.mem_map_of_mem hmem, hb, hfirst, ?_⟩
    rw [outcomes, hbits]
    simp only [hlist]
    exact addOutcomes_of_width_ne hbits hlt hl hb ∅

/-- Two output nodes in an order that is not that of their numbers, after a node that is measured. -/
def Compiled.crossed : Pattern :=
  .ofParts [0, 1, 2] [(0, 1)] [0] [2, 1]
    [.prepare 1, .prepare 2, .entangle 0 1, .measure 0 .xy 0.0 ∅ ∅] []

/-- Bitstrings that differ in the bit of the measured node alone are counted together, and of two
bitstrings of another width the first is reported. -/
theorem Compiled.outcomes_crossed : ∃ c f, crossed.compile ∅ .forExecution = .ok c ∧
    c.outcomes (.ofPairs [("011", 3), ("111", 5), ("001", 2)]) = .ok f ∧
    f.get "11" = 8 ∧ f.get "01" = 2 ∧ f.get "10" = 0 ∧ f.total = 10 ∧
    c.outcomes (.ofPairs [("011", 3), ("10", 1), ("01", 1)])
      = .error (.registerMismatch "01" 3 2) := by
  set whole := Counts.ofPairs [("011", 3), ("111", 5), ("001", 2)]
  set mixed := Counts.ofPairs [("011", 3), ("10", 1), ("01", 1)]
  have hfacts : (crossed.compile ∅ .forExecution).toOption.any (fun c =>
      c.bitCount = 3 ∧ ["11", "01", "10"].map (fun k =>
        ((whole.table.keys.filter fun b => c.Shows b k).map whole.get).sum) = [8, 2, 0]) = true := by
    decide +kernel
  cases hc : crossed.compile ∅ .forExecution with
  | error f =>
    rw [hc] at hfacts
    cases hfacts
  | ok c =>
    rw [hc] at hfacts
    obtain ⟨hbits, hsums⟩ := of_decide_eq_true hfacts
    simp only [List.map_cons, List.map_nil, List.cons.injEq] at hsums
    have hwhole := (outcomes_marginal hc rfl whole).1
    have hmixed := (outcomes_marginal hc rfl mixed).2
    rw [hbits] at hwhole hmixed
    obtain ⟨f, hf, hget, htotal⟩ := hwhole (by decide +kernel)
    obtain ⟨b, hb, hwidth, hfirst, herror⟩ := hmixed (by decide +kernel)
    -- no other bitstring of another width comes as early
    obtain rfl : b = "01" := by
      have hleast : ∀ b ∈ mixed.table.keys, b.utf8ByteSize ≠ 3 → b ≤ "01" → b = "01" := by
        decide +kernel
      exact hleast b hb hwidth (hfirst "01" (by decide +kernel) (by decide +kernel))
    refine ⟨c, f, rfl, hf, ?_, ?_, ?_, htotal.trans (by decide +kernel), herror⟩
    · rw [hget, hsums.1]
    · rw [hget, hsums.2.1]
    · rw [hget, hsums.2.2.1]

end OneWay
