import Mathlib.Data.Finset.Card
import OneWay.Proofs.Simulation.Completion

/-!
# Counts as multisets of observations

Counts forget in which order observations were made. What they keep of a list is the set of the
bitstrings (`Counts.mem_keys_ofPairs`) and how often each was observed (`Counts.get_ofPairs`), and
both are the same for every order of the list.

The ranking lists the entries of counts by a strict order in which any two of them are comparable,
`Counts.Outranks`. So an entry stands before another iff it outranks it
(`Counts.lt_iff_outranks`), and the first entry is the one that outranks all others.
-/

namespace OneWay.Counts

/-! ### Observations -/

/-- How often a bitstring was observed. -/
def observed (l : List (String × Nat)) (k : String) : Nat :=
  ((l.filter (·.1 = k)).map (·.2)).sum

theorem observed_cons (e : String × Nat) (l : List (String × Nat)) (k : String) :
    observed (e :: l) k = (if e.1 = k then e.2 else 0) + observed l k := by
  unfold observed
  by_cases hk : e.1 = k <;> simp [hk]

theorem observed_le_sum (l : List (String × Nat)) (k : String) :
    observed l k ≤ (l.map (·.2)).sum := by
  induction l with
  | nil => exact Nat.le_refl 0
  | cons e l ih =>
    rw [observed_cons, List.map_cons, List.sum_cons]
    split <;> omega

theorem observed_eq_of_perm {l l' : List (String × Nat)} (h : l.Perm l') (k : String) :
    observed l k = observed l' k :=
  ((h.filter _).map _).sum_nat

theorem get_add (c : Counts) (b k : String) (n : Nat) :
    (c.add b n).get k = c.get k + if b = k then n else 0 := by
  unfold get add SortedMap.getD
  rw [SortedMap.get?_insertWith]
  by_cases hk : k = b
  · subst hk
    cases c.table.get? k <;> simp
  · simp [hk, Ne.symm hk]

theorem mem_keys_add {c : Counts} {b k : String} {n : Nat} :
    k ∈ (c.add b n).table.keys ↔ k = b ∨ k ∈ c.table.keys := by
  rw [SortedMap.mem_keys_iff, SortedMap.mem_keys_iff, SortedMap.contains, add,
    SortedMap.get?_insertWith]
  by_cases hk : k = b
  · simp [hk]
  · simp [hk, SortedMap.contains]

/-- Observations add to what was counted before. -/
theorem get_foldl_add (l : List (String × Nat)) (c : Counts) (k : String) :
    (l.foldl (fun c e => c.add e.1 e.2) c).get k = c.get k + observed l k := by
  induction l generalizing c with
  | nil => rfl
  | cons e l ih => rw [List.foldl_cons, ih, get_add, observed_cons, Nat.add_assoc]

theorem get_ofPairs (l : List (String × Nat)) (k : String) :
    (ofPairs l).get k = observed l k := by
  rw [ofPairs, get_foldl_add]
  exact Nat.zero_add _

theorem mem_keys_foldl_add {l : List (String × Nat)} {c : Counts} {k : String} :
    k ∈ (l.foldl (fun c e => c.add e.1 e.2) c).table.keys ↔
      k ∈ l.map (·.1) ∨ k ∈ c.table.keys := by
  induction l generalizing c with
  | nil => simp
  | cons e l ih =>
    rw [List.foldl_cons, ih, mem_keys_add, List.map_cons, List.mem_cons, ← or_assoc,
      or_comm (a := k ∈ l.map _)]

theorem mem_keys_ofPairs {l : List (String × Nat)} {k : String} :
    k ∈ (ofPairs l).table.keys ↔ k ∈ l.map (·.1) := by
  rw [ofPairs, mem_keys_foldl_add]
  exact or_iff_left List.not_mem_nil

theorem get_of_mem {c : Counts} {e : String × Nat} (h : e ∈ c.toList) : c.get e.1 = e.2 := by
  have hget : c.table.get? e.1 = some e.2 := SortedMap.get?_eq_some_iff.mpr h
  rw [get, SortedMap.getD, hget]
  rfl

/-- The entries are the bitstrings with their counts. -/
theorem mem_toList_iff {c : Counts} {e : String × Nat} :
    e ∈ c.toList ↔ e.1 ∈ c.table.keys ∧ e.2 = c.get e.1 := by
  constructor
  · exact fun he => ⟨List.mem_map_of_mem he, (get_of_mem he).symm⟩
  · rintro ⟨hkey, hcount⟩
    obtain ⟨e', he', hfst⟩ := List.mem_map.mp hkey
    have hsnd : e'.2 = e.2 := by rw [hcount, ← hfst, get_of_mem he']
    exact Prod.ext hfst hsnd ▸ he'

theorem mem_toList_ofPairs {l : List (String × Nat)} {e : String × Nat} :
    e ∈ (ofPairs l).toList ↔ e.1 ∈ l.map (·.1) ∧ e.2 = observed l e.1 := by
  rw [mem_toList_iff, mem_keys_ofPairs, get_ofPairs]

/-- **Order of observations**: it does not matter. -/
theorem ofPairs_eq_of_perm {l l' : List (String × Nat)} (h : l.Perm l') :
    ofPairs l = ofPairs l' := by
  refine congrArg mk (SortedMap.ext_mem fun e => ?_)
  show e ∈ (ofPairs l).toList ↔ e ∈ (ofPairs l').toList
  rw [mem_toList_ofPairs, mem_toList_ofPairs, observed_eq_of_perm h, (h.map _).mem_iff]

theorem total_ofPairs (l : List (String × Nat)) : (ofPairs l).total = (l.map (·.2)).sum := by
  have hadd : ∀ c : Counts, (l.foldl (fun c e => c.add e.1 e.2) c).total
      = c.total + (l.map (·.2)).sum := by
    induction l with
    | nil => exact fun _ => rfl
    | cons e l ih =>
      intro c
      rw [List.foldl_cons, ih, total_add, List.map_cons, List.sum_cons, Nat.add_assoc]
  rw [ofPairs, hadd]
  exact Nat.zero_add _

theorem size_ofPairs (l : List (String × Nat)) :
    (ofPairs l).size = (l.map (·.1)).toFinset.card := by
  have hkeys : (ofPairs l).table.keys.toFinset = (l.map (·.1)).toFinset := by
    ext k
    rw [List.mem_toFinset, List.mem_toFinset, mem_keys_ofPairs]
  have hnodup : (ofPairs l).table.keys.Nodup := (ofPairs l).table.nodup_keys
  rw [← hkeys, List.toFinset_card_of_nodup hnodup, SortedMap.keys, List.length_map]
  rfl

/-! ### Ranking -/

/-- An entry outranks another by a larger count, or by a smaller bitstring where the counts
agree. -/
def Outranks (a b : String × Nat) : Prop := b.2 < a.2 ∨ a.2 = b.2 ∧ a.1 < b.1

instance (a b : String × Nat) : Decidable (Outranks a b) :=
  inferInstanceAs (Decidable (_ ∨ _))

variable {a b d : String × Nat}

theorem Outranks.trans (hab : Outranks a b) (hbd : Outranks b d) : Outranks a d := by
  rcases hab with hab | ⟨heq, hab⟩
  · rcases hbd with hbd | ⟨heq', -⟩
    · exact .inl (by omega)
    · exact .inl (by omega)
  · rcases hbd with hbd | ⟨heq', hbd⟩
    · exact .inl (by omega)
    · exact .inr ⟨heq.trans heq', String.lt_trans hab hbd⟩

theorem Outranks.asymm (hab : Outranks a b) : ¬Outranks b a := by
  rintro (hba | ⟨heq', hba⟩)
  · rcases hab with hab | ⟨heq, -⟩ <;> omega
  · rcases hab with hab | ⟨-, hab⟩
    · omega
    · exact String.lt_asymm hab hba

/-- Any two entries are comparable. -/
theorem outranks_or_outranks (hne : a ≠ b) : Outranks a b ∨ Outranks b a := by
  rcases Nat.lt_trichotomy a.2 b.2 with hlt | heq | hlt
  · exact .inr (.inl hlt)
  · rcases Std.lt_trichotomy a.1 b.1 with hlt | hkey | hlt
    · exact .inl (.inr ⟨heq, hlt⟩)
    · exact absurd (Prod.ext hkey heq) hne
    · exact .inr (.inr ⟨heq.symm, hlt⟩)
  · exact .inl (.inl hlt)

/-- An entry comes before those that it outranks and before itself. -/
theorem ranksBefore_iff : ranksBefore a b = true ↔ a = b ∨ Outranks a b := by
  have hkey : ¬b.1 < a.1 ↔ a.1 = b.1 ∨ a.1 < b.1 := by
    rw [String.not_lt, Std.le_iff_lt_or_eq, or_comm]
  simp only [ranksBefore, Outranks, Bool.or_eq_true, Bool.and_eq_true, Bool.not_eq_true',
    decide_eq_true_eq, decide_eq_false_iff_not, beq_iff_eq, hkey, Prod.ext_iff]
  tauto

theorem ranksBefore_trans (a b d : String × Nat) (hab : ranksBefore a b = true)
    (hbd : ranksBefore b d = true) : ranksBefore a d = true := by
  rw [ranksBefore_iff] at *
  rcases hab with rfl | hab
  · exact hbd
  · rcases hbd with rfl | hbd
    · exact .inr hab
    · exact .inr (hab.trans hbd)

theorem ranksBefore_total (a b : String × Nat) :
    (ranksBefore a b || ranksBefore b a) = true := by
  rw [Bool.or_eq_true, ranksBefore_iff, ranksBefore_iff]
  by_cases hab : a = b
  · exact .inl (.inl hab)
  · exact (outranks_or_outranks hab).imp .inr .inr

theorem ranked_perm (c : Counts) : c.ranked.Perm c.toList := List.mergeSort_perm ..

/-- **The ranking**: an entry outranks all that come after it. -/
theorem pairwise_outranks (c : Counts) : c.ranked.Pairwise Outranks := by
  have hsorted : c.ranked.Pairwise fun a b => ranksBefore a b = true :=
    List.pairwise_mergeSort ranksBefore_trans ranksBefore_total c.toList
  have hnodup : c.ranked.Nodup := c.ranked_perm.nodup_iff.mpr c.table.nodup_keys.of_map
  -- no entry stands twice in the ranking, so one that comes before another outranks it
  refine (hsorted.and hnodup).imp fun {a b} h => ?_
  exact (ranksBefore_iff.mp h.1).resolve_left h.2

theorem lt_iff_outranks {c : Counts} {i j : Nat} (hi : i < c.ranked.length)
    (hj : j < c.ranked.length) : i < j ↔ Outranks c.ranked[i] c.ranked[j] := by
  have hpair := List.pairwise_iff_getElem.mp c.pairwise_outranks
  refine ⟨hpair i j hi hj, fun hrank => ?_⟩
  rcases Nat.lt_trichotomy i j with hlt | rfl | hlt
  · exact hlt
  · exact absurd hrank hrank.asymm
  · exact absurd hrank (hpair j i hj hi hlt).asymm

/-- The most frequent entry is the one that outranks all others. -/
theorem top?_eq_some_iff {c : Counts} {e : String × Nat} :
    c.top? = some e ↔ e ∈ c.toList ∧ ∀ e' ∈ c.toList, e' ≠ e → Outranks e e' := by
  have hpair := c.pairwise_outranks
  simp only [← c.ranked_perm.mem_iff, top?]
  cases hranked : c.ranked with
  | nil => simp
  | cons x l =>
    rw [hranked, List.pairwise_cons] at hpair
    rw [List.head?_cons, Option.some_inj]
    constructor
    · rintro rfl
      refine ⟨List.mem_cons_self, fun e' he' hne => ?_⟩
      exact hpair.1 e' ((List.mem_cons.mp he').resolve_left hne)
    · rintro ⟨he, hall⟩
      rcases List.mem_cons.mp he with rfl | hmem
      · rfl
      · -- the first entry outranks this one, so this one cannot outrank the first
        by_contra hne
        exact (hpair.1 e hmem).asymm (hall x List.mem_cons_self hne)

/-! ### Counts and their ranking -/

/-- **Multiset of observations**: of a list of observations that fit 64 bits, in any order, the
counts keep the bitstrings and how often each was observed, and none of the sums on the way leaves 64
bits. Their ranking, as that of all counts, is a permutation of the entries in which an entry precedes
another iff it outranks it, and the most frequent entry is its head, which outranks all others. -/
theorem ofPairs_ranking {l l' : List (String × Nat)} (hperm : l.Perm l')
    (hsum : (l.map (·.2)).sum < 2 ^ 64) :
    ofPairs l' = ofPairs l ∧
    (∀ k, (ofPairs l).get k = observed l k) ∧
    (ofPairs l).total = (l.map (·.2)).sum ∧
    (ofPairs l).size = (l.map (·.1)).toFinset.card ∧
    (∀ e, e ∈ (ofPairs l).toList ↔ e.1 ∈ l.map (·.1) ∧ e.2 = observed l e.1) ∧
    (∀ n, (ofPairs (l'.take n)).total < 2 ^ 64 ∧ ∀ k, (ofPairs (l'.take n)).get k < 2 ^ 64) ∧
    ∀ c : Counts,
      c.ranked.Perm c.toList ∧
      (∀ i j (hi : i < c.ranked.length) (hj : j < c.ranked.length),
        i < j ↔ Outranks c.ranked[i] c.ranked[j]) ∧
      c.top? = c.ranked.head? ∧
      ∀ e, c.top? = some e ↔ e ∈ c.toList ∧ ∀ e' ∈ c.toList, e' ≠ e → Outranks e e' := by
  -- what was observed up to a point is part of what is observed in the end
  have hbound : ∀ n, ((l'.take n).map (·.2)).sum < 2 ^ 64 := by
    intro n
    have hsplit : ((l'.take n).map (·.2)).sum + ((l'.drop n).map (·.2)).sum
        = (l.map (·.2)).sum := by
      rw [← List.sum_append, ← List.map_append, List.take_append_drop]
      exact (hperm.map _).sum_nat.symm
    omega
  refine ⟨(ofPairs_eq_of_perm hperm).symm, get_ofPairs l, total_ofPairs l, size_ofPairs l,
    fun e => mem_toList_ofPairs, fun n => ⟨?_, fun k => ?_⟩, fun c => ⟨ranked_perm c,
    fun i j hi hj => lt_iff_outranks hi hj, rfl, fun e => top?_eq_some_iff⟩⟩
  · rw [total_ofPairs]
    exact hbound n
  · rw [get_ofPairs]
    exact (observed_le_sum _ k).trans_lt (hbound n)

/-- Bitstrings that were observed twice, equally often and not at all. -/
theorem ofPairs_ranking_mixed :
    let l := [("10", 2), ("01", 3), ("11", 0), ("10", 1)]
    let l' := [("11", 0), ("10", 1), ("10", 2), ("01", 3)]
    l.Perm l' ∧ (l.map (·.2)).sum < 2 ^ 64 ∧ ofPairs l' = ofPairs l ∧ (ofPairs l).get "10" = 3 ∧
      (ofPairs l).total = 6 ∧ (ofPairs l).size = 3 ∧ (ofPairs l).top? = some ("01", 3) := by
  intro l l'
  have hperm : l.Perm l' := by decide
  have hsum : (l.map (·.2)).sum < 2 ^ 64 := by decide
  obtain ⟨horder, hget, htotal, hsize, -, -, hranked⟩ := ofPairs_ranking hperm hsum
  refine ⟨hperm, hsum, horder, hget "10", htotal, hsize, ?_⟩
  exact ((hranked (ofPairs l)).2.2.2 ("01", 3)).mpr (by decide)

end OneWay.Counts
