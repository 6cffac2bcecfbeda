/-!
# Finite maps as strictly increasing association lists

`SortedMap κ ν` is a finite map kept as the list of its entries in ascending order of their keys,
so two maps with the same entries are equal as values.

* `SortedMap.insert` sets a key, `SortedMap.insertWith` combines with the value already there.
* `SortedMap.get?_insertWith` says what a look-up gives afterwards.
* `SortedMap.ofList_entries` says that collecting the entries of a map gives the map back.
-/

namespace OneWay

/-- A finite map, kept as the list of its entries in ascending order of their keys. -/
structure SortedMap (κ ν : Type) [Ord κ] where
  /-- The entries, in ascending order of their keys. -/
  entries : List (κ × ν)
  /-- Each key is below every later one. -/
  sorted : entries.Pairwise fun a b => compare a.1 b.1 = .lt

namespace SortedMap

variable {κ ν : Type} [Ord κ]

/-- The map with no entries. -/
def empty : SortedMap κ ν := ⟨[], .nil⟩

instance : EmptyCollection (SortedMap κ ν) := ⟨empty⟩

instance : Inhabited (SortedMap κ ν) := ⟨empty⟩

theorem ext_entries {m n : SortedMap κ ν} (h : m.entries = n.entries) : m = n := by
  cases m; cases n; cases h; rfl

instance [DecidableEq κ] [DecidableEq ν] : DecidableEq (SortedMap κ ν) := fun m n =>
  decidable_of_iff (m.entries = n.entries) ⟨ext_entries, fun h => h ▸ rfl⟩

instance [Repr κ] [Repr ν] : Repr (SortedMap κ ν) := ⟨fun m n => reprPrec m.entries n⟩

/-- The keys in ascending order. -/
def keys (m : SortedMap κ ν) : List κ := m.entries.map (·.1)

/-- The values, in the order of their keys. -/
def values (m : SortedMap κ ν) : List ν := m.entries.map (·.2)

/-- Number of entries. -/
def size (m : SortedMap κ ν) : Nat := m.entries.length

/-- Whether there are no entries. -/
def isEmpty (m : SortedMap κ ν) : Bool := m.entries.isEmpty

/-- The value of the first entry whose key compares equal to `k`. -/
def find? (k : κ) : List (κ × ν) → Option ν
  | [] => none
  | (k', v) :: l => if compare k k' = .eq then some v else find? k l

/-- The value at `k`, if there is one. -/
def get? (m : SortedMap κ ν) (k : κ) : Option ν := find? k m.entries

/-- The value at `k`, or `d`. -/
def getD (m : SortedMap κ ν) (k : κ) (d : ν) : ν := (m.get? k).getD d

/-- Whether `k` has a value. -/
def contains (m : SortedMap κ ν) (k : κ) : Bool := (m.get? k).isSome

/-! ### Insertion -/

/-- `insertInto f k v l` puts `v` at `k`, or `f old v` where `k` has the value `old`. -/
def insertInto (f : ν → ν → ν) (k : κ) (v : ν) : List (κ × ν) → List (κ × ν)
  | [] => [(k, v)]
  | (k', v') :: l =>
    match compare k k' with
    | .lt => (k, v) :: (k', v') :: l
    | .eq => (k', f v' v) :: l
    | .gt => (k', v') :: insertInto f k v l

theorem fst_of_mem_insertInto {f : ν → ν → ν} {k : κ} {v : ν} {l : List (κ × ν)} {x : κ × ν}
    (h : x ∈ insertInto f k v l) : x.1 = k ∨ ∃ y ∈ l, y.1 = x.1 := by
  induction l with
  | nil =>
    rw [insertInto, List.mem_singleton] at h
    exact .inl (h ▸ rfl)
  | cons e l ih =>
    obtain ⟨k', v'⟩ := e
    rw [insertInto] at h
    split at h
    · rcases List.mem_cons.mp h with rfl | h
      · exact .inl rfl
      · exact .inr ⟨x, h, rfl⟩
    · rcases List.mem_cons.mp h with rfl | h
      · exact .inr ⟨_, List.mem_cons_self .., rfl⟩
      · exact .inr ⟨x, List.mem_cons_of_mem _ h, rfl⟩
    · rcases List.mem_cons.mp h with rfl | h
      · exact .inr ⟨_, List.mem_cons_self .., rfl⟩
      · exact (ih h).imp id fun ⟨y, hy, e⟩ => ⟨y, List.mem_cons_of_mem _ hy, e⟩

theorem pairwise_insertInto [Std.TransOrd κ] (f : ν → ν → ν) (k : κ) (v : ν) {l : List (κ × ν)}
    (h : l.Pairwise fun a b => compare a.1 b.1 = .lt) :
    (insertInto f k v l).Pairwise fun a b => compare a.1 b.1 = .lt := by
  induction l with
  | nil => simp [insertInto]
  | cons e l ih =>
    obtain ⟨k', v'⟩ := e
    rw [List.pairwise_cons] at h
    rw [insertInto]
    split
    · next hk =>
      refine List.pairwise_cons.mpr ⟨fun x hx => ?_, List.pairwise_cons.mpr h⟩
      rcases List.mem_cons.mp hx with rfl | hx
      · exact hk
      · exact Std.TransCmp.lt_trans hk (h.1 x hx)
    · exact List.pairwise_cons.mpr ⟨fun x hx => h.1 x hx, h.2⟩
    · next hk =>
      refine List.pairwise_cons.mpr ⟨fun x hx => ?_, ih h.2⟩
      rcases fst_of_mem_insertInto hx with hx | ⟨y, hy, hxy⟩
      · exact hx ▸ Std.OrientedCmp.lt_of_gt hk
      · exact hxy ▸ h.1 y hy

theorem find?_insertInto [Std.TransOrd κ] [Std.LawfulEqOrd κ] [DecidableEq κ] (f : ν → ν → ν)
    (k x : κ) (v : ν) {l : List (κ × ν)} (h : l.Pairwise fun a b => compare a.1 b.1 = .lt) :
    find? x (insertInto f k v l)
      = if x = k then some ((find? k l).elim v (f · v)) else find? x l := by
  have heq {a b : κ} : compare a b = .eq ↔ a = b := Std.LawfulEqCmp.compare_eq_iff_eq
  induction l with
  | nil => simp [insertInto, find?, heq]
  | cons e l ih =>
    obtain ⟨k', v'⟩ := e
    rw [List.pairwise_cons] at h
    rw [insertInto]
    split
    · next hk =>
      have hk' : k ≠ k' := fun e => by simp [heq.mpr e] at hk
      have hnone : find? k l = none := by
        clear ih
        have hlt : ∀ y ∈ l, compare k y.1 = .lt := fun y hy => Std.TransCmp.lt_trans hk (h.1 y hy)
        clear h
        induction l with
        | nil => rfl
        | cons y l ihl =>
          have := hlt y (List.mem_cons_self ..)
          rw [find?, if_neg (by simp [this])]
          exact ihl fun z hz => hlt z (List.mem_cons_of_mem _ hz)
      by_cases hx : x = k
      · subst hx
        simp [find?, heq, hk', hnone]
      · simp [find?, heq, hx]
    · next hk =>
      have hk' : k = k' := heq.mp hk
      subst hk'
      by_cases hx : x = k
      · simp [find?, hx]
      · simp [find?, heq, hx]
    · next hk =>
      have hk' : k ≠ k' := fun e => by simp [heq.mpr e] at hk
      rw [find?, ih h.2]
      by_cases hx : x = k
      · subst hx
        simp [find?, heq, hk']
      · by_cases hx' : x = k'
        · simp [find?, hx', Ne.symm hk']
        · simp [find?, heq, hx, hx']

variable [Std.TransOrd κ]

/-- The map with `v` at `k`, or `f old v` if `k` has the value `old`. -/
def insertWith (f : ν → ν → ν) (k : κ) (v : ν) (m : SortedMap κ ν) : SortedMap κ ν :=
  ⟨insertInto f k v m.entries, pairwise_insertInto f k v m.sorted⟩

/-- The map with `v` at `k`, whatever was there. -/
def insert (k : κ) (v : ν) (m : SortedMap κ ν) : SortedMap κ ν :=
  m.insertWith (fun _ new => new) k v

/-- The map of a list of entries; a later entry replaces an earlier one of the same key. -/
def ofList (l : List (κ × ν)) : SortedMap κ ν :=
  l.foldl (fun m e => m.insert e.1 e.2) empty

theorem get?_insertWith [Std.LawfulEqOrd κ] [DecidableEq κ] (f : ν → ν → ν) (k x : κ) (v : ν)
    (m : SortedMap κ ν) :
    (m.insertWith f k v).get? x = if x = k then some ((m.get? k).elim v (f · v)) else m.get? x :=
  find?_insertInto f k x v m.sorted

theorem get?_insert [Std.LawfulEqOrd κ] [DecidableEq κ] (k x : κ) (v : ν) (m : SortedMap κ ν) :
    (m.insert k v).get? x = if x = k then some v else m.get? x := by
  rw [insert, get?_insertWith]
  cases m.get? k <;> rfl

/-! ### Collecting the entries again -/

/-- A key above all of a list goes to its end. -/
theorem insertInto_of_forall_lt {f : ν → ν → ν} {k : κ} {v : ν} {l : List (κ × ν)}
    (h : ∀ b ∈ l, compare b.1 k = .lt) : insertInto f k v l = l ++ [(k, v)] := by
  induction l with
  | nil => rfl
  | cons b l ih =>
    have hb : compare k b.1 = .gt := Std.OrientedCmp.gt_of_lt (h b (List.mem_cons_self ..))
    simp only [insertInto, hb, List.cons_append]
    rw [ih fun c hc => h c (List.mem_cons_of_mem _ hc)]

theorem entries_foldl_insert {l : List (κ × ν)} {m : SortedMap κ ν}
    (h : (m.entries ++ l).Pairwise fun a b => compare a.1 b.1 = .lt) :
    (l.foldl (fun m e => m.insert e.1 e.2) m).entries = m.entries ++ l := by
  induction l generalizing m with
  | nil => simp
  | cons e l ih =>
    have hins : (m.insert e.1 e.2).entries = m.entries ++ [e] :=
      insertInto_of_forall_lt fun b hb =>
        (List.pairwise_append.mp h).2.2 b hb e (List.mem_cons_self ..)
    rw [List.foldl_cons, ih (by rw [hins]; simpa using h), hins]
    simp

theorem ofList_entries (m : SortedMap κ ν) : ofList m.entries = m := by
  refine ext_entries ?_
  have := entries_foldl_insert (m := (empty : SortedMap κ ν)) (l := m.entries)
    (by simpa [empty] using m.sorted)
  simpa [ofList, empty] using this

end SortedMap

end OneWay
