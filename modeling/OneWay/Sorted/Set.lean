/-!
# Finite sets as strictly increasing lists

`SortedSet α` is a finite set kept as the strictly increasing list of its members, so two sets
with the same members are equal as values and every traversal is in ascending order.

* `SortedSet.insert` adds a member, `SortedSet.ofList` collects a list, repetitions included.
* `SortedSet.mem_insert` and `SortedSet.mem_ofList` say what the members are afterwards.
* `SortedSet.ofList_toList` says that collecting the members of a set gives the set back.
-/

namespace OneWay

/-- A finite set, kept as the strictly increasing list of its members. -/
structure SortedSet (α : Type) [Ord α] where
  /-- The members in ascending order. -/
  toList : List α
  /-- Each member is below every later one. -/
  sorted : toList.Pairwise fun a b => compare a b = .lt

namespace SortedSet

variable {α : Type} [Ord α]

/-- The set with no members. -/
def empty : SortedSet α := ⟨[], .nil⟩

instance : EmptyCollection (SortedSet α) := ⟨empty⟩

instance : Inhabited (SortedSet α) := ⟨empty⟩

instance : Membership α (SortedSet α) := ⟨fun s a => a ∈ s.toList⟩

theorem mem_def {a : α} {s : SortedSet α} : a ∈ s ↔ a ∈ s.toList := Iff.rfl

theorem ext_toList {s t : SortedSet α} (h : s.toList = t.toList) : s = t := by
  cases s; cases t; cases h; rfl

instance [DecidableEq α] : DecidableEq (SortedSet α) := fun s t =>
  decidable_of_iff (s.toList = t.toList) ⟨ext_toList, fun h => h ▸ rfl⟩

instance [DecidableEq α] (a : α) (s : SortedSet α) : Decidable (a ∈ s) :=
  inferInstanceAs (Decidable (a ∈ s.toList))

instance [Repr α] : Repr (SortedSet α) := ⟨fun s n => reprPrec s.toList n⟩

/-- Number of members. -/
def size (s : SortedSet α) : Nat := s.toList.length

/-- Whether there are no members. -/
def isEmpty (s : SortedSet α) : Bool := s.toList.isEmpty

/-- Whether `a` is a member. -/
def contains [BEq α] (s : SortedSet α) (a : α) : Bool := s.toList.contains a

/-- The set without `a`. -/
def erase [DecidableEq α] (a : α) (s : SortedSet α) : SortedSet α :=
  ⟨s.toList.filter (· ≠ a), s.sorted.filter _⟩

/-- The least member and the set of the others. -/
def popMin? (s : SortedSet α) : Option (α × SortedSet α) :=
  match s with
  | ⟨[], _⟩ => none
  | ⟨a :: l, h⟩ => some (a, ⟨l, (List.pairwise_cons.mp h).2⟩)

/-! ### Insertion -/

/-- `insertInto a l` places `a` before the first larger entry of `l`, unless it is there already. -/
def insertInto (a : α) : List α → List α
  | [] => [a]
  | b :: l =>
    match compare a b with
    | .lt => a :: b :: l
    | .eq => b :: l
    | .gt => b :: insertInto a l

theorem mem_insertInto [Std.LawfulEqOrd α] {a x : α} {l : List α} :
    x ∈ insertInto a l ↔ x = a ∨ x ∈ l := by
  induction l with
  | nil => simp [insertInto]
  | cons b l ih =>
    rw [insertInto]
    split
    · simp
    · next h =>
      have : a = b := Std.LawfulEqCmp.eq_of_compare h
      subst this
      simp
    · simp only [List.mem_cons, ih]
      exact ⟨fun h => h.elim (.inr ∘ .inl) (·.imp id .inr),
        fun h => h.elim (.inr ∘ .inl) (·.imp id .inr)⟩

theorem pairwise_insertInto [Std.TransOrd α] [Std.LawfulEqOrd α] (a : α) {l : List α}
    (h : l.Pairwise fun a b => compare a b = .lt) :
    (insertInto a l).Pairwise fun a b => compare a b = .lt := by
  induction l with
  | nil => simp [insertInto]
  | cons b l ih =>
    rw [List.pairwise_cons] at h
    rw [insertInto]
    split
    · next hab =>
      refine List.pairwise_cons.mpr ⟨fun x hx => ?_, List.pairwise_cons.mpr h⟩
      rcases List.mem_cons.mp hx with rfl | hx
      · exact hab
      · exact Std.TransCmp.lt_trans hab (h.1 x hx)
    · exact List.pairwise_cons.mpr h
    · next hab =>
      refine List.pairwise_cons.mpr ⟨fun x hx => ?_, ih h.2⟩
      rcases mem_insertInto.mp hx with rfl | hx
      · exact Std.OrientedCmp.lt_of_gt hab
      · exact h.1 x hx

/-- An entry above all of a list is placed at its end. -/
theorem insertInto_of_forall_lt [Std.TransOrd α] {a : α} {l : List α}
    (h : ∀ b ∈ l, compare b a = .lt) : insertInto a l = l ++ [a] := by
  induction l with
  | nil => rfl
  | cons b l ih =>
    have hb : compare a b = .gt := Std.OrientedCmp.gt_of_lt (h b (List.mem_cons_self ..))
    simp only [insertInto, hb, List.cons_append]
    rw [ih fun c hc => h c (List.mem_cons_of_mem _ hc)]

variable [Std.TransOrd α] [Std.LawfulEqOrd α]

/-- The set with `a` added. -/
def insert (a : α) (s : SortedSet α) : SortedSet α :=
  ⟨insertInto a s.toList, pairwise_insertInto a s.sorted⟩

/-- The members of a list, each once. -/
def ofList (l : List α) : SortedSet α :=
  l.foldl (fun s a => s.insert a) empty

theorem mem_insert {a x : α} {s : SortedSet α} : x ∈ s.insert a ↔ x = a ∨ x ∈ s :=
  mem_insertInto

theorem mem_foldl_insert {x : α} {l : List α} {s : SortedSet α} :
    x ∈ l.foldl (fun s a => s.insert a) s ↔ x ∈ s ∨ x ∈ l := by
  induction l generalizing s with
  | nil => simp
  | cons a l ih =>
    rw [List.foldl_cons, ih, mem_insert, List.mem_cons]
    exact ⟨fun h => h.elim (·.elim (.inr ∘ .inl) .inl) (.inr ∘ .inr),
      fun h => h.elim (.inl ∘ .inr) (·.elim (.inl ∘ .inl) .inr)⟩

theorem mem_ofList {x : α} {l : List α} : x ∈ ofList l ↔ x ∈ l := by
  rw [ofList, mem_foldl_insert]
  simp [mem_def, empty]

/-! ### Collecting the members again -/

theorem toList_foldl_insert {l : List α} {s : SortedSet α}
    (h : (s.toList ++ l).Pairwise fun a b => compare a b = .lt) :
    (l.foldl (fun s a => s.insert a) s).toList = s.toList ++ l := by
  induction l generalizing s with
  | nil => simp
  | cons a l ih =>
    have hins : (s.insert a).toList = s.toList ++ [a] :=
      insertInto_of_forall_lt fun b hb =>
        (List.pairwise_append.mp h).2.2 b hb a (List.mem_cons_self ..)
    rw [List.foldl_cons, ih (by rw [hins]; simpa using h), hins]
    simp

theorem ofList_toList (s : SortedSet α) : ofList s.toList = s := by
  refine ext_toList ?_
  have := toList_foldl_insert (s := (empty : SortedSet α)) (l := s.toList)
    (by simpa [empty] using s.sorted)
  simpa [ofList, empty] using this

end SortedSet

end OneWay
