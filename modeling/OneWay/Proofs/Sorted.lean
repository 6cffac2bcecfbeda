import OneWay.Sorted.Map
import OneWay.Sorted.Set
import Mathlib.Data.List.Nodup

/-!
# Sorted sets and maps as finite sets and finite maps

What the operations of `SortedSet` and `SortedMap` do to membership, to look-ups and to the number
of entries. A set is used below only through these facts, never through the order of its list.

`SortedSet.map` and `SortedMap.mapKeys` rename members and keys. The order is not kept, but members
and look-ups are, as far as the renaming keeps names apart.
-/

namespace OneWay

namespace SortedSet

variable {α : Type} [Ord α]

theorem contains_iff_mem [BEq α] [LawfulBEq α] {s : SortedSet α} {a : α} :
    s.contains a = true ↔ a ∈ s := by
  unfold contains
  rw [List.contains_iff_mem, mem_def]

theorem not_mem_empty (a : α) : a ∉ (∅ : SortedSet α) := List.not_mem_nil

theorem mem_erase [DecidableEq α] {s : SortedSet α} {a x : α} :
    x ∈ s.erase a ↔ x ∈ s ∧ x ≠ a := by
  simp [mem_def, erase, List.mem_filter]

theorem nodup [Std.LawfulEqOrd α] (s : SortedSet α) : s.toList.Nodup := by
  refine s.sorted.imp fun {a b} hlt => ?_
  rintro rfl
  simp at hlt

/-- What is left without the least member. -/
theorem popMin?_eq_some_iff {s t : SortedSet α} {a : α} :
    s.popMin? = some (a, t) ↔ s.toList = a :: t.toList := by
  obtain ⟨l, hl⟩ := s
  cases l with
  | nil => simp [popMin?]
  | cons b l =>
    simp only [popMin?, Option.some.injEq, Prod.mk.injEq, List.cons.injEq]
    refine and_congr Iff.rfl ⟨fun h => h ▸ rfl, fun h => ext_toList h⟩

theorem popMin?_eq_none_iff {s : SortedSet α} : s.popMin? = none ↔ s.toList = [] := by
  obtain ⟨l, hl⟩ := s
  cases l <;> simp [popMin?]

/-! ### Counting members -/

theorem insertInto_perm [Std.LawfulEqOrd α] {a : α} {l : List α} (h : a ∉ l) :
    (insertInto a l).Perm (a :: l) := by
  induction l with
  | nil => exact .refl _
  | cons b l ih =>
    rw [List.mem_cons, not_or] at h
    rw [insertInto]
    split
    · exact .refl _
    · next hab => exact absurd (Std.LawfulEqCmp.eq_of_compare hab) h.1
    · exact ((ih h.2).cons b).trans (.swap a b l)

variable [Std.TransOrd α] [Std.LawfulEqOrd α]

/-- A new member joins the others. -/
theorem toList_insert_perm {s : SortedSet α} {a : α} (h : a ∉ s) :
    (s.insert a).toList.Perm (a :: s.toList) :=
  insertInto_perm h

/-! ### Renaming members -/

/-- Members of the set have different images. -/
def InjOn {β : Type} (f : α → β) (s : SortedSet α) : Prop := ∀ a ∈ s, ∀ b ∈ s, f a = f b → a = b

/-- The images of the members. -/
def map (f : α → α) (s : SortedSet α) : SortedSet α := ofList (s.toList.map f)

theorem mem_map {f : α → α} {s : SortedSet α} {b : α} : b ∈ s.map f ↔ ∃ a ∈ s, f a = b := by
  rw [map, mem_ofList, List.mem_map]
  rfl

/-- Renaming may change the order of the members and nothing else. -/
theorem toList_map_perm {f : α → α} {s t : SortedSet α} (hf : t.InjOn f) (hs : ∀ a ∈ s, a ∈ t) :
    (s.map f).toList.Perm (s.toList.map f) := by
  have hnodup : (s.toList.map f).Nodup :=
    s.nodup.map_on fun a ha b hb => hf a (hs a ha) b (hs b hb)
  refine (List.perm_ext_iff_of_nodup (s.map f).nodup hnodup).mpr fun b => ?_
  rw [List.mem_map]
  exact mem_map

end SortedSet

namespace SortedMap

variable {κ ν : Type} [Ord κ]

theorem isEmpty_iff {m : SortedMap κ ν} : m.isEmpty = true ↔ m = ∅ := by
  rw [isEmpty, List.isEmpty_iff]
  exact ⟨fun h => ext_entries h, congrArg entries⟩

theorem get?_empty (k : κ) : (∅ : SortedMap κ ν).get? k = none := rfl

theorem mem_of_find?_eq_some [Std.LawfulEqOrd κ] {k : κ} {v : ν} {l : List (κ × ν)}
    (h : find? k l = some v) : (k, v) ∈ l := by
  induction l with
  | nil => simp [find?] at h
  | cons e l ih =>
    obtain ⟨k', v'⟩ := e
    rw [find?] at h
    split at h
    · next hk =>
      obtain rfl := Option.some.inj h
      rw [Std.LawfulEqCmp.eq_of_compare hk]
      exact List.mem_cons_self ..
    · exact List.mem_cons_of_mem _ (ih h)

theorem find?_eq_some_of_mem [Std.LawfulEqOrd κ] {k : κ} {v : ν} {l : List (κ × ν)}
    (hl : l.Pairwise fun a b => compare a.1 b.1 = .lt) (h : (k, v) ∈ l) :
    find? k l = some v := by
  induction l with
  | nil => exact absurd h List.not_mem_nil
  | cons e l ih =>
    obtain ⟨k', v'⟩ := e
    rw [List.pairwise_cons] at hl
    rw [find?]
    rcases List.mem_cons.mp h with heq | h
    · obtain ⟨rfl, rfl⟩ := Prod.mk.inj heq
      simp
    · have hlt : compare k' k = .lt := hl.1 _ h
      have hne : compare k k' ≠ .eq := by
        intro heq
        rw [Std.LawfulEqCmp.eq_of_compare heq] at hlt
        simp at hlt
      rw [if_neg hne]
      exact ih hl.2 h

/-- The entries are the pairs of a key and the value that a look-up gives. -/
theorem get?_eq_some_iff [Std.LawfulEqOrd κ] {m : SortedMap κ ν} {k : κ} {v : ν} :
    m.get? k = some v ↔ (k, v) ∈ m.entries :=
  ⟨mem_of_find?_eq_some, find?_eq_some_of_mem m.sorted⟩

theorem mem_keys_iff [Std.LawfulEqOrd κ] {m : SortedMap κ ν} {k : κ} :
    k ∈ m.keys ↔ m.contains k = true := by
  unfold keys contains
  rw [List.mem_map, Option.isSome_iff_exists]
  constructor
  · rintro ⟨⟨k', v⟩, he, rfl⟩
    exact ⟨v, get?_eq_some_iff.mpr he⟩
  · rintro ⟨v, hv⟩
    exact ⟨(k, v), get?_eq_some_iff.mp hv, rfl⟩

theorem nodup_keys [Std.LawfulEqOrd κ] (m : SortedMap κ ν) :
    (m.entries.map (·.1)).Nodup := by
  refine List.pairwise_map.mpr (m.sorted.imp fun {a b} hlt heq => ?_)
  rw [heq] at hlt
  simp at hlt

variable [Std.TransOrd κ] [Std.LawfulEqOrd κ]

/-- Maps with the same entries are equal. -/
theorem ext_mem {m n : SortedMap κ ν} (h : ∀ e, e ∈ m.entries ↔ e ∈ n.entries) : m = n := by
  have hperm : m.entries.Perm n.entries :=
    (List.perm_ext_iff_of_nodup m.nodup_keys.of_map n.nodup_keys.of_map).mpr h
  refine ext_entries (hperm.eq_of_pairwise ?_ m.sorted n.sorted)
  intro a b _ _ hab hba
  exact absurd hba (Std.OrientedCmp.not_lt_of_lt hab)

variable [DecidableEq κ]

theorem getD_insert (k x : κ) (v d : ν) (m : SortedMap κ ν) :
    (m.insert k v).getD x d = if x = k then v else m.getD x d := by
  unfold getD
  rw [get?_insert]
  split <;> rfl

theorem mem_keys_insert {k x : κ} {v : ν} {m : SortedMap κ ν} :
    x ∈ (m.insert k v).keys ↔ x = k ∨ x ∈ m.keys := by
  rw [mem_keys_iff, mem_keys_iff]
  unfold contains
  rw [get?_insert]
  split <;> simp [*]

/-! ### Maps of lists -/

theorem get?_foldl_insert {l : List (κ × ν)} {m : SortedMap κ ν} {k : κ} {v : ν}
    (h : (l.foldl (fun m e => m.insert e.1 e.2) m).get? k = some v) :
    m.get? k = some v ∨ (k, v) ∈ l := by
  induction l generalizing m with
  | nil => exact .inl h
  | cons e l ih =>
    rcases ih h with hold | hmem
    · rw [get?_insert] at hold
      split at hold
      · next hk =>
        obtain rfl := Option.some.inj hold
        exact .inr (hk ▸ List.mem_cons_self ..)
      · exact .inl hold
    · exact .inr (List.mem_cons_of_mem _ hmem)

theorem contains_foldl_insert {l : List (κ × ν)} {m : SortedMap κ ν} {k : κ} :
    (l.foldl (fun m e => m.insert e.1 e.2) m).contains k = true ↔
      m.contains k = true ∨ k ∈ l.map (·.1) := by
  induction l generalizing m with
  | nil => simp
  | cons e l ih =>
    rw [List.foldl_cons, ih, ← mem_keys_iff, mem_keys_insert, mem_keys_iff, List.map_cons,
      List.mem_cons, or_assoc, or_left_comm]

theorem mem_of_mem_entries_ofList {l : List (κ × ν)} {e : κ × ν} (h : e ∈ (ofList l).entries) :
    e ∈ l := by
  rcases get?_foldl_insert (get?_eq_some_iff.mpr h) with hempty | hmem
  · cases (get?_empty e.1).symm.trans hempty
  · exact hmem

theorem mem_keys_ofList {l : List (κ × ν)} {k : κ} : k ∈ (ofList l).keys ↔ k ∈ l.map (·.1) := by
  rw [mem_keys_iff, ofList, contains_foldl_insert]
  exact or_iff_right Bool.false_ne_true

/-- Entries of different keys are all kept. -/
theorem mem_entries_ofList {l : List (κ × ν)} (hnodup : (l.map (·.1)).Nodup) {e : κ × ν} :
    e ∈ (ofList l).entries ↔ e ∈ l := by
  refine ⟨mem_of_mem_entries_ofList, fun he => ?_⟩
  obtain ⟨e', hentry, hkey⟩ := List.mem_map.mp (mem_keys_ofList.mpr (List.mem_map_of_mem he))
  -- the entry that is kept under the key stands in the list, and so is the one at hand
  have hsame := List.inj_on_of_nodup_map hnodup (mem_of_mem_entries_ofList hentry) he hkey
  exact hsame ▸ hentry

/-! ### Renaming keys -/

/-- The values at renamed keys. -/
def mapKeys (f : κ → κ) (m : SortedMap κ ν) : SortedMap κ ν :=
  ofList (m.entries.map fun e => (f e.1, e.2))

theorem mem_entries_mapKeys {f : κ → κ} {m : SortedMap κ ν} {e : κ × ν}
    (h : e ∈ (m.mapKeys f).entries) : ∃ k, (k, e.2) ∈ m.entries ∧ f k = e.1 := by
  obtain ⟨⟨k, v⟩, hkv, rfl⟩ := List.mem_map.mp (mem_of_mem_entries_ofList h)
  exact ⟨k, hkv, rfl⟩

theorem mem_keys_mapKeys {f : κ → κ} {m : SortedMap κ ν} {k : κ} :
    k ∈ (m.mapKeys f).keys ↔ ∃ k' ∈ m.keys, f k' = k := by
  rw [mapKeys, mem_keys_ofList, List.map_map, keys]
  simp

/-- A look-up finds what it found before, where the renaming keeps the key apart from the others. -/
theorem get?_mapKeys {f : κ → κ} {m : SortedMap κ ν} {k : κ}
    (hk : ∀ k' ∈ m.keys, f k' = f k → k' = k) : (m.mapKeys f).get? (f k) = m.get? k := by
  cases hold : m.get? k with
  | some v =>
    have hkey : (m.mapKeys f).contains (f k) = true := by
      rw [← mem_keys_iff, mem_keys_mapKeys]
      refine ⟨k, mem_keys_iff.mpr ?_, rfl⟩
      rw [contains, hold]
      rfl
    obtain ⟨v', hv'⟩ := Option.isSome_iff_exists.mp hkey
    obtain ⟨k', hentry, hk'⟩ := mem_entries_mapKeys (get?_eq_some_iff.mp hv')
    -- the entry that gave the value is the one of `k`
    obtain rfl := hk k' (List.mem_map_of_mem hentry) hk'
    rw [hv', ← get?_eq_some_iff.mpr hentry, hold]
  | none =>
    cases hnew : (m.mapKeys f).get? (f k) with
    | none => rfl
    | some v =>
      obtain ⟨k', hentry, hk'⟩ := mem_entries_mapKeys (get?_eq_some_iff.mp hnew)
      obtain rfl := hk k' (List.mem_map_of_mem hentry) hk'
      rw [get?_eq_some_iff.mpr hentry] at hold
      cases hold

end SortedMap

end OneWay
