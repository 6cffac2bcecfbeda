import OneWay.Proofs.Datum
import OneWay.Proofs.Sorted

/-!
# Reading values in canonical form

Free-form settings are kept in canonical form, with the fields of each object sorted by name. A
reader that asks for fields by name does not notice: an object whose names differ has the same
fields as before, each in canonical form (`Json.record?_canonical`), also where one of them is the
tag of a tagged record (`Json.tagged?_canonical`).
-/

namespace OneWay

namespace Json

theorem canonicalItems_eq (l : List Json) : canonicalItems l = l.map canonical := by
  induction l with
  | nil => rfl
  | cons v l ih => rw [canonicalItems, ih, List.map_cons]

theorem canonicalFields_eq (l : List (String × Json)) :
    canonicalFields l = l.map fun f => (f.1, f.2.canonical) := by
  induction l with
  | nil => rfl
  | cons f l ih => rw [canonicalFields, ih, List.map_cons]

theorem canonical_ofList {α : Type} (f : α → Json) (l : List α) :
    (ofList f l).canonical = ofList (fun a => (f a).canonical) l := by
  rw [ofList, canonical, canonicalItems_eq, List.map_map]
  rfl

theorem canonical_real (x : Float) :
    (real x).canonical = if x.isFinite then real x else .null := rfl

/-! ### Objects -/

variable {fields : List (String × Json)}

/-- The fields of an object in canonical form. -/
def sortedFields (fields : List (String × Json)) : List (String × Json) :=
  (SortedMap.ofList (canonicalFields fields)).entries

theorem canonical_obj (fields : List (String × Json)) :
    (obj fields).canonical = obj (sortedFields fields) := rfl

theorem nodup_sortedFields (fields : List (String × Json)) :
    ((sortedFields fields).map Prod.fst).Nodup := SortedMap.nodup_keys _

theorem mem_sortedFields (hnodup : (fields.map Prod.fst).Nodup) {f : String × Json} :
    f ∈ sortedFields fields ↔ ∃ g ∈ fields, (g.1, g.2.canonical) = f := by
  have hnames : (canonicalFields fields).map Prod.fst = fields.map Prod.fst := by
    rw [canonicalFields_eq, List.map_map]
    rfl
  rw [sortedFields, SortedMap.mem_entries_ofList (hnames ▸ hnodup), canonicalFields_eq,
    List.mem_map]

theorem mem_of_lookup {n : String} {v : Json} (h : fields.lookup n = some v) : (n, v) ∈ fields := by
  obtain ⟨before, after, hfields, -⟩ := List.lookup_eq_some_iff.mp h
  exact hfields ▸ List.mem_append_right _ (List.mem_cons_self ..)

theorem lookup_filter_ne {n tag : String} (h : n ≠ tag) :
    (fields.filter (·.1 ≠ tag)).lookup n = fields.lookup n := by
  induction fields with
  | nil => rfl
  | cons f fields ih =>
    by_cases hf : f.1 = tag
    · have hne : (n == f.1) = false := beq_false_of_ne (hf ▸ h)
      rw [List.filter_cons_of_neg (by simpa using hf), ih, List.lookup_cons, hne]
    · rw [List.filter_cons_of_pos (by simpa using hf), List.lookup_cons, List.lookup_cons, ih]

/-- A field is found where it was, in canonical form. -/
theorem lookup_sortedFields (hnodup : (fields.map Prod.fst).Nodup) (n : String) :
    (sortedFields fields).lookup n = (fields.lookup n).map canonical := by
  cases hold : fields.lookup n with
  | some v =>
    have hmem : (n, v.canonical) ∈ sortedFields fields :=
      (mem_sortedFields hnodup).mpr ⟨_, mem_of_lookup hold, rfl⟩
    exact Datum.lookup_of_mem (nodup_sortedFields fields) hmem
  | none =>
    rw [List.lookup_eq_none_iff] at hold
    refine List.lookup_eq_none_iff.mpr fun f hf => ?_
    obtain ⟨g, hg, rfl⟩ := (mem_sortedFields hnodup).mp hf
    exact hold g hg

theorem depth_canonical_obj_le {k : Nat} (h : ∀ f ∈ fields, f.2.canonical.datum.depth ≤ k) :
    (obj fields).canonical.datum.depth ≤ k + 1 := by
  refine depth_obj_le fun f hf => ?_
  have hmem := SortedMap.mem_of_mem_entries_ofList hf
  rw [canonicalFields_eq] at hmem
  obtain ⟨g, hg, rfl⟩ := List.mem_map.mp hmem
  exact h g hg

/-- **Records** are read from canonical forms by the names of their fields. -/
theorem record?_canonical (fields : List (String × Json)) (names : List String)
    (hnodup : (fields.map Prod.fst).Nodup) :
    (obj fields).canonical.datum.record? names
      = some (names.map fun n => (fields.lookup n).map fun v => v.canonical.datum) := by
  rw [canonical_obj, Datum.record?_obj names (nodup_sortedFields fields)]
  simp only [lookup_sortedFields hnodup, Option.map_map]
  rfl

/-- **Tagged records** are read from canonical forms by their tag, wherever it stands, and then by the
names of their other fields. -/
theorem tagged?_canonical (fields : List (String × Json)) (tag : String) {levels : Nat}
    {kind : String} (hnodup : (fields.map Prod.fst).Nodup)
    (htag : fields.lookup tag = some (.str kind))
    (hdepth : (obj fields).canonical.datum.depth ≤ levels) :
    ∃ rest, (obj fields).canonical.datum.tagged? levels tag = some (kind, rest) ∧
      ∀ names, tag ∉ names → rest.record? names
        = some (names.map fun n => (fields.lookup n).map fun v => v.canonical.datum) := by
  rw [canonical_obj] at hdepth ⊢
  have hfound : (sortedFields fields).lookup tag = some (.str kind) := by
    rw [lookup_sortedFields hnodup, htag]
    rfl
  have honce : ((sortedFields fields).map Prod.fst).count tag = 1 :=
    List.count_eq_one_of_mem (nodup_sortedFields fields)
      (List.mem_map_of_mem (mem_of_lookup hfound))
  refine ⟨_, Datum.tagged?_of_lookup honce hfound hdepth, fun names hnames => ?_⟩
  have hother : (((sortedFields fields).filter (·.1 ≠ tag)).map Prod.fst).Nodup :=
    (nodup_sortedFields fields).sublist (List.filter_sublist.map _)
  rw [Datum.record?_obj names hother, Option.some.injEq]
  refine List.map_congr_left fun n hn => ?_
  have hne : n ≠ tag := fun heq => hnames (heq ▸ hn)
  rw [lookup_filter_ne hne, lookup_sortedFields hnodup, Option.map_map]
  rfl

end Json

end OneWay
