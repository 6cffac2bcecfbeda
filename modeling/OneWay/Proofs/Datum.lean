import Mathlib.Data.List.Forall2
import OneWay.Datum.Record

/-!
# Reading values that were written

Each reader of documents gives back what its writer has put in: lists item by item
(`Datum.list?_ofList`), tables entry by entry (`Datum.table?_obj`), records by the names of their
fields (`Datum.record?_obj`), and tagged records by their tag (`Datum.tagged?_obj`).
-/

namespace OneWay

namespace Json

theorem datumItems_eq (l : List Json) : datumItems l = l.map datum := by
  induction l with
  | nil => rfl
  | cons v l ih => rw [datumItems, ih, List.map_cons]

theorem datumFields_eq (l : List (String × Json)) :
    datumFields l = l.map fun f => (Key.name f.1 false, f.2.datum) := by
  induction l with
  | nil => rfl
  | cons f l ih => rw [datumFields, ih, List.map_cons]

mutual

/-- A value is readable throughout. -/
theorem isReadable_datum (v : Json) : v.datum.isReadable = true := by
  match v with
  | .null | .bool _ | .num _ | .str _ => rfl
  | .arr l => exact itemsReadable_datumItems l
  | .obj l => exact fieldsReadable_datumFields l

theorem itemsReadable_datumItems (l : List Json) :
    Datum.itemsReadable (datumItems l) = true := by
  match l with
  | [] => rfl
  | v :: l =>
    rw [datumItems, Datum.itemsReadable, isReadable_datum v, itemsReadable_datumItems l]
    rfl

theorem fieldsReadable_datumFields (l : List (String × Json)) :
    Datum.fieldsReadable (datumFields l) = true := by
  match l with
  | [] => rfl
  | (k, v) :: l =>
    rw [datumFields, Datum.fieldsReadable, isReadable_datum v, fieldsReadable_datumFields l]
    rfl

end

theorem depth_ofList_le {α : Type} {f : α → Json} {l : List α} {k : Nat}
    (h : ∀ a ∈ l, (f a).datum.depth ≤ k) : (ofList f l).datum.depth ≤ k + 1 := by
  have hitems : Datum.depthItems (datumItems (l.map f)) ≤ k := by
    induction l with
    | nil => exact Nat.zero_le k
    | cons a l ih =>
      obtain ⟨ha, hl⟩ := List.forall_mem_cons.mp h
      exact Nat.max_le.mpr ⟨ha, ih hl⟩
  exact Nat.succ_le_succ hitems

theorem depth_obj_le {fields : List (String × Json)} {k : Nat}
    (h : ∀ f ∈ fields, f.2.datum.depth ≤ k) : (obj fields).datum.depth ≤ k + 1 := by
  have hfields : Datum.depthFields (datumFields fields) ≤ k := by
    induction fields with
    | nil => exact Nat.zero_le k
    | cons f fields ih =>
      obtain ⟨hf, hfields⟩ := List.forall_mem_cons.mp h
      exact Nat.max_le.mpr ⟨hf, ih hfields⟩
  exact Nat.succ_le_succ hfields

end Json

namespace Datum

variable {α β : Type} {read : α → Option β}

theorem natBelow?_nat {n limit : Nat} (h : n < limit) :
    (Json.nat n).datum.natBelow? limit = some n := by
  simp only [Json.nat, Json.datum, natBelow?]
  rw [if_pos ⟨Int.natCast_nonneg n, Int.ofNat_lt.mpr h⟩, Int.toNat_natCast]

theorem natBelow?_nat_of_le {n limit : Nat} (h : limit ≤ n) :
    (Json.nat n).datum.natBelow? limit = none := by
  simp only [Json.nat, Json.datum, natBelow?]
  exact if_neg fun hlt => absurd (Int.ofNat_lt.mp hlt.2) (Nat.not_lt.mpr h)

/-- A list is read item by item. -/
theorem readAll_eq_some_iff {l : List α} {values : List β} :
    readAll read l = some values ↔ l.map read = values.map some := by
  induction l generalizing values with
  | nil => cases values <;> simp [readAll]
  | cons a l ih =>
    rw [readAll, List.map_cons]
    cases read a with
    | none => cases values <;> simp
    | some b =>
      cases values with
      | nil => simp
      | cons b' values =>
        rw [List.map_cons, List.cons.injEq, ← ih]
        cases readAll read l <;> simp

/-- What is written item by item is read back. -/
theorem readAll_map {f : β → α} {l : List β} (h : ∀ b ∈ l, read (f b) = some b) :
    readAll read (l.map f) = some l := by
  rw [readAll_eq_some_iff, List.map_map]
  exact List.map_congr_left h

/-- Where each item is read back on some condition, a list is read back if all its items meet it. -/
theorem readAll_map_ite {f : β → α} {p : β → Bool}
    (h : ∀ b, read (f b) = if p b then some b else none) (l : List β) :
    readAll read (l.map f) = if l.all p then some l else none := by
  induction l with
  | nil => rfl
  | cons b l ih =>
    rw [List.map_cons, readAll, h, ih, List.all_cons]
    cases p b with
    | false => rfl
    | true => cases l.all p <;> rfl

theorem list?_ofList {f : β → Json} {read : Datum → Option β} {l : List β}
    (h : ∀ b ∈ l, read (f b).datum = some b) : (Json.ofList f l).datum.list? read = some l := by
  rw [Json.ofList, Json.datum, list?, Json.datumItems_eq, List.map_map]
  exact readAll_map h

theorem pair?_arr {γ : Type} {left : Datum → Option β} {right : Datum → Option γ} {v w : Json}
    {b : β} {c : γ} (hleft : left v.datum = some b) (hright : right w.datum = some c) :
    (Json.arr [v, w]).datum.pair? left right = some (b, c) := by
  simp only [Json.datum, Json.datumItems, pair?, hleft, hright]

theorem table?_obj {κ ν : Type} {name : κ → String} {f : ν → Json} {key : Key → Option κ}
    {read : Datum → Option ν} {l : List (κ × ν)}
    (hkey : ∀ e ∈ l, key (.name (name e.1) false) = some e.1)
    (hread : ∀ e ∈ l, read (f e.2).datum = some e.2) :
    (Json.obj (l.map fun e => (name e.1, f e.2))).datum.table? key read = some l := by
  rw [Json.datum, table?, Json.datumFields_eq, List.map_map]
  refine readAll_map fun e he => ?_
  simp only [Function.comp_apply, hkey e he, hread e he]

/-! ### Records -/

section Records

variable {fields : List (String × Json)}

section Tests

variable (test : Key → Bool) {n : String}

theorem lookup_datumFields (htest : ∀ k, test (.name k false) = decide (k = n)) :
    lookup test (Json.datumFields fields) = (fields.lookup n).map Json.datum := by
  induction fields with
  | nil => rfl
  | cons f fields ih =>
    obtain ⟨k, v⟩ := f
    rw [Json.datumFields, lookup, htest, ih, List.lookup_cons]
    by_cases hk : k = n
    · simp [hk]
    · have hk' : (n == k) = false := beq_false_of_ne (Ne.symm hk)
      simp [hk, hk']

theorem occurrences_datumFields (htest : ∀ k, test (.name k false) = decide (k = n)) :
    occurrences test (Json.datumFields fields) = (fields.map Prod.fst).count n := by
  rw [Json.datumFields_eq, occurrences, List.countP_map, List.count, List.countP_map]
  congr 1
  funext f
  exact htest f.1

theorem filter_datumFields (htest : ∀ k, test (.name k false) = decide (k = n)) :
    (Json.datumFields fields).filter (fun f => !test f.1)
      = Json.datumFields (fields.filter (·.1 ≠ n)) := by
  rw [Json.datumFields_eq, Json.datumFields_eq, List.filter_map]
  congr 2
  funext f
  simp [htest]

end Tests

theorem lookup_of_mem {f : String × Json} (hnodup : (fields.map Prod.fst).Nodup)
    (hf : f ∈ fields) : fields.lookup f.1 = some f.2 := by
  induction fields with
  | nil => cases hf
  | cons g fields ih =>
    obtain ⟨hg, hnodup⟩ := List.nodup_cons.mp hnodup
    rw [List.lookup_cons]
    rcases List.mem_cons.mp hf with rfl | hf
    · simp
    · have hne : (f.1 == g.1) = false :=
        beq_false_of_ne fun h => hg (h ▸ List.mem_map_of_mem hf)
      rw [hne]
      exact ih hnodup hf

/-- **Records**: an object has the fields that its names say, if no name stands twice. -/
theorem record?_obj (names : List String) (hnodup : (fields.map Prod.fst).Nodup) :
    (Json.obj fields).datum.record? names
      = some (names.map fun n => (fields.lookup n).map Json.datum) := by
  have hnamed : (Json.datumFields fields).all (·.1 ≠ .other) = true := by
    simp [Json.datumFields_eq]
  have honce : (names.all fun n =>
      occurrences (fun k => k.refersTo names n) (Json.datumFields fields) ≤ 1) = true := by
    rw [List.all_eq_true]
    intro n _
    rw [decide_eq_true_iff, occurrences_datumFields _ (n := n) fun _ => rfl]
    exact List.nodup_iff_count.mp hnodup n
  have hlookup : ∀ n, lookup (fun k => k.refersTo names n) (Json.datumFields fields)
      = (fields.lookup n).map Json.datum := fun n => lookup_datumFields _ fun _ => rfl
  rw [Json.datum, record?]
  simp only [hnamed, honce, Bool.and_self, if_true, hlookup]

/-- A record that has all its fields in their order. -/
theorem record?_of_names {names : List String} (hnames : fields.map Prod.fst = names)
    (hnodup : names.Nodup) :
    (Json.obj fields).datum.record? names = some (fields.map fun f => some f.2.datum) := by
  subst hnames
  rw [record?_obj _ hnodup, List.map_map]
  congr 1
  refine List.map_congr_left fun f hf => ?_
  rw [Function.comp_apply, lookup_of_mem hnodup hf]
  rfl

/-- The names of the fields that are there stand among the names of the record. -/
theorem names_ofFields_sublist {names : List String} {fields : List (Option (String × Json))}
    (h : List.Forall₂ (fun n f => ∀ e ∈ f, e.1 = n) names fields) :
    ((fields.filterMap id).map Prod.fst).Sublist names := by
  induction h with
  | nil => exact .slnil
  | @cons n f names fields hf _ ih =>
    cases f with
    | none => exact ih.cons n
    | some e =>
      rw [← hf e rfl]
      exact ih.cons_cons e.1

/-- **Optional fields**: a record has the fields that were written, each in its place, if they come
in the order of their names. -/
theorem record?_ofFields {names : List String} {fields : List (Option (String × Json))}
    (h : List.Forall₂ (fun n f => ∀ e ∈ f, e.1 = n) names fields) (hnodup : names.Nodup) :
    (Json.ofFields fields).datum.record? names
      = some (fields.map fun f => f.map fun e => e.2.datum) := by
  rw [Json.ofFields, record?_obj _ ((names_ofFields_sublist h).nodup hnodup), Option.some.injEq]
  induction h with
  | nil => rfl
  | @cons n f names fields hf htail ih =>
    obtain ⟨hn, hnodup⟩ := List.nodup_cons.mp hnodup
    have hnames := names_ofFields_sublist htail
    -- the first name is looked up in its own field, the others are not
    have hother : ∀ m ∈ names, ((f :: fields).filterMap id).lookup m
        = (fields.filterMap id).lookup m := by
      intro m hm
      cases f with
      | none => rfl
      | some e =>
        have hne : m ≠ e.1 := fun heq => hn (hf e rfl ▸ heq ▸ hm)
        exact List.lookup_cons.trans (by rw [beq_false_of_ne hne])
    have hown : ((f :: fields).filterMap id).lookup n = f.map Prod.snd := by
      cases f with
      | none =>
        rw [List.filterMap_cons_none rfl, Option.map_none, List.lookup_eq_none_iff]
        intro e he
        refine bne_iff_ne.mpr fun heq => hn (hnames.subset ?_)
        exact heq ▸ List.mem_map_of_mem he
      | some e =>
        obtain rfl := hf e rfl
        exact List.lookup_cons.trans (by simp)
    rw [List.map_cons, List.map_cons, hown, Option.map_map, ← ih hnodup]
    congr 1
    exact List.map_congr_left fun m hm => by rw [hother m hm]

theorem required_some {read : Datum → Option α} {v : Datum} {a : α} (h : read v = some a) :
    required read (some v) = some a := h

theorem required_eq_some_iff {read : Datum → Option α} {v? : Option Datum} {a : α} :
    required read v? = some a ↔ ∃ v, v? = some v ∧ read v = some a := by
  cases v? <;> simp [required]

theorem optional_some {default : α} {read : Datum → Option α} {v : Datum} {a : α}
    (h : read v = some a) : optional default read (some v) = some a := h

theorem optional_eq_some_iff {default : α} {read : Datum → Option α} {v? : Option Datum} {a : α} :
    optional default read v? = some a ↔
      v? = none ∧ a = default ∨ ∃ v, v? = some v ∧ read v = some a := by
  cases v? <;> simp [optional, eq_comm]

/-- **Tagged records**: a tag that stands once is told from the other fields. -/
theorem tagged?_of_lookup {levels : Nat} {tag kind : String}
    (honce : (fields.map Prod.fst).count tag = 1) (htag : fields.lookup tag = some (.str kind))
    (hdepth : (Json.obj fields).datum.depth ≤ levels) :
    (Json.obj fields).datum.tagged? levels tag
      = some (kind, (Json.obj (fields.filter (·.1 ≠ tag))).datum) := by
  have hstore : isStorable levels (Json.obj fields).datum = true := by
    unfold isStorable
    rw [Json.isReadable_datum, Bool.true_and, decide_eq_true_iff]
    exact hdepth
  have hname : ∀ k, (Key.name k false).isName tag = decide (k = tag) := fun k => by
    simp [Key.isName, Key.text?]
  unfold tagged?
  rw [if_pos hstore]
  simp only [Json.datum, occurrences_datumFields (·.isName tag) hname, honce, if_true,
    lookup_datumFields (·.isName tag) hname, htag, Option.map_some,
    filter_datumFields (·.isName tag) hname]

theorem tagged?_obj {levels : Nat} {tag kind : String} (htag : tag ∉ fields.map Prod.fst)
    (hdepth : (Json.obj ((tag, .str kind) :: fields)).datum.depth ≤ levels) :
    (Json.obj ((tag, .str kind) :: fields)).datum.tagged? levels tag
      = some (kind, (Json.obj fields).datum) := by
  have honce : (((tag, Json.str kind) :: fields).map Prod.fst).count tag = 1 := by
    rw [List.map_cons, List.count_cons_self, List.count_eq_zero.mpr htag]
  have hother : ((tag, Json.str kind) :: fields).filter (·.1 ≠ tag) = fields := by
    rw [List.filter_cons_of_neg (by simp)]
    refine List.filter_eq_self.mpr fun f hf => ?_
    have hne : f.1 ≠ tag := fun h => htag (h ▸ List.mem_map_of_mem hf)
    simpa using hne
  rw [tagged?_of_lookup honce List.lookup_cons_self hdepth, hother]

end Records

end Datum

end OneWay
