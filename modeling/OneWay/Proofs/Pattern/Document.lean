import OneWay.Pattern.Document
import OneWay.Proofs.Json.Plain
import OneWay.Proofs.Json.ReadBack
import OneWay.Proofs.Pattern.Validity

/-!
# Patterns in documents

A pattern is read back from its document as it was if its angles are
(`Pattern.ofDocument?_document`), and a pattern that was read from a document has only finite
angles (`Pattern.isFinite_of_ofDocument?`).
-/

namespace OneWay

variable {r : Decimal.Reader}

/-! ### Nodes, edges, domains -/

namespace Node

theorem ofDatum?_toJson (n : Node) : ofDatum? n.toJson.datum = some n := by
  unfold ofDatum? toJson Datum.nat32?
  rw [Datum.natBelow?_nat n.toNat_lt, Option.map_some, UInt32.ofNat_toNat]

theorem isPlain_toJson (n : Node) : n.toJson.IsPlain r :=
  ⟨by omega, by have := n.toNat_lt; omega⟩

theorem depth_toJson (n : Node) : n.toJson.datum.depth = 0 := rfl

/-- A node is read back from the name of a field. -/
theorem ofKey?_key (n : Node) : ofKey? (.name n.key false) = some n := by
  have hreturns : Json.Returns .nearest (.int n.toNat) := n.isPlain_toJson (r := .nearest)
  have hread := Json.number?_numberText (r := .nearest) hreturns Json.ends_nil
  have htext : Json.numberText (.int n.toNat) = n.key := by
    simp only [Json.numberText, key]
    rw [if_neg (by omega), Int.natAbs_natCast]
  rw [htext, List.append_nil] at hread
  unfold ofKey? Key.nat32?
  simp only [hread]
  exact ofDatum?_toJson n

theorem isLiteral_key (n : Node) : n.key.toList.all Json.isLiteral = true := by
  rw [key, Nat.toList_repr, List.all_eq_true]
  exact fun c hc => Json.isLiteral_of_isDigit ((Decimal.run_toDigits _).digits c hc)

end Node

theorem Plane.ofDatum?_name (plane : Plane) :
    ofDatum? (Json.str plane.name).datum = some plane := by
  cases plane <;> rfl

theorem Clifford.ofDatum?_val (c : Clifford) : ofDatum? (Json.nat c.val).datum = some c := by
  have hindex : ofIndex? c.val = some c := dif_pos c.isLt
  rw [ofDatum?, Datum.natBelow?_nat (by omega), Option.bind_some, hindex]

namespace Edge

theorem between_lo_hi (e : Edge) : between e.lo e.hi = e := dif_pos e.ordered

theorem ofDatum?_toJson (e : Edge) : ofDatum? e.toJson.datum = some e := by
  rw [ofDatum?, toJson, Datum.pair?_arr e.lo.ofDatum?_toJson e.hi.ofDatum?_toJson,
    Option.map_some]
  exact congrArg some e.between_lo_hi

theorem isPlain_toJson (e : Edge) : e.toJson.IsPlain r :=
  ⟨e.lo.isPlain_toJson, e.hi.isPlain_toJson, trivial⟩

end Edge

namespace Domain

theorem ofDatum?_toJson (d : Domain) : ofDatum? (toJson d).datum = some d := by
  unfold ofDatum? toJson
  rw [Datum.list?_ofList fun n _ => n.ofDatum?_toJson, Option.map_some, SortedSet.ofList_toList]

theorem isPlain_toJson (d : Domain) : (toJson d).IsPlain r :=
  Json.isPlain_ofList fun n _ => n.isPlain_toJson

theorem depth_toJson_le (d : Domain) : (toJson d).datum.depth ≤ 1 :=
  Json.depth_ofList_le fun n _ => Nat.le_of_eq n.depth_toJson

end Domain

/-! ### Commands -/

namespace Command

theorem depth_toJson_le (c : Command) : c.toJson.datum.depth ≤ 2 := by
  cases c with
  | prepare | entangle | clifford => exact Nat.le_succ 1
  | measure n plane angle s t =>
    refine Json.depth_obj_le ?_
    simp only [List.forall_mem_cons]
    exact ⟨Nat.zero_le 1, Nat.zero_le 1, Nat.zero_le 1, Nat.zero_le 1, s.depth_toJson_le,
      t.depth_toJson_le, by simp⟩
  | correctX n d | correctZ n d =>
    refine Json.depth_obj_le ?_
    simp only [List.forall_mem_cons]
    exact ⟨Nat.zero_le 1, Nat.zero_le 1, d.depth_toJson_le, by simp⟩

/-- **Commands** of all kinds are read back. -/
theorem ofDatum?_toJson {levels : Nat} (hlevels : 2 ≤ levels) (c : Command) :
    ofDatum? levels c.toJson.datum = some c := by
  have hdepth := Nat.le_trans c.depth_toJson_le hlevels
  have hnode (n : Node) := Datum.required_some n.ofDatum?_toJson
  have hplane (plane : Plane) := Datum.required_some plane.ofDatum?_name
  have hclifford (c : Clifford) := Datum.required_some c.ofDatum?_val
  have hdomain (d : Domain) := Datum.required_some d.ofDatum?_toJson
  have hoptional (d : Domain) : Datum.optional ∅ Domain.ofDatum? (some d.toJson.datum) = some d :=
    Datum.optional_some d.ofDatum?_toJson
  -- every kind writes its fields in the order in which they are looked up
  cases c
  all_goals
    rw [toJson, ofDatum?, Datum.tagged?_obj (by simp) hdepth]
    simp (disch := simp) only [ofFields?, Datum.record?_of_names, List.map_cons, List.map_nil,
      hnode, hplane, hclifford, hdomain, hoptional]
    rfl

theorem isPlain_toJson {c : Command} (h : ∀ x ∈ c.angle?, Json.ReadsBack r x) :
    c.toJson.IsPlain r := by
  have hop : "op".toList.all Json.isLiteral = true := by decide
  have hnode : "node".toList.all Json.isLiteral = true := by decide
  cases c with
  | prepare n => exact ⟨hop, trivial, hnode, n.isPlain_toJson, trivial⟩
  | entangle a b =>
    exact ⟨hop, trivial, by decide, a.isPlain_toJson, by decide, b.isPlain_toJson, trivial⟩
  | measure n plane angle s t =>
    exact ⟨hop, trivial, hnode, n.isPlain_toJson, by decide, trivial, by decide, h angle rfl,
      by decide, s.isPlain_toJson, by decide, t.isPlain_toJson, trivial⟩
  | correctX n d | correctZ n d =>
    exact ⟨hop, trivial, hnode, n.isPlain_toJson, by decide, d.isPlain_toJson, trivial⟩
  | clifford n c =>
    exact ⟨hop, trivial, hnode, n.isPlain_toJson, by decide, ⟨by omega, by omega⟩, trivial⟩

/-- A command that was read from a document is measured at a finite angle, if at all. -/
theorem isFinite_of_ofFields? {kind : String} {fields : Datum} {c : Command}
    (hfields : fields.IsPlain) (h : ofFields? kind fields = some c) :
    ∀ x ∈ c.angle?, x.isFinite = true := by
  unfold ofFields? at h
  -- the third kind is the measurement, the only one with an angle
  split at h
  case h_1 =>
    split at h
    · obtain ⟨_, -, heq⟩ := Option.bind_eq_some_iff.mp h
      cases heq
      rintro _ ⟨⟩
    · cases h
  case h_3 =>
    split at h
    · next hrecord =>
      simp only [Option.bind_eq_bind, Option.bind_eq_some_iff] at h
      obtain ⟨_, -, _, -, x, hx, _, -, _, -, heq⟩ := h
      cases heq
      rintro _ ⟨⟩
      obtain ⟨v, rfl, hx⟩ := Datum.required_eq_some_iff.mp hx
      exact (hfields.of_record? hrecord (by simp)).isFinite_of_real? hx
    · cases h
  case h_2 | h_4 | h_5 | h_6 =>
    split at h
    · simp only [Option.bind_eq_bind, Option.bind_eq_some_iff] at h
      obtain ⟨_, -, _, -, heq⟩ := h
      cases heq
      rintro _ ⟨⟩
    · cases h
  case h_7 => cases h

theorem isFinite_of_ofDatum? {levels : Nat} {v : Datum} {c : Command} (hv : v.IsPlain)
    (h : ofDatum? levels v = some c) : ∀ x ∈ c.angle?, x.isFinite = true := by
  unfold ofDatum? at h
  split at h
  · next htagged => exact isFinite_of_ofFields? (hv.of_tagged? htagged) h
  · cases h

end Command

/-! ### Patterns -/

namespace Pattern

variable {p : Pattern}

/-- The known results as a value. -/
def resultsJson (p : Pattern) : Json :=
  .obj (p.results.entries.map fun e => (e.1.key, .bool e.2))

/-- The fields of a pattern; there is none for the results if there are none. -/
theorem toJson_eq (p : Pattern) : p.toJson = .obj ([
    ("nodes", .ofList Node.toJson p.nodes.toList), ("edges", .ofList Edge.toJson p.edges.toList),
    ("input_nodes", .ofList Node.toJson p.inputs), ("output_nodes", .ofList Node.toJson p.outputs),
    ("commands", .ofList Command.toJson p.commands)]
      ++ if p.results.isEmpty then [] else [("results", p.resultsJson)]) := by
  unfold toJson
  cases p.results.isEmpty <;> rfl

theorem isPlain_toJson (h : ∀ x ∈ p.angles, Json.ReadsBack r x) : p.toJson.IsPlain r := by
  have hcommands : (Json.ofList Command.toJson p.commands).IsPlain r :=
    Json.isPlain_ofList fun c hc => Command.isPlain_toJson fun x hx =>
      h x (List.mem_filterMap.mpr ⟨c, hc, hx⟩)
  have hresults : p.resultsJson.IsPlain r := by
    refine Json.isPlain_obj ?_ ?_
    all_goals
      intro f hf
      obtain ⟨e, -, rfl⟩ := List.mem_map.mp hf
    · exact e.1.isLiteral_key
    · trivial
  have hnodes {l : List Node} : (Json.ofList Node.toJson l).IsPlain r :=
    Json.isPlain_ofList fun n _ => n.isPlain_toJson
  have hedges : (Json.ofList Edge.toJson p.edges.toList).IsPlain r :=
    Json.isPlain_ofList fun e _ => e.isPlain_toJson
  have hlast : Json.FieldsPlain r
      (if p.results.isEmpty then [] else [("results", p.resultsJson)]) := by
    split
    · trivial
    · exact ⟨by decide, hresults, trivial⟩
  rw [toJson_eq]
  exact ⟨by decide, hnodes, by decide, hedges, by decide, hnodes, by decide, hnodes, by decide,
    hcommands, hlast⟩

/-- **Patterns** are read back from the values they are written as. -/
theorem ofDatum?_toJson (p : Pattern) : ofDatum? p.toJson.datum = some p := by
  have hrecord : p.toJson.datum.record? ["nodes", "edges", "input_nodes", "output_nodes",
      "commands", "results"] = some [
        some (Json.ofList Node.toJson p.nodes.toList).datum,
        some (Json.ofList Edge.toJson p.edges.toList).datum,
        some (Json.ofList Node.toJson p.inputs).datum,
        some (Json.ofList Node.toJson p.outputs).datum,
        some (Json.ofList Command.toJson p.commands).datum,
        if p.results.isEmpty then none else some p.resultsJson.datum] := by
    rw [toJson_eq]
    cases p.results.isEmpty with
    | true =>
      rw [Datum.record?_obj _ (by simp)]
      simp [List.lookup]
    | false => exact Datum.record?_of_names rfl (by simp)
  have hnodes {l : List Node} : (Json.ofList Node.toJson l).datum.list? Node.ofDatum? = some l :=
    Datum.list?_ofList fun n _ => n.ofDatum?_toJson
  have hedges {l : List Edge} : (Json.ofList Edge.toJson l).datum.list? Edge.ofDatum? = some l :=
    Datum.list?_ofList fun e _ => e.ofDatum?_toJson
  have hcommands : (Json.ofList Command.toJson p.commands).datum.list?
      (Command.ofDatum? (Json.maxDepth - 2)) = some p.commands :=
    Datum.list?_ofList fun c _ => c.ofDatum?_toJson (by decide)
  have hresults : Datum.optional [] (Datum.table? Node.ofKey? Datum.bool?)
      (if p.results.isEmpty then none else some p.resultsJson.datum) = some p.results.entries := by
    by_cases hempty : p.results.isEmpty = true
    · rw [if_pos hempty, List.isEmpty_iff.mp hempty]
      rfl
    · rw [if_neg hempty]
      exact Datum.table?_obj (fun e _ => e.1.ofKey?_key) fun _ _ => rfl
  unfold ofDatum?
  simp only [hrecord, Datum.required_some hnodes, Datum.optional_some hnodes,
    Datum.optional_some hedges, Datum.optional_some hcommands, hresults, Option.bind_eq_bind,
    Option.bind_some, Option.pure_def, SortedSet.ofList_toList, SortedMap.ofList_entries]

theorem read_document (h : ∀ x ∈ p.angles, Json.ReadsBack r x) :
    Json.read r p.document = some p.toJson.datum :=
  Json.read_pretty (isPlain_toJson h)

/-- The results stand in the document if there are any. -/
theorem results_mem_document (h : ∀ x ∈ p.angles, Json.ReadsBack r x) :
    ∃ fields, Json.read r p.document = some (.mapping fields)
      ∧ ((∃ v, (Key.name "results" false, v) ∈ fields) ↔ p.results ≠ ∅) := by
  refine ⟨_, (read_document h).trans (by rw [toJson_eq, Json.datum]), ?_⟩
  rw [Json.datumFields_eq, Ne, ← SortedMap.isEmpty_iff]
  cases p.results.isEmpty <;> simp

theorem ofDocument?_document (h : ∀ x ∈ p.angles, Json.ReadsBack r x) :
    ofDocument? r p.document = some p := by
  rw [ofDocument?, read_document h, Option.bind_some, ofDatum?_toJson]

/-- The angles that stand in a document are finite. -/
theorem isFinite_of_ofDocument? {text : String} (h : ofDocument? r text = some p) :
    ∀ x ∈ p.angles, x.isFinite = true := by
  obtain ⟨v, hread, hv⟩ := Option.bind_eq_some_iff.mp h
  have hplain := Json.isPlain_read hread
  unfold ofDatum? at hv
  split at hv
  · next hrecord =>
    simp only [Option.bind_eq_bind, Option.bind_eq_some_iff] at hv
    obtain ⟨_, -, _, -, _, -, _, -, commands, hcommands, _, -, heq⟩ := hv
    cases heq
    intro x hx
    obtain ⟨c, hc, hangle⟩ := List.mem_filterMap.mp hx
    rcases Datum.optional_eq_some_iff.mp hcommands with ⟨-, rfl⟩ | ⟨w, rfl, hw⟩
    · cases hc
    · obtain ⟨u, hu, hcommand⟩ := (hplain.of_record? hrecord (by simp)).of_list? hw hc
      exact Command.isFinite_of_ofDatum? hu hcommand x hangle
  · cases hv

/-- **Documents** say all of a pattern. Let a reader of numerals give back the finite numbers that
are angles of the pattern, as the one that rounds to the nearest number always does. If the angles
are finite, the pattern is read back from its document, where the known results stand if there are
any; and since the angles of a document are finite, a pattern that was read and written is read
again as it was. -/
theorem documents_faithful :
    (∀ x : Float, x.isFinite = true → Json.ReadsBack .nearest x) ∧
    ∀ r : Decimal.Reader,
      (∀ p : Pattern, (∀ x ∈ p.angles, x.isFinite = true → Json.ReadsBack r x) →
        (∀ x ∈ p.angles, x.isFinite = true) →
        ofDocument? r p.document = some p
          ∧ ∃ fields, Json.read r p.document = some (.mapping fields)
            ∧ ((∃ v, (Key.name "results" false, v) ∈ fields) ↔ p.results ≠ ∅))
        ∧ ∀ (text : String) (p : Pattern), ofDocument? r text = some p →
          (∀ x ∈ p.angles, x.isFinite = true → Json.ReadsBack r x) →
          ofDocument? r p.document = ofDocument? r text := by
  refine ⟨fun x hx => Json.readsBack_nearest_iff.mpr hx, fun r => ⟨?_, ?_⟩⟩
  · intro p hreader hfinite
    have hback : ∀ x ∈ p.angles, Json.ReadsBack r x := fun x hx => hreader x hx (hfinite x hx)
    exact ⟨ofDocument?_document hback, results_mem_document hback⟩
  · intro text p h hreader
    have hfinite := isFinite_of_ofDocument? h
    rw [h]
    exact ofDocument?_document fun x hx => hreader x hx (hfinite x hx)

/-- A pattern with commands of all six kinds, one of them measured at a negative zero. -/
def sixKinds : Pattern :=
  ofParts [0, 1, 2] [(0, 1), (2, 1)] [0] [2]
    [.prepare 1, .prepare 2, .entangle 0 1, .entangle 2 1, .measure 0 .xy 0.1 ∅ ∅,
      .measure 1 .yz (-0.0) (.ofList [0]) ∅, .correctX 2 (.ofList [1]),
      .correctZ 2 (.ofList [1, 0]), .clifford 2 (Fin.last 23)] [(0, true)]

/-- Both readers give back the angles here, and so they do what stands in the documents. -/
theorem documents_faithful_sixKinds :
    ∀ r ∈ [Decimal.Reader.nearest, .quick],
      (ofDocument? r sixKinds.document = some sixKinds
          ∧ ∃ fields, Json.read r sixKinds.document = some (.mapping fields)
            ∧ ((∃ v, (Key.name "results" false, v) ∈ fields) ↔ sixKinds.results ≠ ∅))
        ∧ ofDocument? r (ofParts [0, 1] [] [] [1] [.measure 0 .xy 0.1 ∅ ∅] []).document
          = ofDocument? r ("\x7b\"output_nodes\":[1],\"nodes\":[1,0],\"commands\":[\x7b\"node\":0,"
            ++ "\"angle\":1e-1,\"plane\":\"XY\",\"op\":\"measure\"\x7d]\x7d") := by
  have hangles : ∀ x ∈ sixKinds.angles, x.isFinite = true := by decide +kernel
  rw [List.forall_mem_cons, List.forall_mem_singleton]
  constructor
  · have hreader := documents_faithful.2 .nearest
    exact ⟨hreader.1 sixKinds (fun x _ => documents_faithful.1 x) hangles,
      hreader.2 _ _ (by decide +kernel) fun x _ => documents_faithful.1 x⟩
  · have hreader := documents_faithful.2 .quick
    have hback : ∀ x ∈ [(0.1 : Float), -0.0], Json.ReadsBack .quick x := by decide +kernel
    refine ⟨hreader.1 sixKinds (fun x hx _ => hback x hx) hangles,
      hreader.2 _ _ (by decide +kernel) fun x hx _ => hback x ?_⟩
    exact List.mem_cons.mpr (.inl (List.mem_singleton.mp hx))

end Pattern

end OneWay
