import OneWay.Compile.Compiled
import OneWay.Proofs.Circuit.Document
import OneWay.Proofs.Pattern.Document

/-!
# Compiled patterns in documents

A compiled pattern is read back from its document as it was, and so is a circuit alone
(`Compiled.texts_readBack`), whatever stands in the tables and whether the text is on one line or
on several. What is asked of them is what documents can hold: finite angles, and indices of 32 bits
(`Compiled.IsNarrow`).
-/

namespace OneWay

variable {r : Decimal.Reader}

namespace CompileOptions

theorem ofDatum?_toJson (o : CompileOptions) : ofDatum? o.toJson.datum = some o := by
  have hbool (b : Bool) : Datum.optional false Datum.bool? (some (Json.bool b).datum) = some b :=
    rfl
  unfold ofDatum? toJson
  simp (disch := simp) only [Datum.record?_of_names, List.map_cons, List.map_nil, hbool]
  rfl

theorem isPlain_toJson (o : CompileOptions) : o.toJson.IsPlain r :=
  ⟨by decide, trivial, by decide, trivial, by decide, trivial, trivial⟩

end CompileOptions

namespace Compiled

/-! ### Tables -/

variable {t : SortedMap Node Nat}

/-- **Tables** are read back entry by entry. -/
theorem table?_tableJson (h : ∀ i ∈ t.values, i < 0x100000000) :
    table? (tableJson t).datum = some t := by
  have hentries : (tableJson t).datum.table? Node.ofKey? Datum.nat32? = some t.entries := by
    refine Datum.table?_obj (fun e _ => e.1.ofKey?_key) fun e he => ?_
    exact Datum.nat32?_nat (h e.2 (List.mem_map_of_mem he))
  rw [table?, hentries, Option.map_some, SortedMap.ofList_entries]

theorem isPlain_tableJson (h : ∀ i ∈ t.values, i < 0x100000000) : (tableJson t).IsPlain r := by
  refine Json.isPlain_obj (fun f hf => ?_) fun f hf => ?_
  all_goals obtain ⟨e, he, rfl⟩ := List.mem_map.mp hf
  · exact e.1.isLiteral_key
  · exact Json.isPlain_nat (h e.2 (List.mem_map_of_mem he))

/-! ### Compiled patterns -/

/-- All indices and sizes are of 32 bits. -/
structure IsNarrow (c : Compiled) : Prop where
  circuit : c.circuit.IsNarrow
  wires : ∀ w ∈ c.wires.values, w < 0x100000000
  register : ∀ b ∈ c.register.values, b < 0x100000000
  outputQubits : ∀ w ∈ c.outputQubits, w < 0x100000000

variable {c : Compiled}

/-- **Compiled patterns** are read back from the values they are written as. -/
theorem ofDatum?_toJson (h : c.IsNarrow) : ofDatum? c.toJson.datum = some c := by
  have hcircuit := Datum.required_some (Circuit.ofDatum?_toJson h.circuit)
  have hwires := Datum.required_some (table?_tableJson h.wires)
  have hregister := Datum.required_some (table?_tableJson h.register)
  have houtputs : Datum.required (Datum.list? Node.ofDatum?)
      (some (Json.ofList Node.toJson c.outputs).datum) = some c.outputs :=
    Datum.list?_ofList fun n _ => n.ofDatum?_toJson
  have hqubits := Datum.required_some (Datum.list?_indices h.outputQubits)
  have hoptions := Datum.required_some c.options.ofDatum?_toJson
  unfold ofDatum? toJson
  simp (disch := simp) only [Datum.record?_of_names, List.map_cons, List.map_nil, hcircuit, hwires,
    hregister, houtputs, hqubits, hoptions]
  rfl

theorem isPlain_toJson (h : c.IsNarrow) (hangles : ∀ x ∈ c.circuit.angles, Json.ReadsBack r x) :
    c.toJson.IsPlain r := by
  have houtputs : (Json.ofList Node.toJson c.outputs).IsPlain r :=
    Json.isPlain_ofList fun n _ => n.isPlain_toJson
  exact ⟨by decide, Circuit.isPlain_toJson h.circuit hangles, by decide,
    isPlain_tableJson h.wires, by decide, isPlain_tableJson h.register, by decide, houtputs,
    by decide, Json.isPlain_indices h.outputQubits, by decide, c.options.isPlain_toJson, trivial⟩

/-- **Documents** say all of a circuit and of a compiled pattern. Let a reader of numerals give back
the finite numbers that are angles of the circuit, as the one that rounds to the nearest number
always does. If the angles are finite, both are read back from their texts, on one line and on
several, whatever the names and labels, the instructions and the tables. -/
theorem texts_readBack :
    (∀ x : Float, x.isFinite = true → Json.ReadsBack .nearest x) ∧
    ∀ r : Decimal.Reader,
      (∀ c : Circuit, (∀ x ∈ c.angles, x.isFinite = true → Json.ReadsBack r x) →
        c.IsNarrow → c.HasFiniteAngles →
        (Json.read r c.toJson.compact).bind Circuit.ofDatum? = some c ∧
        (Json.read r c.toJson.pretty).bind Circuit.ofDatum? = some c) ∧
      ∀ c : Compiled, (∀ x ∈ c.circuit.angles, x.isFinite = true → Json.ReadsBack r x) →
        c.IsNarrow → c.circuit.HasFiniteAngles →
        (Json.read r c.toJson.compact).bind ofDatum? = some c ∧
        ofDocument? r c.document = some c := by
  refine ⟨fun x hx => Json.readsBack_nearest_iff.mpr hx, fun r => ⟨?_, ?_⟩⟩
  · intro c hreader hnarrow hangles
    have hplain := Circuit.isPlain_toJson hnarrow (hangles.readsBack hreader)
    have hread := Circuit.ofDatum?_toJson hnarrow
    rw [Json.read_compact hplain, Json.read_pretty hplain, Option.bind_some]
    exact ⟨hread, hread⟩
  · intro c hreader hnarrow hangles
    have hplain := isPlain_toJson hnarrow (hangles.readsBack hreader)
    have hread := ofDatum?_toJson hnarrow
    rw [Json.read_compact hplain, ofDocument?, document, Json.read_pretty hplain,
      Option.bind_some]
    exact ⟨hread, hread⟩

/-- A circuit with instructions of every kind, with and without labels, conditions and classical
bits, and with texts that need escapes. -/
def medley : Circuit where
  name := "bell \"⊗\" \\ \u0007\n𝄞"
  numQubits := 3
  numBits := 0xffffffff
  instructions := #[
    ⟨.gate { gate := .h, label := some "" }, [0], []⟩,
    ⟨.gate { gate := .rx (-0.0), condition := some ⟨[], true⟩ }, [1], []⟩,
    ⟨.gate ⟨.u 0.1 (-1e300) 5e-324, some "\tprep é", some ⟨[0, 4294967294], false⟩⟩, [2], []⟩,
    ⟨.gate { gate := .cx }, [0, 1], []⟩,
    ⟨.measure, [0, 1], [1, 0]⟩, ⟨.reset, [0], []⟩, ⟨.barrier, [], []⟩, ⟨.snapshot, [0, 1, 2], [7]⟩]

/-- Both readers give back the angles here. -/
theorem texts_readBack_medley :
    ∀ r ∈ [Decimal.Reader.nearest, .quick],
      (Json.read r medley.toJson.compact).bind Circuit.ofDatum? = some medley ∧
      ofDocument? r (document ⟨medley, .ofList [(4294967295, 2), (10, 0)], .ofList [(9, 1)], [10],
        [0], .forExecution⟩) = some ⟨medley, .ofList [(4294967295, 2), (10, 0)],
        .ofList [(9, 1)], [10], [0], .forExecution⟩ := by
  have hangles : medley.HasFiniteAngles := by decide +kernel
  have hnarrow : medley.IsNarrow := by
    have hindices : ∀ inst ∈ medley.instructions.toList,
        (∀ q ∈ inst.qubits, q < 0x100000000) ∧ (∀ b ∈ inst.bits, b < 0x100000000) ∧
          ∀ b ∈ inst.conditionBits, b < 0x100000000 := by decide +kernel
    refine ⟨by decide, by decide, fun inst hinst => ?_⟩
    obtain ⟨hqubits, hbits, hcondition⟩ := hindices inst hinst
    exact ⟨hqubits, hbits, hcondition⟩
  have hback : ∀ r ∈ [Decimal.Reader.nearest, .quick], ∀ x ∈ medley.angles,
      x.isFinite = true → Json.ReadsBack r x := by
    rw [List.forall_mem_cons, List.forall_mem_singleton]
    exact ⟨fun x _ => texts_readBack.1 x, by decide +kernel⟩
  intro r hr
  have hreader := texts_readBack.2 r
  refine ⟨(hreader.1 medley (hback r hr) hnarrow hangles).1,
    (hreader.2 _ (hback r hr) ?_ hangles).2⟩
  exact ⟨hnarrow, by decide +kernel, by decide +kernel, by decide⟩

end Compiled

end OneWay
