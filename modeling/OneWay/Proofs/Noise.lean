import OneWay.Backend.Simulator
import OneWay.Proofs.Json.Canonical

/-!
# Noise models that are accepted and read back

A noise model is accepted iff all its parameters are probabilities (`NoiseModel.validate_eq_ok_iff`).

Among the settings of a backend a noise model is a value in canonical form, in which a parameter that
is not finite has become `null`. It is read back as it was, channel by channel, if all its parameters
are finite, and not at all otherwise (`NoiseModel.ofDatum?_canonical`).
-/

namespace OneWay

/-! ### Acceptance -/

theorem parameterFault?_eq_none_iff {name : String} {x : Float} :
    parameterFault? name x = none ↔ isProbability x = true := by
  unfold parameterFault?
  split <;> simp [*]

theorem isFinite_of_isProbability {x : Float} (h : isProbability x = true) :
    x.isFinite = true := by
  unfold isProbability at h
  rw [Bool.and_eq_true, Bool.and_eq_true] at h
  exact h.1.1

namespace NoiseModel

variable {m : NoiseModel}

/-- A noise model is accepted iff its parameters are probabilities. -/
theorem validate_eq_ok_iff :
    m.validate = .ok () ↔
      (∀ channel ∈ m.channels, isProbability channel.strength = true) ∧
        isProbability m.readoutError = true := by
  have hnone : (m.channels.findSome? NoiseChannel.fault?).or
      (parameterFault? "readout_error" m.readoutError) = none ↔
      (∀ channel ∈ m.channels, isProbability channel.strength = true) ∧
        isProbability m.readoutError = true := by
    rw [Option.or_eq_none_iff, List.findSome?_eq_none_iff, parameterFault?_eq_none_iff]
    refine and_congr_left' (forall₂_congr fun channel _ => ?_)
    exact parameterFault?_eq_none_iff
  rw [← hnone, validate]
  split <;> simp [*]

theorem validate_ideal : ideal.validate = .ok () := by
  rw [validate_eq_ok_iff]
  exact ⟨fun _ hmem => absurd hmem List.not_mem_nil, by decide +kernel⟩

end NoiseModel

theorem Simulator.checkNoise_eq_ok_iff {m : NoiseModel} :
    checkNoise m = .ok () ↔ m.validate = .ok () := by
  unfold checkNoise
  split <;> simp [*]

/-! ### Reading back -/

theorem NoiseKind.ofName?_name (kind : NoiseKind) : ofName? kind.name = some kind := by
  cases kind <;> rfl

theorem NoiseKind.parameterName_ne_type (kind : NoiseKind) : kind.parameterName ≠ "type" := by
  cases kind <;> decide

/-- A parameter is read back if it is finite. -/
theorem Datum.real?_canonical (x : Float) :
    (Json.real x).canonical.datum.real? = if x.isFinite then some x else none := by
  rw [Json.canonical_real]
  split <;> rfl

theorem Datum.depth_canonical_real (x : Float) : (Json.real x).canonical.datum.depth = 0 := by
  rw [Json.canonical_real]
  split <;> rfl

namespace NoiseChannel

/-- A channel is read back if its strength is finite. -/
theorem ofDatum?_canonical (c : NoiseChannel) {levels : Nat} (hlevels : 1 ≤ levels) :
    ofDatum? levels c.toJson.canonical.datum = if c.strength.isFinite then some c else none := by
  have hne := c.kind.parameterName_ne_type
  have hdepth : c.toJson.canonical.datum.depth ≤ 1 := by
    refine Json.depth_canonical_obj_le fun f hf => ?_
    rw [List.mem_cons, List.mem_singleton] at hf
    obtain rfl | rfl := hf
    · exact Nat.le_refl 0
    · exact Nat.le_of_eq (Datum.depth_canonical_real c.strength)
  obtain ⟨rest, htagged, hrest⟩ := Json.tagged?_canonical
    [("type", .str c.kind.name), (c.kind.parameterName, .real c.strength)] "type"
    (by simpa using hne.symm) List.lookup_cons_self (Nat.le_trans hdepth hlevels)
  have hother : (c.kind.parameterName == "type") = false := beq_false_of_ne hne
  have hrecord : rest.record? [c.kind.parameterName]
      = some [some (Json.real c.strength).canonical.datum] := by
    rw [hrest _ (by simpa using hne.symm)]
    simp [List.lookup_cons, hother]
  unfold ofDatum? toJson
  rw [htagged]
  simp only [NoiseKind.ofName?_name, hrecord, Datum.required, Datum.real?_canonical]
  split <;> rfl

end NoiseChannel

namespace NoiseModel

/-- All parameters are finite. -/
def isFinite (m : NoiseModel) : Bool :=
  m.singleQubit.all (·.strength.isFinite) && m.twoQubit.all (·.strength.isFinite) &&
    m.readoutError.isFinite

theorem isFinite_of_validate {m : NoiseModel} (h : m.validate = .ok ()) : m.isFinite = true := by
  obtain ⟨hchannels, hreadout⟩ := validate_eq_ok_iff.mp h
  have hall : ∀ l : List NoiseChannel, l ⊆ m.channels →
      l.all (·.strength.isFinite) = true := fun l hl =>
    List.all_eq_true.mpr fun channel hmem => isFinite_of_isProbability (hchannels _ (hl hmem))
  rw [isFinite, hall _ (List.subset_append_left ..), hall _ (List.subset_append_right ..),
    isFinite_of_isProbability hreadout]
  rfl

/-- A noise model is **read back** if its parameters are finite. -/
theorem ofDatum?_canonical (m : NoiseModel) {levels : Nat} (hlevels : 3 ≤ levels) :
    ofDatum? levels m.toJson.canonical.datum = if m.isFinite then some m else none := by
  -- the channels stand two levels down, in a list in an object
  have hchannels : ∀ l : List NoiseChannel,
      (Json.ofList NoiseChannel.toJson l).canonical.datum.list?
          (NoiseChannel.ofDatum? (levels - 2))
        = if l.all (·.strength.isFinite) then some l else none := by
    intro l
    rw [Json.canonical_ofList, Json.ofList, Json.datum, Datum.list?, Json.datumItems_eq, List.map_map]
    exact Datum.readAll_map_ite (fun c => c.ofDatum?_canonical (by omega)) l
  have hplaces : m.toJson.canonical.datum.record? ["single_qubit", "two_qubit", "readout_error"]
      = some [some (Json.ofList NoiseChannel.toJson m.singleQubit).canonical.datum,
        some (Json.ofList NoiseChannel.toJson m.twoQubit).canonical.datum,
        some (Json.real m.readoutError).canonical.datum] := by
    rw [toJson, Json.record?_canonical _ _ (by simp)]
    simp [List.lookup_cons]
  unfold ofDatum? isFinite
  simp only [hplaces, Datum.optional, hchannels, Datum.real?_canonical]
  cases m.singleQubit.all (·.strength.isFinite) with
  | false => rfl
  | true =>
    cases m.twoQubit.all (·.strength.isFinite) with
    | false => rfl
    | true => cases m.readoutError.isFinite <;> rfl

end NoiseModel

end OneWay
