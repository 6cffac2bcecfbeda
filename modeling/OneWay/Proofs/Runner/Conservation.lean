import OneWay.Proofs.Backend.Simulator
import OneWay.Proofs.Compile.Register
import OneWay.Proofs.Datum
import OneWay.Proofs.Simulation.Completion
import OneWay.Runner.Basic

/-!
# Runs conserve shots

A run of a pattern compiles it, has a simulator count outcomes of the classical register, and keeps
of each outcome the bits of the output nodes. Each stage hands the next bitstrings of the width
that it expects, so that as many outcomes are reported as shots were asked for
(`Runner.run_conserves_shots`).
-/

namespace OneWay

/-! ### Outcomes of the output nodes -/

namespace Compiled

variable {width : Nat} {bits : List Bit}

theorem outcomeChars_eq {s : String} (h : IsBitstring width s) : outcomeChars s = s.toList := by
  have hbinary := h.binary
  unfold outcomeChars
  rw [String.toUTF8_eq_toByteArray, ← String.utf8Encode_toList, List.utf8Encode,
    List.toList_data_toByteArray, List.map_flatMap]
  generalize s.toList = l at hbinary
  induction l with
  | nil => rfl
  | cons c l ih =>
    rw [List.flatMap_cons, ih fun x hx => hbinary x (List.mem_cons_of_mem _ hx)]
    rcases hbinary c (List.mem_cons_self ..) with rfl | rfl <;> rfl

theorem exists_selectBits {chars : List Char} (h : ∀ b ∈ bits, b < chars.length) :
    ∃ l, selectBits chars bits = .ok l ∧ l.length = bits.length ∧ ∀ c ∈ l, c ∈ chars := by
  induction bits with
  | nil => exact ⟨[], rfl, rfl, nofun⟩
  | cons b bits ih =>
    obtain ⟨l, hl, hlength, hmem⟩ := ih fun x hx => h x (List.mem_cons_of_mem _ hx)
    have hget := List.getElem?_eq_getElem (h b (List.mem_cons_self ..))
    refine ⟨_ :: l, by rw [selectBits, hget, hl]; rfl, congrArg (· + 1) hlength, ?_⟩
    intro c hc
    rcases List.mem_cons.mp hc with rfl | hc
    · exact List.mem_of_getElem? hget
    · exact hmem c hc

theorem exists_outcomeOf {s : String} (hs : IsBitstring width s) (hbits : ∀ b ∈ bits, b < width) :
    ∃ key, outcomeOf width bits s = .ok key ∧ IsBitstring bits.length key := by
  have hlength : s.toList.length = width := by rw [String.length_toList, hs.length]
  have hrange : ∀ b ∈ bits, b < s.toList.length := by rwa [hlength]
  obtain ⟨l, hl, hsize, hmem⟩ := exists_selectBits hrange
  refine ⟨String.ofList l, ?_, by simpa using hsize, ?_⟩
  · rw [outcomeOf, outcomeChars_eq hs, if_pos hlength, hl]
    rfl
  · rw [String.toList_ofList]
    exact fun c hc => hs.binary c (hmem c hc)

/-- Nothing is lost when outcomes that agree on the output nodes are added up. -/
theorem exists_addOutcomes (hbits : ∀ b ∈ bits, b < width) {l : List (String × Nat)}
    (hl : ∀ e ∈ l, IsBitstring width e.1) {counts : Counts} {n : Nat}
    (h : counts.Tallies n bits.length) :
    ∃ k, addOutcomes width bits l counts = .ok k ∧
      k.Tallies (n + (l.map (·.2)).sum) bits.length := by
  induction l generalizing counts n with
  | nil => exact ⟨counts, rfl, h⟩
  | cons e l ih =>
    obtain ⟨key, hkey, hbinary⟩ := exists_outcomeOf (hl e (List.mem_cons_self ..)) hbits
    obtain ⟨k, hk, htallies⟩ := ih (fun x hx => hl x (List.mem_cons_of_mem _ hx))
      (h.add hbinary e.2)
    refine ⟨k, by rw [addOutcomes, hkey]; exact hk, ?_⟩
    rwa [List.map_cons, List.sum_cons, ← Nat.add_assoc]

theorem exists_outcomes {c : Compiled} (hc : c.outputBits? = some bits)
    (hbits : ∀ b ∈ bits, b < c.bitCount) {counts : Counts} {n : Nat}
    (h : counts.Tallies n c.bitCount) :
    ∃ k, c.outcomes counts = .ok k ∧ k.Tallies n bits.length := by
  obtain ⟨k, hk, htallies⟩ := exists_addOutcomes hbits h.keys (Counts.tallies_empty _)
  rw [← Counts.total_eq_sum, h.total, Nat.zero_add] at htallies
  exact ⟨k, by rw [outcomes, hc]; exact hk, htallies⟩

end Compiled

/-- The output nodes of a pattern that is compiled with them measured have bits of the register. -/
theorem CompileContext.Accepted.exists_outputBits {ctx : CompileContext} (h : ctx.Accepted)
    (hmeasured : ctx.options.measureOutputs = true) :
    ∃ bits, (ctx.draft.compiled ctx).outputBits? = some bits ∧
      bits.length = ctx.pattern.outputs.length ∧
      ∀ b ∈ bits, b < (ctx.draft.compiled ctx).bitCount := by
  obtain ⟨bits, hbits⟩ := Option.isSome_iff_exists.mp
    ((Pattern.isSome_outputBits?_iff h).mpr (.inl hmeasured))
  have hread : ctx.pattern.outputs.map ctx.draft.register.get? = bits.map some :=
    Datum.readAll_eq_some_iff.mp hbits
  refine ⟨bits, hbits, by simpa using (congrArg List.length hread).symm, fun b hb => ?_⟩
  have hmem : some b ∈ bits.map some := List.mem_map_of_mem hb
  rw [← hread] at hmem
  obtain ⟨n, -, hn⟩ := List.mem_map.mp hmem
  -- the bit of an output is that of a measurement, and there is one for each bit
  rw [h.sound.register] at hn
  have hwritten := h.ledger.written n b hn
  have hlt := (List.getElem?_eq_some_iff.mp hwritten).1
  rw [h.ledger.count, ← h.sound.bits] at hlt
  exact hlt

namespace Runner

variable {σ : Type}

/-- A runner has the output nodes measured. -/
theorem exists_context {r : Runner σ} {p : Pattern}
    {inputs : SortedMap Node InputState} {c : Compiled} (hc : r.compile p inputs = .ok c) :
    ∃ ctx : CompileContext, ctx.Accepted ∧ ctx.options.measureOutputs = true ∧
      c = ctx.draft.compiled ctx := by
  unfold compile at hc
  cases hcompile : p.compile inputs { r.options.compile with measureOutputs := true } with
  | error f =>
    rw [hcompile] at hc
    cases hc
  | ok c' =>
    rw [hcompile] at hc
    obtain rfl := Except.ok.inj hc
    obtain ⟨haccepted, hcompiled⟩ := Pattern.compile_eq_ok_iff.mp hcompile
    exact ⟨_, haccepted, rfl, hcompiled⟩

variable [RandomSource σ]

/-- A run reports what the simulator has counted. -/
theorem run_eq_present (r : Runner (Simulator σ)) {p : Pattern}
    {inputs : SortedMap Node InputState} {c : Compiled} (hc : r.compile p inputs = .ok c)
    (haccept : r.backend.accept c.circuit r.options.shots = .ok ()) {result : ExecutionResult}
    {rest : σ} (hsim : c.circuit.simulate r.backend.machine.trigonometry r.backend.noise
      r.options.shots r.backend.source = .ok (result, rest)) (raw : Bool) :
    (r.run p inputs raw).1 = if raw then .ok result.counts else c.outcomes result.counts := by
  have hsubmit : Backend.submit c.circuit r.options.shots r.backend = _ :=
    Simulator.submit_of_simulate haccept hsim
  have hwait := r.backend.wait_store c.circuit r.options.shots result
  simp [run, hc, submit, hsubmit, Except.map, Except.mapError, PatternJob.wait,
    PatternJob.ofBackend, hwait, PatternJob.present]

/-- **Shots are conserved**: a run whose coins are all tossed with probabilities counts as many
outcomes as shots were asked for, over the whole register or over the output nodes, whatever the
options say about measuring these. -/
theorem run_conserves_shots (r : Runner (Simulator σ)) (hr : r.backend.Built) {p : Pattern}
    {inputs : SortedMap Node InputState} {c : Compiled} (hc : r.compile p inputs = .ok c)
    (hwires : c.qubitCount ≤ r.backend.maxQubits) (hangles : c.circuit.HasFiniteAngles)
    (hnoise : Simulator.checkNoise r.backend.noise = .ok ()) (hpos : 1 ≤ r.options.shots)
    (hmost : r.options.shots ≤ 100000)
    (hcoins : c.circuit.simulate r.backend.machine.trigonometry r.backend.noise r.options.shots
      r.backend.source ≠ .error .badProbability) :
    ∃ register outputs,
      (r.run p inputs true).1 = .ok register ∧
      register.Tallies r.options.shots c.bitCount ∧
      (r.run p inputs false).1 = .ok outputs ∧
      outputs.Tallies r.options.shots c.outputs.length := by
  obtain ⟨ctx, haccepted, hmeasured, rfl⟩ := exists_context hc
  obtain ⟨bits, hbits, hlength, hlt⟩ := haccepted.exists_outputBits hmeasured
  have hvalid := Circuit.validate_eq_ok_iff.mpr haccepted.sound.valid
  have haccept := hr.accept_eq_ok hvalid hwires hangles hnoise hpos hmost
  have hyields := Circuit.yields_simulate r.backend.machine.trigonometry r.backend.noise hvalid
    r.options.shots r.backend.source
  cases hsim : ctx.draft.circuit.simulate r.backend.machine.trigonometry r.backend.noise
      r.options.shots r.backend.source with
  | error f =>
    rw [hsim] at hyields
    exact absurd (hsim.trans (congrArg Except.error hyields)) hcoins
  | ok outcome =>
    rw [hsim] at hyields
    obtain ⟨outputs, houtputs, htallies⟩ := Compiled.exists_outcomes hbits hlt hyields
    refine ⟨outcome.1.counts, outputs, run_eq_present r hc haccept hsim true, hyields, ?_, ?_⟩
    · exact (run_eq_present r hc haccept hsim false).trans houtputs
    · rwa [hlength] at htallies

/-- A node whose state is moved to another, which is the output. -/
def transfer : Pattern :=
  .ofParts [0, 1] [(0, 1)] [0] [1]
    [.entangle 0 1, .measure 0 .xy 0.0 ∅ ∅, .correctX 1 (.ofList [0])] []

/-- Three shots with noise, where the options do not have the outputs measured. -/
def noisy : Runner (Simulator Recorded) where
  backend := {
    Simulator.ofMaxQubits (.scripted [0, 0x8000000000000000]) 2 with
    noise := { singleQubit := [⟨.bitFlip, 0.25⟩], readoutError := 0.125 }
    seed := some 0 }
  options := { compile := {}, shots := 3 }

theorem run_transfer : ∃ c register outputs,
    noisy.compile transfer ∅ = .ok c ∧ c.bitCount = 2 ∧ c.outputs.length = 1 ∧
    (noisy.run transfer ∅ true).1 = .ok register ∧ register.Tallies 3 c.bitCount ∧
    (noisy.run transfer ∅ false).1 = .ok outputs ∧ outputs.Tallies 3 c.outputs.length := by
  have hfacts : (noisy.compile transfer ∅).toOption.any (fun c =>
      c.bitCount = 2 ∧ c.outputs.length = 1 ∧ c.qubitCount ≤ 2 ∧
      Simulator.nonFiniteReasons c.circuit = [] ∧
      (c.circuit.simulate noisy.backend.machine.trigonometry noisy.backend.noise 3
        noisy.backend.source).isOk = true) = true := by decide +kernel
  cases hc : noisy.compile transfer ∅ with
  | error f =>
    rw [hc] at hfacts
    cases hfacts
  | ok c =>
    rw [hc] at hfacts
    obtain ⟨hbits, houtputs, hwires, hangles, hcoins⟩ := of_decide_eq_true hfacts
    have hbuilt : noisy.backend.Built :=
      ((Simulator.Built.ofMaxQubits (.scripted _) 2).withNoise noisy.backend.noise).withSeed 0
    have hsim : c.circuit.simulate noisy.backend.machine.trigonometry noisy.backend.noise 3
        noisy.backend.source ≠ .error .badProbability := by
      intro hbad
      rw [hbad] at hcoins
      cases hcoins
    obtain ⟨register, outputs, hrun⟩ := run_conserves_shots noisy hbuilt hc hwires
      (Simulator.nonFiniteReasons_eq_nil_iff.mp hangles) rfl (by decide) (by decide) hsim
    exact ⟨c, register, outputs, rfl, hbits, houtputs, hrun⟩

end Runner

end OneWay
