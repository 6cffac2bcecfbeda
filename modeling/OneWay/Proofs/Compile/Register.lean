import OneWay.Proofs.Compile.Meaning
import OneWay.Proofs.Compile.Outcomes

/-!
# The classical register of a compiled pattern

The measurements of a circuit, in order, write the classical bits in order, and a condition reads
only bits that were written before: `Circuit.Causal`.

`Draft.Ledger` is the invariant. It numbers the measurements of a draft, says which of them belongs
to the outcome of a node, and holds the causality of what is emitted so far. One move keeps it
(`Draft.Ledger.play`), hence so does a run, and `Pattern.compile_register` reads off what is true
in the end.
-/

namespace OneWay

/-! ### Reading what was written -/

/-- A condition reads some classical bits, none of them twice, and each is written by one of the
instructions. -/
structure Condition.ReadsFrom (c : Condition) (before : List Instruction) : Prop where
  nonempty : c.bits ≠ []
  nodup : c.bits.Nodup
  written : ∀ b ∈ c.bits, ∃ inst ∈ before, inst.action = .measure ∧ b ∈ inst.bits

theorem Condition.ReadsFrom.mono {c : Condition} {l l' : List Instruction} (h : c.ReadsFrom l)
    (hl : l ⊆ l') : c.ReadsFrom l' := by
  refine ⟨h.nonempty, h.nodup, fun b hb => ?_⟩
  obtain ⟨inst, hinst, hwrites⟩ := h.written b hb
  exact ⟨inst, hl hinst, hwrites⟩

/-- Only a gate has a condition. -/
theorem Instruction.exists_gate_of_condition? {inst : Instruction} {c : Condition}
    (h : inst.condition? = some c) :
    ∃ g : GateUse, inst.action = .gate g ∧ g.condition = some c := by
  unfold condition? gateUse? at h
  split at h
  · next g hg => exact ⟨g, hg, h⟩
  · cases h

namespace Circuit

/-- The measurements of a circuit, in order. -/
def measurements (c : Circuit) : List Instruction :=
  c.instructions.toList.filter (·.action = .measure)

/-- Every condition reads from the instructions before its own. -/
def Causal (l : List Instruction) : Prop :=
  ∀ (i : Nat) (inst : Instruction) (c : Condition), l[i]? = some inst →
    inst.condition? = some c → c.ReadsFrom (l.take i)

theorem causal_append {l l' : List Instruction} (h : Causal l)
    (h' : ∀ inst ∈ l', ∀ c, inst.condition? = some c → c.ReadsFrom l) : Causal (l ++ l') := by
  intro i inst c hi hc
  by_cases hlt : i < l.length
  · rw [List.getElem?_append_left hlt] at hi
    rw [List.take_append_of_le_length (Nat.le_of_lt hlt)]
    exact h i inst c hi hc
  · rw [Nat.not_lt] at hlt
    rw [List.getElem?_append_right hlt] at hi
    refine (h' inst (List.mem_of_getElem? hi) c hc).mono fun x hx => ?_
    rw [List.take_append, List.take_of_length_le hlt]
    exact List.mem_append_left _ hx

end Circuit

/-! ### The books of the measurements -/

namespace Draft

variable {d d' : Draft} {r r' : Roster}

/-- Only resets are emitted when a node gets its wire. -/
theorem action_emits_claim {n : Node} {inst : Instruction} (h : inst ∈ d.emits (.claim n)) :
    inst.action = .reset := by
  unfold emits at h
  simp only at h
  split at h
  · rw [List.mem_singleton.mp h]
  · exact absurd h List.not_mem_nil

/-- What the measurements of a draft have to do with the outcomes that are kept. -/
structure Ledger (d : Draft) (r : Roster) : Prop where
  /-- Each measurement is of one wire, into the classical bit of its own number. -/
  numbered : ∀ (k : Nat) (inst : Instruction), d.circuit.measurements[k]? = some inst →
    ∃ w, inst = ⟨.measure, [w], [k]⟩
  count : d.circuit.measurements.length = r.bits
  /-- The outcome of a node is that of a measurement of its wire. -/
  written : ∀ n k, r.register.get? n = some k →
    d.circuit.measurements[k]? = some ⟨.measure, [d.wireAt n], [k]⟩
  causal : Circuit.Causal d.circuit.instructions.toList

namespace Ledger

theorem start : Ledger .start {} where
  numbered := fun k inst h => by simp [Draft.start, Circuit.ofSize, Circuit.measurements] at h
  count := rfl
  written := fun n k h => by rw [SortedMap.get?_empty] at h; cases h
  causal := fun i inst c h => by simp [Draft.start, Circuit.ofSize] at h

/-- A bit below the number of measurements is written by one of them. -/
theorem exists_write (h : Ledger d r) {b : Bit} (hb : b < r.bits) :
    ∃ inst ∈ d.circuit.instructions.toList, inst.action = .measure ∧ b ∈ inst.bits := by
  rw [← h.count] at hb
  have hget := List.getElem?_eq_getElem hb
  obtain ⟨w, hw⟩ := h.numbered b _ hget
  have hmem := List.mem_of_getElem? hget
  rw [hw] at hmem
  exact ⟨_, (List.mem_filter.mp hmem).1, rfl, List.mem_singleton_self b⟩

/-- Instructions that measure nothing and read what was written keep the books. -/
theorem emit (h : Ledger d r) (hs : r.Settled) {l : List Instruction}
    (hinstructions : d'.circuit.instructions.toList = d.circuit.instructions.toList ++ l)
    (hquiet : ∀ inst ∈ l, inst.action ≠ .measure)
    (hreads : ∀ inst ∈ l, ∀ c, inst.condition? = some c →
      c.ReadsFrom d.circuit.instructions.toList)
    (hwires : ∀ n ∈ r.placed, d'.wireAt n = d.wireAt n) (hregister : r'.register = r.register)
    (hbits : r'.bits = r.bits) : Ledger d' r' := by
  have hmeasurements : d'.circuit.measurements = d.circuit.measurements := by
    have hnone : l.filter (·.action = .measure) = [] := by
      refine List.filter_eq_nil_iff.mpr fun inst hinst => ?_
      simpa using hquiet inst hinst
    rw [Circuit.measurements, hinstructions, List.filter_append, hnone, List.append_nil]
    rfl
  refine ⟨?_, ?_, fun n k hn => ?_, ?_⟩
  · rw [hmeasurements]
    exact h.numbered
  · rw [hmeasurements, hbits]
    exact h.count
  · rw [hregister] at hn
    rw [hmeasurements, hwires n (hs.placed n k hn)]
    exact h.written n k hn
  · rw [hinstructions]
    exact Circuit.causal_append h.causal hreads

/-- A measurement into the next classical bit keeps the books. -/
theorem read (h : Ledger d r) {n : Node}
    (hinstructions : d'.circuit.instructions.toList
      = d.circuit.instructions.toList ++ [⟨.measure, [d.wireAt n], [r.bits]⟩])
    (hwires : d'.wires = d.wires) (hregister : r'.register = r.register.insert n r.bits)
    (hbits : r'.bits = r.bits + 1) : Ledger d' r' := by
  have hmeasurements : d'.circuit.measurements
      = d.circuit.measurements ++ [⟨.measure, [d.wireAt n], [r.bits]⟩] := by
    rw [Circuit.measurements, hinstructions, List.filter_append]
    rfl
  have hlast : d'.circuit.measurements[r.bits]? = some ⟨.measure, [d.wireAt n], [r.bits]⟩ := by
    rw [hmeasurements, ← h.count, List.getElem?_concat_length]
  have hold : ∀ (k : Nat) (inst : Instruction), d.circuit.measurements[k]? = some inst →
      d'.circuit.measurements[k]? = some inst := by
    intro k inst hk
    have hlt := (List.getElem?_eq_some_iff.mp hk).1
    rw [hmeasurements, List.getElem?_append_left hlt]
    exact hk
  refine ⟨fun k inst hk => ?_, ?_, fun x k hx => ?_, ?_⟩
  · have hlt := (List.getElem?_eq_some_iff.mp hk).1
    rw [hmeasurements, List.length_append, h.count, List.length_singleton] at hlt
    rcases Nat.lt_succ_iff_lt_or_eq.mp hlt with hlt | rfl
    · rw [← h.count] at hlt
      rw [hold k _ (List.getElem?_eq_getElem hlt)] at hk
      exact h.numbered k inst ((List.getElem?_eq_getElem hlt).trans hk)
    · rw [hlast] at hk
      exact ⟨_, (Option.some.inj hk).symm⟩
  · rw [hmeasurements, List.length_append, h.count, hbits, List.length_singleton]
  · rw [hregister, SortedMap.get?_insert] at hx
    rw [wireAt_congr hwires]
    split at hx
    · next hxn =>
      obtain rfl := Option.some.inj hx
      rw [hxn]
      exact hlast
    · exact hold k _ (h.written x k hx)
  · rw [hinstructions]
    refine Circuit.causal_append h.causal fun inst hinst c hc => ?_
    rw [List.mem_singleton.mp hinst] at hc
    cases hc

/-- **One move** keeps the books of the measurements. -/
theorem play (h : Ledger d r) {reuse : Bool} (hsound : Sound reuse d r) (hs : r.Settled)
    {m : Move} (hm : r.Admits m) (ho : r.Orderly m) : Ledger (d.play reuse m) (r.move m) := by
  have hinstructions := instructions_play reuse d m
  have hwires : ∀ n ∈ r.placed, (d.play reuse m).wireAt n = d.wireAt n := by
    intro n hn
    unfold wireAt SortedMap.getD
    rw [Sound.get?_wires_play reuse d hm hn]
  cases m with
  | claim n =>
    refine h.emit hs hinstructions (fun inst hinst => ?_) (fun inst hinst c hc => ?_) hwires rfl rfl
    · rw [action_emits_claim hinst]
      intro heq
      cases heq
    · obtain ⟨g, hg, -⟩ := Instruction.exists_gate_of_condition? hc
      rw [action_emits_claim hinst] at hg
      cases hg
  | gate g nodes =>
    refine h.emit hs hinstructions (fun inst hinst => ?_) (fun inst hinst c hc => ?_) hwires rfl rfl
    · rw [List.mem_singleton.mp hinst]
      intro heq
      cases heq
    · -- the bits of the condition were given out, so they were written
      rw [List.mem_singleton.mp hinst] at hc
      obtain ⟨hne, hnodup⟩ := ho.2 c hc
      exact ⟨hne, hnodup, fun b hb => h.exists_write (hm.2.2.2 c hc b hb)⟩
  | measure n =>
    refine h.read (n := n) ?_ rfl rfl rfl
    rw [hinstructions, emits, hsound.bits]
  | readOut n =>
    refine h.read (n := n) ?_ rfl rfl rfl
    rw [hinstructions, emits, hsound.bits]
  | snapshot =>
    refine h.emit hs hinstructions (fun inst hinst => ?_) (fun inst hinst c hc => ?_) hwires rfl rfl
    · rw [List.mem_singleton.mp hinst]
      intro heq
      cases heq
    · rw [List.mem_singleton.mp hinst] at hc
      cases hc

/-- **A run** keeps the books of the measurements. -/
theorem playAll (h : Ledger d r) {reuse : Bool} (hsound : Sound reuse d r) (hs : r.Settled)
    {l : List Move} (hl : r.AdmitsAll l) (ho : r.OrderlyAll l) :
    Ledger (d.playAll reuse l) (r.after l) := by
  induction l generalizing d r with
  | nil => exact h
  | cons m l ih =>
    exact ih (h.play hsound hs hl.1 ho.1) (hsound.play hl.1) (hs.move hsound.roster hl.1) hl.2 ho.2

end Ledger

end Draft

/-! ### How many outcomes there are, and whose -/

namespace Roster

theorem bits_step (r : Roster) (c : Command) :
    (r.step c).bits = r.bits + if c.isMeasure then 1 else 0 := by
  have hplace := (r.placeAll_frame c.targets).2.2
  cases c with
  | measure n plane angle s t => exact congrArg (· + 1) hplace
  | _ => exact hplace

theorem bits_steps (r : Roster) (l : List Command) :
    (r.steps l).bits = r.bits + l.countP Command.isMeasure := by
  induction l generalizing r with
  | nil => rfl
  | cons c l ih =>
    show ((r.step c).steps l).bits = _
    rw [ih, bits_step, List.countP_cons]
    omega

theorem contains_register_map_readOut {r : Roster} {l : List Node} {x : Node} :
    (r.after (l.map .readOut)).register.contains x = true ↔
      r.register.contains x = true ∨ x ∈ l := by
  induction l generalizing r with
  | nil => simp
  | cons n l ih =>
    have hread : (r.move (.readOut n)).register.contains x = true ↔
        x = n ∨ r.register.contains x = true := by
      show ((r.register.insert n r.bits).get? x).isSome = true ↔ _
      rw [SortedMap.get?_insert]
      by_cases hx : x = n <;> simp [hx, SortedMap.contains]
    rw [List.map_cons, after_cons, ih, hread, List.mem_cons, or_assoc, or_left_comm]

end Roster

namespace CompileContext

variable (ctx : CompileContext)

/-- There is an outcome for each measurement command and for each output node that is measured. -/
theorem bits_roster : ctx.roster.bits = ctx.pattern.numMeasurements
    + if ctx.options.measureOutputs then ctx.pattern.outputs.length else 0 := by
  have hbody : (ctx.bodyRoster.lastPlaced ctx).bits = ctx.pattern.numMeasurements := by
    rw [(ctx.bodyRoster.lastPlaced_frame ctx).2.2, bodyRoster_eq, Roster.bits_steps,
      inputRoster_eq, (Roster.placeAll_frame {} ctx.pattern.inputs).2.2]
    exact Nat.zero_add _
  rw [roster_eq, ← hbody]
  split
  · exact Roster.bits_after_map_readOut ..
  · rfl

/-- The nodes whose outcomes are kept in the end. -/
theorem contains_register_roster {n : Node} :
    ctx.roster.register.contains n = true ↔ (∃ c ∈ ctx.pattern.commands, c.Measures n) ∨
      (ctx.options.measureOutputs = true ∧ n ∈ ctx.pattern.outputs) := by
  rw [roster_eq, ← ctx.contains_register_bodyRoster,
    ← (ctx.bodyRoster.lastPlaced_frame ctx).2.1]
  cases ctx.options.measureOutputs with
  | true =>
    rw [if_pos rfl, Roster.contains_register_map_readOut]
    simp
  | false => simp

variable {ctx}

theorem Accepted.ledger (h : ctx.Accepted) : Draft.Ledger ctx.draft ctx.roster :=
  Draft.Ledger.start.playAll (Draft.sound_start ctx.options.qubitReuse) Roster.settled_empty
    h.admitsAll h.orderlyAll

end CompileContext

/-! ### Compiled patterns -/

theorem Datum.isSome_readAll_iff {α β : Type} {f : α → Option β} {l : List α} :
    (Datum.readAll f l).isSome = true ↔ ∀ a ∈ l, (f a).isSome = true := by
  induction l with
  | nil => simp [Datum.readAll]
  | cons a l ih =>
    rw [Datum.readAll]
    cases hf : f a <;> simp [hf, ih]

namespace Pattern

/-- What is true of the classical register of a pattern compiled with given options. -/
structure KeepsRegister (p : Pattern) (options : CompileOptions) (c : Compiled) : Prop where
  /-- The measurement of each number is of one wire into the classical bit of that number. -/
  numbered : ∀ (k : Nat) (inst : Instruction), c.circuit.measurements[k]? = some inst →
    ∃ w, inst = ⟨.measure, [w], [k]⟩
  bitCount : c.bitCount = c.circuit.measurements.length
  count : c.circuit.measurements.length
    = p.numMeasurements + if options.measureOutputs then p.outputs.length else 0
  injective : ∀ a b k, c.register.get? a = some k → c.register.get? b = some k → a = b
  domain : ∀ n, (∃ k, c.register.get? n = some k) ↔
    (∃ command ∈ p.commands, command.Measures n) ∨
      (options.measureOutputs = true ∧ n ∈ p.outputs)
  /-- The measurement of a node's classical bit is of the node's wire. -/
  wire : ∀ n k, c.register.get? n = some k → ∃ w, c.wires.get? n = some w ∧
    c.circuit.measurements[k]? = some ⟨.measure, [w], [k]⟩
  /-- A condition reads some bits, none twice, each written by an earlier measurement. -/
  causal : Circuit.Causal c.circuit.instructions.toList
  outputBits : c.outputBits?.isSome = true ↔ options.measureOutputs = true ∨ c.outputs = []

/-- The output nodes have classical bits iff they are measured or there are none. -/
theorem isSome_outputBits?_iff {ctx : CompileContext} (h : ctx.Accepted) :
    (ctx.draft.compiled ctx).outputBits?.isSome = true ↔
      ctx.options.measureOutputs = true ∨ ctx.pattern.outputs = [] := by
  have hdomain : ∀ n, (ctx.draft.register.get? n).isSome = true ↔
      ctx.roster.register.contains n = true := by
    intro n
    rw [h.sound.register]
    rfl
  show (Datum.readAll ctx.draft.register.get? ctx.pattern.outputs).isSome = true ↔ _
  rw [Datum.isSome_readAll_iff]
  simp only [hdomain, ctx.contains_register_roster]
  constructor
  · intro hall
    by_cases hout : ctx.pattern.outputs = []
    · exact .inr hout
    · -- some output has a bit, and it is not from a command
      obtain ⟨n, hn⟩ := List.exists_mem_of_ne_nil _ hout
      rcases hall n hn with ⟨command, hcommand, hmeasures⟩ | hread
      · exact absurd hn ((h.wellFormed.commands_allowed command hcommand).not_output n hmeasures)
      · exact .inl hread.1
  · rintro (hmeasure | hout) n hn
    · exact .inr ⟨hmeasure, hn⟩
    · rw [hout] at hn
      exact absurd hn List.not_mem_nil

/-- **Register**: a compiled pattern writes its classical bits in order, one for each measurement,
keeps one for each node that is measured, and reads none before it is written. -/
theorem compile_register {p : Pattern} {inputs : SortedMap Node InputState}
    {options : CompileOptions} {c : Compiled} (h : p.compile inputs options = .ok c) :
    p.KeepsRegister options c := by
  obtain ⟨haccepted, rfl⟩ := compile_eq_ok_iff.mp h
  set ctx : CompileContext := ⟨p, inputs, options⟩
  have hsound := haccepted.sound
  have hledger := haccepted.ledger
  have hregister : ∀ n, (ctx.draft.compiled ctx).register.get? n = ctx.roster.register.get? n :=
    fun n => congrArg (·.get? n) hsound.register
  refine ⟨hledger.numbered, ?_, hledger.count.trans ctx.bits_roster, fun a b k ha hb => ?_,
    fun n => ?_, fun n k hn => ?_, hledger.causal, isSome_outputBits?_iff haccepted⟩
  · exact hsound.bits.trans hledger.count.symm
  · rw [hregister] at ha hb
    exact haccepted.settled.injective a b k ha hb
  · rw [← ctx.contains_register_roster, SortedMap.contains, Option.isSome_iff_exists, hregister]
  · rw [hregister] at hn
    have hplaced := (hsound.placed n).mpr (haccepted.settled.placed n k hn)
    obtain ⟨w, hw⟩ := Option.isSome_iff_exists.mp hplaced
    refine ⟨w, hw, ?_⟩
    rw [← Draft.wireAt_of_get? hw]
    exact hledger.written n k hn

/-- The chain with its outputs measured has two bits for commands and two for outputs. -/
theorem keepsRegister_relay :
    ∃ c, relay.compile ∅ .forExecution = .ok c ∧ relay.KeepsRegister .forExecution c ∧
      c.bitCount = 4 := by
  obtain ⟨c, h⟩ := exists_compile_relay .forExecution
  have hregister := compile_register h
  refine ⟨c, h, hregister, ?_⟩
  rw [hregister.bitCount, hregister.count]
  decide +kernel

end Pattern

end OneWay
