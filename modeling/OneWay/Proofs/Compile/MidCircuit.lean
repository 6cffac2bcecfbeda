import OneWay.Proofs.Circuit.MidCircuit
import OneWay.Proofs.Compile.Wires

/-!
# When a compiled pattern acts after a measurement

On a compiled circuit three things say the same: an operation follows a measurement on its wire,
some wire is reset, two nodes share a wire.

`Draft.Scanned` ties the measured wires that a scan of the circuit has met to the books: all free
wires are among them, and no wire of a node without outcome is. So the first operation on a
measured wire is the reset of a free one (`Draft.Scanned.reusesMeasured_trace`). A wire is reset
when it is given to a second node (`Draft.resets_trace_iff`).
-/

namespace OneWay

open Circuit

namespace Draft

variable {d : Draft} {r : Roster} {reuse : Bool} {measured : List Qubit}

/-- What a node gets, and what is emitted for it. -/
theorem emits_claim_cases (d : Draft) (n : Node) :
    (∃ w ∈ d.free.toList, d.emits (.claim n) = [⟨.reset, [w], []⟩] ∧
      ∀ reuse, (d.play reuse (.claim n)).wires = d.wires.insert n w) ∨
    (d.free.toList = [] ∧ d.emits (.claim n) = [] ∧ ∀ reuse, d.play reuse (.claim n)
      = { d with
          circuit := d.circuit.addQubit.2
          wires := d.wires.insert n d.circuit.numQubits }) := by
  have hemits := d.instructions_events (.claim n)
  obtain ⟨w, free, hfree, hevents, hplay⟩ | ⟨hfree, hevents, hplay⟩ := d.events_claim_cases n
  · rw [hevents] at hemits
    refine .inl ⟨w, ?_, hemits.symm, fun reuse => by rw [hplay]⟩
    rw [hfree]
    exact List.mem_cons_self ..
  · rw [hevents] at hemits
    exact .inr ⟨hfree, hemits.symm, hplay⟩

/-! ### Operations on measured wires -/

/-- The measured wires that a scan has met, and the books at that point. -/
structure Scanned (measured : List Qubit) (d : Draft) (r : Roster) : Prop where
  free : ∀ w ∈ d.free, w ∈ measured
  /-- The wire of a node without outcome is not measured. -/
  unread : ∀ n ∈ r.placed, r.Open n → d.wireAt n ∉ measured
  lt : ∀ w ∈ measured, w < d.circuit.numQubits

namespace Scanned

theorem start : Scanned [] .start {} where
  free := fun w hw => absurd hw (SortedSet.not_mem_empty w)
  unread := fun _ hn => absurd hn List.not_mem_nil
  lt := fun _ hw => absurd hw List.not_mem_nil

/-- A node gets a new wire, which is not measured. -/
theorem claim (h : Scanned measured d r) {n : Node}
    (hplay : d.play reuse (.claim n) = { d with
      circuit := d.circuit.addQubit.2
      wires := d.wires.insert n d.circuit.numQubits }) :
    Scanned measured (d.play reuse (.claim n)) (r.move (.claim n)) := by
  rw [hplay]
  refine ⟨h.free, fun x hx hopen => ?_, fun w hw => Nat.lt_succ_of_lt (h.lt w hw)⟩
  show (d.wires.insert n d.circuit.numQubits).getD x 0 ∉ measured
  rw [wireAt_insert]
  split
  · exact fun hmem => Nat.lt_irrefl _ (h.lt _ hmem)
  · next hxn =>
    rcases List.mem_append.mp hx with hx | hx
    · exact h.unread x hx hopen
    · exact absurd (List.mem_singleton.mp hx) hxn

/-- The wire of a node that is measured joins the measured ones, and those of the others stay
apart from them. -/
theorem read (h : Scanned measured d r) (hsound : Sound reuse d r) (hsettled : r.Settled)
    {n : Node} (hn : r.Live n) {d' : Draft} {r' : Roster} (hwires : d'.wires = d.wires)
    (hqubits : d'.circuit.numQubits = d.circuit.numQubits) (hplaced : r'.placed = r.placed)
    (hregister : r'.register = r.register.insert n r.bits)
    (hfree : ∀ w ∈ d'.free, w = d.wireAt n ∨ w ∈ d.free) :
    Scanned ([d.wireAt n] ++ measured) d' r' := by
  refine ⟨fun w hw => ?_, fun x hx hopen => ?_, fun w hw => ?_⟩
  · rcases hfree w hw with rfl | hw
    · exact List.mem_cons_self ..
    · exact List.mem_cons_of_mem _ (h.free w hw)
  · rw [hplaced] at hx
    unfold Roster.Open at hopen
    rw [hregister, SortedMap.get?_insert] at hopen
    split at hopen
    · cases hopen
    · next hxn =>
      -- a node without outcome holds its wire, and so does `n`
      have hlive : r.Live x := ⟨hx, fun hm => hsettled.measured x hm hopen⟩
      rw [wireAt_congr hwires]
      intro hmem
      rcases List.mem_cons.mp hmem with heq | hmem
      · exact hxn (hsound.wireAt_injOn x (Roster.mem_holders_of_live hlive) n
          (Roster.mem_holders_of_live hn) heq)
      · exact h.unread x hx hopen hmem
  · rw [hqubits]
    rcases List.mem_cons.mp hw with rfl | hw
    · exact hsound.wireAt_lt hn
    · exact h.lt w hw

/-- Nodes without outcome are not on measured wires. -/
theorem any_eq_false (h : Scanned measured d r) {nodes : List Node}
    (hlive : ∀ n ∈ nodes, r.Live n) (hopen : ∀ n ∈ nodes, r.Open n) :
    (nodes.map d.wireAt).any measured.contains = false := by
  rw [List.any_eq_false]
  intro q hq
  obtain ⟨n, hn, rfl⟩ := List.mem_map.mp hq
  rw [List.contains_iff_mem]
  exact h.unread n (hlive n hn).1 (hopen n hn)

/-- **Scan of a run**: a measured wire is used again iff a wire is reset. -/
theorem reusesMeasured_trace (h : Scanned measured d r) (hsound : Sound reuse d r)
    (hsettled : r.Settled) {l : List Move} (hl : r.AdmitsAll l) (ho : r.OrderlyAll l) :
    reusesMeasured measured (d.trace reuse l) = true ↔ Resets (d.trace reuse l) := by
  induction l generalizing measured d r with
  | nil => simp [trace, reusesMeasured, Resets]
  | cons m l ih =>
    have hsound' := hsound.play hl.1
    have hsettled' := hsettled.move hsound.roster hl.1
    rw [trace]
    cases m with
    | claim n =>
      obtain ⟨w, hw, hemits, -⟩ | ⟨-, hemits, hplay⟩ := d.emits_claim_cases n
      · -- the reset of a free wire is itself an operation on a measured wire
        replace hw : w ∈ measured := h.free w hw
        rw [hemits, List.singleton_append, reusesMeasured, resets_cons]
        simp [Instruction.isPassive, hw]
      · rw [hemits, List.nil_append]
        exact ih (h.claim (hplay reuse)) hsound' hsettled' hl.2 ho.2
    | gate g nodes =>
      rw [emits, List.singleton_append, reusesMeasured, resets_cons,
        h.any_eq_false hl.1.2.2.1 ho.1.1]
      simp only [Instruction.isPassive, reduceCtorEq, if_false, Bool.false_or, false_or]
      exact ih ⟨h.free, h.unread, h.lt⟩ hsound' hsettled' hl.2 ho.2
    | measure n =>
      have hfree : ∀ w ∈ (d.play reuse (.measure n)).free, w = d.wireAt n ∨ w ∈ d.free := by
        intro w hw
        cases reuse with
        | true => exact SortedSet.mem_insert.mp hw
        | false => exact .inr hw
      have hany : [d.wireAt n].any measured.contains = false :=
        h.any_eq_false (List.forall_mem_singleton.mpr hl.1) (List.forall_mem_singleton.mpr ho.1)
      rw [emits, List.singleton_append, reusesMeasured, resets_cons, hany]
      simp only [Instruction.isPassive, reduceCtorEq, if_false, if_true, Bool.false_or, false_or]
      have hread : Scanned ([d.wireAt n] ++ measured) (d.play reuse (.measure n))
          (r.move (.measure n)) := h.read hsound hsettled hl.1 rfl rfl rfl rfl hfree
      exact ih hread hsound' hsettled' hl.2 ho.2
    | readOut n =>
      have hany : [d.wireAt n].any measured.contains = false :=
        h.any_eq_false (List.forall_mem_singleton.mpr hl.1) (List.forall_mem_singleton.mpr ho.1)
      rw [emits, List.singleton_append, reusesMeasured, resets_cons, hany]
      simp only [Instruction.isPassive, reduceCtorEq, if_false, if_true, Bool.false_or, false_or]
      have hread : Scanned ([d.wireAt n] ++ measured) (d.play reuse (.readOut n))
          (r.move (.readOut n)) := h.read hsound hsettled hl.1 rfl rfl rfl rfl fun _ => .inr
      exact ih hread hsound' hsettled' hl.2 ho.2
    | snapshot =>
      rw [emits, List.singleton_append, reusesMeasured, resets_cons]
      simp only [Instruction.isPassive, if_true, reduceCtorEq, false_or]
      exact ih ⟨h.free, h.unread, h.lt⟩ hsound' hsettled' hl.2 ho.2

end Scanned

/-! ### Shared wires -/

/-- No two nodes of a table have the same wire. -/
def Unshared (wires : SortedMap Node Qubit) : Prop :=
  ∀ a b w, wires.get? a = some w → wires.get? b = some w → a = b

/-- Only giving out a wire changes the table or resets a wire. -/
theorem not_resets_emits (d : Draft) (reuse : Bool) {m : Move} (hm : ∀ n, m ≠ .claim n) :
    ¬ Resets (d.emits m) ∧ (d.play reuse m).wires = d.wires := by
  cases m with
  | claim n => exact absurd rfl (hm n)
  | _ => exact ⟨by simp [Resets, emits], rfl⟩

theorem unshared_insert (hcovers : d.Covers) (hshare : Unshared d.wires) (n : Node) :
    Unshared (d.wires.insert n d.circuit.numQubits) := by
  have hnew : ∀ x, d.wires.get? x = some d.circuit.numQubits → False :=
    fun x hx => Nat.lt_irrefl _ ((hcovers _).mpr ⟨x, hx⟩)
  intro a b w ha hb
  rw [SortedMap.get?_insert] at ha hb
  split at ha <;> split at hb
  · next han hbn => exact han.trans hbn.symm
  · obtain rfl := Option.some.inj ha
    exact (hnew b hb).elim
  · obtain rfl := Option.some.inj hb
    exact (hnew a ha).elim
  · exact hshare a b w ha hb

/-- **Resets of a run**: a wire is reset iff two nodes share a wire in the end. -/
theorem resets_trace_iff (hsound : Sound reuse d r) (hcovers : d.Covers)
    (hshare : Unshared d.wires) {l : List Move} (hl : r.AdmitsAll l) :
    Resets (d.trace reuse l) ↔ ¬ Unshared (d.playAll reuse l).wires := by
  induction l generalizing d r with
  | nil => simpa [trace, Resets] using hshare
  | cons m l ih =>
    have hsound' := hsound.play hl.1
    have hcovers' := hcovers.play hsound hl.1
    rw [trace, resets_append, playAll_cons]
    by_cases hclaim : ∃ n, m = .claim n
    · obtain ⟨n, rfl⟩ := hclaim
      obtain ⟨w, hw, hemits, hwires⟩ | ⟨-, hemits, hplay⟩ := d.emits_claim_cases n
      · -- the wire is that of a node already, and both nodes keep it
        obtain ⟨x, hx⟩ := (hcovers w).mp (hsound.free_lt hw)
        have hplaced : x ∈ r.placed := (hsound.placed x).mp (by rw [hx]; rfl)
        have hne : x ≠ n := fun heq => hl.1 (heq ▸ hplaced)
        have hxw : (d.play reuse (.claim n)).wires.get? x = some w := by
          rw [hwires, SortedMap.get?_insert, if_neg hne]
          exact hx
        have hnw : (d.play reuse (.claim n)).wires.get? n = some w := by
          rw [hwires, SortedMap.get?_insert, if_pos rfl]
        have hkept : ∀ y, (d.play reuse (.claim n)).wires.get? y = some w →
            ((d.play reuse (.claim n)).playAll reuse l).wires.get? y = some w := by
          intro y hy
          rw [Sound.get?_wires_playAll reuse _ hl.2 ((hsound'.placed y).mp (by rw [hy]; rfl))]
          exact hy
        rw [hemits]
        refine iff_of_true (.inl ⟨_, List.mem_singleton_self _, rfl⟩) fun hall => ?_
        exact hne (hall x n w (hkept x hxw) (hkept n hnw))
      · have hshare' : Unshared (d.play reuse (.claim n)).wires := by
          rw [hplay]
          exact unshared_insert hcovers hshare n
        rw [hemits, or_iff_right (by simp [Resets])]
        exact ih hsound' hcovers' hshare' hl.2
    · obtain ⟨hquiet, hwires⟩ := d.not_resets_emits reuse fun n hn => hclaim ⟨n, hn⟩
      rw [or_iff_right hquiet]
      exact ih hsound' hcovers' (hwires ▸ hshare) hl.2

end Draft

/-! ### Compiled patterns -/

namespace CompileContext

variable {ctx : CompileContext}

theorem instructions_draft (ctx : CompileContext) : ctx.draft.circuit.instructions.toList
    = Draft.start.trace ctx.options.qubitReuse ctx.moves := by
  rw [draft, Draft.instructions_playAll]
  rfl

theorem Accepted.hasMidCircuitMeasurement_iff (h : ctx.Accepted) :
    ctx.draft.circuit.hasMidCircuitMeasurement = true ↔
      Resets ctx.draft.circuit.instructions.toList := by
  rw [hasMidCircuitMeasurement, ctx.instructions_draft]
  exact Draft.Scanned.start.reusesMeasured_trace (Draft.sound_start _) Roster.settled_empty
    h.admitsAll h.orderlyAll

theorem Accepted.resets_iff (h : ctx.Accepted) :
    Resets ctx.draft.circuit.instructions.toList ↔ ¬ Draft.Unshared ctx.draft.wires := by
  have hstart : Draft.Unshared Draft.start.wires := by
    intro a b w ha
    cases ha
  rw [ctx.instructions_draft]
  exact Draft.resets_trace_iff (Draft.sound_start _) Draft.covers_start hstart h.admitsAll

/-- The two ways to look for operations after a measurement agree. -/
theorem Accepted.actsMidCircuit_iff (h : ctx.Accepted) :
    Capabilities.actsMidCircuit ctx.draft.circuit.numQubits [] ctx.draft.circuit.instructions.toList
      = true ↔ ctx.draft.circuit.hasMidCircuitMeasurement = true := by
  refine ⟨fun hacts => ?_, fun hmid => ?_⟩
  · by_contra hmid
    have hreset : ¬ Resets ctx.draft.circuit.instructions.toList :=
      fun hreset => hmid (h.hasMidCircuitMeasurement_iff.mpr hreset)
    exact hmid (Capabilities.reusesMeasured_of_actsMidCircuit hreset (List.Subset.refl _) hacts)
  · exact Capabilities.actsMidCircuit_of_resets (h.hasMidCircuitMeasurement_iff.mp hmid)

end CompileContext

namespace Pattern

/-- **Operations after a measurement**: a compiled circuit has some iff it resets a wire iff two
nodes share a wire, hence never without reuse. A backend that does not support them refuses
exactly these circuits for this reason. -/
theorem compile_midCircuit {p : Pattern} {inputs : SortedMap Node InputState}
    {options : CompileOptions} {c : Compiled} (h : p.compile inputs options = .ok c) :
    (c.circuit.hasMidCircuitMeasurement = true ↔
      ∃ inst ∈ c.circuit.instructions.toList, inst.action = .reset) ∧
    ((∃ inst ∈ c.circuit.instructions.toList, inst.action = .reset) ↔
      ¬ ∀ a b w, c.wires.get? a = some w → c.wires.get? b = some w → a = b) ∧
    (options.qubitReuse = false → c.circuit.hasMidCircuitMeasurement = false) ∧
    ∀ cap : Capabilities, cap.supports Capabilities.midCircuitMeasurement = false →
      ((∃ reasons, cap.check c.circuit = .invalid reasons ∧
          Violation.midCircuit.text ∈ reasons) ↔
        c.circuit.hasMidCircuitMeasurement = true) := by
  obtain ⟨haccepted, rfl⟩ := compile_eq_ok_iff.mp h
  set ctx : CompileContext := ⟨p, inputs, options⟩
  refine ⟨haccepted.hasMidCircuitMeasurement_iff, haccepted.resets_iff, fun hplain => ?_,
    fun cap hcap => ?_⟩
  · rw [← Bool.not_eq_true]
    intro hmid
    have hshared := haccepted.resets_iff.mp (haccepted.hasMidCircuitMeasurement_iff.mp hmid)
    exact hshared (haccepted.get?_injective_plain hplain)
  · rw [Capabilities.reports_midCircuit_iff hcap]
    exact haccepted.actsMidCircuit_iff

/-- The chain acts after a measurement iff wires are reused, and a backend without features says
so. -/
theorem midCircuit_relay :
    ∃ plain shared, relay.compile ∅ {} = .ok plain ∧
      relay.compile ∅ { qubitReuse := true } = .ok shared ∧
      plain.circuit.hasMidCircuitMeasurement = false ∧
      ∃ reasons, ({ Capabilities.simulator 5 with features := [] } : Capabilities).check
          shared.circuit = .invalid reasons ∧ Violation.midCircuit.text ∈ reasons := by
  obtain ⟨plain, hplain⟩ := exists_compile_relay {}
  obtain ⟨shared, hshared⟩ := exists_compile_relay { qubitReuse := true }
  refine ⟨plain, shared, hplain, hshared, (compile_midCircuit hplain).2.2.1 rfl, ?_⟩
  refine ((compile_midCircuit hshared).2.2.2 _ rfl).mpr ?_
  have hmid : (relay.compile ∅ { qubitReuse := true }).map
      (·.circuit.hasMidCircuitMeasurement) = .ok true := by decide +kernel
  rw [hshared] at hmid
  exact Except.ok.inj hmid

end Pattern

end OneWay
