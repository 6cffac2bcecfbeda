import OneWay.Proofs.Circuit.Depth
import OneWay.Proofs.Simulation.Completion

/-!
# What a shot has access to

An instruction is carried out in several operations: a gate is applied and then disturbed wire by
wire and channel by channel, and measurements and resets go wire by wire. `Shot.Reaches` is the
shot as a machine that performs one operation at a time, and `Shot.run_eq_ok_iff` and
`Shot.run_eq_error_iff` say that it is the shot.

Every access by index that an operation makes is to a place that may not be there, and then the
operation ends out of range. In a shot of a valid circuit this does not happen
(`Circuit.access_in_range`): the operations that are pending fit the registers, and each of them
leaves the state and the register as large as they were.
-/

namespace OneWay

namespace Shot

/-! ### Operations -/

/-- What is done to a shot at a time. -/
inductive Op where
  | apply (g : Gate) (qubits : List Qubit)
  | disturb (channel : NoiseChannel) (q : Qubit)
  | measure (q : Qubit) (b : Bit)
  | reset (q : Qubit)
  | snapshot
  deriving DecidableEq, Repr

/-- The operations of a gate: those of the channels come after it, wire by wire. -/
def gateOps (noise : NoiseModel) (g : Gate) (qubits : List Qubit) : List Op :=
  let channels := if qubits.length = 1 then noise.singleQubit else noise.twoQubit
  .apply g qubits :: qubits.flatMap fun q => channels.map (Op.disturb · q)

/-- The operations of an instruction, given the classical register. -/
def opsOf (noise : NoiseModel) (register : Array Bool) (inst : Instruction) : List Op :=
  match inst.action with
  | .gate g =>
    if g.condition.all (·.holds register) then gateOps noise g.gate inst.qubits else []
  | .measure => (inst.qubits.zip inst.bits).map fun e => .measure e.1 e.2
  | .reset => inst.qubits.map .reset
  | .snapshot => [.snapshot]
  | .barrier => []

variable {σ : Type} [RandomSource σ] {t : Trigonometry} {noise : NoiseModel} {c : Circuit}

/-- The effect of an operation. -/
def perform (t : Trigonometry) (noise : NoiseModel) (s : Shot σ) :
    Op → Except SimulationFault (Shot σ)
  | .apply g qubits => do pure { s with amplitudes := ← s.amplitudes.apply t g qubits }
  | .disturb channel q => s.disturb t channel q
  | .measure q b => s.measure noise q b
  | .reset q => s.reset q
  | .snapshot => .ok (if s.snapshot.isNone then { s with snapshot := some s.amplitudes } else s)

theorem disturbAll_eq_foldlM (channels : List NoiseChannel) (qubits : List Qubit) (s : Shot σ) :
    disturbAll t channels qubits s
      = (qubits.flatMap fun q => channels.map (Op.disturb · q)).foldlM (perform t noise) s := by
  unfold disturbAll
  induction qubits generalizing s with
  | nil => rfl
  | cons q qubits ih =>
    rw [List.foldlM_cons, List.flatMap_cons, List.foldlM_append, List.foldlM_map]
    exact congrArg (_ >>= ·) (funext ih)

theorem gate_eq_foldlM (g : Gate) (qubits : List Qubit) (s : Shot σ) :
    s.gate t noise g qubits = (gateOps noise g qubits).foldlM (perform t noise) s := by
  unfold Shot.gate gateOps
  rw [List.foldlM_cons]
  show _ = (do pure { s with amplitudes := ← s.amplitudes.apply t g qubits }) >>= _
  cases s.amplitudes.apply t g qubits with
  | error f => rfl
  | ok amplitudes => exact disturbAll_eq_foldlM _ qubits _

/-- An instruction performs its operations one after another. -/
theorem step_eq_foldlM (s : Shot σ) (inst : Instruction) :
    s.step t noise inst = (opsOf noise s.register inst).foldlM (perform t noise) s := by
  unfold step opsOf
  cases inst.action with
  | gate g =>
    simp only
    cases g.condition with
    | none => exact gate_eq_foldlM ..
    | some condition =>
      simp only [Option.all_some]
      -- a gate that is not applied is not disturbed either
      split
      · exact gate_eq_foldlM ..
      · rfl
  | measure =>
    simp only
    rw [List.foldlM_map]
    rfl
  | reset =>
    simp only
    rw [List.foldlM_map]
    rfl
  | snapshot => rfl
  | barrier => rfl

/-! ### Shots as machines -/

/-- The states of a shot, each with the operations that the instruction at hand still has to
perform and the instructions that come after it. -/
inductive Reaches (t : Trigonometry) (noise : NoiseModel) (c : Circuit) (source : σ) :
    Shot σ → List Op → List Instruction → Prop
  | start : Reaches t noise c source (start c source) [] c.instructions.toList
  | fetch {s : Shot σ} {inst : Instruction} {l : List Instruction} :
    Reaches t noise c source s [] (inst :: l) →
      Reaches t noise c source s (opsOf noise s.register inst) l
  | perform {s s' : Shot σ} {op : Op} {ops : List Op} {l : List Instruction} :
    Reaches t noise c source s (op :: ops) l → s.perform t noise op = .ok s' →
      Reaches t noise c source s' ops l

variable {source : σ} {s : Shot σ} {ops : List Op} {l : List Instruction}

/-- The shot ends as it does from any of its states. -/
theorem Reaches.run_eq (h : Reaches t noise c source s ops l) :
    run t noise c source = ops.foldlM (Shot.perform t noise) s >>= (l.foldlM (step t noise) ·) := by
  -- both sides lose an operation that is performed, and a fetched instruction is its operations
  induction h with
  | start => rfl
  | @fetch s inst l _ ih =>
    rw [ih, ← step_eq_foldlM]
    rfl
  | @perform s s' op ops l _ hperform ih =>
    rw [ih, List.foldlM_cons, hperform]
    rfl

/-- From any of its states a shot performs what is pending, or an operation fails. -/
theorem Reaches.drain (h : Reaches t noise c source s ops l) :
    (∃ s', Reaches t noise c source s' [] l) ∨
      ∃ s' op ops' f, Reaches t noise c source s' (op :: ops') l ∧
        s'.perform t noise op = .error f := by
  induction ops generalizing s with
  | nil => exact .inl ⟨s, h⟩
  | cons op ops ih =>
    cases hperform : s.perform t noise op with
    | error f => exact .inr ⟨s, op, ops, f, h, hperform⟩
    | ok s' => exact ih (h.perform hperform)

/-- From any of its states a shot comes to its end, or an operation fails. -/
theorem Reaches.finish (h : Reaches t noise c source s ops l) :
    (∃ s', Reaches t noise c source s' [] []) ∨
      ∃ s' op ops' l' f, Reaches t noise c source s' (op :: ops') l' ∧
        s'.perform t noise op = .error f := by
  induction l generalizing s ops with
  | nil =>
    rcases h.drain with hend | ⟨s', op, ops', f, hreach, hfail⟩
    · exact .inl hend
    · exact .inr ⟨s', op, ops', [], f, hreach, hfail⟩
  | cons inst l ih =>
    rcases h.drain with ⟨s', hreach⟩ | ⟨s', op, ops', f, hreach, hfail⟩
    · exact ih hreach.fetch
    · exact .inr ⟨s', op, ops', inst :: l, f, hreach, hfail⟩

theorem Reaches.run_eq_error {op : Op} (h : Reaches t noise c source s (op :: ops) l)
    {f : SimulationFault} (hfail : s.perform t noise op = .error f) :
    run t noise c source = .error f := by
  rw [h.run_eq, List.foldlM_cons, hfail]
  rfl

/-- **A shot ends well** where the machine comes to its end. -/
theorem run_eq_ok_iff : run t noise c source = .ok s ↔ Reaches t noise c source s [] [] := by
  constructor
  · intro hrun
    have hstart : Reaches t noise c source _ _ _ := .start
    rcases hstart.finish with ⟨s', hend⟩ | ⟨s', op, ops, l, f, hreach, hfail⟩
    · have hrun' : run t noise c source = .ok s' := hend.run_eq
      rw [hrun] at hrun'
      cases hrun'
      exact hend
    · rw [hreach.run_eq_error hfail] at hrun
      cases hrun
  · exact fun hend => hend.run_eq

/-- **A shot fails** where the machine comes to an operation that does. -/
theorem run_eq_error_iff {f : SimulationFault} :
    run t noise c source = .error f ↔
      ∃ s op ops l, Reaches t noise c source s (op :: ops) l ∧ s.perform t noise op = .error f := by
  constructor
  · intro hrun
    have hstart : Reaches t noise c source _ _ _ := .start
    rcases hstart.finish with ⟨s', hend⟩ | ⟨s', op, ops, l, g, hreach, hfail⟩
    · rw [run_eq_ok_iff.mpr hend] at hrun
      cases hrun
    · rw [hreach.run_eq_error hfail] at hrun
      cases hrun
      exact ⟨s', op, ops, l, hreach, hfail⟩
  · rintro ⟨s, op, ops, l, hreach, hfail⟩
    exact hreach.run_eq_error hfail

/-! ### Access -/

/-- The operation has the wires that it needs, and these and its classical bit are within the
registers. -/
def Op.Fits (c : Circuit) : Op → Prop
  | .apply g qubits => qubits.length = g.arity ∧ ∀ q ∈ qubits, q < c.numQubits
  | .disturb _ q => q < c.numQubits
  | .measure q b => q < c.numQubits ∧ b < c.numBits
  | .reset q => q < c.numQubits
  | .snapshot => True

theorem fits_of_mem_gateOps {g : Gate} {qubits : List Qubit} (harity : qubits.length = g.arity)
    (hq : ∀ q ∈ qubits, q < c.numQubits) {op : Op} (h : op ∈ gateOps noise g qubits) :
    op.Fits c := by
  rcases List.mem_cons.mp h with rfl | hdisturb
  · exact ⟨harity, hq⟩
  · obtain ⟨q, hmem, hchannel⟩ := List.mem_flatMap.mp hdisturb
    obtain ⟨channel, -, rfl⟩ := List.mem_map.mp hchannel
    exact hq q hmem

/-- The operations of an instruction fit where the instruction does. -/
theorem fits_of_mem_opsOf {inst : Instruction} (hfits : inst.Fits c.numQubits c.numBits)
    {register : Array Bool} {op : Op} (h : op ∈ opsOf noise register inst) : op.Fits c := by
  obtain ⟨harity, hqubits, hbits, -⟩ := hfits
  unfold opsOf at h
  unfold Instruction.HasArity at harity
  cases haction : inst.action with
  | gate g =>
    rw [haction] at harity h
    simp only at h
    split at h
    · exact fits_of_mem_gateOps harity hqubits h
    · cases h
  | measure =>
    rw [haction] at h
    obtain ⟨e, he, rfl⟩ := List.mem_map.mp h
    obtain ⟨hq, hb⟩ := List.of_mem_zip he
    exact ⟨hqubits e.1 hq, hbits e.2 (List.mem_append_left _ hb)⟩
  | reset =>
    rw [haction] at h
    obtain ⟨q, hq, rfl⟩ := List.mem_map.mp h
    exact hqubits q hq
  | snapshot =>
    rw [haction] at h
    obtain rfl := List.mem_singleton.mp h
    trivial
  | barrier =>
    rw [haction] at h
    cases h

/-- **One operation** that fits keeps the sizes, and only a coin can stop it. -/
theorem Sized.perform (t : Trigonometry) (noise : NoiseModel) (h : s.Sized c) {op : Op}
    (hop : op.Fits c) : Yields (Sized c) (s.perform t noise op) := by
  cases op with
  | apply g qubits =>
    obtain ⟨w, happly, hw⟩ := Amplitudes.exists_apply t hop.1 hop.2 h.amplitudes
    simp only [Shot.perform, happly]
    exact ⟨hw.trans h.amplitudes, h.register⟩
  | disturb channel q => exact h.disturb t channel hop
  | measure q b => exact h.measure noise q hop.2
  | reset q => exact h.reset hop
  | snapshot =>
    show Sized c (if _ then _ else _)
    split
    · exact ⟨h.amplitudes, h.register⟩
    · exact h

/-- **A run** of operations keeps the sizes, and what is pending fits. -/
theorem Reaches.sized (hc : c.validate = .ok ()) (h : Reaches t noise c source s ops l) :
    s.Sized c ∧ (∀ op ∈ ops, op.Fits c) ∧ ∀ inst ∈ l, inst.Fits c.numQubits c.numBits := by
  induction h with
  | start => exact ⟨sized_start c source, by simp, Circuit.validate_eq_ok_iff.mp hc⟩
  | fetch _ ih =>
    obtain ⟨hsized, -, hfits⟩ := ih
    obtain ⟨hinst, hl⟩ := List.forall_mem_cons.mp hfits
    exact ⟨hsized, fun op hop => fits_of_mem_opsOf hinst hop, hl⟩
  | perform _ hperform ih =>
    obtain ⟨hsized, hfits, hl⟩ := ih
    obtain ⟨hop, hops⟩ := List.forall_mem_cons.mp hfits
    have hyields := hsized.perform t noise hop
    rw [hperform] at hyields
    exact ⟨hyields, hops, hl⟩

end Shot

/-- **Access**: in a valid circuit of at most 30 wires the fronts of all operands are found, and a
shot never ends out of range. Whatever it has done so far, its state has exactly as many
amplitudes as there are assignments to the wires, its register has as many bits as the circuit,
each pending operation has its wires and its bit within the registers, and the next one does not
end out of range. -/
theorem Circuit.access_in_range {c : Circuit} (hc : c.validate = .ok ()) (hn : c.numQubits ≤ 30) :
    (∃ depth, c.depth? = some depth) ∧
    ∀ {σ : Type} [RandomSource σ] (t : Trigonometry) (noise : NoiseModel) (source : σ),
      Shot.run t noise c source ≠ .error .outOfRange ∧
      ∀ s ops l, Shot.Reaches t noise c source s ops l →
        s.amplitudes.size = 2 ^ c.numQubits ∧ s.amplitudes.size ≤ 2 ^ 30 ∧
        s.register.size = c.numBits ∧
        (∀ op ∈ ops, op.Fits c) ∧
        ∀ op ∈ ops.head?, s.perform t noise op ≠ .error .outOfRange := by
  have hfits := validate_eq_ok_iff.mp hc
  refine ⟨?_, fun {σ} _ t noise source => ?_⟩
  · refine Option.isSome_iff_exists.mp (depth?_isSome_iff.mpr fun inst hinst => ?_)
    exact inRange_of_fits (hfits inst hinst)
  · -- the shot fails with a pending operation, and none of those ends out of range
    have hnext : ∀ s op ops l, Shot.Reaches t noise c source s (op :: ops) l →
        s.perform t noise op ≠ .error .outOfRange := by
      intro s op ops l hreach hperform
      obtain ⟨hsized, hops, -⟩ := hreach.sized hc
      have hyields := hsized.perform t noise (hops op List.mem_cons_self)
      rw [hperform] at hyields
      cases hyields
    constructor
    · intro hrun
      obtain ⟨s, op, ops, l, hreach, hperform⟩ := Shot.run_eq_error_iff.mp hrun
      exact hnext s op ops l hreach hperform
    · intro s ops l hreach
      obtain ⟨hsized, hops, -⟩ := hreach.sized hc
      refine ⟨hsized.amplitudes, ?_, hsized.register, hops, ?_⟩
      · rw [hsized.amplitudes]
        exact Nat.pow_le_pow_right (by decide) hn
      · intro op hop
        obtain ⟨rest, rfl⟩ := List.head?_eq_some_iff.mp hop
        exact hnext s op rest l hreach

/-- A conditioned gate after a measurement and a reset, on two wires. -/
theorem Circuit.access_in_range_pair :
    let c : Circuit := ⟨"pair", 2, 1, #[⟨.gate { gate := .h }, [0], []⟩,
      ⟨.gate { gate := .cx }, [0, 1], []⟩, ⟨.measure, [1], [0]⟩, ⟨.reset, [1], []⟩,
      ⟨.gate { gate := .x, condition := some ⟨[0], true⟩ }, [1], []⟩]⟩
    c.validate = .ok () ∧ c.depth? = some 5 ∧
      ∀ (noise : NoiseModel) (source : Recorded),
        Shot.run .machine noise c source ≠ .error .outOfRange := by
  intro c
  have hc : c.validate = .ok () := by decide
  exact ⟨hc, by decide, fun noise source => ((access_in_range hc (by decide)).2 _ noise source).1⟩

/-- A gate without its second wire ends out of range. -/
example (t : Trigonometry) (noise : NoiseModel) (source : Recorded) :
    Shot.run t noise ⟨"", 1, 0, #[⟨.gate { gate := .cx }, [0], []⟩]⟩ source
      = .error .outOfRange :=
  rfl

end OneWay
