import OneWay.Proofs.Simulation.Access
import OneWay.Proofs.Simulation.Control

/-!
# Watching a simulation does not change it

A snapshot copies the amplitudes and touches nothing else, a barrier does nothing, and the label of
a gate is not read. So a shot of a circuit and a shot of the same circuit without them differ in what
was recorded only (`Shot.run_active`), and draw the same numbers. As all shots of a simulation draw
from one source, that is what the whole simulation rests on (`Circuit.simulate_of_run`).

What the record holds plays no part in an operation (`Shot.perform_recording`), from which all of
this follows, and also that a simulation gives amplitudes iff its circuit has a snapshot
(`Circuit.isSome_statevector_iff`).
-/

namespace OneWay

/-! ### Circuits without what only watches -/

/-- The instruction without the label of its gate. -/
def Instruction.unlabelled (inst : Instruction) : Instruction :=
  match inst.action with
  | .gate g => { inst with action := .gate { g with label := none } }
  | _ => inst

theorem Instruction.Fits.unlabelled {inst : Instruction} {q b : Nat} (h : inst.Fits q b) :
    inst.unlabelled.Fits q b := by
  obtain ⟨action, qubits, bits⟩ := inst
  cases action with
  | gate g => exact ⟨h.arity, h.qubits_lt, h.bits_lt, h.nodup⟩
  | measure | reset | barrier | snapshot => exact h

namespace Circuit

/-- The circuit without barriers and snapshots. -/
def active (c : Circuit) : Circuit :=
  { c with instructions := c.instructions.filter (!·.isPassive) }

/-- The circuit without labels. -/
def unlabelled (c : Circuit) : Circuit :=
  { c with instructions := c.instructions.map Instruction.unlabelled }

theorem validate_active {c : Circuit} (hc : c.validate = .ok ()) : c.active.validate = .ok () := by
  rw [validate_eq_ok_iff] at hc ⊢
  intro inst hinst
  apply hc
  rw [active, Array.toList_filter] at hinst
  exact List.mem_of_mem_filter hinst

theorem validate_unlabelled {c : Circuit} (hc : c.validate = .ok ()) :
    c.unlabelled.validate = .ok () := by
  rw [validate_eq_ok_iff] at hc ⊢
  intro inst hinst
  rw [unlabelled, Array.toList_map] at hinst
  obtain ⟨labelled, hmem, rfl⟩ := List.mem_map.mp hinst
  exact (hc labelled hmem).unlabelled

end Circuit

/-! ### Shots -/

namespace Shot

variable {σ : Type} {t : Trigonometry} {noise : NoiseModel} {c : Circuit}

/-- The shot with something else on record. -/
def recording (record : Option Amplitudes) (s : Shot σ) : Shot σ := { s with snapshot := record }

theorem bind_recording {α : Type} {record : Option Amplitudes} {x : Except SimulationFault α}
    {f g : α → Except SimulationFault (Shot σ)} (h : ∀ a, f a = recording record <$> g a) :
    x >>= f = recording record <$> (x >>= g) := by
  rw [map_bind]
  exact congrArg _ (funext h)

theorem flip_recording (record : Option Amplitudes) (g : Gate) (q : Qubit) (s : Shot σ) :
    (s.recording record).flip t g q = recording record <$> s.flip t g q :=
  bind_recording fun _ => rfl

variable [RandomSource σ]

theorem disturb_recording (record : Option Amplitudes) (channel : NoiseChannel) (q : Qubit)
    (s : Shot σ) :
    (s.recording record).disturb t channel q = recording record <$> s.disturb t channel q := by
  unfold disturb
  cases channel.kind with
  | amplitudeDamping => exact bind_recording fun _ => rfl
  | depolarizing | bitFlip | phaseFlip =>
    apply bind_recording
    rintro ⟨hit, source⟩
    cases hit with
    | false => rfl
    | true =>
      simp only [if_true]
      exact flip_recording record _ q { s with source := _ }

theorem measure_recording (record : Option Amplitudes) (q : Qubit) (b : Bit) (s : Shot σ) :
    (s.recording record).measure noise q b = recording record <$> s.measure noise q b := by
  apply bind_recording
  rintro ⟨outcome, amplitudes, source⟩
  apply bind_recording
  rintro ⟨bit, source'⟩
  show (if h : b < s.register.size then _ else _)
    = _ <$> (if h : b < s.register.size then _ else _ : Except SimulationFault (Shot σ))
  by_cases hb : b < s.register.size
  · rw [dif_pos hb, dif_pos hb]
    rfl
  · rw [dif_neg hb, dif_neg hb]
    rfl

/-- What is on record plays no part in an operation that does not record. -/
theorem perform_recording (record : Option Amplitudes) {op : Op} (hop : op ≠ .snapshot)
    (s : Shot σ) :
    (s.recording record).perform t noise op = recording record <$> s.perform t noise op := by
  cases op with
  | apply g qubits => exact bind_recording fun _ => rfl
  | disturb channel q => exact disturb_recording record channel q s
  | measure q b => exact measure_recording record q b s
  | reset q => exact bind_recording fun _ => rfl
  | snapshot => exact absurd rfl hop

theorem performAll_recording (record : Option Amplitudes) {ops : List Op} (hops : .snapshot ∉ ops)
    (s : Shot σ) :
    ops.foldlM (perform t noise) (s.recording record)
      = recording record <$> ops.foldlM (perform t noise) s := by
  induction ops generalizing s with
  | nil => rfl
  | cons op ops ih =>
    have hop : op ≠ .snapshot := fun heq => hops (heq ▸ List.mem_cons_self ..)
    have hrest : .snapshot ∉ ops := fun hmem => hops (List.mem_cons_of_mem _ hmem)
    rw [List.foldlM_cons, List.foldlM_cons, perform_recording record hop, bind_map_left]
    exact bind_recording fun s' => ih hrest s'

/-- Only snapshots record. -/
theorem snapshot_not_mem_opsOf (register : Array Bool) {inst : Instruction}
    (h : inst.isPassive = false) : Op.snapshot ∉ opsOf noise register inst := by
  unfold opsOf
  unfold Instruction.isPassive at h
  cases haction : inst.action with
  | gate g =>
    simp only
    split
    · simp [gateOps]
    · simp
  | measure | reset => simp
  | barrier | snapshot =>
    rw [haction] at h
    cases h

/-- **One instruction** that is not passive does the same whatever is on record. -/
theorem step_recording (record : Option Amplitudes) {inst : Instruction}
    (h : inst.isPassive = false) (s : Shot σ) :
    (s.recording record).step t noise inst = recording record <$> s.step t noise inst := by
  rw [step_eq_foldlM, step_eq_foldlM]
  exact performAll_recording record (snapshot_not_mem_opsOf s.register h) s

/-- **One instruction** that is passive records at most. -/
theorem step_of_isPassive (record : Option Amplitudes) {inst : Instruction}
    (h : inst.isPassive = true) (s : Shot σ) :
    recording record <$> s.step t noise inst = .ok (s.recording record) := by
  unfold Instruction.isPassive at h
  unfold step
  cases haction : inst.action with
  | gate | measure | reset =>
    rw [haction] at h
    cases h
  | barrier => rfl
  | snapshot =>
    simp only
    split <;> rfl

/-- **Several instructions**: leaving the passive ones out changes what is on record and nothing
else. -/
theorem steps_active (record : Option Amplitudes) (l : List Instruction) (s : Shot σ) :
    (l.filter (!·.isPassive)).foldlM (step t noise) (s.recording record)
      = recording record <$> l.foldlM (step t noise) s := by
  -- the shot varies: what is left to do starts from where the first instruction has ended
  induction l generalizing s with
  | nil => rfl
  | cons inst l ih =>
    rw [List.foldlM_cons, map_bind]
    cases hpassive : inst.isPassive with
    | true =>
      -- the one side skips the instruction and the other takes a step that only records
      have hskip : recording record <$> s.step t noise inst = .ok (s.recording record) :=
        step_of_isPassive record hpassive s
      rw [List.filter_cons_of_neg (by simp [hpassive]), ← funext ih,
        ← bind_map_left (recording record) _ (List.foldlM (step t noise) · _), hskip]
      rfl
    | false =>
      rw [List.filter_cons_of_pos (by simp [hpassive]), List.foldlM_cons,
        step_recording record hpassive, bind_map_left]
      exact congrArg _ (funext fun s' => ih s')

/-- **One shot** without barriers and snapshots ends as with them, but with nothing on record. -/
theorem run_active (source : σ) :
    run t noise c.active source = recording none <$> run t noise c source := by
  unfold run Circuit.active
  rw [Array.toList_filter]
  exact steps_active none c.instructions.toList (start c source)

theorem step_unlabelled (s : Shot σ) (inst : Instruction) :
    s.step t noise inst.unlabelled = s.step t noise inst := by
  obtain ⟨action, qubits, bits⟩ := inst
  cases action <;> rfl

/-- **One shot** without labels is the same shot. -/
theorem run_unlabelled (source : σ) : run t noise c.unlabelled source = run t noise c source := by
  unfold run Circuit.unlabelled
  rw [Array.toList_map, List.foldlM_map, funext₂ step_unlabelled]
  rfl

/-! ### What is on record -/

/-- An instruction that is not passive leaves what is on record. -/
theorem snapshot_of_step {s s' : Shot σ} {inst : Instruction} (hactive : inst.isPassive = false)
    (h : s.step t noise inst = .ok s') : s'.snapshot = s.snapshot := by
  -- the shot is its own copy with the same record, and so it is afterwards
  have hsame : s.step t noise inst = recording s.snapshot <$> s.step t noise inst :=
    step_recording s.snapshot hactive s
  rw [h] at hsame
  have hcopy : s' = s'.recording s.snapshot := Except.ok.inj hsame
  rw [hcopy]
  rfl

/-- **One instruction** leaves something on record iff there was something before or it is a
snapshot. -/
theorem isSome_snapshot_of_step {s s' : Shot σ} {inst : Instruction}
    (h : s.step t noise inst = .ok s') :
    s'.snapshot.isSome = true ↔ s.snapshot.isSome = true ∨ inst.action = .snapshot := by
  cases haction : inst.action with
  | gate | measure | reset =>
    rw [snapshot_of_step (by simp [Instruction.isPassive, haction]) h]
    simp
  | barrier =>
    simp only [step, haction] at h
    obtain rfl := Except.ok.inj h
    simp
  | snapshot =>
    simp only [step, haction] at h
    obtain rfl := Except.ok.inj h
    cases hrecord : s.snapshot <;> simp [hrecord]

/-- **Several instructions** leave something on record iff there was something before or one of them
is a snapshot. -/
theorem isSome_snapshot_of_steps {l : List Instruction} {s s' : Shot σ}
    (h : l.foldlM (step t noise) s = .ok s') :
    s'.snapshot.isSome = true ↔
      s.snapshot.isSome = true ∨ ∃ inst ∈ l, inst.action = .snapshot := by
  induction l generalizing s with
  | nil =>
    obtain rfl := Except.ok.inj h
    simp
  | cons inst l ih =>
    rw [List.foldlM_cons] at h
    obtain ⟨s₁, hstep, hrest⟩ := bind_eq_ok_iff.mp h
    rw [ih hrest, isSome_snapshot_of_step hstep, List.exists_mem_cons_iff, or_assoc]

end Shot

/-! ### Simulations -/

/-- The result without the amplitudes. -/
def ExecutionResult.unwatched (r : ExecutionResult) : ExecutionResult :=
  { r with statevector := none }

namespace Circuit

variable {σ : Type} [RandomSource σ] {c c' : Circuit} {t : Trigonometry} {noise : NoiseModel}

theorem repeatShots_of_run
    (hrun : ∀ source : σ,
      Shot.run t noise c' source = Shot.recording none <$> Shot.run t noise c source)
    (n : Nat) (tally : Tally σ) :
    repeatShots t noise c' n tally = repeatShots t noise c n tally := by
  induction n generalizing tally with
  | zero => rfl
  | succ n ih =>
    unfold repeatShots
    rw [hrun, bind_map_left]
    exact congrArg _ (funext fun shot => ih _)

/-- **All shots** of a simulation: where single shots differ in what is on record only, the
counts are the same and so is the source that is left. -/
theorem simulate_of_run
    (hrun : ∀ source : σ,
      Shot.run t noise c' source = Shot.recording none <$> Shot.run t noise c source)
    (shots : Nat) (source : σ) :
    c'.simulate t noise shots source
      = Prod.map .unwatched id <$> c.simulate t noise shots source := by
  cases shots with
  | zero => rfl
  | succ n =>
    unfold simulate
    simp only
    rw [hrun, bind_map_left, map_bind]
    refine congrArg _ (funext fun first => ?_)
    rw [repeatShots_of_run hrun, map_bind]
    rfl

/-- A simulation of at least one shot gives amplitudes iff the circuit has a snapshot. -/
theorem isSome_statevector_iff {shots : Nat} (hshots : 1 ≤ shots) {source source' : σ}
    {r : ExecutionResult} (h : c.simulate t noise shots source = .ok (r, source')) :
    r.statevector.isSome = true ↔ ∃ inst ∈ c.instructions.toList, inst.action = .snapshot := by
  obtain ⟨n, rfl⟩ := Nat.exists_eq_add_of_le' hshots
  obtain ⟨first, hfirst, hrest⟩ := bind_eq_ok_iff.mp h
  obtain ⟨tally, -, hresult⟩ := bind_eq_ok_iff.mp hrest
  obtain ⟨rfl, -⟩ := Prod.mk.inj (Except.ok.inj hresult)
  show first.snapshot.isSome = true ↔ _
  rw [Shot.isSome_snapshot_of_steps hfirst]
  simp [Shot.start]

end Circuit

end OneWay
