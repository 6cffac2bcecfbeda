import OneWay.Simulation.Shot

/-!
# The classical control of a circuit

Which gates of a circuit are applied depends on the outcomes of its measurements and on nothing
else of the state. `Control` is what a run knows classically: the register and the number of
measurements so far. Given the outcomes, `Control.performed` lists the operations that are really
performed.

Operands are of any type here, so that the same control runs on wires and on nodes. Renaming
operands commutes with running (`Control.performed_map`).

Every shot of a simulation performs the operations of this control, for the outcomes that it reads
(`Shot.run_follows`).
-/

namespace OneWay

/-! ### Instructions and operations -/

/-- An action on given operands and classical bits. -/
structure InstructionOn (α : Type) where
  action : Action
  operands : List α
  bits : List Bit
  deriving DecidableEq, Repr

/-- The instruction with other operands. -/
def InstructionOn.map {α β : Type} (f : α → β) (inst : InstructionOn α) : InstructionOn β :=
  ⟨inst.action, inst.operands.map f, inst.bits⟩

/-- The instruction with its wires replaced. -/
def Instruction.relabel {α : Type} (f : Qubit → α) (inst : Instruction) : InstructionOn α :=
  ⟨inst.action, inst.qubits.map f, inst.bits⟩

/-- What is done to a state. -/
inductive Operation (α : Type) where
  | gate (g : Gate) (on : List α)
  /-- A measurement and the outcome that is read. -/
  | measure (on : α) (outcome : Bool)
  | reset (on : α)
  | snapshot (on : List α)
  deriving DecidableEq, Repr

/-- The operation with other operands. -/
def Operation.map {α β : Type} (f : α → β) : Operation α → Operation β
  | .gate g on => .gate g (on.map f)
  | .measure on outcome => .measure (f on) outcome
  | .reset on => .reset (f on)
  | .snapshot on => .snapshot (on.map f)

/-! ### Control -/

/-- What a run knows classically. -/
structure Control where
  register : Array Bool
  /-- Number of measurements so far. -/
  measured : Nat

namespace Control

variable {α β : Type} (outcomes : Nat → Bool)

/-- The start of a run: the register holds zeros. -/
def start (numBits : Nat) : Control := ⟨Array.replicate numBits false, 0⟩

/-- Whether a gate is applied. -/
def allows (k : Control) (g : GateUse) : Bool :=
  match g.condition with
  | some c => c.holds k.register
  | none => true

/-- Stores the next outcome. -/
def store (k : Control) (b : Bit) : Control :=
  ⟨k.register.setIfInBounds b (outcomes k.measured), k.measured + 1⟩

/-- Measurements that read the outcomes from the `k`-th on. -/
def readings (k : Nat) : List (α × Bit) → List (Operation α)
  | [] => []
  | (a, _) :: l => .measure a (outcomes k) :: readings (k + 1) l

/-- The operations of an instruction. -/
def operations (k : Control) (inst : InstructionOn α) : List (Operation α) :=
  match inst.action with
  | .gate g => if k.allows g then [.gate g.gate inst.operands] else []
  | .measure => readings outcomes k.measured (inst.operands.zip inst.bits)
  | .reset => inst.operands.map .reset
  | .snapshot => [.snapshot inst.operands]
  | .barrier => []

/-- What is known after an instruction. -/
def next (k : Control) (inst : InstructionOn α) : Control :=
  match inst.action with
  | .measure => (inst.operands.zip inst.bits).foldl (fun k e => k.store outcomes e.2) k
  | _ => k

/-- The operations of several instructions. -/
def performed : Control → List (InstructionOn α) → List (Operation α)
  | _, [] => []
  | k, inst :: l => k.operations outcomes inst ++ (k.next outcomes inst).performed l

/-- What is known after several instructions. -/
def after (k : Control) (l : List (InstructionOn α)) : Control := l.foldl (next outcomes) k

theorem performed_append (k : Control) (l₁ l₂ : List (InstructionOn α)) :
    k.performed outcomes (l₁ ++ l₂)
      = k.performed outcomes l₁ ++ (k.after outcomes l₁).performed outcomes l₂ := by
  induction l₁ generalizing k with
  | nil => rfl
  | cons inst l ih => simp [performed, ih, after]

theorem after_append (k : Control) (l₁ l₂ : List (InstructionOn α)) :
    k.after outcomes (l₁ ++ l₂) = (k.after outcomes l₁).after outcomes l₂ :=
  List.foldl_append

/-! ### Renaming operands -/

theorem readings_map (f : α → β) (k : Nat) (l : List α) (bits : List Bit) :
    readings outcomes k ((l.map f).zip bits)
      = (readings outcomes k (l.zip bits)).map (Operation.map f) := by
  induction l generalizing k bits with
  | nil => rfl
  | cons a l ih =>
    cases bits with
    | nil => rfl
    | cons b bits => simp [readings, ih, Operation.map]

theorem operations_map (f : α → β) (k : Control) (inst : InstructionOn α) :
    k.operations outcomes (inst.map f) = (k.operations outcomes inst).map (Operation.map f) := by
  obtain ⟨action, operands, bits⟩ := inst
  cases action with
  | gate g =>
    simp only [operations, InstructionOn.map]
    split <;> rfl
  | measure => exact readings_map outcomes f k.measured operands bits
  | reset => simp [operations, InstructionOn.map, Operation.map]
  | barrier => rfl
  | snapshot => rfl

theorem next_map (f : α → β) (k : Control) (inst : InstructionOn α) :
    k.next outcomes (inst.map f) = k.next outcomes inst := by
  obtain ⟨action, operands, bits⟩ := inst
  cases action with
  | measure =>
    simp only [next, InstructionOn.map]
    rw [List.zip_map_left, List.foldl_map]
    rfl
  | _ => rfl

/-- Renaming the operands of the instructions renames those of the operations. -/
theorem performed_map (f : α → β) (k : Control) (l : List (InstructionOn α)) :
    k.performed outcomes (l.map (·.map f)) = (k.performed outcomes l).map (Operation.map f) := by
  induction l generalizing k with
  | nil => rfl
  | cons inst l ih =>
    rw [List.map_cons, performed, performed, operations_map, next_map, ih, List.map_append]

end Control

namespace Circuit

/-- The instructions of a circuit, on its wires. -/
def steps (c : Circuit) : List (InstructionOn Qubit) := c.instructions.toList.map (·.relabel id)

theorem steps_map {α : Type} (c : Circuit) (f : Qubit → α) :
    c.steps.map (·.map f) = c.instructions.toList.map (·.relabel f) := by
  simp [steps, InstructionOn.map, Instruction.relabel, Function.comp_def]

/-- The operations that are performed for given outcomes. -/
def performed (c : Circuit) (outcomes : Nat → Bool) : List (Operation Qubit) :=
  (Control.start c.numBits).performed outcomes c.steps

end Circuit

/-! ### Shots -/

theorem bind_eq_ok_iff {ε α β : Type} {x : Except ε α} {f : α → Except ε β} {b : β} :
    (x >>= f) = .ok b ↔ ∃ a, x = .ok a ∧ f a = .ok b := by
  cases x with
  | error e => exact ⟨nofun, fun ⟨_, h, _⟩ => nomatch h⟩
  | ok a =>
    constructor
    · exact fun h => ⟨a, rfl, h⟩
    · rintro ⟨_, ⟨⟩, h⟩
      exact h

/-- What every step of a fold keeps, the fold keeps. -/
theorem foldlM_invariant {ε α σ : Type} {f : σ → α → Except ε σ} {P : σ → Prop}
    (hf : ∀ s a s', f s a = .ok s' → P s → P s') {l : List α} {s s' : σ}
    (h : l.foldlM f s = .ok s') (hs : P s) : P s' := by
  induction l generalizing s with
  | nil =>
    obtain rfl := Except.ok.inj h
    exact hs
  | cons a l ih =>
    rw [List.foldlM_cons] at h
    obtain ⟨s₁, h₁, h₂⟩ := bind_eq_ok_iff.mp h
    exact ih h₂ (hf s a s₁ h₁ hs)

namespace Shot

theorem flip_register {σ : Type} {t : Trigonometry} {g : Gate} {q : Qubit} {s s' : Shot σ}
    (h : s.flip t g q = .ok s') : s'.register = s.register := by
  unfold flip at h
  obtain ⟨_, -, h⟩ := bind_eq_ok_iff.mp h
  obtain rfl := Except.ok.inj h
  rfl

variable {σ : Type} [RandomSource σ] {t : Trigonometry} {noise : NoiseModel}

theorem disturb_register {channel : NoiseChannel} {q : Qubit} {s s' : Shot σ}
    (h : s.disturb t channel q = .ok s') : s'.register = s.register := by
  unfold disturb at h
  split at h
  · obtain ⟨_, -, h⟩ := bind_eq_ok_iff.mp h
    obtain rfl := Except.ok.inj h
    rfl
  all_goals
    obtain ⟨⟨hit, source⟩, -, h⟩ := bind_eq_ok_iff.mp h
    simp only at h
    split at h
    · exact (flip_register h).trans rfl
    · obtain rfl := Except.ok.inj h
      rfl

theorem gate_register {g : Gate} {qubits : List Qubit} {s s' : Shot σ}
    (h : s.gate t noise g qubits = .ok s') : s'.register = s.register := by
  unfold gate at h
  obtain ⟨amplitudes, -, h⟩ := bind_eq_ok_iff.mp h
  refine foldlM_invariant (P := fun s₁ => s₁.register = s.register) (fun s₁ q s₂ h₁ hs => ?_) h rfl
  exact foldlM_invariant (fun _ _ _ h₂ hs => (disturb_register h₂).trans hs) h₁ hs

theorem reset_register {q : Qubit} {s s' : Shot σ} (h : s.reset q = .ok s') :
    s'.register = s.register := by
  unfold reset at h
  obtain ⟨_, -, h⟩ := bind_eq_ok_iff.mp h
  obtain rfl := Except.ok.inj h
  rfl

theorem measure_register {q : Qubit} {b : Bit} {s s' : Shot σ}
    (h : s.measure noise q b = .ok s') :
    ∃ outcome, s'.register = s.register.setIfInBounds b outcome := by
  unfold measure at h
  obtain ⟨⟨outcome, amplitudes, source⟩, -, h⟩ := bind_eq_ok_iff.mp h
  obtain ⟨⟨bit, source'⟩, -, h⟩ := bind_eq_ok_iff.mp h
  simp only at h
  split at h
  · next hb =>
    obtain rfl := Except.ok.inj h
    refine ⟨bit, ?_⟩
    rw [Array.setIfInBounds, dif_pos hb]
  · cases h

/-- A shot that goes from one state to another by some operations. -/
inductive Follows (t : Trigonometry) (noise : NoiseModel) :
    Shot σ → List (Operation Qubit) → Shot σ → Prop
  | nil {s : Shot σ} : Follows t noise s [] s
  | gate {s s₁ s' : Shot σ} {g : Gate} {qubits : List Qubit} {l : List (Operation Qubit)} :
    s.gate t noise g qubits = .ok s₁ → Follows t noise s₁ l s' →
      Follows t noise s (.gate g qubits :: l) s'
  | measure {s s₁ s' : Shot σ} {q : Qubit} {b : Bit} {outcome : Bool}
    {l : List (Operation Qubit)} :
    s.measure noise q b = .ok s₁ → s₁.register = s.register.setIfInBounds b outcome →
      Follows t noise s₁ l s' → Follows t noise s (.measure q outcome :: l) s'
  | reset {s s₁ s' : Shot σ} {q : Qubit} {l : List (Operation Qubit)} :
    s.reset q = .ok s₁ → Follows t noise s₁ l s' → Follows t noise s (.reset q :: l) s'
  | snapshot {s s' : Shot σ} {qubits : List Qubit} {l : List (Operation Qubit)} :
    Follows t noise { s with snapshot := s.snapshot.or (some s.amplitudes) } l s' →
      Follows t noise s (.snapshot qubits :: l) s'

theorem Follows.append {s s₁ s' : Shot σ} {l₁ l₂ : List (Operation Qubit)}
    (h₁ : Follows t noise s l₁ s₁) (h₂ : Follows t noise s₁ l₂ s') :
    Follows t noise s (l₁ ++ l₂) s' := by
  induction h₁ with
  | nil => exact h₂
  | gate hg _ ih => exact .gate hg (ih h₂)
  | measure hm hr _ ih => exact .measure hm hr (ih h₂)
  | reset hr _ ih => exact .reset hr (ih h₂)
  | snapshot _ ih => exact .snapshot (ih h₂)

/-- The outcomes from the `k`-th on begin with some bits. -/
def Supplies (outcomes : Nat → Bool) (k : Nat) (bits : List Bool) : Prop :=
  ∀ i, i < bits.length → bits[i]? = some (outcomes (k + i))

theorem supplies_append {outcomes : Nat → Bool} {k : Nat} {bits₁ bits₂ : List Bool}
    (h : Supplies outcomes k (bits₁ ++ bits₂)) :
    Supplies outcomes k bits₁ ∧ Supplies outcomes (k + bits₁.length) bits₂ := by
  unfold Supplies at h ⊢
  rw [List.length_append] at h
  constructor
  · intro i hi
    rw [← h i (by omega), List.getElem?_append_left hi]
  · intro i hi
    rw [Nat.add_assoc, ← h (bits₁.length + i) (by omega),
      List.getElem?_append_right (Nat.le_add_right ..), Nat.add_sub_cancel_left]

theorem measureAll_follows {l : List (Qubit × Bit)} {s s' : Shot σ}
    (h : l.foldlM (fun s e => s.measure noise e.1 e.2) s = .ok s') :
    ∃ bits, ∀ outcomes (k : Control), k.register = s.register →
      Supplies outcomes k.measured bits →
        Follows t noise s (Control.readings outcomes k.measured l) s' ∧
        (l.foldl (fun k e => k.store outcomes e.2) k).register = s'.register ∧
        (l.foldl (fun k e => k.store outcomes e.2) k).measured = k.measured + bits.length := by
  induction l generalizing s with
  | nil =>
    obtain rfl := Except.ok.inj h
    exact ⟨[], fun outcomes k hk _ => ⟨.nil, hk, rfl⟩⟩
  | cons e l ih =>
    rw [List.foldlM_cons] at h
    obtain ⟨s₁, hmeasure, hrest⟩ := bind_eq_ok_iff.mp h
    obtain ⟨outcome, hregister⟩ := measure_register hmeasure
    obtain ⟨bits, hbits⟩ := ih hrest
    refine ⟨outcome :: bits, fun outcomes k hk hsupplies => ?_⟩
    -- the first outcome is the one that was read, the others are left to the rest
    obtain ⟨hfirst, hothers⟩ :=
      supplies_append (show Supplies outcomes k.measured ([outcome] ++ bits) from hsupplies)
    have houtcome : outcome = outcomes k.measured := by
      simpa using hfirst 0 Nat.zero_lt_one
    have hstore : (k.store outcomes e.2).register = s₁.register := by
      rw [Control.store, hk, ← houtcome, hregister]
    obtain ⟨hfollows, hreg, hcount⟩ := hbits outcomes (k.store outcomes e.2) hstore hothers
    refine ⟨.measure hmeasure (houtcome ▸ hregister) hfollows, hreg, hcount.trans ?_⟩
    show k.measured + 1 + bits.length = k.measured + (bits.length + 1)
    omega

theorem resetAll_follows {l : List Qubit} {s s' : Shot σ}
    (h : l.foldlM (fun s q => s.reset q) s = .ok s') : Follows t noise s (l.map .reset) s' := by
  induction l generalizing s with
  | nil =>
    obtain rfl := Except.ok.inj h
    exact .nil
  | cons q l ih =>
    rw [List.foldlM_cons] at h
    obtain ⟨s₁, hreset, hrest⟩ := bind_eq_ok_iff.mp h
    exact .reset hreset (ih hrest)

theorem step_gate_eq {k : Control} {s : Shot σ} (hk : k.register = s.register) {g : GateUse}
    {qubits : List Qubit} {bits : List Bit} :
    s.step t noise ⟨.gate g, qubits, bits⟩
      = if k.allows g then s.gate t noise g.gate qubits else .ok s := by
  show (match g.condition with
    | some c => if c.holds s.register then s.gate t noise g.gate qubits else .ok s
    | none => s.gate t noise g.gate qubits) = _
  rw [Control.allows, hk]
  cases g.condition <;> rfl

/-- **One instruction**: a shot does what the control does that is given the outcomes read. -/
theorem step_follows {inst : Instruction} {s s' : Shot σ} (h : s.step t noise inst = .ok s') :
    ∃ bits, ∀ outcomes (k : Control), k.register = s.register →
      Supplies outcomes k.measured bits →
        Follows t noise s (k.operations outcomes (inst.relabel id)) s' ∧
        (k.next outcomes (inst.relabel id)).register = s'.register ∧
        (k.next outcomes (inst.relabel id)).measured = k.measured + bits.length := by
  obtain ⟨action, qubits, bits⟩ := inst
  simp only [Control.operations, Control.next, Instruction.relabel, List.map_id]
  cases action with
  | gate g =>
    refine ⟨[], fun outcomes k hk _ => ?_⟩
    rw [step_gate_eq hk] at h
    show Follows t noise s (if k.allows g then [.gate g.gate qubits] else []) s' ∧
      k.register = s'.register ∧ k.measured = k.measured + 0
    by_cases hallows : k.allows g = true
    · rw [if_pos hallows] at h ⊢
      exact ⟨.gate h .nil, hk.trans (gate_register h).symm, rfl⟩
    · rw [if_neg hallows] at h ⊢
      obtain rfl := Except.ok.inj h
      exact ⟨.nil, hk, rfl⟩
  | measure => exact measureAll_follows h
  | reset =>
    refine ⟨[], fun outcomes k hk _ => ⟨resetAll_follows h, ?_, rfl⟩⟩
    exact foldlM_invariant (P := fun s₁ => k.register = s₁.register)
      (fun _ _ _ hr hs => hs.trans (reset_register hr).symm) h hk
  | barrier =>
    obtain rfl := Except.ok.inj h
    exact ⟨[], fun outcomes k hk _ => ⟨.nil, hk, rfl⟩⟩
  | snapshot =>
    refine ⟨[], fun outcomes k hk _ => ?_⟩
    have hs : s' = { s with snapshot := s.snapshot.or (some s.amplitudes) } := by
      obtain ⟨amplitudes, register, snapshot, source⟩ := s
      cases snapshot <;> exact (Except.ok.inj h).symm
    subst hs
    exact ⟨.snapshot .nil, hk, rfl⟩

theorem steps_follow {l : List Instruction} {s s' : Shot σ}
    (h : l.foldlM (step t noise) s = .ok s') :
    ∃ bits, ∀ outcomes (k : Control), k.register = s.register →
      Supplies outcomes k.measured bits →
        Follows t noise s (k.performed outcomes (l.map (·.relabel id))) s' ∧
        (k.after outcomes (l.map (·.relabel id))).register = s'.register := by
  induction l generalizing s with
  | nil =>
    obtain rfl := Except.ok.inj h
    exact ⟨[], fun outcomes k hk _ => ⟨.nil, hk⟩⟩
  | cons inst l ih =>
    rw [List.foldlM_cons] at h
    obtain ⟨s₁, hstep, hrest⟩ := bind_eq_ok_iff.mp h
    obtain ⟨bits₁, hbits₁⟩ := step_follows hstep
    obtain ⟨bits₂, hbits₂⟩ := ih hrest
    refine ⟨bits₁ ++ bits₂, fun outcomes k hk hsupplies => ?_⟩
    obtain ⟨hfirst, hothers⟩ := supplies_append hsupplies
    obtain ⟨hfollows, hregister, hcount⟩ := hbits₁ outcomes k hk hfirst
    rw [← hcount] at hothers
    obtain ⟨hfollows', hregister'⟩ := hbits₂ outcomes _ hregister hothers
    exact ⟨hfollows.append hfollows', hregister'⟩

/-- **Shots**: every shot performs the operations of the circuit for the outcomes that it reads, and
these are what its register holds. -/
theorem run_follows {c : Circuit} {source : σ} {s : Shot σ} (h : run t noise c source = .ok s) :
    ∃ outcomes, Follows t noise (start c source) (c.performed outcomes) s ∧
      ((Control.start c.numBits).after outcomes c.steps).register = s.register := by
  obtain ⟨bits, hbits⟩ := steps_follow h
  refine ⟨fun i => bits.getD i false, hbits _ (.start c.numBits) rfl fun i hi => ?_⟩
  show bits[i]? = some (bits.getD (0 + i) false)
  rw [Nat.zero_add, List.getD_eq_getElem?_getD, List.getElem?_eq_getElem hi]
  rfl

end Shot

end OneWay
