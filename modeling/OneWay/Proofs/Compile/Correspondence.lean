import OneWay.Proofs.Compile.Admission

/-!
# Compiling is playing moves

On a draft whose books are in order, each function of the compiler either names the fault of the
roster or plays the moves of `OneWay.Proofs.Compile.Moves`; it never fails for another reason. The
functions are taken in the order in which they use one another, up to `Draft.command_eq`,
`Draft.commands_eq` and `Draft.finish_eq`.

`Pattern.compile_eq` puts them together: the compilation of a well-formed pattern whose input
states are accepted is either the first fault of its commands or the circuit that its moves give.
-/

namespace OneWay

/-- A result, unless there is a fault. -/
def unlessFault {α : Type} (f : Option PatternFault) (a : α) : Except CompileFault α :=
  match f with
  | some f => .error (.pattern f)
  | none => .ok a

theorem unlessFault_bind {α β : Type} (f g : Option PatternFault) (a : α) (b : β)
    (k : α → Except CompileFault β) (hk : f = none → k a = unlessFault g b) :
    (unlessFault f a >>= k) = unlessFault (f.or g) b := by
  cases f with
  | some f => rfl
  | none => exact hk rfl

theorem unlessFault_map {α β : Type} (f : Option PatternFault) (a : α) (k : α → β) :
    (unlessFault f a >>= fun x => pure (k x)) = unlessFault f (k a) := by
  cases f <;> rfl

namespace Draft

variable {reuse : Bool} {d : Draft} {r : Roster}

/-! ### Emitting instructions -/

theorem emit_of_fits {inst : Instruction}
    (h : inst.Fits d.circuit.numQubits d.circuit.numBits) : d.emit inst = .ok (d.push inst) := by
  unfold emit
  rw [Circuit.append_of_fits h]
  rfl

theorem emitGate_eq (h : Sound reuse d r) {g : GateUse} {nodes : List Node}
    (ha : r.Admits (.gate g nodes)) :
    d.emitGate g (nodes.map d.wireAt) = .ok (d.play reuse (.gate g nodes)) :=
  emit_of_fits (h.fits_gate ha)

theorem emitGates_eq (h : Sound reuse d r) {n : Node} (hn : r.Live n) {gates : List Gate}
    (hg : ∀ g ∈ gates, g.arity = 1) :
    d.emitGates (d.wireAt n) gates = .ok (d.playAll reuse (gates.map (.plain n))) := by
  induction gates generalizing d with
  | nil => rfl
  | cons g gates ih =>
    have hadm : r.Admits (.plain n g) := Roster.admits_plain hn (hg g (List.mem_cons_self ..))
    have hplay := h.play hadm
    show (d.emitGate { gate := g } ([n].map d.wireAt) >>= fun d' =>
      d'.emitGates (d.wireAt n) gates) = _
    rw [emitGate_eq h hadm]
    exact ih hplay fun g' hg' => hg g' (List.mem_cons_of_mem _ hg')

theorem emitMeasure_eq (h : Sound reuse d r) {n : Node} (hn : r.Live n) :
    d.emitMeasure n (d.wireAt n) = .ok (d.read n) := by
  show ({ d with circuit := d.circuit.addBit.2 }.emit
    ⟨.measure, [d.wireAt n], [d.circuit.numBits]⟩ >>= fun d' =>
      pure { d' with register := d'.register.insert n d.circuit.numBits }) = _
  rw [emit_of_fits (h.fits_measure hn)]
  rfl

/-! ### Wires -/

theorem claim_eq (h : Sound reuse d r) : d.claim = .ok d.claimed := by
  unfold claim claimed
  cases hpop : d.free.popMin? with
  | some popped =>
    obtain ⟨w, free⟩ := popped
    have hfree := SortedSet.popMin?_eq_some_iff.mp hpop
    have hw : w < d.circuit.numQubits := h.free_lt (hfree ▸ List.mem_cons_self ..)
    show ({ d with free }.emit ⟨.reset, [w], []⟩ >>= fun d' => pure (w, d')) = _
    rw [emit_of_fits (d := { d with free }) (Sound.fits_reset hw)]
    rfl
  | none => rfl

theorem claimed_wires (d : Draft) : d.claimed.2.wires = d.wires := by
  unfold claimed
  cases d.free.popMin? <;> rfl

theorem wireAt_claim (reuse : Bool) (d : Draft) (n : Node) :
    (d.play reuse (.claim n)).wireAt n = d.claimed.1 := by
  show (d.wires.insert n d.claimed.1).getD n 0 = _
  rw [wireAt_insert, if_pos rfl]

variable (ctx : CompileContext)

theorem allocate_eq (h : Sound reuse d r) {n : Node} (hn : n ∉ r.placed) :
    allocate ctx d n = .ok ((d.playAll reuse (r.touch ctx n)).wireAt n,
      d.playAll reuse (r.touch ctx n)) := by
  have hm : n ∉ r.measured := fun hm => hn (h.roster.measured_placed n hm)
  have htouch : r.touch ctx n = [.claim n, .gate (preparation ctx n) [n]] := if_neg hn
  have hadm := Roster.admitsAll_touch ctx hm
  rw [htouch] at hadm ⊢
  -- the preparation acts on the wire that was just claimed
  have hfits := (h.play hadm.1).fits_gate hadm.2.1
  rw [List.map_singleton, wireAt_claim] at hfits
  have hemit : d.claimed.2.emitGate (preparation ctx n) [d.claimed.1]
      = .ok (d.claimed.2.push ⟨.gate (preparation ctx n), [d.claimed.1], []⟩) :=
    emit_of_fits hfits
  have hplay : d.playAll reuse [.claim n, .gate (preparation ctx n) [n]]
      = { d.claimed.2.push ⟨.gate (preparation ctx n), [d.claimed.1], []⟩ with
          wires := d.wires.insert n d.claimed.1 } := by
    show (d.play reuse (.claim n)).push ⟨.gate (preparation ctx n),
      [(d.play reuse (.claim n)).wireAt n], []⟩ = _
    rw [wireAt_claim]
    rfl
  unfold allocate
  rw [claim_eq h]
  show (d.claimed.2.emitGate (preparation ctx n) [d.claimed.1] >>= fun d' =>
    pure (d.claimed.1, { d' with wires := d'.wires.insert n d.claimed.1 })) = _
  rw [hemit, hplay]
  show Except.ok (d.claimed.1, { d.claimed.2.push _ with
    wires := d.claimed.2.wires.insert n d.claimed.1 }) = _
  rw [claimed_wires]
  congr 2
  exact (wireAt_claim reuse d n).symm

theorem unmeasured_eq (h : Sound reuse d r) (n : Node) (location : Location) :
    d.unmeasured n location = unlessFault (r.measuredFault? location n) () := by
  unfold unmeasured Roster.measuredFault?
  rw [h.measured]
  split <;> rfl

/-- The wire of a node, unless it was measured. -/
theorem wireOf_eq (h : Sound reuse d r) (n : Node) (location : Location) :
    wireOf ctx d n location = unlessFault (r.measuredFault? location n)
      ((d.playAll reuse (r.touch ctx n)).wireAt n, d.playAll reuse (r.touch ctx n)) := by
  unfold wireOf
  rw [unmeasured_eq h]
  cases r.measuredFault? location n with
  | some f => rfl
  | none =>
    cases hget : d.wires.get? n with
    | some w =>
      have hplaced : n ∈ r.placed := (h.placed n).mp (by rw [hget]; rfl)
      have hwire := wireAt_of_get? hget
      have htouch : r.touch ctx n = [] := if_pos hplaced
      rw [htouch, playAll_nil, hwire]
      rfl
    | none =>
      show allocate ctx d n = _
      refine allocate_eq ctx h fun hplaced => ?_
      have := (h.placed n).mpr hplaced
      rw [hget] at this
      cases this

/-- A draft after the first reference to a node. -/
theorem Sound.touch (h : Sound reuse d r) {n : Node} (hn : n ∉ r.measured) :
    Sound reuse (d.playAll reuse (r.touch ctx n)) (r.place n) := by
  rw [← Roster.after_touch ctx]
  exact h.playAll (Roster.admitsAll_touch ctx hn)

/-! ### Outcomes -/

theorem parityOf_eq (h : Sound reuse d r) (node : Node) (location : Location) (l : List Node) :
    parityOf ctx d node location l = unlessFault (l.findSome? (r.domainFault? ctx location node))
      (r.measuredBits l, r.knownParity ctx l) := by
  induction l with
  | nil => rfl
  | cons n l ih =>
    rw [parityOf, h.register, List.findSome?_cons]
    cases hreg : r.register.get? n with
    | some bit =>
      obtain ⟨hbits, hknown⟩ := Roster.domain_cons_of_some ctx hreg l
      have hcontains : r.register.contains n = true := by rw [SortedMap.contains, hreg]; rfl
      rw [(Roster.domainFault?_eq_none_iff ctx).mpr (.inl hcontains), hbits, hknown]
      show (parityOf ctx d node location l >>= fun found => pure (bit :: found.1, found.2)) = _
      rw [ih, unlessFault_map]
    | none =>
      obtain ⟨hbits, hknown⟩ := Roster.domain_cons_of_none ctx hreg l
      rw [hbits, hknown, SortedMap.getD]
      cases hres : ctx.pattern.results.get? n with
      | some outcome =>
        have hcontains : ctx.pattern.results.contains n = true := by
          rw [SortedMap.contains, hres]
          rfl
        rw [(Roster.domainFault?_eq_none_iff ctx).mpr (.inr hcontains)]
        show (parityOf ctx d node location l >>= fun found =>
          pure (found.1, outcome ^^ found.2)) = _
        rw [ih, unlessFault_map]
        rfl
      | none =>
        have hfault : r.domainFault? ctx location node n
            = some (.unmeasuredDomain node n location) := by
          rw [Roster.domainFault?, SortedMap.contains, SortedMap.contains, hreg, hres]
          rfl
        rw [hfault]
        rfl

theorem feedForward_eq (h : Sound reuse d r) {n : Node} (hn : r.Live n) {pauli : Gate}
    (hp : pauli.arity = 1) (domain : Domain) (location : Location) :
    feedForward ctx d pauli (d.wireAt n) n domain location
      = unlessFault (domain.toList.findSome? (r.domainFault? ctx location n))
          (d.playAll reuse (r.correction ctx pauli n domain)) := by
  have hadm := Roster.admitsAll_correction ctx h.roster hn pauli hp domain
  unfold feedForward
  rw [parityOf_eq ctx h]
  cases domain.toList.findSome? (r.domainFault? ctx location n) with
  | some f => rfl
  | none =>
    show (if (r.measuredBits domain.toList).isEmpty then
        if r.knownParity ctx domain.toList then d.emitGate { gate := pauli } ([n].map d.wireAt)
        else pure d
      else
        d.emitGate
          { gate := pauli
            condition := some ⟨r.measuredBits domain.toList, !r.knownParity ctx domain.toList⟩ }
          ([n].map d.wireAt)) = .ok _
    unfold Roster.correction at hadm ⊢
    simp only at hadm ⊢
    split
    · next hbits =>
      rw [if_pos hbits] at hadm
      split
      · next hknown =>
        rw [if_pos hknown] at hadm
        exact emitGate_eq h hadm.1
      · rfl
    · next hbits =>
      rw [if_neg hbits] at hadm
      exact emitGate_eq h hadm.1

theorem wires_playAll_correction (reuse : Bool) (ctx : CompileContext) (d : Draft) (r : Roster)
    (pauli : Gate) (n : Node) (domain : Domain) :
    (d.playAll reuse (r.correction ctx pauli n domain)).wires = d.wires := by
  unfold Roster.correction
  simp only
  split
  · split <;> rfl
  · rfl

theorem wires_playAll_plain (reuse : Bool) (d : Draft) (n : Node) (gates : List Gate) :
    (d.playAll reuse (gates.map (.plain n))).wires = d.wires := by
  induction gates generalizing d with
  | nil => rfl
  | cons g gates ih => exact ih _

theorem wireAt_congr {d d' : Draft} (h : d.wires = d'.wires) (n : Node) :
    d.wireAt n = d'.wireAt n := by
  rw [wireAt, wireAt, h]

/-! ### Commands -/

/-- A correction depends on the outcomes at the start of its command. -/
theorem feedForward_eq_of_register {r' : Roster} (h : Sound reuse d r')
    (hreg : r'.register = r.register) {n : Node} (hn : r'.Live n) {pauli : Gate}
    (hp : pauli.arity = 1) (domain : Domain) (location : Location) :
    feedForward ctx d pauli (d.wireAt n) n domain location
      = unlessFault (domain.toList.findSome? (r.domainFault? ctx location n))
          (d.playAll reuse (r.correction ctx pauli n domain)) := by
  rw [feedForward_eq ctx h hn hp, Roster.correction_congr ctx hreg]
  unfold Roster.domainFault?
  rw [hreg]

/-- The fault of a command that acts on one node. -/
theorem fault?_single {n : Node} {c : Command} (hc : c.targets = [n])
    (hprep : ∀ m, c ≠ .prepare m) (index : Nat) :
    r.fault? ctx index c = (r.measuredFault? (.command index) n).or
      (c.dependencies.findSome? (r.domainFault? ctx (.command index) n)) := by
  have hnone : r.preparedFault? (.command index) c = none :=
    Roster.preparedFault?_eq_none_iff.mpr fun m hm => absurd hm (hprep m)
  simp only [Roster.fault?, hc, hnone, Option.none_or, List.findSome?_singleton]

theorem touchAll_single (r : Roster) (n : Node) : r.touchAll ctx [n] = r.touch ctx n := by
  rw [Roster.touchAll, Roster.touchAll, List.append_nil]

theorem command_prepare_eq (h : Sound reuse d r) (n : Node) (index : Nat) :
    command ctx d (.prepare n) index = unlessFault (r.fault? ctx index (.prepare n))
      (d.playAll reuse (r.commandMoves ctx (.prepare n))) := by
  have hfault : r.fault? ctx index (.prepare n) = (r.measuredFault? (.command index) n).or
      (r.preparedFault? (.command index) (.prepare n)) := by
    simp only [Roster.fault?, Command.targets, Command.dependencies, List.findSome?_singleton,
      List.findSome?_nil, Option.or_none]
  have hmoves : r.commandMoves ctx (.prepare n) = r.touch ctx n := by
    rw [Roster.commandMoves, Command.targets, touchAll_single, Roster.act, List.append_nil]
  rw [hfault, hmoves]
  show (d.unmeasured n (.command index) >>= fun _ =>
    if d.wires.contains n then
      (throw (.pattern (.alreadyPrepared n (.command index))) : Except CompileFault Unit) >>=
        fun _ => allocate ctx d n >>= fun found => pure found.2
    else allocate ctx d n >>= fun found => pure found.2) = _
  rw [unmeasured_eq h]
  refine unlessFault_bind _ _ _ _ _ fun _ => ?_
  rw [Roster.preparedFault?]
  by_cases hplaced : n ∈ r.placed
  · have hcontains : d.wires.contains n = true := (h.placed n).mpr hplaced
    rw [if_pos hplaced, if_pos hcontains]
    rfl
  · have hcontains : ¬ d.wires.contains n = true := fun hc => hplaced ((h.placed n).mp hc)
    rw [if_neg hplaced, if_neg hcontains, allocate_eq ctx h hplaced]
    rfl

theorem command_entangle_eq (h : Sound reuse d r) {a b : Node} (hab : a ≠ b) (index : Nat) :
    command ctx d (.entangle a b) index = unlessFault (r.fault? ctx index (.entangle a b))
      (d.playAll reuse (r.commandMoves ctx (.entangle a b))) := by
  have hfault : r.fault? ctx index (.entangle a b) = (r.measuredFault? (.command index) a).or
      ((r.measuredFault? (.command index) b)) := by
    simp only [Roster.fault?, Command.targets, Command.dependencies, Roster.preparedFault?,
      List.findSome?_nil, List.findSome?_cons, Option.or_none]
    cases r.measuredFault? (.command index) a <;> cases r.measuredFault? (.command index) b <;> rfl
  have hmoves : r.commandMoves ctx (.entangle a b)
      = r.touch ctx a ++ ((r.place a).touch ctx b ++ [.gate { gate := .cz } [a, b]]) := by
    simp only [Roster.commandMoves, Command.targets, Roster.touchAll, Roster.act,
      Roster.after_touch, List.append_nil, List.append_assoc]
  rw [hfault, hmoves, playAll_append, playAll_append]
  show (wireOf ctx d a (.command index) >>= fun found =>
    wireOf ctx found.2 b (.command index) >>= fun found' =>
      found'.2.emitGate { gate := .cz } [found.1, found'.1]) = _
  rw [wireOf_eq ctx h]
  refine unlessFault_bind _ _ _ _ _ fun hma => ?_
  have ha := Roster.measuredFault?_eq_none_iff.mp hma
  have hsound := h.touch ctx ha
  have hfault' : (r.place a).measuredFault? (.command index) b
      = r.measuredFault? (.command index) b := by
    rw [Roster.measuredFault?, Roster.measuredFault?, (r.place_frame a).1]
  show (wireOf ctx (d.playAll reuse (r.touch ctx a)) b (.command index) >>= fun found' => _) = _
  rw [wireOf_eq ctx hsound, hfault']
  cases hmb : r.measuredFault? (.command index) b with
  | some f => rfl
  | none =>
    have hnone : r.fault? ctx index (.entangle a b) = none := by
      rw [hfault, hma, hmb]
      rfl
    have hadm := Roster.admitsAll_commandMoves ctx h.roster hnone (by rintro _ _ ⟨⟩; exact hab)
    rw [hmoves, Roster.admitsAll_append, Roster.admitsAll_append, Roster.after_touch] at hadm
    obtain ⟨-, hadm, hgate, -⟩ := hadm
    -- the wire of `a` is still the same
    have hwire := Sound.wireAt_playAll reuse (d.playAll reuse (r.touch ctx a)) hadm
      (Roster.mem_placed_place.mpr (.inr rfl))
    show emitGate _ { gate := .cz } [(d.playAll reuse (r.touch ctx a)).wireAt a, _] = _
    rw [← hwire]
    exact emitGate_eq (hsound.playAll hadm) hgate

theorem command_measure_eq (h : Sound reuse d r) (n : Node) (plane : Plane) (angle : Float)
    (s t : Domain) (hr : ctx.options.qubitReuse = reuse) (index : Nat) :
    command ctx d (.measure n plane angle s t) index
      = unlessFault (r.fault? ctx index (.measure n plane angle s t))
          (d.playAll reuse (r.commandMoves ctx (.measure n plane angle s t))) := by
  have hmoves : r.commandMoves ctx (.measure n plane angle s t)
      = r.touch ctx n ++ (r.correction ctx .x n s ++ (r.correction ctx .z n t
        ++ ((rotation plane angle).map (.plain n) ++ [.measure n]))) := by
    simp only [Roster.commandMoves, Command.targets, touchAll_single, Roster.act,
      List.append_assoc]
  rw [fault?_single ctx rfl (fun _ heq => by cases heq), hmoves, playAll_append, playAll_append,
    playAll_append, playAll_append, Command.dependencies, List.findSome?_append]
  show (wireOf ctx d n (.command index) >>= fun found =>
    feedForward ctx found.2 .x found.1 n s (.command index) >>= fun d₂ =>
    feedForward ctx d₂ .z found.1 n t (.command index) >>= fun d₃ =>
    d₃.emitGates found.1 (rotation plane angle) >>= fun d₄ =>
    d₄.emitMeasure n found.1 >>= fun d₅ =>
    pure { d₅ with
      measured := d₅.measured.insert n
      free := if ctx.options.qubitReuse then d₅.free.insert found.1 else d₅.free }) = _
  rw [wireOf_eq ctx h]
  refine unlessFault_bind _ _ _ _ _ fun hm => ?_
  have hn := Roster.measuredFault?_eq_none_iff.mp hm
  have hlive := Roster.live_place_self hn
  have h₁ := h.touch ctx hn
  have hreg := (r.place_frame n).2.1
  set d₁ := d.playAll reuse (r.touch ctx n)
  show (feedForward ctx d₁ .x (d₁.wireAt n) n s (.command index) >>= fun d₂ => _) = _
  rw [feedForward_eq_of_register ctx h₁ hreg hlive rfl]
  refine unlessFault_bind _ _ _ _ _ fun _ => ?_
  have h₂ := h₁.playAll (Roster.admitsAll_correction ctx h₁.roster hlive .x rfl s)
  rw [Roster.after_correction, Roster.correction_congr ctx hreg] at h₂
  have hwire₂ := wireAt_congr (wires_playAll_correction reuse ctx d₁ r .x n s) n
  set d₂ := d₁.playAll reuse (r.correction ctx .x n s)
  show (feedForward ctx d₂ .z (d₁.wireAt n) n t (.command index) >>= fun d₃ => _) = _
  rw [← hwire₂, feedForward_eq_of_register ctx h₂ hreg hlive rfl]
  cases t.toList.findSome? (r.domainFault? ctx (.command index) n) with
  | some f => rfl
  | none =>
    have h₃ := h₂.playAll (Roster.admitsAll_correction ctx h₂.roster hlive .z rfl t)
    rw [Roster.after_correction, Roster.correction_congr ctx hreg] at h₃
    have hwire₃ := wireAt_congr (wires_playAll_correction reuse ctx d₂ r .z n t) n
    set d₃ := d₂.playAll reuse (r.correction ctx .z n t)
    show (d₃.emitGates (d₂.wireAt n) (rotation plane angle) >>= fun d₄ => _) = _
    rw [← hwire₃, emitGates_eq h₃ hlive (Roster.rotation_arity plane angle)]
    have h₄ := h₃.playAll (Roster.admitsAll_map_plain hlive (Roster.rotation_arity plane angle))
    rw [Roster.after_map_plain] at h₄
    have hwire₄ := wireAt_congr (wires_playAll_plain reuse d₃ n (rotation plane angle)) n
    set d₄ := d₃.playAll reuse ((rotation plane angle).map (.plain n))
    show (d₄.emitMeasure n (d₃.wireAt n) >>= fun d₅ => _) = _
    rw [← hwire₄, emitMeasure_eq h₄ hlive, hr]
    rfl

theorem command_correct_eq (h : Sound reuse d r) {n : Node} {domain : Domain} {c : Command}
    (pauli : Gate) (hp : pauli.arity = 1)
    (hc : c = .correctX n domain ∧ pauli = .x ∨ c = .correctZ n domain ∧ pauli = .z)
    (index : Nat) :
    (wireOf ctx d n (.command index) >>= fun found =>
        feedForward ctx found.2 pauli found.1 n domain (.command index))
      = unlessFault (r.fault? ctx index c) (d.playAll reuse (r.commandMoves ctx c)) := by
  have hmoves : r.commandMoves ctx c = r.touch ctx n ++ r.correction ctx pauli n domain := by
    obtain ⟨rfl, rfl⟩ | ⟨rfl, rfl⟩ := hc <;>
      rw [Roster.commandMoves, Command.targets, touchAll_single, Roster.act]
  have hfault : r.fault? ctx index c = (r.measuredFault? (.command index) n).or
      (domain.toList.findSome? (r.domainFault? ctx (.command index) n)) := by
    obtain ⟨rfl, -⟩ | ⟨rfl, -⟩ := hc <;>
      exact fault?_single ctx rfl (fun _ heq => by cases heq) index
  rw [wireOf_eq ctx h, hfault, hmoves, playAll_append]
  refine unlessFault_bind _ _ _ _ _ fun hm => ?_
  have hn := Roster.measuredFault?_eq_none_iff.mp hm
  exact feedForward_eq_of_register ctx (h.touch ctx hn) (r.place_frame n).2.1
    (Roster.live_place_self hn) hp domain _

theorem command_clifford_eq (h : Sound reuse d r) (n : Node) (c : Clifford) (index : Nat) :
    command ctx d (.clifford n c) index = unlessFault (r.fault? ctx index (.clifford n c))
      (d.playAll reuse (r.commandMoves ctx (.clifford n c))) := by
  have hmoves : r.commandMoves ctx (.clifford n c)
      = r.touch ctx n ++ c.gates.map (.plain n) := by
    rw [Roster.commandMoves, Command.targets, touchAll_single, Roster.act]
  rw [fault?_single ctx rfl (fun _ heq => by cases heq), hmoves, playAll_append]
  show (wireOf ctx d n (.command index) >>= fun found =>
    found.2.emitGates found.1 c.gates) = _
  rw [wireOf_eq ctx h]
  refine unlessFault_bind _ _ _ _ _ fun hm => ?_
  have hn := Roster.measuredFault?_eq_none_iff.mp hm
  exact emitGates_eq (h.touch ctx hn) (Roster.live_place_self hn) (Roster.cliffordGates_arity c)

/-- **One command**: it is refused for the fault of the roster, or its moves are played. -/
theorem command_eq (h : Sound ctx.options.qubitReuse d r) {c : Command}
    (hdist : ∀ a b, c = .entangle a b → a ≠ b) (index : Nat) :
    command ctx d c index = unlessFault (r.fault? ctx index c)
      (d.playAll ctx.options.qubitReuse (r.commandMoves ctx c)) := by
  cases c with
  | prepare n => exact command_prepare_eq ctx h n index
  | entangle a b => exact command_entangle_eq ctx h (hdist a b rfl) index
  | measure n plane angle s t => exact command_measure_eq ctx h n plane angle s t rfl index
  | correctX n domain =>
    exact command_correct_eq ctx h .x rfl (.inl ⟨rfl, rfl⟩) index
  | correctZ n domain =>
    exact command_correct_eq ctx h .z rfl (.inr ⟨rfl, rfl⟩) index
  | clifford n c => exact command_clifford_eq ctx h n c index

/-- **Several commands**: the first fault, or all their moves. -/
theorem commands_eq (h : Sound ctx.options.qubitReuse d r) {l : List Command}
    (hdist : ∀ c ∈ l, ∀ a b, c = .entangle a b → a ≠ b) (index : Nat) :
    commands ctx d l index = unlessFault (r.firstFault? ctx l index)
      (d.playAll ctx.options.qubitReuse (r.commandsMoves ctx l)) := by
  induction l generalizing d r index with
  | nil => rfl
  | cons c l ih =>
    have hc := hdist c (List.mem_cons_self ..)
    show (command ctx d c index >>= fun d' => commands ctx d' l (index + 1)) = _
    rw [command_eq ctx h hc, Roster.firstFault?, Roster.commandsMoves, playAll_append]
    refine unlessFault_bind _ _ _ _ _ fun hf => ?_
    exact ih (h.playAll (Roster.admitsAll_commandMoves ctx h.roster hf hc))
      (fun c' hc' => hdist c' (List.mem_cons_of_mem _ hc')) _

/-! ### The start and the end of a pattern -/

theorem allocateAll_eq (h : Sound reuse d r) {l : List Node} (hnodup : l.Nodup)
    (hl : ∀ n ∈ l, n ∉ r.placed) :
    allocateAll ctx d l = .ok (d.playAll reuse (r.touchAll ctx l)) := by
  induction l generalizing d r with
  | nil => rfl
  | cons n l ih =>
    rw [List.nodup_cons] at hnodup
    have hn : n ∉ r.placed := hl n (List.mem_cons_self ..)
    have hm : n ∉ r.measured := fun hm => hn (h.roster.measured_placed n hm)
    show (allocate ctx d n >>= fun found => allocateAll ctx found.2 l) = _
    rw [allocate_eq ctx h hn, Roster.touchAll, playAll_append, Roster.after_touch]
    refine ih (h.touch ctx hm) hnodup.2 fun x hx hplaced => ?_
    rcases Roster.mem_placed_place.mp hplaced with hplaced | rfl
    · exact hl x (List.mem_cons_of_mem _ hx) hplaced
    · exact hnodup.1 hx

theorem claimOutputs_eq (h : Sound reuse d r) (l : List Node) :
    d.claimOutputs l = .ok (d.playAll reuse (r.claimAll l)) := by
  induction l generalizing d r with
  | nil => rfl
  | cons n l ih =>
    unfold claimOutputs Roster.claimAll
    by_cases hn : n ∈ r.placed
    · have hcontains : d.wires.contains n = true := (h.placed n).mpr hn
      rw [if_pos hn, if_pos hcontains]
      exact ih h
    · have hcontains : ¬ d.wires.contains n = true := fun hc => hn ((h.placed n).mp hc)
      rw [if_neg hn, if_neg hcontains, claim_eq h]
      show claimOutputs { d.claimed.2 with
        wires := d.claimed.2.wires.insert n d.claimed.1 } l = _
      rw [claimed_wires]
      exact ih (h.play (m := .claim n) hn)

theorem foldl_claimRest_eq (h : Sound false d r) (l : List Node) :
    l.foldl claimRest d = d.playAll false (r.claimAll l) := by
  induction l generalizing d r with
  | nil => rfl
  | cons n l ih =>
    rw [List.foldl_cons]
    unfold claimRest Roster.claimAll
    by_cases hn : n ∈ r.placed
    · have hcontains : d.wires.contains n = true := (h.placed n).mpr hn
      rw [if_pos hn, if_pos hcontains]
      exact ih h
    · have hcontains : ¬ d.wires.contains n = true := fun hc => hn ((h.placed n).mp hc)
      -- no wire is free, so the next claim takes a new one
      have hnone : d.free.popMin? = none :=
        SortedSet.popMin?_eq_none_iff.mpr (h.plain rfl).1
      have hplay : d.play false (.claim n)
          = { d with
              circuit := d.circuit.addQubit.2
              wires := d.wires.insert n d.circuit.numQubits } := by
        rw [play, claimed, hnone]
      rw [if_neg hn, if_neg hcontains, playAll_cons, ← ih (h.play (m := .claim n) hn), hplay]
      rfl

theorem measureOutputs_eq (h : Sound reuse d r) {l : List Node} (hl : ∀ n ∈ l, r.Live n) :
    d.measureOutputs (l.zip (l.map d.wireAt)) = .ok (d.playAll reuse (l.map .readOut)) := by
  induction l generalizing d r with
  | nil => rfl
  | cons n l ih =>
    have hn := hl n (List.mem_cons_self ..)
    show (d.emitMeasure n (d.wireAt n) >>= fun d' =>
      d'.measureOutputs (l.zip (l.map d.wireAt))) = _
    rw [emitMeasure_eq h hn]
    exact ih (h.read hn) fun x hx => hl x (List.mem_cons_of_mem _ hx)

theorem wires_playAll_readOut (reuse : Bool) (d : Draft) (l : List Node) :
    (d.playAll reuse (l.map .readOut)).wires = d.wires := by
  induction l generalizing d with
  | nil => rfl
  | cons n l ih => exact ih _

/-- The part of `Draft.finish` that measures the outputs. -/
theorem finish_readOut_eq (h : Sound ctx.options.qubitReuse d r)
    (hlive : ∀ n ∈ ctx.pattern.outputs, r.Live n) :
    (if ctx.options.measureOutputs then
      d.measureOutputs (ctx.pattern.outputs.zip (ctx.pattern.outputs.map d.wireAt)) >>= fun d' =>
        pure { d'.compiled ctx with outputQubits := ctx.pattern.outputs.map d.wireAt }
    else pure d >>= fun d' =>
      pure { d'.compiled ctx with outputQubits := ctx.pattern.outputs.map d.wireAt })
      = (.ok ((d.playAll ctx.options.qubitReuse (if ctx.options.measureOutputs then
          ctx.pattern.outputs.map .readOut else [])).compiled ctx)
        : Except CompileFault Compiled) := by
  split
  · rw [measureOutputs_eq h hlive]
    have hwires := wires_playAll_readOut ctx.options.qubitReuse d ctx.pattern.outputs
    set d' := d.playAll ctx.options.qubitReuse (ctx.pattern.outputs.map .readOut)
    show Except.ok { d'.compiled ctx with outputQubits := ctx.pattern.outputs.map d.wireAt }
      = Except.ok { d'.compiled ctx with outputQubits := ctx.pattern.outputs.map d'.wireAt }
    rw [funext (wireAt_congr hwires)]
  · rfl

/-- The part of `Draft.finish` that gives out wires. -/
theorem finish_claims_eq (h : Sound ctx.options.qubitReuse d r) :
    (if ctx.options.qubitReuse then
        d.playAll ctx.options.qubitReuse (r.claimAll ctx.pattern.outputs)
      else ctx.pattern.nodes.toList.foldl claimRest
        (d.playAll ctx.options.qubitReuse (r.claimAll ctx.pattern.outputs)))
      = d.playAll ctx.options.qubitReuse (r.lastClaims ctx) := by
  have hsound := h.playAll (Roster.admitsAll_claimAll r ctx.pattern.outputs)
  unfold Roster.lastClaims
  simp only
  split
  · rfl
  · next hreuse =>
    rw [Bool.not_eq_true] at hreuse
    rw [hreuse] at hsound ⊢
    rw [foldl_claimRest_eq hsound, playAll_append]

/-- **The end**: completing a draft plays the last moves. -/
theorem finish_eq (h : Sound ctx.options.qubitReuse d r)
    (hout : ∀ n ∈ ctx.pattern.outputs, n ∉ r.measured) :
    finish ctx d
      = .ok ((d.playAll ctx.options.qubitReuse (r.ending ctx)).compiled ctx) := by
  have hlive : ∀ n ∈ ctx.pattern.outputs, (r.lastPlaced ctx).Live n :=
    fun n hn => Roster.live_lastPlaced ctx hn (hout n hn)
  have h₁ := h.playAll (Roster.admitsAll_lastClaims ctx r)
  rw [Roster.after_lastClaims] at h₁
  unfold finish
  simp only [claimOutputs_eq h]
  show (if ctx.options.saveStatevector then
      Draft.emit (if ctx.options.qubitReuse then _ else _) ⟨.snapshot, List.range _, []⟩ >>= _
    else pure (if ctx.options.qubitReuse then _ else _) >>= _) = _
  rw [finish_claims_eq ctx h, Roster.ending, playAll_append, playAll_append]
  set d₁ := d.playAll ctx.options.qubitReuse (r.lastClaims ctx)
  split
  · rw [emit_of_fits (Sound.fits_snapshot _ _)]
    exact finish_readOut_eq ctx (h₁.play (m := .snapshot) trivial) hlive
  · exact finish_readOut_eq ctx h₁ hlive

end Draft

/-! ### Whole patterns -/

theorem checkInputs_cases (p : Pattern) (l : List (Node × InputState)) :
    (checkInputs p l = .ok () ∧ ∀ e ∈ l, e.1 ∈ p.inputs ∧ e.2.check = .ok ()) ∨
    (∃ n f, checkInputs p l = .error (.inputState n f)) ∧
      ¬ ∀ e ∈ l, e.1 ∈ p.inputs ∧ e.2.check = .ok () := by
  induction l with
  | nil => exact .inl ⟨rfl, fun e he => absurd he List.not_mem_nil⟩
  | cons e l ih =>
    obtain ⟨n, state⟩ := e
    rw [checkInputs, Pattern.isInput]
    by_cases hn : n ∈ p.inputs
    · rw [if_pos (by simpa using hn)]
      cases hcheck : state.check with
      | error f =>
        refine .inr ⟨⟨n, f, rfl⟩, fun hall => ?_⟩
        have := (hall (n, state) (List.mem_cons_self ..)).2
        rw [hcheck] at this
        cases this
      | ok u =>
        rcases ih with ⟨hok, hall⟩ | ⟨herr, hnot⟩
        · refine .inl ⟨hok, fun e he => ?_⟩
          rcases List.mem_cons.mp he with rfl | he
          · exact ⟨hn, hcheck⟩
          · exact hall e he
        · exact .inr ⟨herr, fun hall => hnot fun e he => hall e (List.mem_cons_of_mem _ he)⟩
    · rw [if_neg (by simpa using hn)]
      exact .inr ⟨⟨n, .notAnInput, rfl⟩,
        fun hall => hn (hall (n, state) (List.mem_cons_self ..)).1⟩

namespace CompileContext

/-- The first fault of the commands of a pattern. -/
def fault? (ctx : CompileContext) : Option PatternFault :=
  ctx.inputRoster.firstFault? ctx ctx.pattern.commands 0

/-- The draft after all moves. -/
def draft (ctx : CompileContext) : Draft := Draft.start.playAll ctx.options.qubitReuse ctx.moves

/-- What is known of the nodes after all moves. -/
def roster (ctx : CompileContext) : Roster := ({} : Roster).after ctx.moves

/-- A pattern that is compiled. -/
structure Accepted (ctx : CompileContext) : Prop where
  wellFormed : ctx.pattern.WellFormed
  inputs : ∀ e ∈ ctx.inputs.entries, e.1 ∈ ctx.pattern.inputs ∧ e.2.check = .ok ()
  ordered : ctx.fault? = none

theorem Accepted.admitsAll {ctx : CompileContext} (h : ctx.Accepted) :
    Roster.AdmitsAll {} ctx.moves :=
  ctx.admitsAll_moves h.wellFormed h.ordered

/-- The books are in order in the end. -/
theorem Accepted.sound {ctx : CompileContext} (h : ctx.Accepted) :
    Draft.Sound ctx.options.qubitReuse ctx.draft ctx.roster :=
  (Draft.sound_start ctx.options.qubitReuse).playAll h.admitsAll

end CompileContext

namespace Pattern

/-- The checks before the first command. -/
def precheck (p : Pattern) (inputs : SortedMap Node InputState) : Except CompileFault Unit :=
  match p.validate with
  | .error f => .error (.pattern f)
  | .ok () => checkInputs p inputs.entries

theorem compile_of_wellFormed {p : Pattern} {inputs : SortedMap Node InputState}
    (options : CompileOptions) (hwf : p.WellFormed)
    (hin : checkInputs p inputs.entries = .ok ()) :
    p.compile inputs options = unlessFault (CompileContext.fault? ⟨p, inputs, options⟩)
      ((CompileContext.draft ⟨p, inputs, options⟩).compiled ⟨p, inputs, options⟩) := by
  set ctx : CompileContext := ⟨p, inputs, options⟩
  have hdist : ∀ c ∈ p.commands, ∀ a b, c = .entangle a b → a ≠ b :=
    fun c hc => (hwf.commands_allowed c hc).distinct
  have hstart := Draft.sound_start options.qubitReuse
  have hinputs := hstart.playAll ctx.admitsAll_inputMoves
  unfold compile
  rw [validate_eq_ok_iff.mpr hwf, hin]
  show (Draft.allocateAll ctx .start p.inputs >>= fun d =>
    Draft.commands ctx d p.commands 0 >>= fun d => d.finish ctx) = _
  rw [Draft.allocateAll_eq ctx hstart hwf.inputs_nodup fun _ _ => List.not_mem_nil]
  show (Draft.commands ctx (Draft.start.playAll ctx.options.qubitReuse ctx.inputMoves) p.commands 0
    >>= fun d => d.finish ctx) = _
  rw [Draft.commands_eq ctx hinputs hdist]
  show (unlessFault ctx.fault? _ >>= _) = _
  cases hf : ctx.fault? with
  | some f => rfl
  | none =>
    have hbody := hstart.playAll (ctx.admitsAll_bodyMoves hwf hf)
    have hdraft : ctx.draft = (Draft.start.playAll ctx.options.qubitReuse ctx.bodyMoves).playAll
        ctx.options.qubitReuse (ctx.bodyRoster.ending ctx) := Draft.playAll_append ..
    show Draft.finish ctx ((Draft.start.playAll ctx.options.qubitReuse ctx.inputMoves).playAll
      ctx.options.qubitReuse _) = .ok (ctx.draft.compiled ctx)
    rw [← Draft.playAll_append, hdraft]
    exact Draft.finish_eq ctx hbody (ctx.outputs_not_measured hwf)

/-- **Compilation**: after the checks a pattern is refused for the first fault of its commands, or
else gives what its moves give. -/
theorem compile_eq (p : Pattern) (inputs : SortedMap Node InputState) (options : CompileOptions) :
    p.compile inputs options = p.precheck inputs >>= fun _ =>
      unlessFault (CompileContext.fault? ⟨p, inputs, options⟩)
        ((CompileContext.draft ⟨p, inputs, options⟩).compiled ⟨p, inputs, options⟩) := by
  unfold precheck
  cases hval : p.validate with
  | error f =>
    unfold compile
    rw [hval]
    rfl
  | ok u =>
    cases hin : checkInputs p inputs.entries with
    | error f =>
      unfold compile
      rw [hval, hin]
      rfl
    | ok u => exact compile_of_wellFormed options (validate_eq_ok_iff.mp hval) hin

theorem precheck_eq_ok_iff {p : Pattern} {inputs : SortedMap Node InputState} :
    p.precheck inputs = .ok () ↔
      p.WellFormed ∧ ∀ e ∈ inputs.entries, e.1 ∈ p.inputs ∧ e.2.check = .ok () := by
  rw [← validate_eq_ok_iff]
  unfold precheck
  cases p.validate with
  | error f => simp
  | ok u =>
    rcases checkInputs_cases p inputs.entries with ⟨hok, hall⟩ | ⟨⟨n, f, herr⟩, hnot⟩
    · simp only [hok, true_and, true_iff]
      exact hall
    · simp only [herr, reduceCtorEq, true_and, false_iff]
      exact hnot

/-- **Success**: an accepted pattern, and no other, is compiled, by playing its moves. -/
theorem compile_eq_ok_iff {p : Pattern} {inputs : SortedMap Node InputState}
    {options : CompileOptions} {c : Compiled} :
    p.compile inputs options = .ok c ↔
      (⟨p, inputs, options⟩ : CompileContext).Accepted ∧
        c = (CompileContext.draft ⟨p, inputs, options⟩).compiled ⟨p, inputs, options⟩ := by
  rw [compile_eq]
  cases hpre : p.precheck inputs with
  | error f =>
    refine ⟨nofun, fun h => ?_⟩
    rw [precheck_eq_ok_iff.mpr ⟨h.1.wellFormed, h.1.inputs⟩] at hpre
    cases hpre
  | ok u =>
    obtain ⟨hwf, hin⟩ := precheck_eq_ok_iff.mp hpre
    show unlessFault _ _ = _ ↔ _
    cases hf : CompileContext.fault? ⟨p, inputs, options⟩ with
    | some f =>
      refine ⟨nofun, fun h => ?_⟩
      rw [h.1.ordered] at hf
      cases hf
    | none =>
      constructor
      · intro h
        exact ⟨⟨hwf, hin, hf⟩, (Except.ok.inj h).symm⟩
      · rintro ⟨-, rfl⟩
        rfl

/-- A chain of three nodes, with a known outcome and an output node that no command acts on. -/
def relay : Pattern :=
  .ofParts [0, 1, 2, 3, 7] [(0, 1), (1, 2)] [0] [2, 3]
    [.entangle 0 1, .measure 0 .xy 0.25 ∅ ∅, .entangle 1 2,
      .measure 1 .yz 0.5 (.ofList [0]) (.ofList [0, 7]), .correctX 2 (.ofList [1, 7]),
      .correctZ 2 (.ofList [0])] [(7, true)]

theorem exists_compile_relay (options : CompileOptions) :
    ∃ c, relay.compile ∅ options = .ok c := by
  have hok : ∀ a b c, (relay.compile ∅ ⟨a, b, c⟩).isOk = true := by decide +kernel
  obtain ⟨a, b, c⟩ := options
  have hthis := hok a b c
  cases h : relay.compile ∅ ⟨a, b, c⟩ with
  | ok compiled => exact ⟨compiled, rfl⟩
  | error f =>
    rw [h] at hthis
    cases hthis

end Pattern

end OneWay
