import OneWay.Proofs.Compile.Script

/-!
# Reusing wires changes nothing but the wires

A circuit that reuses wires is compared with the plain one of the same pattern. A wire may serve
several nodes in turn, so a circuit alone does not tell which node an instruction acts on. The
`Draft.journal` of a compilation does: it lists the instructions and the wires given out in the
order in which this happens, and the *occupant* of a wire at some point is the node for which it
was claimed last.

`Draft.Occupied` is the invariant: live nodes occupy their wires and a free wire is still occupied
by a node that was measured. By it the instructions of the journal, named by occupants and without
the resets, are those of the script (`Draft.onNodes_journal`), which is also what the plain circuit
consists of.
-/

namespace OneWay

/-- The instruction without the operands of a snapshot, which are all wires of the circuit. -/
def InstructionOn.forgetSnapshot {α : Type} (inst : InstructionOn α) : InstructionOn α :=
  if inst.action = .snapshot then { inst with operands := [] } else inst

theorem InstructionOn.map_forgetSnapshot {α β : Type} (f : α → β) (l : List (InstructionOn α)) :
    (l.map (·.map f)).map forgetSnapshot = (l.map forgetSnapshot).map (·.map f) := by
  rw [List.map_map, List.map_map]
  refine List.map_congr_left fun inst _ => ?_
  simp only [Function.comp_apply, forgetSnapshot, InstructionOn.map]
  split <;> rfl

/-! ### Journals -/

/-- What happens during a compilation. -/
inductive Event where
  /-- A wire is given to a node. -/
  | claimed (node : Node) (wire : Qubit)
  /-- An instruction is emitted. -/
  | emitted (inst : Instruction)
  deriving DecidableEq, Repr

/-- What happened during a compilation, in order. -/
abbrev Journal := List Event

namespace Journal

/-- The instructions of a journal. -/
def instructions : Journal → List Instruction
  | [] => []
  | .claimed .. :: j => instructions j
  | .emitted inst :: j => inst :: instructions j

/-- The occupant of a wire: the node for which it was claimed last. -/
def occupant (j : Journal) (w : Qubit) : Option Node :=
  j.foldl (fun last e =>
    match e with
    | .claimed n w' => if w' = w then some n else last
    | .emitted _ => last) none

/-- The instructions of a journal that goes on from another, with wires replaced by their occupants
at that point. -/
def onNodesFrom (before : Journal) : Journal → List (InstructionOn (Option Node))
  | [] => []
  | .claimed n w :: j => onNodesFrom (before ++ [.claimed n w]) j
  | .emitted inst :: j =>
    inst.relabel (occupant before) :: onNodesFrom (before ++ [.emitted inst]) j

/-- The instructions of a journal, with wires replaced by their occupants at that point. -/
def onNodes (j : Journal) : List (InstructionOn (Option Node)) := onNodesFrom [] j

theorem instructions_append (j₁ j₂ : Journal) :
    instructions (j₁ ++ j₂) = instructions j₁ ++ instructions j₂ := by
  induction j₁ with
  | nil => rfl
  | cons e j ih => cases e <;> simp [instructions, ih]

theorem occupant_append_emitted (j : Journal) (inst : Instruction) (w : Qubit) :
    occupant (j ++ [.emitted inst]) w = occupant j w := by
  simp [occupant]

theorem occupant_append_claimed (j : Journal) (n : Node) (w w' : Qubit) :
    occupant (j ++ [.claimed n w']) w = if w' = w then some n else occupant j w := by
  simp [occupant]

theorem onNodesFrom_append (before j₁ j₂ : Journal) :
    onNodesFrom before (j₁ ++ j₂) = onNodesFrom before j₁ ++ onNodesFrom (before ++ j₁) j₂ := by
  induction j₁ generalizing before with
  | nil => simp [onNodesFrom]
  | cons e j ih => cases e <;> simp [onNodesFrom, ih]

theorem onNodes_append (j₁ j₂ : Journal) :
    onNodes (j₁ ++ j₂) = onNodes j₁ ++ onNodesFrom j₁ j₂ :=
  onNodesFrom_append [] j₁ j₂

end Journal

namespace Draft

/-- The events of a move. A wire is reset right before it is given to another node. -/
def events (d : Draft) (m : Move) : Journal :=
  (d.emits m).map .emitted ++
    match m with
    | .claim n => [.claimed n d.claimed.1]
    | _ => []

/-- The events of several moves. -/
def journal (reuse : Bool) : Draft → List Move → Journal
  | _, [] => []
  | d, m :: l => d.events m ++ (d.play reuse m).journal reuse l

theorem instructions_events (d : Draft) (m : Move) :
    Journal.instructions (d.events m) = d.emits m := by
  have hmap : ∀ l : List Instruction, Journal.instructions (l.map .emitted) = l := by
    intro l
    induction l with
    | nil => rfl
    | cons inst l ih => rw [List.map_cons, Journal.instructions, ih]
  unfold events
  rw [Journal.instructions_append, hmap]
  cases m <;> exact List.append_nil _

/-- A journal lists the instructions of its run. -/
theorem instructions_journal (reuse : Bool) (d : Draft) (l : List Move) :
    Journal.instructions (d.journal reuse l) = d.trace reuse l := by
  induction l generalizing d with
  | nil => rfl
  | cons m l ih => rw [journal, Journal.instructions_append, instructions_events, ih, trace]

/-- The events of a move that gives a node a wire. -/
theorem events_claim_cases (d : Draft) (n : Node) :
    (∃ w free, d.free.toList = w :: free.toList ∧
      d.events (.claim n) = [.emitted ⟨.reset, [w], []⟩, .claimed n w] ∧
      ∀ reuse, d.play reuse (.claim n)
        = { ({ d with free }.push ⟨.reset, [w], []⟩) with wires := d.wires.insert n w }) ∨
    (d.free.toList = [] ∧ d.events (.claim n) = [.claimed n d.circuit.numQubits] ∧
      ∀ reuse, d.play reuse (.claim n)
        = { d with
            circuit := d.circuit.addQubit.2
            wires := d.wires.insert n d.circuit.numQubits }) := by
  unfold events emits play claimed
  cases hpop : d.free.popMin? with
  | some popped =>
    obtain ⟨w, free⟩ := popped
    exact .inl ⟨w, free, SortedSet.popMin?_eq_some_iff.mp hpop, rfl, fun _ => rfl⟩
  | none => exact .inr ⟨SortedSet.popMin?_eq_none_iff.mp hpop, rfl, fun _ => rfl⟩

/-! ### Occupied wires -/

/-- What a journal tells about the wires of a draft, where wires are reused. -/
structure Occupied (j : Journal) (d : Draft) (r : Roster) : Prop where
  /-- A live node occupies its wire. -/
  live : ∀ n, r.Live n → j.occupant (d.wireAt n) = some n
  /-- The last occupant of a free wire was measured. -/
  free : ∀ w ∈ d.free, ∃ n ∈ r.measured, j.occupant w = some n
  /-- The wires of the table are those that were given out. -/
  claims : ∀ n w, .claimed n w ∈ j ↔ d.wires.get? n = some w
  /-- A measured node was measured by an instruction. -/
  measured : ∀ n ∈ r.measured, ∃ b, ⟨.measure, [some n], [b]⟩ ∈ j.onNodes

namespace Occupied

variable {j : Journal} {d d' : Draft} {r r' : Roster}

theorem start : Occupied [] .start {} where
  live := fun n hn => absurd hn.1 List.not_mem_nil
  free := fun w hw => absurd hw (SortedSet.not_mem_empty w)
  claims := fun n w => by simp [Draft.start, SortedMap.get?_empty]
  measured := fun n hn => absurd hn (SortedSet.not_mem_empty n)

/-- An instruction leaves the occupants as they are. -/
theorem emit (h : Occupied j d r) (inst : Instruction) (hwires : d'.wires = d.wires)
    (hfree : d'.free = d.free) (hplaced : r'.placed = r.placed)
    (hmeasured : r'.measured = r.measured) : Occupied (j ++ [.emitted inst]) d' r' := by
  refine ⟨fun n hn => ?_, fun w hw => ?_, fun n w => ?_, fun n hn => ?_⟩
  · rw [Journal.occupant_append_emitted, wireAt_congr hwires]
    rw [Roster.Live, hplaced, hmeasured] at hn
    exact h.live n hn
  · rw [Journal.occupant_append_emitted, hmeasured]
    rw [hfree] at hw
    exact h.free w hw
  · rw [hwires, ← h.claims n w]
    simp
  · rw [hmeasured] at hn
    obtain ⟨b, hb⟩ := h.measured n hn
    exact ⟨b, by rw [Journal.onNodes_append]; exact List.mem_append_left _ hb⟩

/-- A new node occupies the wire that it gets. -/
theorem claim (h : Occupied j d r) (hr : r.Valid) {n : Node} {w : Qubit} (hn : n ∉ r.placed)
    (hnew : d.wires.get? n = none) (hheld : ∀ x, r.Live x → d.wireAt x ≠ w)
    (hwires : d'.wires = d.wires.insert n w)
    (hfree : ∀ v ∈ d'.free, v ∈ d.free ∧ v ≠ w) :
    Occupied (j ++ [.claimed n w]) d' (r.move (.claim n)) := by
  refine ⟨fun x hx => ?_, fun v hv => ?_, fun x v => ?_, fun x hx => ?_⟩
  · -- no live node but the new one is on this wire
    have hwire : d'.wireAt x = if x = n then w else d.wireAt x := by
      rw [wireAt, hwires, wireAt_insert]
    rw [Journal.occupant_append_claimed, hwire]
    by_cases hxn : x = n
    · rw [if_pos hxn, if_pos rfl, hxn]
    · rw [← Roster.mem_live, Roster.live_claim hr hn, List.mem_append, List.mem_singleton,
        or_iff_left hxn, Roster.mem_live] at hx
      rw [if_neg hxn, if_neg (hheld x hx).symm]
      exact h.live x hx
  · obtain ⟨hv, hne⟩ := hfree v hv
    rw [Journal.occupant_append_claimed, if_neg hne.symm]
    exact h.free v hv
  · rw [hwires, SortedMap.get?_insert, List.mem_append, List.mem_singleton, h.claims x v]
    by_cases hxn : x = n
    · simp [hxn, hnew, eq_comm]
    · simp [hxn]
  · obtain ⟨b, hb⟩ := h.measured x hx
    exact ⟨b, by rw [Journal.onNodes_append]; exact List.mem_append_left _ hb⟩

/-- The wire of a measured node stays occupied by it while it is free. -/
theorem measure (h : Occupied j d r) {n : Node} (hn : r.Live n) (b : Bit)
    (hwires : d'.wires = d.wires) (hfree : d'.free = d.free.insert (d.wireAt n)) :
    Occupied (j ++ [.emitted ⟨.measure, [d.wireAt n], [b]⟩]) d' (r.move (.measure n)) := by
  refine ⟨fun x hx => ?_, fun w hw => ?_, fun x w => ?_, fun x hx => ?_⟩
  · rw [Journal.occupant_append_emitted, wireAt_congr hwires]
    exact h.live x ⟨hx.1, fun hm => hx.2 (SortedSet.mem_insert.mpr (.inr hm))⟩
  · rw [Journal.occupant_append_emitted]
    rw [hfree, SortedSet.mem_insert] at hw
    rcases hw with rfl | hw
    · exact ⟨n, SortedSet.mem_insert.mpr (.inl rfl), h.live n hn⟩
    · obtain ⟨x, hx, hocc⟩ := h.free w hw
      exact ⟨x, SortedSet.mem_insert.mpr (.inr hx), hocc⟩
  · rw [hwires, ← h.claims x w]
    simp
  · rw [Journal.onNodes_append]
    rcases SortedSet.mem_insert.mp hx with rfl | hx
    · refine ⟨b, List.mem_append_right _ ?_⟩
      simp [Journal.onNodesFrom, Instruction.relabel, h.live x hn]
    · obtain ⟨b', hb'⟩ := h.measured x hx
      exact ⟨b', List.mem_append_left _ hb'⟩

/-- **One move** keeps the occupants in order. -/
theorem play (h : Occupied j d r) (hs : Sound true d r) {m : Move} (hm : r.Admits m) :
    Occupied (j ++ d.events m) (d.play true m) (r.move m) := by
  cases m with
  | claim n =>
    have hnew : d.wires.get? n = none := by
      rw [← Option.not_isSome_iff_eq_none, hs.placed n]
      exact hm
    obtain ⟨w, free, hfree, hevents, hplay⟩ | ⟨hfree, hevents, hplay⟩ := d.events_claim_cases n
    · -- the wire was free: it is reset, then claimed
      rw [hevents, hplay, List.append_cons]
      have hreset : Occupied (j ++ [.emitted ⟨.reset, [w], []⟩]) d r := h.emit _ rfl rfl rfl rfl
      have hw : w ∈ d.free := by
        show w ∈ d.free.toList
        rw [hfree]
        exact List.mem_cons_self ..
      have hheld : ∀ x, r.Live x → d.wireAt x ≠ w :=
        fun x hx heq => hs.wireAt_not_free hx (heq ▸ hw)
      have hrest : ∀ v ∈ free, v ∈ d.free ∧ v ≠ w := by
        have hnodup := d.free.nodup
        rw [hfree, List.nodup_cons] at hnodup
        intro v hv
        refine ⟨?_, fun heq => hnodup.1 (heq ▸ hv)⟩
        show v ∈ d.free.toList
        rw [hfree]
        exact List.mem_cons_of_mem _ hv
      exact hreset.claim hs.roster hm hnew hheld rfl hrest
    · -- the wire is new, so no other node holds it
      rw [hevents, hplay]
      have hheld : ∀ x, r.Live x → d.wireAt x ≠ d.circuit.numQubits :=
        fun x hx => Nat.ne_of_lt (hs.wireAt_lt hx)
      have hnone : ∀ v ∈ d.free, v ∈ d.free ∧ v ≠ d.circuit.numQubits := by
        intro v hv
        have hv : v ∈ d.free.toList := hv
        rw [hfree] at hv
        exact absurd hv List.not_mem_nil
      exact h.claim hs.roster hm hnew hheld rfl hnone
  | gate g nodes => exact h.emit _ rfl rfl rfl rfl
  | measure n => exact h.measure hm _ rfl rfl
  | readOut n => exact h.emit _ rfl rfl rfl rfl
  | snapshot => exact h.emit _ rfl rfl rfl rfl

/-- **A run** keeps the occupants in order. -/
theorem playAll (h : Occupied j d r) (hs : Sound true d r) {l : List Move} (hl : r.AdmitsAll l) :
    Occupied (j ++ d.journal true l) (d.playAll true l) (r.after l) := by
  induction l generalizing j d r with
  | nil =>
    rw [journal, List.append_nil]
    exact h
  | cons m l ih =>
    rw [journal, ← List.append_assoc]
    exact ih (h.play hs hl.1) (hs.play hl.1) hl.2

end Occupied

/-! ### The same instructions on the same nodes -/

/-- **One move**: its instructions but for a reset are those of the script. -/
theorem onNodes_events {j : Journal} {d : Draft} {r : Roster} (h : Occupied j d r)
    (hs : Sound true d r) {m : Move} (hm : r.Admits m) :
    ((Journal.onNodesFrom j (d.events m)).filter (·.action ≠ .reset)).map
        InstructionOn.forgetSnapshot
      = ((r.emits m).map (·.map some)).map InstructionOn.forgetSnapshot := by
  cases m with
  | claim n =>
    obtain ⟨w, free, -, hevents, -⟩ | ⟨-, hevents, -⟩ := d.events_claim_cases n
    · simp [hevents, Journal.onNodesFrom, Instruction.relabel, Roster.emits]
    · simp [hevents, Journal.onNodesFrom, Roster.emits]
  | gate g nodes =>
    have hnodes := map_label_wireAt fun n hn => h.live n (hm.2.2.1 n hn)
    simp only [events, emits, Roster.emits, List.map_singleton, List.append_nil,
      Journal.onNodesFrom, Instruction.relabel, InstructionOn.map, hnodes]
    rfl
  | measure n =>
    simp [events, emits, Roster.emits, Journal.onNodesFrom, Instruction.relabel, InstructionOn.map,
      h.live n hm, hs.bits]
  | readOut n =>
    simp [events, emits, Roster.emits, Journal.onNodesFrom, Instruction.relabel, InstructionOn.map,
      h.live n hm, hs.bits]
  | snapshot => rfl

/-- **A run**: the instructions of a journal, named by occupants and without the resets, are those
of the script. -/
theorem onNodes_journal {j : Journal} {d : Draft} {r : Roster} (h : Occupied j d r)
    (hs : Sound true d r) {l : List Move} (hl : r.AdmitsAll l) :
    ((Journal.onNodesFrom j (d.journal true l)).filter (·.action ≠ .reset)).map
        InstructionOn.forgetSnapshot
      = ((r.script l).map (·.map some)).map InstructionOn.forgetSnapshot := by
  induction l generalizing j d r with
  | nil => rfl
  | cons m l ih =>
    rw [journal, Journal.onNodesFrom_append, List.filter_append, List.map_append,
      onNodes_events h hs hl.1, ih (h.play hs hl.1) (hs.play hl.1) hl.2, Roster.script,
      List.map_append, List.map_append]

/-! ### Resets -/

/-- A reset is emitted only by a move that gives the wire to a node, right before that. -/
theorem events_reset {d : Draft} {m : Move} {j₁ j₂ : Journal} {inst : Instruction}
    (h : d.events m = j₁ ++ .emitted inst :: j₂) (hreset : inst.action = .reset) :
    ∃ n w free, m = .claim n ∧ j₁ = [] ∧ d.free.toList = w :: free ∧
      inst = ⟨.reset, [w], []⟩ ∧ j₂ = [.claimed n w] := by
  have hmem : .emitted inst ∈ d.events m := by
    rw [h]
    exact List.mem_append_right _ (List.mem_cons_self ..)
  have hsingle : ∀ i : Instruction, .emitted inst ∈ [Event.emitted i] → i.action = .reset := by
    intro i hi
    rw [← Event.emitted.inj (List.mem_singleton.mp hi)]
    exact hreset
  cases m with
  | claim n =>
    obtain ⟨w, free, hfree, hevents, -⟩ | ⟨-, hevents, -⟩ := d.events_claim_cases n
    · rw [hevents] at h
      cases j₁ with
      | nil =>
        obtain ⟨hinst, hj⟩ := List.cons.inj h
        exact ⟨n, w, free.toList, rfl, rfl, hfree, (Event.emitted.inj hinst).symm, hj.symm⟩
      | cons e j₁ =>
        have htail : .emitted inst ∈ [Event.claimed n w] := by
          rw [(List.cons.inj h).2]
          exact List.mem_append_right _ (List.mem_cons_self ..)
        cases List.mem_singleton.mp htail
    · rw [hevents] at hmem
      cases List.mem_singleton.mp hmem
  | gate g nodes => exact absurd (hsingle _ hmem) nofun
  | measure n => exact absurd (hsingle _ hmem) nofun
  | readOut n => exact absurd (hsingle _ hmem) nofun
  | snapshot => exact absurd (hsingle _ hmem) nofun

/-- A member of two lists joined is a member of the first or of the second. -/
theorem append_eq_append_cons_cases {α : Type} {l₁ l₂ l₃ l₄ : List α} {x : α}
    (h : l₁ ++ l₂ = l₃ ++ x :: l₄) :
    (∃ a, l₂ = a ++ x :: l₄ ∧ l₃ = l₁ ++ a) ∨ ∃ a, l₁ = l₃ ++ x :: a ∧ l₄ = a ++ l₂ := by
  rcases List.append_eq_append_iff.mp h with ⟨a, h₃, h₂⟩ | ⟨a, h₁, h₄⟩
  · exact .inl ⟨a, h₂, h₃⟩
  · cases a with
    | nil => exact .inl ⟨[], h₄.symm, by rw [h₁, List.append_nil, List.append_nil]⟩
    | cons y a =>
      obtain ⟨rfl, hrest⟩ := List.cons.inj h₄
      exact .inr ⟨a, h₁, hrest⟩

/-- The move behind a reset in a journal. -/
theorem journal_reset {reuse : Bool} {d : Draft} {l : List Move} {j₁ j₂ : Journal}
    {inst : Instruction} (h : d.journal reuse l = j₁ ++ .emitted inst :: j₂)
    (hreset : inst.action = .reset) :
    ∃ l₁ n l₂ w free j₃, l = l₁ ++ .claim n :: l₂ ∧ j₁ = d.journal reuse l₁ ∧
      (d.playAll reuse l₁).free.toList = w :: free ∧ inst = ⟨.reset, [w], []⟩ ∧
      j₂ = .claimed n w :: j₃ := by
  induction l generalizing d j₁ with
  | nil => simp [journal] at h
  | cons m l ih =>
    rw [journal] at h
    rcases append_eq_append_cons_cases h with ⟨a, ha, hj₁⟩ | ⟨c, hc, hj₂⟩
    · -- a later move
      obtain ⟨l₁, n, l₂, w, free, j₃, rfl, rfl, hfree, hinst, hj₂⟩ := ih ha
      exact ⟨m :: l₁, n, l₂, w, free, j₃, rfl, hj₁, hfree, hinst, hj₂⟩
    · -- this move
      obtain ⟨n, w, free, rfl, rfl, hfree, hinst, rfl⟩ := events_reset hc hreset
      exact ⟨[], n, l, w, free, _, rfl, rfl, hfree, hinst, hj₂⟩

/-! ### Wires at every point -/

/-- Live nodes have different wires, none of them free, and these and the free wires are all
wires. -/
structure Apportioned (d : Draft) : Prop where
  distinct : ∀ a b w, d.wires.get? a = some w → d.wires.get? b = some w →
    a ∉ d.measured → b ∉ d.measured → a = b
  disjoint : ∀ n w, d.wires.get? n = some w → n ∉ d.measured → w ∉ d.free
  exact : ∀ w, w < d.circuit.numQubits ↔
    (∃ n, d.wires.get? n = some w ∧ n ∉ d.measured) ∨ w ∈ d.free

theorem Sound.live_of_get? {reuse : Bool} {d : Draft} {r : Roster} (h : Sound reuse d r)
    {n : Node} {w : Qubit} (hn : d.wires.get? n = some w) (hm : n ∉ d.measured) : r.Live n := by
  rw [h.measured] at hm
  exact ⟨(h.placed n).mp (by rw [hn]; rfl), hm⟩

theorem Sound.apportioned {d : Draft} {r : Roster} (h : Sound true d r) : d.Apportioned := by
  refine ⟨fun a b w ha hb hma hmb => ?_, fun n w hn hm => ?_, fun w => ?_⟩
  · have hwire := (wireAt_of_get? ha).trans (wireAt_of_get? hb).symm
    exact h.wireAt_injOn a (Roster.mem_live.mpr (h.live_of_get? ha hma)) b
      (Roster.mem_live.mpr (h.live_of_get? hb hmb)) hwire
  · rw [← wireAt_of_get? hn]
    exact h.wireAt_not_free (h.live_of_get? hn hm)
  · rw [← List.mem_range, ← h.pool.mem_iff, List.mem_append, List.mem_map]
    refine or_congr ⟨?_, ?_⟩ Iff.rfl
    · rintro ⟨n, hn, rfl⟩
      obtain ⟨hplaced, hm⟩ := Roster.mem_live.mp hn
      obtain ⟨w, hw⟩ := Option.isSome_iff_exists.mp ((h.placed n).mpr hplaced)
      exact ⟨n, by rw [wireAt_of_get? hw, hw], by rw [h.measured]; exact hm⟩
    · rintro ⟨n, hn, hm⟩
      exact ⟨n, Roster.mem_live.mpr (h.live_of_get? hn hm), wireAt_of_get? hn⟩

end Draft

/-! ### Moves do not depend on the options, but for the last ones -/

namespace Roster

variable (p : Pattern) (inputs : SortedMap Node InputState) (o o' : CompileOptions)

theorem touchAll_options (r : Roster) (l : List Node) :
    r.touchAll ⟨p, inputs, o⟩ l = r.touchAll ⟨p, inputs, o'⟩ l := by
  induction l generalizing r with
  | nil => rfl
  | cons n l ih =>
    rw [touchAll, touchAll, ih]
    rfl

theorem knownParity_options (r : Roster) (l : List Node) :
    r.knownParity ⟨p, inputs, o⟩ l = r.knownParity ⟨p, inputs, o'⟩ l := by
  induction l with
  | nil => rfl
  | cons n l ih => rw [knownParity, knownParity, ih]

theorem act_options (r : Roster) (c : Command) :
    r.act ⟨p, inputs, o⟩ c = r.act ⟨p, inputs, o'⟩ c := by
  cases c <;> simp only [act, correction, knownParity_options p inputs o o']

theorem commandsMoves_options (r : Roster) (l : List Command) :
    r.commandsMoves ⟨p, inputs, o⟩ l = r.commandsMoves ⟨p, inputs, o'⟩ l := by
  induction l generalizing r with
  | nil => rfl
  | cons c l ih =>
    rw [commandsMoves, commandsMoves, after_commandMoves, after_commandMoves, ih, commandMoves,
      commandMoves, touchAll_options p inputs o o', act_options p inputs o o']

theorem commandsMoves_append (ctx : CompileContext) (r : Roster) (l₁ l₂ : List Command) :
    r.commandsMoves ctx (l₁ ++ l₂)
      = r.commandsMoves ctx l₁ ++ (r.steps l₁).commandsMoves ctx l₂ := by
  induction l₁ generalizing r with
  | nil => rfl
  | cons c l ih =>
    rw [List.cons_append, commandsMoves, commandsMoves, ih, after_commandMoves, List.append_assoc]
    rfl

theorem firstFault?_of_append {ctx : CompileContext} {r : Roster} {l₁ l₂ : List Command} {i : Nat}
    (h : r.firstFault? ctx (l₁ ++ l₂) i = none) : r.firstFault? ctx l₁ i = none := by
  induction l₁ generalizing r i with
  | nil => rfl
  | cons c l ih =>
    rw [List.cons_append, firstFault?, Option.or_eq_none_iff] at h
    rw [firstFault?, Option.or_eq_none_iff]
    exact ⟨h.1, ih h.2⟩

theorem firstFault?_options (r : Roster) (l : List Command) (i : Nat) :
    r.firstFault? ⟨p, inputs, o⟩ l i = r.firstFault? ⟨p, inputs, o'⟩ l i := by
  induction l generalizing r i with
  | nil => rfl
  | cons c l ih =>
    rw [firstFault?, firstFault?, after_commandMoves, after_commandMoves, ih]
    rfl

/-- Giving out wires emits no instruction on nodes. -/
theorem script_claimAll (r : Roster) (l : List Node) : r.script (r.claimAll l) = [] := by
  induction l generalizing r with
  | nil => rfl
  | cons n l ih =>
    unfold claimAll
    split
    · exact ih r
    · exact ih _

theorem script_lastClaims (ctx : CompileContext) (r : Roster) :
    r.script (r.lastClaims ctx) = [] := by
  unfold lastClaims
  simp only
  split
  · exact script_claimAll ..
  · rw [script_append, script_claimAll, script_claimAll]
    rfl

/-- Reading out depends on the classical bits only. -/
theorem map_readOut_congr {r r' : Roster} (hregister : r.register = r'.register)
    (hbits : r.bits = r'.bits) (l : List Node) :
    r.script (l.map .readOut) = r'.script (l.map .readOut) ∧
      (r.after (l.map .readOut)).register = (r'.after (l.map .readOut)).register ∧
      (r.after (l.map .readOut)).bits = (r'.after (l.map .readOut)).bits := by
  induction l generalizing r r' with
  | nil => exact ⟨rfl, hregister, hbits⟩
  | cons n l ih =>
    have hregister' : (r.move (.readOut n)).register = (r'.move (.readOut n)).register := by
      rw [move, move, hregister, hbits]
    have hbits' : (r.move (.readOut n)).bits = (r'.move (.readOut n)).bits := by
      rw [move, move, hbits]
    obtain ⟨hscript, hrest⟩ := ih hregister' hbits'
    refine ⟨?_, hrest⟩
    rw [List.map_cons, script, script, hscript, emits, emits, hbits]

/-- What is left of the end of a pattern if wires do not count. -/
theorem ending_options (hs : o.saveStatevector = o'.saveStatevector)
    (hm : o.measureOutputs = o'.measureOutputs) (r : Roster) :
    (r.script (r.ending ⟨p, inputs, o⟩)).map InstructionOn.forgetSnapshot
        = (r.script (r.ending ⟨p, inputs, o'⟩)).map InstructionOn.forgetSnapshot ∧
      (r.after (r.ending ⟨p, inputs, o⟩)).register
        = (r.after (r.ending ⟨p, inputs, o'⟩)).register ∧
      (r.after (r.ending ⟨p, inputs, o⟩)).bits = (r.after (r.ending ⟨p, inputs, o'⟩)).bits := by
  have hsnapshot : ∀ r₁ : Roster, ∀ b : Bool,
      r₁.after (if b then [.snapshot] else []) = r₁ ∧
        (r₁.script (if b then [.snapshot] else [])).map InstructionOn.forgetSnapshot
          = if b then [⟨.snapshot, [], []⟩] else [] := by
    intro r₁ b
    cases b <;> exact ⟨rfl, rfl⟩
  have hframe := r.lastPlaced_frame ⟨p, inputs, o⟩
  have hframe' := r.lastPlaced_frame ⟨p, inputs, o'⟩
  have hread := map_readOut_congr (hframe.2.1.trans hframe'.2.1.symm)
    (hframe.2.2.trans hframe'.2.2.symm) p.outputs
  -- claims emit nothing on nodes, and the operands of a snapshot are forgotten
  simp only [ending, script_append, after_append, List.map_append, script_lastClaims,
    after_lastClaims, (hsnapshot _ _).1, (hsnapshot _ _).2, hs, hm]
  cases o'.measureOutputs with
  | false => exact ⟨rfl, hframe.2.1.trans hframe'.2.1.symm, hframe.2.2.trans hframe'.2.2.symm⟩
  | true =>
    simp only [if_true, hread.1]
    exact ⟨trivial, hread.2⟩

end Roster

namespace CompileContext

/-- What happens during the compilation of a pattern. -/
def journal (ctx : CompileContext) : Journal :=
  Draft.start.journal ctx.options.qubitReuse ctx.moves

/-- How the compiled form of a pattern with wires reused relates to the plain one. -/
structure RefinesPlain (ctx : CompileContext) (shared plain : Compiled) : Prop where
  register : shared.register = plain.register
  outputs : shared.outputs = plain.outputs
  bitCount : shared.bitCount = plain.bitCount
  /-- The journal lists the instructions of the circuit. -/
  instructions : ctx.journal.instructions = shared.circuit.instructions.toList
  /-- The journal lists the wires of the nodes. -/
  claims : ∀ n w, .claimed n w ∈ ctx.journal ↔ shared.wires.get? n = some w
  /-- Every wire in an instruction of the plain circuit has a node. -/
  named : ∃ script : List (InstructionOn Node),
    plain.circuit.instructions.toList.map (·.relabel plain.nodeAt?) = script.map (·.map some)
  /-- Without resets, both circuits have the same instructions on the same nodes. -/
  same : (ctx.journal.onNodes.filter (·.action ≠ .reset)).map InstructionOn.forgetSnapshot
    = (plain.circuit.instructions.toList.map (·.relabel plain.nodeAt?)).map
        InstructionOn.forgetSnapshot
  /-- A reset stands right before its wire is given to a new node, and the occupant up to there was
  measured. -/
  resets : ∀ (j₁ : Journal) (inst : Instruction) (j₂ : Journal),
    ctx.journal = j₁ ++ .emitted inst :: j₂ → inst.action = .reset →
    ∃ w old new b j₃, inst = ⟨.reset, [w], []⟩ ∧ j₁.occupant w = some old ∧
      ⟨.measure, [some old], [b]⟩ ∈ j₁.onNodes ∧ (∀ v, .claimed new v ∉ j₁) ∧
      j₂ = .claimed new w :: j₃
  /-- The moves lead to what is compiled. -/
  final : shared = (Draft.start.playAll true ctx.moves).compiled ctx
  /-- Between any two moves the wires are shared out among the live nodes and the pool. -/
  points : ∀ l₁ l₂, ctx.moves = l₁ ++ l₂ → (Draft.start.playAll true l₁).Apportioned
  /-- The drafts after each command are among these points. -/
  commands : ∀ k, ∃ l₁ l₂, ctx.moves = l₁ ++ l₂ ∧
    (Draft.allocateAll ctx .start ctx.pattern.inputs >>= fun d =>
      Draft.commands ctx d (ctx.pattern.commands.take k) 0) = .ok (Draft.start.playAll true l₁)

variable (p : Pattern) (inputs : SortedMap Node InputState) (o o' : CompileOptions)

theorem bodyMoves_options :
    bodyMoves ⟨p, inputs, o⟩ = bodyMoves ⟨p, inputs, o'⟩ := by
  have hinputs : inputMoves ⟨p, inputs, o⟩ = inputMoves ⟨p, inputs, o'⟩ :=
    Roster.touchAll_options p inputs o o' {} p.inputs
  rw [bodyMoves, bodyMoves, inputRoster, inputRoster, hinputs]
  exact congrArg _ (Roster.commandsMoves_options p inputs o o' _ p.commands)

theorem fault?_options : fault? ⟨p, inputs, o⟩ = fault? ⟨p, inputs, o'⟩ := by
  rw [fault?, fault?, inputRoster_eq, inputRoster_eq]
  exact Roster.firstFault?_options p inputs o o' _ p.commands 0

theorem Accepted.options {p : Pattern} {inputs : SortedMap Node InputState} {o : CompileOptions}
    (h : Accepted ⟨p, inputs, o⟩) (o' : CompileOptions) : Accepted ⟨p, inputs, o'⟩ :=
  ⟨h.wellFormed, h.inputs, (fault?_options p inputs o' o).trans h.ordered⟩

/-- What all compilations of a pattern have in common. -/
theorem roster_options (hs : o.saveStatevector = o'.saveStatevector)
    (hm : o.measureOutputs = o'.measureOutputs) :
    (Roster.script {} (moves ⟨p, inputs, o⟩)).map InstructionOn.forgetSnapshot
        = (Roster.script {} (moves ⟨p, inputs, o'⟩)).map InstructionOn.forgetSnapshot ∧
      (roster ⟨p, inputs, o⟩).register = (roster ⟨p, inputs, o'⟩).register ∧
      (roster ⟨p, inputs, o⟩).bits = (roster ⟨p, inputs, o'⟩).bits := by
  have hending := Roster.ending_options p inputs o o' hs hm (bodyRoster ⟨p, inputs, o'⟩)
  simp only [roster, moves, Roster.script_append, Roster.after_append, List.map_append]
  rw [bodyRoster, bodyRoster, bodyMoves_options p inputs o o']
  exact ⟨congrArg _ hending.1, hending.2⟩

/-- The commands up to an index are compiled by the first moves. -/
theorem Accepted.commands_take {ctx : CompileContext} (h : ctx.Accepted) (k : Nat) :
    ∃ l₁ l₂, ctx.moves = l₁ ++ l₂ ∧
      (Draft.allocateAll ctx .start ctx.pattern.inputs >>= fun d =>
        Draft.commands ctx d (ctx.pattern.commands.take k) 0)
        = .ok (Draft.start.playAll ctx.options.qubitReuse l₁) := by
  have hstart := Draft.sound_start ctx.options.qubitReuse
  have hsplit := List.take_append_drop k ctx.pattern.commands
  have hfault : ctx.inputRoster.firstFault? ctx (ctx.pattern.commands.take k) 0 = none := by
    have hall : ctx.inputRoster.firstFault? ctx ctx.pattern.commands 0 = none := h.ordered
    rw [← hsplit] at hall
    exact Roster.firstFault?_of_append hall
  have hdist : ∀ c ∈ ctx.pattern.commands.take k, ∀ a b, c = .entangle a b → a ≠ b :=
    fun c hc => (h.wellFormed.commands_allowed c (List.mem_of_mem_take hc)).distinct
  refine ⟨ctx.inputMoves ++ ctx.inputRoster.commandsMoves ctx (ctx.pattern.commands.take k),
    (ctx.inputRoster.steps (ctx.pattern.commands.take k)).commandsMoves ctx
      (ctx.pattern.commands.drop k) ++ ctx.bodyRoster.ending ctx, ?_, ?_⟩
  · have hbody := Roster.commandsMoves_append ctx ctx.inputRoster (ctx.pattern.commands.take k)
      (ctx.pattern.commands.drop k)
    rw [hsplit] at hbody
    rw [moves, bodyMoves, hbody]
    simp only [List.append_assoc]
  · rw [Draft.allocateAll_eq ctx hstart h.wellFormed.inputs_nodup fun _ _ => List.not_mem_nil]
    show Draft.commands ctx (Draft.start.playAll ctx.options.qubitReuse ctx.inputMoves) _ 0 = _
    rw [Draft.commands_eq ctx (hstart.playAll ctx.admitsAll_inputMoves) hdist]
    show unlessFault (ctx.inputRoster.firstFault? ctx _ 0) _ = _
    rw [hfault, Draft.playAll_append]
    rfl

/-- What happens before a reset. -/
theorem Accepted.reset {ctx : CompileContext} (h : ctx.Accepted)
    (hreuse : ctx.options.qubitReuse = true) {j₁ j₂ : Journal} {inst : Instruction}
    (hj : ctx.journal = j₁ ++ .emitted inst :: j₂) (hreset : inst.action = .reset) :
    ∃ w old new b j₃, inst = ⟨.reset, [w], []⟩ ∧ j₁.occupant w = some old ∧
      ⟨.measure, [some old], [b]⟩ ∈ j₁.onNodes ∧ (∀ v, .claimed new v ∉ j₁) ∧
      j₂ = .claimed new w :: j₃ := by
  rw [journal, hreuse] at hj
  obtain ⟨l₁, n, l₂, w, free, j₃, hl, rfl, hfree, hinst, hj₂⟩ := Draft.journal_reset hj hreset
  have hadmits := h.admitsAll
  rw [hl, Roster.admitsAll_append] at hadmits
  obtain ⟨hbefore, hclaim, -⟩ := hadmits
  -- the state right before the wire is given to `n`
  have hsound := (Draft.sound_start true).playAll hbefore
  have hoccupied := Draft.Occupied.start.playAll (Draft.sound_start true) hbefore
  rw [List.nil_append] at hoccupied
  have hw : w ∈ (Draft.start.playAll true l₁).free := by
    show w ∈ (Draft.start.playAll true l₁).free.toList
    rw [hfree]
    exact List.mem_cons_self ..
  obtain ⟨old, hold, hocc⟩ := hoccupied.free w hw
  obtain ⟨b, hb⟩ := hoccupied.measured old hold
  refine ⟨w, old, n, b, j₃, hinst, hocc, hb, fun v hv => ?_, hj₂⟩
  -- a node that was claimed before could not be claimed again
  have hplaced := (hsound.placed n).mp (by rw [(hoccupied.claims n v).mp hv]; rfl)
  exact hclaim hplaced

/-- Between any two moves the wires are shared out. -/
theorem Accepted.apportioned {ctx : CompileContext} (h : ctx.Accepted) {l₁ l₂ : List Move}
    (hl : ctx.moves = l₁ ++ l₂) : (Draft.start.playAll true l₁).Apportioned := by
  have hadmits := h.admitsAll
  rw [hl, Roster.admitsAll_append] at hadmits
  exact ((Draft.sound_start true).playAll hadmits.1).apportioned

variable {p inputs}

/-- Without resets, the instructions of the journal are those of the plain circuit. -/
theorem Accepted.same_instructions {o o' : CompileOptions} (h : Accepted ⟨p, inputs, o⟩)
    (h' : Accepted ⟨p, inputs, o'⟩) (hreuse : o.qubitReuse = true) (hplain : o'.qubitReuse = false)
    (hs : o.saveStatevector = o'.saveStatevector) (hm : o.measureOutputs = o'.measureOutputs) :
    ((journal ⟨p, inputs, o⟩).onNodes.filter (·.action ≠ .reset)).map InstructionOn.forgetSnapshot
      = ((draft ⟨p, inputs, o'⟩).circuit.instructions.toList.map
          (·.relabel ((draft ⟨p, inputs, o'⟩).compiled ⟨p, inputs, o'⟩).nodeAt?)).map
            InstructionOn.forgetSnapshot := by
  have hscript := (roster_options p inputs o o' hs hm).1
  have hnodes := Draft.onNodes_journal Draft.Occupied.start (Draft.sound_start true) h.admitsAll
  rw [Pattern.relabel_instructions_plain h' hplain, InstructionOn.map_forgetSnapshot, ← hscript,
    ← InstructionOn.map_forgetSnapshot, ← hnodes, journal, hreuse]
  rfl

/-- **Refinement**: what is compiled with wires reused refines what is compiled without. -/
theorem Accepted.refinesPlain {o o' : CompileOptions} (h : Accepted ⟨p, inputs, o⟩)
    (h' : Accepted ⟨p, inputs, o'⟩) (hreuse : o.qubitReuse = true) (hplain : o'.qubitReuse = false)
    (hs : o.saveStatevector = o'.saveStatevector) (hm : o.measureOutputs = o'.measureOutputs) :
    RefinesPlain ⟨p, inputs, o⟩ ((draft ⟨p, inputs, o⟩).compiled ⟨p, inputs, o⟩)
      ((draft ⟨p, inputs, o'⟩).compiled ⟨p, inputs, o'⟩) := by
  obtain ⟨-, hregister, hbits⟩ := roster_options p inputs o o' hs hm
  have hoccupied := Draft.Occupied.start.playAll (Draft.sound_start true) h.admitsAll
  have hdraft : draft ⟨p, inputs, o⟩ = Draft.start.playAll true (moves ⟨p, inputs, o⟩) := by
    rw [draft, hreuse]
  have hjournal : journal ⟨p, inputs, o⟩ = Draft.start.journal true (moves ⟨p, inputs, o⟩) := by
    rw [journal, hreuse]
  refine ⟨?_, rfl, ?_, ?_, ?_, ⟨_, Pattern.relabel_instructions_plain h' hplain⟩,
    h.same_instructions h' hreuse hplain hs hm, fun j₁ inst j₂ => h.reset hreuse, ?_,
    fun l₁ l₂ => h.apportioned, ?_⟩
  · exact h.sound.register.trans (hregister.trans h'.sound.register.symm)
  · exact h.sound.bits.trans (hbits.trans h'.sound.bits.symm)
  · rw [hjournal, Draft.instructions_journal]
    show _ = (draft ⟨p, inputs, o⟩).circuit.instructions.toList
    rw [hdraft, Draft.instructions_playAll]
    rfl
  · rw [hjournal]
    show ∀ n w, _ ↔ (draft ⟨p, inputs, o⟩).wires.get? n = some w
    rw [hdraft]
    exact hoccupied.claims
  · rw [hdraft]
  · have hcommands := h.commands_take
    rw [hreuse] at hcommands
    exact hcommands

end CompileContext

namespace Pattern

/-- A pattern is refused by the checks before the first command or for the first fault of its
commands. -/
theorem compile_eq_error_iff {p : Pattern} {inputs : SortedMap Node InputState}
    {options : CompileOptions} {f : CompileFault} :
    p.compile inputs options = .error f ↔ p.precheck inputs = .error f ∨
      p.precheck inputs = .ok () ∧
        (CompileContext.fault? ⟨p, inputs, options⟩).map .pattern = some f := by
  rw [compile_eq]
  cases p.precheck inputs with
  | error g =>
    show Except.error g = Except.error f ↔ _
    simp
  | ok u =>
    show unlessFault _ _ = _ ↔ _
    cases CompileContext.fault? ⟨p, inputs, options⟩ <;> simp [unlessFault]

/-- **Reuse**: compiling with wires reused succeeds where plain compilation does, fails for the same
reason elsewhere, and gives the same circuit on nodes. -/
theorem compile_reuse_refinesPlain (p : Pattern) (inputs : SortedMap Node InputState)
    (options : CompileOptions) :
    (∀ f, p.compile inputs { options with qubitReuse := true } = .error f ↔
      p.compile inputs { options with qubitReuse := false } = .error f) ∧
    ((∃ c, p.compile inputs { options with qubitReuse := true } = .ok c) ↔
      ∃ c, p.compile inputs { options with qubitReuse := false } = .ok c) ∧
    ∀ shared plain, p.compile inputs { options with qubitReuse := true } = .ok shared →
      p.compile inputs { options with qubitReuse := false } = .ok plain →
      CompileContext.RefinesPlain ⟨p, inputs, { options with qubitReuse := true }⟩ shared
        plain := by
  refine ⟨fun f => ?_, ⟨?_, ?_⟩, fun shared plain hshared hplain => ?_⟩
  · rw [compile_eq_error_iff, compile_eq_error_iff, CompileContext.fault?_options]
  · rintro ⟨c, hc⟩
    have haccepted := (compile_eq_ok_iff.mp hc).1.options { options with qubitReuse := false }
    exact ⟨_, compile_eq_ok_iff.mpr ⟨haccepted, rfl⟩⟩
  · rintro ⟨c, hc⟩
    have haccepted := (compile_eq_ok_iff.mp hc).1.options { options with qubitReuse := true }
    exact ⟨_, compile_eq_ok_iff.mpr ⟨haccepted, rfl⟩⟩
  · obtain ⟨haccepted, rfl⟩ := compile_eq_ok_iff.mp hshared
    obtain ⟨haccepted', rfl⟩ := compile_eq_ok_iff.mp hplain
    exact haccepted.refinesPlain haccepted' rfl rfl rfl rfl

/-- The chain is compiled with and without reuse, and the one circuit refines the other. -/
theorem refinesPlain_relay :
    ∃ shared plain, relay.compile ∅ { qubitReuse := true } = .ok shared ∧
      relay.compile ∅ {} = .ok plain ∧
      CompileContext.RefinesPlain ⟨relay, ∅, { qubitReuse := true }⟩ shared plain := by
  obtain ⟨shared, hshared⟩ := exists_compile_relay { qubitReuse := true }
  obtain ⟨plain, hplain⟩ := exists_compile_relay {}
  exact ⟨shared, plain, hshared, hplain,
    (compile_reuse_refinesPlain relay ∅ {}).2.2 shared plain hshared hplain⟩

end Pattern

end OneWay
