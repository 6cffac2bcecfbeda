import OneWay.Proofs.Compile.Correspondence

/-!
# Nodes are used until they have an outcome

A node is *open* while no outcome of it is kept. `Roster.Orderly` says that a move acts on open
nodes only, and that a condition reads at least one classical bit and none of them twice.
`Roster.Settled` says whose outcomes are kept: each classical bit belongs to one node, which has a
wire, and no measured node is open.

Moves in order keep a roster settled (`Roster.Settled.after`), and the moves of an accepted pattern
are orderly (`CompileContext.Accepted.orderlyAll`): a measured node is refused by every later
command, and an output node is read once, at the end.
-/

namespace OneWay

namespace Roster

/-! ### Orderly moves -/

/-- No outcome of the node is kept. -/
def Open (r : Roster) (n : Node) : Prop := r.register.get? n = none

theorem not_open_iff {r : Roster} {n : Node} :
    ¬ r.Open n ↔ r.register.contains n = true := by
  unfold Open SortedMap.contains
  rw [← Option.ne_none_iff_isSome]

/-- A move acts on open nodes, and its condition reads some bits, none of them twice. -/
def Orderly (r : Roster) : Move → Prop
  | .gate g nodes =>
    (∀ n ∈ nodes, r.Open n) ∧ ∀ c, g.condition = some c → c.bits ≠ [] ∧ c.bits.Nodup
  | .measure n | .readOut n => r.Open n
  | .claim _ | .snapshot => True

/-- Several moves, each orderly at its time. -/
def OrderlyAll : Roster → List Move → Prop
  | _, [] => True
  | r, m :: l => r.Orderly m ∧ (r.move m).OrderlyAll l

theorem orderlyAll_append {r : Roster} {l₁ l₂ : List Move} :
    r.OrderlyAll (l₁ ++ l₂) ↔ r.OrderlyAll l₁ ∧ (r.after l₁).OrderlyAll l₂ := by
  induction l₁ generalizing r with
  | nil => simp [OrderlyAll]
  | cons m l ih => simp [OrderlyAll, ih, and_assoc]

/-! ### Settled rosters -/

/-- Whose outcomes are kept. -/
structure Settled (r : Roster) : Prop where
  /-- A classical bit belongs to one node. -/
  injective : ∀ a b k, r.register.get? a = some k → r.register.get? b = some k → a = b
  placed : ∀ n k, r.register.get? n = some k → n ∈ r.placed
  measured : ∀ n ∈ r.measured, ¬ r.Open n

theorem settled_empty : Settled {} where
  injective := fun a b k h => by rw [SortedMap.get?_empty] at h; cases h
  placed := fun n k h => by rw [SortedMap.get?_empty] at h; cases h
  measured := fun n h => absurd h (SortedSet.not_mem_empty n)

theorem open_insert {r : Roster} {n x : Node} {k : Bit} (hne : x ≠ n) (hx : r.Open x) :
    (r.register.insert n k).get? x = none := by
  rw [SortedMap.get?_insert, if_neg hne]
  exact hx

/-- A new outcome goes to a bit of its own. -/
theorem Settled.read {r : Roster} (h : r.Settled) (hv : r.Valid) {n : Node} (hn : r.Live n) :
    (r.move (.readOut n)).Settled := by
  refine ⟨fun a b k ha hb => ?_, fun x k hx => ?_, fun x hx hopen => ?_⟩
  · -- the bits that are kept already are below the new one
    have hold : ∀ x, r.register.get? x = some r.bits → False :=
      fun x hx => Nat.lt_irrefl _ (hv.register_lt x r.bits hx)
    have ha' : (r.register.insert n r.bits).get? a = some k := ha
    have hb' : (r.register.insert n r.bits).get? b = some k := hb
    rw [SortedMap.get?_insert] at ha' hb'
    split at ha' <;> split at hb'
    · next hane hbne => exact hane.trans hbne.symm
    · obtain rfl := Option.some.inj ha'
      exact (hold b hb').elim
    · obtain rfl := Option.some.inj hb'
      exact (hold a ha').elim
    · exact h.injective a b k ha' hb'
  · have hx' : (r.register.insert n r.bits).get? x = some k := hx
    rw [SortedMap.get?_insert] at hx'
    split at hx'
    · next hxn => exact hxn ▸ hn.1
    · exact h.placed x k hx'
  · have hopen' : (r.register.insert n r.bits).get? x = none := hopen
    rw [SortedMap.get?_insert] at hopen'
    split at hopen'
    · cases hopen'
    · exact h.measured x hx hopen'

/-- **One move** keeps a roster settled. -/
theorem Settled.move {r : Roster} (h : r.Settled) (hv : r.Valid) {m : Move} (hm : r.Admits m) :
    (r.move m).Settled := by
  cases m with
  | claim n =>
    exact ⟨h.injective, fun x k hx => List.mem_append_left _ (h.placed x k hx), h.measured⟩
  | gate g nodes => exact h
  | measure n =>
    have hread := h.read hv hm
    refine ⟨hread.injective, hread.placed, fun x hx => ?_⟩
    rcases SortedSet.mem_insert.mp hx with rfl | hx
    · intro hopen
      have hopen' : (r.register.insert x r.bits).get? x = none := hopen
      rw [SortedMap.get?_insert, if_pos rfl] at hopen'
      cases hopen'
    · exact hread.measured x hx
  | readOut n => exact h.read hv hm
  | snapshot => exact h

/-- **A run** keeps a roster settled. -/
theorem Settled.after {r : Roster} (h : r.Settled) (hv : r.Valid) {l : List Move}
    (hl : r.AdmitsAll l) : (r.after l).Settled := by
  induction l generalizing r with
  | nil => exact h
  | cons m l ih => exact ih (h.move hv hl.1) (hv.move hl.1) hl.2

/-! ### The moves of commands -/

variable (ctx : CompileContext)

theorem orderlyAll_touchAll {r : Roster} {l : List Node} (hl : ∀ n ∈ l, r.Open n) :
    r.OrderlyAll (r.touchAll ctx l) := by
  induction l generalizing r with
  | nil => trivial
  | cons n l ih =>
    have hn : r.Open n := hl n (List.mem_cons_self ..)
    rw [touchAll, orderlyAll_append, after_touch]
    refine ⟨?_, ih fun x hx => ?_⟩
    · unfold touch
      split
      · trivial
      · refine ⟨trivial, ⟨fun x hx => List.mem_singleton.mp hx ▸ hn, ?_⟩, trivial⟩
        intro c hc
        cases hc
    · unfold Open
      rw [(r.place_frame n).2.1]
      exact hl x (List.mem_cons_of_mem _ hx)

theorem orderlyAll_map_plain {r : Roster} {n : Node} (hn : r.Open n) (gates : List Gate) :
    r.OrderlyAll (gates.map (.plain n)) := by
  induction gates with
  | nil => trivial
  | cons g gates ih => exact ⟨⟨fun x hx => List.mem_singleton.mp hx ▸ hn, nofun⟩, ih⟩

/-- Different nodes of a domain count by different bits. -/
theorem Settled.nodup_measuredBits {r : Roster} (h : r.Settled) (domain : Domain) :
    (r.measuredBits domain.toList).Nodup :=
  domain.nodup.filterMap h.injective

theorem orderlyAll_correction {r : Roster} (hs : r.Settled) {n : Node} (hn : r.Open n)
    (pauli : Gate) (domain : Domain) : r.OrderlyAll (r.correction ctx pauli n domain) := by
  have hnodes : ∀ x ∈ [n], r.Open x := fun x hx => List.mem_singleton.mp hx ▸ hn
  unfold correction
  simp only
  split
  · split
    · exact ⟨⟨hnodes, nofun⟩, trivial⟩
    · trivial
  · next hbits =>
    refine ⟨⟨hnodes, ?_⟩, trivial⟩
    rintro c ⟨⟩
    exact ⟨fun hnil => hbits (List.isEmpty_iff.mpr hnil), hs.nodup_measuredBits domain⟩

theorem orderlyAll_act {r : Roster} (hs : r.Settled) {c : Command}
    (hopen : ∀ n ∈ c.targets, r.Open n) : r.OrderlyAll (r.act ctx c) := by
  cases c with
  | prepare n => trivial
  | entangle a b => exact ⟨⟨hopen, nofun⟩, trivial⟩
  | measure n plane angle s t =>
    have hn : r.Open n := hopen n (List.mem_cons_self ..)
    simp only [act, orderlyAll_append, after_append, after_correction, after_map_plain]
    exact ⟨⟨⟨orderlyAll_correction ctx hs hn .x s, orderlyAll_correction ctx hs hn .z t⟩,
      orderlyAll_map_plain hn _⟩, hn, trivial⟩
  | correctX n domain =>
    exact orderlyAll_correction ctx hs (hopen n (List.mem_cons_self ..)) .x domain
  | correctZ n domain =>
    exact orderlyAll_correction ctx hs (hopen n (List.mem_cons_self ..)) .z domain
  | clifford n c => exact orderlyAll_map_plain (hopen n (List.mem_cons_self ..)) _

/-- The moves of an accepted command are orderly, as long as all outcomes are those of measured
nodes. -/
theorem orderlyAll_commandMoves {r : Roster} (hs : r.Settled) (hv : r.Valid)
    (hclosed : ∀ n, r.register.contains n = true → n ∈ r.measured) {index : Nat} {c : Command}
    (hf : r.fault? ctx index c = none) : r.OrderlyAll (r.commandMoves ctx c) := by
  have htargets := ((fault?_eq_none_iff ctx).mp hf).1
  have hopen : ∀ n ∈ c.targets, r.Open n := by
    intro n hn
    by_contra hnot
    exact htargets n hn (hclosed n (not_open_iff.mp hnot))
  -- giving out wires changes no outcome
  have hregister := (r.placeAll_frame c.targets).2.1
  have hsettled := hs.after hv (admitsAll_touchAll ctx htargets)
  rw [after_touchAll] at hsettled
  rw [commandMoves, orderlyAll_append, after_touchAll, ← act_congr ctx hregister]
  refine ⟨orderlyAll_touchAll ctx hopen, orderlyAll_act ctx hsettled ?_⟩
  unfold Open
  rw [hregister]
  exact hopen

/-- The moves of accepted commands are orderly. -/
theorem orderlyAll_commandsMoves {r : Roster} (hs : r.Settled) (hv : r.Valid)
    (hclosed : ∀ n, r.register.contains n = true → n ∈ r.measured) {l : List Command} {index : Nat}
    (hf : r.firstFault? ctx l index = none)
    (hdist : ∀ c ∈ l, ∀ a b, c = .entangle a b → a ≠ b) :
    r.OrderlyAll (r.commandsMoves ctx l) := by
  induction l generalizing r index with
  | nil => trivial
  | cons c l ih =>
    rw [firstFault?, Option.or_eq_none_iff] at hf
    have hadm := admitsAll_commandMoves ctx hv hf.1 (hdist c (List.mem_cons_self ..))
    rw [commandsMoves, orderlyAll_append]
    refine ⟨orderlyAll_commandMoves ctx hs hv hclosed hf.1, ?_⟩
    refine ih (hs.after hv hadm) (hv.after hadm) (fun n => ?_) hf.2
      fun c' hc' => hdist c' (List.mem_cons_of_mem _ hc')
    rw [after_commandMoves, contains_register_step, mem_measured_step]
    exact Or.imp_left (hclosed n)

/-! ### The end of a pattern -/

theorem orderlyAll_claimAll (r : Roster) (l : List Node) : r.OrderlyAll (r.claimAll l) := by
  induction l generalizing r with
  | nil => trivial
  | cons n l ih =>
    unfold claimAll
    split
    · exact ih r
    · exact ⟨trivial, ih _⟩

theorem orderlyAll_lastClaims (r : Roster) : r.OrderlyAll (r.lastClaims ctx) := by
  unfold lastClaims
  simp only
  split
  · exact orderlyAll_claimAll ..
  · exact orderlyAll_append.mpr ⟨orderlyAll_claimAll .., orderlyAll_claimAll ..⟩

theorem orderlyAll_map_readOut {r : Roster} {l : List Node} (hnodup : l.Nodup)
    (hl : ∀ n ∈ l, r.Open n) : r.OrderlyAll (l.map .readOut) := by
  induction l generalizing r with
  | nil => trivial
  | cons n l ih =>
    rw [List.nodup_cons] at hnodup
    refine ⟨hl n (List.mem_cons_self ..), ih hnodup.2 fun x hx => ?_⟩
    refine open_insert ?_ (hl x (List.mem_cons_of_mem _ hx))
    rintro rfl
    exact hnodup.1 hx

/-- What is known of the nodes after the last move. -/
theorem after_ending (r : Roster) :
    r.after (r.ending ctx) = (r.lastPlaced ctx).after
      (if ctx.options.measureOutputs then ctx.pattern.outputs.map .readOut else []) := by
  rw [ending, after_append, after_append, after_lastClaims]
  cases ctx.options.saveStatevector <;> rfl

theorem orderlyAll_ending {r : Roster} (hnodup : ctx.pattern.outputs.Nodup)
    (hopen : ∀ n ∈ ctx.pattern.outputs, r.Open n) : r.OrderlyAll (r.ending ctx) := by
  have hsnap : ∀ r' : Roster,
      r'.after (if ctx.options.saveStatevector then [.snapshot] else []) = r' := by
    intro r'
    split <;> rfl
  simp only [ending, orderlyAll_append, after_append, hsnap, after_lastClaims]
  refine ⟨⟨orderlyAll_lastClaims ctx r, ?_⟩, ?_⟩
  · split
    · exact ⟨trivial, trivial⟩
    · trivial
  · split
    · refine orderlyAll_map_readOut hnodup fun n hn => ?_
      unfold Open
      rw [(r.lastPlaced_frame ctx).2.1]
      exact hopen n hn
    · trivial

end Roster

/-! ### A whole pattern -/

namespace CompileContext

variable (ctx : CompileContext)

theorem roster_eq : ctx.roster = (ctx.bodyRoster.lastPlaced ctx).after
    (if ctx.options.measureOutputs then ctx.pattern.outputs.map .readOut else []) := by
  rw [roster, moves, Roster.after_append]
  exact Roster.after_ending ctx ctx.bodyRoster

theorem contains_register_bodyRoster {n : Node} :
    ctx.bodyRoster.register.contains n = true ↔ ∃ c ∈ ctx.pattern.commands, c.Measures n := by
  rw [bodyRoster_eq, Roster.contains_register_steps, inputRoster_eq,
    (Roster.placeAll_frame {} ctx.pattern.inputs).2.1]
  exact or_iff_right nofun

/-- No output node has an outcome before the end. -/
theorem outputs_open (hwf : ctx.pattern.WellFormed) :
    ∀ n ∈ ctx.pattern.outputs, ctx.bodyRoster.Open n := by
  intro n hn
  by_contra hnot
  obtain ⟨c, hc, hmeas⟩ := ctx.contains_register_bodyRoster.mp (Roster.not_open_iff.mp hnot)
  exact (hwf.commands_allowed c hc).not_output n hmeas hn

variable {ctx}

/-- **Outcomes**: every move of an accepted pattern is orderly. -/
theorem Accepted.orderlyAll (h : ctx.Accepted) : Roster.OrderlyAll {} ctx.moves := by
  have hinputs : ctx.inputRoster.Settled :=
    Roster.settled_empty.after Roster.valid_empty ctx.admitsAll_inputMoves
  have hclosed : ∀ n, ctx.inputRoster.register.contains n = true →
      n ∈ ctx.inputRoster.measured := by
    rw [ctx.inputRoster_eq, (Roster.placeAll_frame {} ctx.pattern.inputs).2.1]
    intro n hn
    cases hn
  rw [moves, bodyMoves, Roster.orderlyAll_append, Roster.orderlyAll_append]
  refine ⟨⟨Roster.orderlyAll_touchAll ctx fun n _ => rfl, ?_⟩, ?_⟩
  · exact Roster.orderlyAll_commandsMoves ctx hinputs ctx.valid_inputRoster hclosed h.ordered
      fun c hc => (h.wellFormed.commands_allowed c hc).distinct
  · exact Roster.orderlyAll_ending ctx h.wellFormed.outputs_nodup
      (ctx.outputs_open h.wellFormed)

theorem Accepted.settled (h : ctx.Accepted) : ctx.roster.Settled :=
  Roster.settled_empty.after Roster.valid_empty h.admitsAll

end CompileContext

end OneWay
