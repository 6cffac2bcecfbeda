import OneWay.Proofs.Compile.Invariant
import OneWay.Proofs.Pattern.Validity

/-!
# The moves of an accepted pattern are in order

Three things about the moves of `OneWay.Proofs.Compile.Moves`:

* what is known of the nodes after the moves of some commands, said without the moves:
  `Roster.steps`, with `Roster.mem_placed_steps`, `Roster.mem_measured_steps` and
  `Roster.contains_register_steps`;
* when a command is refused (`Roster.fault?_eq_none_iff`);
* if no command is refused, every move is in order at its time (`CompileContext.admitsAll_moves`).
-/

namespace OneWay

namespace Roster

variable (ctx : CompileContext)

/-! ### What the moves do to a roster -/

/-- Gives a node a wire unless it has one. -/
def place (r : Roster) (n : Node) : Roster := if n ∈ r.placed then r else r.move (.claim n)

/-- Gives several nodes wires. -/
def placeAll (r : Roster) (l : List Node) : Roster := l.foldl place r

/-- Takes the outcome of a command into account, if it has one. -/
def record (r : Roster) : Command → Roster
  | .measure n .. => r.move (.measure n)
  | _ => r

/-- The effect of a command. -/
def step (r : Roster) (c : Command) : Roster := (r.placeAll c.targets).record c

/-- The effect of several commands. -/
def steps (r : Roster) (l : List Command) : Roster := l.foldl step r

theorem after_touch (r : Roster) (n : Node) : r.after (r.touch ctx n) = r.place n := by
  unfold touch place
  split <;> rfl

theorem after_touchAll (r : Roster) (l : List Node) :
    r.after (r.touchAll ctx l) = r.placeAll l := by
  induction l generalizing r with
  | nil => rfl
  | cons n l ih =>
    rw [touchAll, after_append, after_touch, ih]
    rfl

theorem after_claimAll (r : Roster) (l : List Node) : r.after (r.claimAll l) = r.placeAll l := by
  induction l generalizing r with
  | nil => rfl
  | cons n l ih =>
    show _ = (r.place n).placeAll l
    unfold claimAll place
    split
    · exact ih r
    · exact ih _

theorem after_map_plain (r : Roster) (n : Node) (gates : List Gate) :
    r.after (gates.map (.plain n)) = r := by
  induction gates with
  | nil => rfl
  | cons g gates ih => exact ih

theorem after_correction (r r' : Roster) (pauli : Gate) (n : Node) (domain : Domain) :
    r'.after (r.correction ctx pauli n domain) = r' := by
  unfold correction
  simp only
  split
  · split <;> rfl
  · rfl

theorem after_act (r r' : Roster) (c : Command) : r'.after (r.act ctx c) = r'.record c := by
  cases c with
  | prepare n => rfl
  | entangle a b => rfl
  | measure n plane angle s t =>
    rw [act, after_append, after_append, after_append, after_correction, after_correction,
      after_map_plain]
    rfl
  | correctX n domain => exact after_correction ..
  | correctZ n domain => exact after_correction ..
  | clifford n c => exact after_map_plain ..

theorem after_commandMoves (r : Roster) (c : Command) :
    r.after (r.commandMoves ctx c) = r.step c := by
  rw [commandMoves, after_append, after_touchAll, after_act]
  rfl

theorem after_commandsMoves (r : Roster) (l : List Command) :
    r.after (r.commandsMoves ctx l) = r.steps l := by
  induction l generalizing r with
  | nil => rfl
  | cons c l ih =>
    rw [commandsMoves, after_append, after_commandMoves, ih]
    rfl

/-! ### What is known after some commands -/

theorem mem_placed_place {r : Roster} {n x : Node} :
    x ∈ (r.place n).placed ↔ x ∈ r.placed ∨ x = n := by
  unfold place
  split
  · next hn =>
    constructor
    · exact .inl
    · rintro (hx | rfl)
      · exact hx
      · exact hn
  · exact List.mem_append.trans (or_congr Iff.rfl List.mem_singleton)

theorem place_frame (r : Roster) (n : Node) :
    (r.place n).measured = r.measured ∧ (r.place n).register = r.register ∧
      (r.place n).bits = r.bits := by
  unfold place
  split <;> exact ⟨rfl, rfl, rfl⟩

theorem mem_placed_placeAll {r : Roster} {l : List Node} {x : Node} :
    x ∈ (r.placeAll l).placed ↔ x ∈ r.placed ∨ x ∈ l := by
  induction l generalizing r with
  | nil => simp [placeAll]
  | cons n l ih =>
    show x ∈ ((r.place n).placeAll l).placed ↔ _
    rw [ih, mem_placed_place, List.mem_cons, or_assoc]

/-- Giving out wires changes nothing else. -/
theorem placeAll_frame (r : Roster) (l : List Node) :
    (r.placeAll l).measured = r.measured ∧ (r.placeAll l).register = r.register ∧
      (r.placeAll l).bits = r.bits := by
  induction l generalizing r with
  | nil => exact ⟨rfl, rfl, rfl⟩
  | cons n l ih =>
    obtain ⟨hm, hr, hb⟩ := ih (r.place n)
    obtain ⟨hm', hr', hb'⟩ := r.place_frame n
    exact ⟨hm.trans hm', hr.trans hr', hb.trans hb'⟩

theorem record_placed (r : Roster) (c : Command) : (r.record c).placed = r.placed := by
  cases c <;> rfl

theorem mem_measured_record {r : Roster} {c : Command} {x : Node} :
    x ∈ (r.record c).measured ↔ x ∈ r.measured ∨ c.Measures x := by
  cases c with
  | measure n plane angle s t =>
    show x ∈ r.measured.insert n ↔ _
    rw [SortedSet.mem_insert, or_comm]
    refine or_congr Iff.rfl ⟨?_, ?_⟩
    · rintro rfl
      exact ⟨plane, angle, s, t, rfl⟩
    · rintro ⟨_, _, _, _, ⟨⟩⟩
      rfl
  | _ => simp [record, Command.Measures]

theorem contains_register_record {r : Roster} {c : Command} {x : Node} :
    (r.record c).register.contains x = true ↔ r.register.contains x = true ∨ c.Measures x := by
  cases c with
  | measure n plane angle s t =>
    show ((r.register.insert n r.bits).get? x).isSome = true ↔ _
    rw [SortedMap.get?_insert]
    by_cases hx : x = n
    · subst hx
      simp only [if_true, Option.isSome_some, true_iff]
      exact .inr ⟨plane, angle, s, t, rfl⟩
    · rw [if_neg hx]
      refine ⟨.inl, ?_⟩
      rintro (h | ⟨_, _, _, _, ⟨⟩⟩)
      · exact h
      · exact absurd rfl hx
  | _ => simp [record, Command.Measures]

theorem mem_placed_step {r : Roster} {c : Command} {x : Node} :
    x ∈ (r.step c).placed ↔ x ∈ r.placed ∨ x ∈ c.targets := by
  rw [step, record_placed, mem_placed_placeAll]

theorem mem_measured_step {r : Roster} {c : Command} {x : Node} :
    x ∈ (r.step c).measured ↔ x ∈ r.measured ∨ c.Measures x := by
  rw [step, mem_measured_record, (r.placeAll_frame c.targets).1]

theorem contains_register_step {r : Roster} {c : Command} {x : Node} :
    (r.step c).register.contains x = true ↔ r.register.contains x = true ∨ c.Measures x := by
  rw [step, contains_register_record, (r.placeAll_frame c.targets).2.1]

/-- The nodes that have a wire after some commands. -/
theorem mem_placed_steps {r : Roster} {l : List Command} {x : Node} :
    x ∈ (r.steps l).placed ↔ x ∈ r.placed ∨ ∃ c ∈ l, x ∈ c.targets := by
  induction l generalizing r with
  | nil => simp [steps]
  | cons c l ih =>
    show x ∈ ((r.step c).steps l).placed ↔ _
    rw [ih, mem_placed_step, List.exists_mem_cons_iff, or_assoc]

/-- The nodes that were measured after some commands. -/
theorem mem_measured_steps {r : Roster} {l : List Command} {x : Node} :
    x ∈ (r.steps l).measured ↔ x ∈ r.measured ∨ ∃ c ∈ l, c.Measures x := by
  induction l generalizing r with
  | nil => simp [steps]
  | cons c l ih =>
    show x ∈ ((r.step c).steps l).measured ↔ _
    rw [ih, mem_measured_step, List.exists_mem_cons_iff, or_assoc]

/-- The nodes that have a classical bit after some commands. -/
theorem contains_register_steps {r : Roster} {l : List Command} {x : Node} :
    (r.steps l).register.contains x = true ↔
      r.register.contains x = true ∨ ∃ c ∈ l, c.Measures x := by
  induction l generalizing r with
  | nil => simp [steps]
  | cons c l ih =>
    show ((r.step c).steps l).register.contains x = true ↔ _
    rw [ih, contains_register_step, List.exists_mem_cons_iff, or_assoc]

/-! ### Refused commands -/

theorem measuredFault?_eq_none_iff {r : Roster} {location : Location} {n : Node} :
    r.measuredFault? location n = none ↔ n ∉ r.measured := by
  unfold measuredFault?
  rw [← SortedSet.contains_iff_mem]
  cases r.measured.contains n <;> simp

theorem preparedFault?_eq_none_iff {r : Roster} {location : Location} {c : Command} :
    r.preparedFault? location c = none ↔ ∀ n, c = .prepare n → n ∉ r.placed := by
  cases c with
  | prepare n =>
    rw [preparedFault?]
    by_cases hn : n ∈ r.placed <;> simp [hn]
  | _ => simp [preparedFault?]

theorem domainFault?_eq_none_iff {r : Roster} {location : Location} {n x : Node} :
    r.domainFault? ctx location n x = none ↔
      r.register.contains x = true ∨ ctx.pattern.results.contains x = true := by
  unfold domainFault?
  cases r.register.contains x <;> cases ctx.pattern.results.contains x <;> simp

/-- **Acceptance of a command**: nothing that it acts on was measured, a prepared node has no wire
yet, and everything that it depends on has an outcome. -/
theorem fault?_eq_none_iff {r : Roster} {index : Nat} {c : Command} :
    r.fault? ctx index c = none ↔
      (∀ n ∈ c.targets, n ∉ r.measured) ∧ (∀ n, c = .prepare n → n ∉ r.placed) ∧
      ∀ n ∈ c.dependencies,
        r.register.contains n = true ∨ ctx.pattern.results.contains n = true := by
  have htargets : c.targets ≠ [] := by cases c <;> exact List.cons_ne_nil _ _
  obtain ⟨n, hn⟩ := List.exists_mem_of_ne_nil _ htargets
  simp only [fault?, Option.or_eq_none_iff, List.findSome?_eq_none_iff,
    measuredFault?_eq_none_iff, preparedFault?_eq_none_iff, domainFault?_eq_none_iff]
  exact and_congr Iff.rfl (and_congr Iff.rfl ⟨fun h => h n hn, fun h _ _ => h⟩)

/-! ### Moves in order -/

theorem preparation_arity (n : Node) : (Draft.preparation ctx n).gate.arity = 1 := by
  unfold Draft.preparation
  cases ctx.inputs.get? n <;> rfl

theorem rotation_arity (plane : Plane) (angle : Float) :
    ∀ g ∈ Draft.rotation plane angle, g.arity = 1 := by
  intro g hg
  have hturn : ∀ g' : Gate, g'.arity = 1 →
      g ∈ (if angle * Angle.pi == 0.0 then [] else [g']) → g.arity = 1 := by
    intro g' hg' hmem
    split at hmem
    · exact absurd hmem List.not_mem_nil
    · exact List.mem_singleton.mp hmem ▸ hg'
  cases plane with
  | xy =>
    rcases List.mem_append.mp hg with hg | hg
    · exact hturn _ rfl hg
    · exact List.mem_singleton.mp hg ▸ rfl
  | yz => exact hturn _ rfl hg
  | xz => exact hturn _ rfl hg

theorem cliffordGates_arity : ∀ c : Clifford, ∀ g ∈ c.gates, g.arity = 1 := by decide

theorem live_place_self {r : Roster} {n : Node} (hn : n ∉ r.measured) : (r.place n).Live n :=
  ⟨mem_placed_place.mpr (.inr rfl), by rw [(r.place_frame n).1]; exact hn⟩

theorem admitsAll_touch {r : Roster} {n : Node} (hn : n ∉ r.measured) :
    r.AdmitsAll (r.touch ctx n) := by
  unfold touch
  split
  · trivial
  · next hplaced =>
    have hlive : (r.move (.claim n)).Live n :=
      ⟨List.mem_append_right _ (List.mem_singleton_self n), hn⟩
    refine ⟨hplaced, ⟨(preparation_arity ctx n).symm, List.nodup_singleton n, ?_, ?_⟩, trivial⟩
    · intro x hx
      exact List.mem_singleton.mp hx ▸ hlive
    · intro c hc
      cases hc

theorem admitsAll_touchAll {r : Roster} {l : List Node} (hl : ∀ n ∈ l, n ∉ r.measured) :
    r.AdmitsAll (r.touchAll ctx l) := by
  induction l generalizing r with
  | nil => trivial
  | cons n l ih =>
    rw [touchAll, admitsAll_append, after_touch]
    refine ⟨admitsAll_touch ctx (hl n (List.mem_cons_self ..)), ih fun x hx => ?_⟩
    rw [(r.place_frame n).1]
    exact hl x (List.mem_cons_of_mem _ hx)

theorem admitsAll_claimAll (r : Roster) (l : List Node) : r.AdmitsAll (r.claimAll l) := by
  induction l generalizing r with
  | nil => trivial
  | cons n l ih =>
    unfold claimAll
    split
    · exact ih r
    · next hn => exact ⟨hn, ih _⟩

theorem admits_plain {r : Roster} {n : Node} (hn : r.Live n) {g : Gate} (hg : g.arity = 1) :
    r.Admits (.plain n g) :=
  ⟨hg.symm, List.nodup_singleton n, fun _ hx => List.mem_singleton.mp hx ▸ hn, nofun⟩

theorem admitsAll_map_plain {r : Roster} {n : Node} (hn : r.Live n) {gates : List Gate}
    (hg : ∀ g ∈ gates, g.arity = 1) : r.AdmitsAll (gates.map (.plain n)) := by
  induction gates with
  | nil => trivial
  | cons g gates ih =>
    exact ⟨admits_plain hn (hg g (List.mem_cons_self ..)),
      ih fun g' hg' => hg g' (List.mem_cons_of_mem _ hg')⟩

theorem measuredBits_lt {r : Roster} (hv : r.Valid) (l : List Node) :
    ∀ b ∈ r.measuredBits l, b < r.bits := by
  intro b hb
  obtain ⟨n, -, hn⟩ := List.mem_filterMap.mp hb
  exact hv.register_lt n b hn

theorem admitsAll_correction {r : Roster} (hv : r.Valid) {n : Node} (hn : r.Live n) (pauli : Gate)
    (hp : pauli.arity = 1) (domain : Domain) :
    r.AdmitsAll (r.correction ctx pauli n domain) := by
  unfold correction
  simp only
  split
  · split
    · exact ⟨admits_plain hn hp, trivial⟩
    · trivial
  · refine ⟨⟨hp.symm, List.nodup_singleton n, fun _ hx => List.mem_singleton.mp hx ▸ hn, ?_⟩,
      trivial⟩
    rintro c ⟨⟩
    exact measuredBits_lt hv _

theorem admitsAll_act {r : Roster} (hv : r.Valid) {c : Command}
    (hlive : ∀ n ∈ c.targets, r.Live n) (hdist : ∀ a b, c = .entangle a b → a ≠ b) :
    r.AdmitsAll (r.act ctx c) := by
  cases c with
  | prepare n => trivial
  | entangle a b =>
    refine ⟨⟨rfl, ?_, hlive, nofun⟩, trivial⟩
    simpa using hdist a b rfl
  | measure n plane angle s t =>
    have hn : r.Live n := hlive n (List.mem_cons_self ..)
    simp only [act, admitsAll_append, after_append, after_correction, after_map_plain]
    exact ⟨⟨⟨admitsAll_correction ctx hv hn .x rfl s, admitsAll_correction ctx hv hn .z rfl t⟩,
      admitsAll_map_plain hn (rotation_arity plane angle)⟩, hn, trivial⟩
  | correctX n domain =>
    exact admitsAll_correction ctx hv (hlive n (List.mem_cons_self ..)) .x rfl domain
  | correctZ n domain =>
    exact admitsAll_correction ctx hv (hlive n (List.mem_cons_self ..)) .z rfl domain
  | clifford n c =>
    exact admitsAll_map_plain (hlive n (List.mem_cons_self ..)) (cliffordGates_arity c)

/-- A measured node of a domain counts by its classical bit. -/
theorem domain_cons_of_some {r : Roster} {n : Node} {b : Bit} (h : r.register.get? n = some b)
    (l : List Node) : r.measuredBits (n :: l) = b :: r.measuredBits l ∧
      r.knownParity ctx (n :: l) = r.knownParity ctx l := by
  constructor
  · rw [measuredBits, List.filterMap_cons, h]
    rfl
  · rw [knownParity, if_pos (by rw [SortedMap.contains, h]; rfl)]

/-- Any other node of a domain counts by its known outcome. -/
theorem domain_cons_of_none {r : Roster} {n : Node} (h : r.register.get? n = none)
    (l : List Node) : r.measuredBits (n :: l) = r.measuredBits l ∧
      r.knownParity ctx (n :: l) = (ctx.pattern.results.getD n false ^^ r.knownParity ctx l) := by
  constructor
  · rw [measuredBits, List.filterMap_cons, h]
    rfl
  · rw [knownParity, if_neg (by simp [SortedMap.contains, h])]

theorem knownParity_congr {r r' : Roster} (h : r.register = r'.register) (l : List Node) :
    r.knownParity ctx l = r'.knownParity ctx l := by
  induction l with
  | nil => rfl
  | cons n l ih => rw [knownParity, knownParity, ih, h]

theorem correction_congr {r r' : Roster} (h : r.register = r'.register) (pauli : Gate) (n : Node)
    (domain : Domain) : r.correction ctx pauli n domain = r'.correction ctx pauli n domain := by
  rw [correction, correction, knownParity_congr ctx h, measuredBits, measuredBits, h]

/-- What a command does depends on the outcomes so far only. -/
theorem act_congr {r r' : Roster} (h : r.register = r'.register) (c : Command) :
    r.act ctx c = r'.act ctx c := by
  cases c <;> simp only [act, correction_congr ctx h]

theorem live_placeAll {r : Roster} {l : List Node} (hl : ∀ n ∈ l, n ∉ r.measured) :
    ∀ n ∈ l, (r.placeAll l).Live n := by
  intro n hn
  refine ⟨mem_placed_placeAll.mpr (.inr hn), ?_⟩
  rw [(r.placeAll_frame l).1]
  exact hl n hn

/-- The moves of an accepted command are in order. -/
theorem admitsAll_commandMoves {r : Roster} (hv : r.Valid) {index : Nat} {c : Command}
    (hf : r.fault? ctx index c = none) (hdist : ∀ a b, c = .entangle a b → a ≠ b) :
    r.AdmitsAll (r.commandMoves ctx c) := by
  have htargets := ((fault?_eq_none_iff ctx).mp hf).1
  -- the rest of the command acts on nodes that have their wires by then
  have htouch := admitsAll_touchAll ctx htargets
  have hvalid := hv.after htouch
  rw [after_touchAll] at hvalid
  rw [commandMoves, admitsAll_append, after_touchAll,
    ← act_congr ctx (r.placeAll_frame c.targets).2.1]
  exact ⟨htouch, admitsAll_act ctx hvalid (live_placeAll htargets) hdist⟩

/-- The moves of accepted commands are in order. -/
theorem admitsAll_commandsMoves {r : Roster} (hv : r.Valid) {l : List Command} {index : Nat}
    (hf : r.firstFault? ctx l index = none)
    (hdist : ∀ c ∈ l, ∀ a b, c = .entangle a b → a ≠ b) :
    r.AdmitsAll (r.commandsMoves ctx l) := by
  induction l generalizing r index with
  | nil => trivial
  | cons c l ih =>
    rw [firstFault?, Option.or_eq_none_iff] at hf
    have hc := admitsAll_commandMoves ctx hv hf.1 (hdist c (List.mem_cons_self ..))
    rw [commandsMoves, admitsAll_append]
    exact ⟨hc, ih (hv.after hc) hf.2 fun c' hc' => hdist c' (List.mem_cons_of_mem _ hc')⟩

theorem admitsAll_map_readOut {r : Roster} {l : List Node} (hl : ∀ n ∈ l, r.Live n) :
    r.AdmitsAll (l.map .readOut) := by
  induction l generalizing r with
  | nil => trivial
  | cons n l ih =>
    exact ⟨hl n (List.mem_cons_self ..), ih fun x hx => hl x (List.mem_cons_of_mem _ hx)⟩

/-- The nodes that have a wire in the end. -/
def lastPlaced (r : Roster) : Roster :=
  let r := r.placeAll ctx.pattern.outputs
  if ctx.options.qubitReuse then r else r.placeAll ctx.pattern.nodes.toList

theorem after_lastClaims (r : Roster) : r.after (r.lastClaims ctx) = r.lastPlaced ctx := by
  unfold lastClaims lastPlaced
  simp only
  split
  · exact after_claimAll ..
  · rw [after_append, after_claimAll, after_claimAll]

theorem admitsAll_lastClaims (r : Roster) : r.AdmitsAll (r.lastClaims ctx) := by
  unfold lastClaims
  simp only
  split
  · exact admitsAll_claimAll ..
  · exact admitsAll_append.mpr ⟨admitsAll_claimAll .., admitsAll_claimAll ..⟩

theorem lastPlaced_frame (r : Roster) :
    (r.lastPlaced ctx).measured = r.measured ∧ (r.lastPlaced ctx).register = r.register ∧
      (r.lastPlaced ctx).bits = r.bits := by
  have hout := r.placeAll_frame ctx.pattern.outputs
  have hrest := (r.placeAll ctx.pattern.outputs).placeAll_frame ctx.pattern.nodes.toList
  unfold lastPlaced
  simp only
  split
  · exact hout
  · exact ⟨hrest.1.trans hout.1, hrest.2.1.trans hout.2.1, hrest.2.2.trans hout.2.2⟩

theorem live_lastPlaced {r : Roster} {n : Node} (hn : n ∈ ctx.pattern.outputs)
    (hm : n ∉ r.measured) : (r.lastPlaced ctx).Live n := by
  have hplaced : n ∈ (r.placeAll ctx.pattern.outputs).placed := mem_placed_placeAll.mpr (.inr hn)
  refine ⟨?_, by rw [(r.lastPlaced_frame ctx).1]; exact hm⟩
  unfold lastPlaced
  simp only
  split
  · exact hplaced
  · exact mem_placed_placeAll.mpr (.inl hplaced)

/-- The moves after the last command are in order unless an output node was measured. -/
theorem admitsAll_ending {r : Roster} (hout : ∀ n ∈ ctx.pattern.outputs, n ∉ r.measured) :
    r.AdmitsAll (r.ending ctx) := by
  have hsnap : ∀ r' : Roster,
      r'.after (if ctx.options.saveStatevector then [.snapshot] else []) = r' := by
    intro r'
    split <;> rfl
  simp only [ending, admitsAll_append, after_append, hsnap, after_lastClaims]
  refine ⟨⟨admitsAll_lastClaims ctx r, ?_⟩, ?_⟩
  · split
    · exact ⟨trivial, trivial⟩
    · trivial
  · split
    · exact admitsAll_map_readOut fun n hn => live_lastPlaced ctx hn (hout n hn)
    · trivial

end Roster

/-! ### A whole pattern -/

namespace CompileContext

variable (ctx : CompileContext)

theorem inputRoster_eq : ctx.inputRoster = ({} : Roster).placeAll ctx.pattern.inputs :=
  Roster.after_touchAll ..

theorem bodyRoster_eq : ctx.bodyRoster = ctx.inputRoster.steps ctx.pattern.commands := by
  rw [bodyRoster, bodyMoves, Roster.after_append]
  exact Roster.after_commandsMoves ..

theorem admitsAll_inputMoves : Roster.AdmitsAll {} ctx.inputMoves :=
  Roster.admitsAll_touchAll ctx fun n _ => SortedSet.not_mem_empty n

theorem valid_inputRoster : ctx.inputRoster.Valid :=
  Roster.valid_empty.after ctx.admitsAll_inputMoves

theorem mem_measured_bodyRoster {n : Node} :
    n ∈ ctx.bodyRoster.measured ↔ ∃ c ∈ ctx.pattern.commands, c.Measures n := by
  rw [bodyRoster_eq, Roster.mem_measured_steps, inputRoster_eq,
    (Roster.placeAll_frame {} ctx.pattern.inputs).1]
  exact or_iff_right (SortedSet.not_mem_empty n)

theorem outputs_not_measured (hwf : ctx.pattern.WellFormed) :
    ∀ n ∈ ctx.pattern.outputs, n ∉ ctx.bodyRoster.measured := by
  intro n hn hm
  obtain ⟨c, hc, hmeas⟩ := ctx.mem_measured_bodyRoster.mp hm
  exact (hwf.commands_allowed c hc).not_output n hmeas hn

theorem admitsAll_bodyMoves (hwf : ctx.pattern.WellFormed)
    (hf : ctx.inputRoster.firstFault? ctx ctx.pattern.commands 0 = none) :
    Roster.AdmitsAll {} ctx.bodyMoves := by
  rw [bodyMoves, Roster.admitsAll_append]
  exact ⟨ctx.admitsAll_inputMoves, Roster.admitsAll_commandsMoves ctx ctx.valid_inputRoster hf
    fun c hc => (hwf.commands_allowed c hc).distinct⟩

/-- **Order**: if no command is refused, every move of a well-formed pattern is in order. -/
theorem admitsAll_moves (hwf : ctx.pattern.WellFormed)
    (hf : ctx.inputRoster.firstFault? ctx ctx.pattern.commands 0 = none) :
    Roster.AdmitsAll {} ctx.moves := by
  rw [moves, Roster.admitsAll_append]
  exact ⟨ctx.admitsAll_bodyMoves hwf hf, Roster.admitsAll_ending ctx (ctx.outputs_not_measured hwf)⟩

end CompileContext

end OneWay
