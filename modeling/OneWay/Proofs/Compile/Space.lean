import OneWay.Pattern.Space
import OneWay.Proofs.Compile.Correspondence

/-!
# Reusing wires needs as many wires as nodes are live at once

With wires reused, a new wire is made only where no wire is free, that is where every wire belongs
to a live node. So the number of wires is the largest number of live nodes over all points of the
run (`Draft.Sound.numQubits_playAll`).

`Pattern.maxSpace` counts live nodes command by command and knows nothing of wires.
`Pattern.maxSpace_eq_peak` says that it finds the same maximum.
-/

namespace OneWay

/-! ### Wires and live nodes -/

/-- A move that gives out no wire. -/
def Move.Quiet : Move → Prop
  | .claim _ => False
  | _ => True

namespace Roster

/-- The largest number of live nodes before, between and after some moves. -/
def peak : Roster → List Move → Nat
  | r, [] => r.live.length
  | r, m :: l => max r.live.length ((r.move m).peak l)

theorem length_live_le_peak (r : Roster) (l : List Move) : r.live.length ≤ r.peak l := by
  cases l with
  | nil => exact Nat.le_refl _
  | cons m l => exact Nat.le_max_left ..

theorem peak_append (r : Roster) (l₁ l₂ : List Move) :
    r.peak (l₁ ++ l₂) = max (r.peak l₁) ((r.after l₁).peak l₂) := by
  induction l₁ generalizing r with
  | nil => exact (Nat.max_eq_right (r.length_live_le_peak l₂)).symm
  | cons m l ih =>
    show max r.live.length ((r.move m).peak (l ++ l₂)) = _
    rw [ih, ← Nat.max_assoc]
    rfl

theorem length_live_after_le_peak (r : Roster) (l : List Move) :
    (r.after l).live.length ≤ r.peak l := by
  have happend := r.peak_append l []
  rw [List.append_nil] at happend
  rw [happend]
  exact Nat.le_max_right ..

end Roster

namespace Draft.Sound

variable {d : Draft} {r : Roster}

/-- Every wire belongs to a live node or is free. -/
theorem length_live_add_free (h : Sound true d r) :
    r.live.length + d.free.toList.length = d.circuit.numQubits := by
  have hlen := h.pool.length_eq
  rw [List.length_append, List.length_map, List.length_range] at hlen
  exact hlen

theorem numQubits_play (h : Sound true d r) {m : Move} (hm : r.Admits m) :
    (d.play true m).circuit.numQubits = max d.circuit.numQubits (r.move m).live.length := by
  have hcount := h.length_live_add_free
  cases m with
  | claim n =>
    have hlive : (r.move (.claim n)).live.length = r.live.length + 1 := by
      rw [Roster.live_claim h.roster hm, List.length_append, List.length_singleton]
    obtain ⟨w, free, hfree, hplay⟩ | ⟨hfree, hplay⟩ := d.play_claim_cases n
    · -- a free wire is left, so fewer nodes are live than there are wires
      rw [hplay, hlive]
      rw [hfree, List.length_cons] at hcount
      show d.circuit.numQubits = max d.circuit.numQubits (r.live.length + 1)
      omega
    · -- every wire belongs to a live node, and the new one too
      rw [hplay, hlive]
      rw [hfree, List.length_nil] at hcount
      show d.circuit.numQubits + 1 = max d.circuit.numQubits (r.live.length + 1)
      omega
  | measure n =>
    have hlive := (Roster.live_perm_measure h.roster hm).length_eq
    rw [List.length_cons] at hlive
    show d.circuit.numQubits = _
    omega
  | gate g nodes =>
    show d.circuit.numQubits = max d.circuit.numQubits r.live.length
    omega
  | readOut n =>
    show d.circuit.numQubits = max d.circuit.numQubits r.live.length
    omega
  | snapshot =>
    show d.circuit.numQubits = max d.circuit.numQubits r.live.length
    omega

/-- **Wires**: there are as many as nodes were live at once. -/
theorem numQubits_playAll (h : Sound true d r) {l : List Move} (hl : r.AdmitsAll l) :
    (d.playAll true l).circuit.numQubits = max d.circuit.numQubits (r.peak l) := by
  induction l generalizing d r with
  | nil =>
    have hcount := h.length_live_add_free
    show d.circuit.numQubits = max d.circuit.numQubits r.live.length
    omega
  | cons m l ih =>
    have hcount := h.length_live_add_free
    have hpeak := (r.move m).length_live_le_peak l
    have hplay := h.numQubits_play hl.1
    rw [playAll_cons, ih (h.play hl.1) hl.2, hplay, Roster.peak]
    omega

end Draft.Sound

/-! ### Live nodes, command by command -/

namespace Roster

theorem Valid.place {r : Roster} (h : r.Valid) (n : Node) : (r.place n).Valid := by
  unfold Roster.place
  split
  · exact h
  · next hn => exact h.move (m := .claim n) hn

theorem length_live_le_place {r : Roster} (h : r.Valid) (n : Node) :
    r.live.length ≤ (r.place n).live.length := by
  unfold Roster.place
  split
  · exact Nat.le_refl _
  · next hn =>
    rw [live_claim h hn, List.length_append]
    exact Nat.le_add_right ..

theorem length_live_le_placeAll {r : Roster} (h : r.Valid) (l : List Node) :
    r.live.length ≤ (r.placeAll l).live.length := by
  induction l generalizing r with
  | nil => exact Nat.le_refl _
  | cons n l ih => exact Nat.le_trans (length_live_le_place h n) (ih (h.place n))

/-- A move that gives out no wire brings no node to life. -/
theorem length_live_move_le (r : Roster) {m : Move} (hm : m.Quiet) :
    (r.move m).live.length ≤ r.live.length := by
  cases m with
  | claim n => exact hm.elim
  | measure n =>
    refine (List.monotone_filter_right r.placed fun x hx => ?_).length_le
    simp only [move, SortedSet.mem_insert, decide_eq_true_eq] at hx ⊢
    exact fun hmem => hx (.inr hmem)
  | gate g nodes => exact Nat.le_refl _
  | readOut n => exact Nat.le_refl _
  | snapshot => exact Nat.le_refl _

theorem peak_of_quiet (r : Roster) {l : List Move} (hl : ∀ m ∈ l, m.Quiet) :
    r.peak l = r.live.length := by
  induction l generalizing r with
  | nil => rfl
  | cons m l ih =>
    have hmove := r.length_live_move_le (hl m (List.mem_cons_self ..))
    rw [peak, ih _ fun m' hm' => hl m' (List.mem_cons_of_mem _ hm')]
    omega

theorem quiet_map_plain (n : Node) (gates : List Gate) :
    ∀ m ∈ gates.map (Move.plain n), m.Quiet := by
  intro m hm
  obtain ⟨g, -, rfl⟩ := List.mem_map.mp hm
  trivial

theorem quiet_correction (ctx : CompileContext) (r : Roster) (pauli : Gate) (n : Node)
    (domain : Domain) : ∀ m ∈ r.correction ctx pauli n domain, m.Quiet := by
  unfold correction
  simp only
  split
  · split <;> simp [Move.plain, Move.Quiet]
  · simp [Move.Quiet]

theorem quiet_act (ctx : CompileContext) (r : Roster) (c : Command) :
    ∀ m ∈ r.act ctx c, m.Quiet := by
  cases c with
  | prepare n => exact fun m hm => absurd hm List.not_mem_nil
  | entangle a b => exact fun m hm => List.mem_singleton.mp hm ▸ trivial
  | measure n plane angle s t =>
    intro m hm
    simp only [act, List.mem_append, List.mem_singleton] at hm
    rcases hm with ((hm | hm) | hm) | rfl
    · exact quiet_correction ctx r _ _ _ m hm
    · exact quiet_correction ctx r _ _ _ m hm
    · exact quiet_map_plain _ _ m hm
    · trivial
  | correctX n domain => exact quiet_correction ctx r _ _ _
  | correctZ n domain => exact quiet_correction ctx r _ _ _
  | clifford n c => exact quiet_map_plain _ _

theorem peak_touch (ctx : CompileContext) {r : Roster} (h : r.Valid) (n : Node) :
    r.peak (r.touch ctx n) = (r.place n).live.length := by
  have hgrow := length_live_le_place h n
  by_cases hn : n ∈ r.placed
  · rw [touch, place, if_pos hn, if_pos hn]
    rfl
  · rw [place, if_neg hn] at hgrow ⊢
    have hquiet : ∀ m ∈ [Move.gate (Draft.preparation ctx n) [n]], m.Quiet := by simp [Move.Quiet]
    rw [touch, if_neg hn, peak, peak_of_quiet _ hquiet]
    exact Nat.max_eq_right hgrow

theorem peak_touchAll (ctx : CompileContext) {r : Roster} (h : r.Valid) (l : List Node) :
    r.peak (r.touchAll ctx l) = (r.placeAll l).live.length := by
  induction l generalizing r with
  | nil => rfl
  | cons n l ih =>
    rw [touchAll, peak_append, after_touch, ih (h.place n), peak_touch ctx h]
    exact Nat.max_eq_right (length_live_le_placeAll (h.place n) l)

theorem peak_claimAll {r : Roster} (h : r.Valid) (l : List Node) :
    r.peak (r.claimAll l) = (r.placeAll l).live.length := by
  induction l generalizing r with
  | nil => rfl
  | cons n l ih =>
    have hgrow : r.live.length ≤ ((r.place n).placeAll l).live.length :=
      length_live_le_placeAll h (n :: l)
    have hvalid := h.place n
    show _ = ((r.place n).placeAll l).live.length
    by_cases hn : n ∈ r.placed
    · rw [claimAll, place, if_pos hn, if_pos hn]
      exact ih h
    · rw [place, if_neg hn] at hgrow hvalid ⊢
      rw [claimAll, if_neg hn, peak, ih hvalid]
      exact Nat.max_eq_right hgrow

/-- The largest number of live nodes during a command is reached once all nodes that it acts on
are live. -/
theorem peak_commandMoves (ctx : CompileContext) {r : Roster} (h : r.Valid) (c : Command) :
    r.peak (r.commandMoves ctx c) = (r.placeAll c.targets).live.length := by
  rw [commandMoves, peak_append, after_touchAll, peak_touchAll ctx h,
    peak_of_quiet _ (quiet_act ctx r c), Nat.max_self]

/-- The largest number of live nodes after the last command, where wires are reused. -/
theorem peak_ending {ctx : CompileContext} (hreuse : ctx.options.qubitReuse = true) {r : Roster}
    (h : r.Valid) : r.peak (r.ending ctx) = (r.placeAll ctx.pattern.outputs).live.length := by
  -- only the claims of the outputs can bring nodes to life
  have hquiet : ∀ m ∈ (if ctx.options.saveStatevector then [Move.snapshot] else [])
      ++ (if ctx.options.measureOutputs then ctx.pattern.outputs.map .readOut else []),
      m.Quiet := by
    intro m hm
    rcases List.mem_append.mp hm with hm | hm
    · split at hm <;> simp_all [Move.Quiet]
    · split at hm
      · obtain ⟨n, -, rfl⟩ := List.mem_map.mp hm
        trivial
      · exact absurd hm List.not_mem_nil
  rw [ending, List.append_assoc, peak_append, peak_of_quiet _ hquiet, lastClaims]
  simp only [hreuse, if_true]
  rw [peak_claimAll h, after_claimAll, Nat.max_self]

end Roster

namespace Pattern.Liveness

/-- A walk through the commands and a roster know the same nodes. -/
structure Tracks (s : Liveness) (r : Roster) : Prop where
  roster : r.Valid
  seen : ∀ n, n ∈ s.seen ↔ n ∈ r.placed
  live : ∀ n, n ∈ s.live ↔ r.Live n

theorem Tracks.size_live {s : Liveness} {r : Roster} (h : Tracks s r) :
    s.live.size = r.live.length := by
  have hnodup : r.live.Nodup := h.roster.nodup.filter _
  refine ((List.perm_ext_iff_of_nodup s.live.nodup hnodup).mpr fun n => ?_).length_eq
  rw [Roster.mem_live]
  exact h.live n

theorem Tracks.touch {s : Liveness} {r : Roster} (h : Tracks s r) (n : Node) :
    Tracks (s.touch n) (r.place n) := by
  unfold Liveness.touch
  by_cases hn : n ∈ r.placed
  · rw [Roster.place, if_pos hn, if_pos (SortedSet.contains_iff_mem.mpr ((h.seen n).mpr hn))]
    exact h
  · -- a node that is new to both becomes live in both
    have hvalid := h.roster.place n
    rw [Roster.place, if_neg hn] at hvalid ⊢
    rw [if_neg fun hc => hn ((h.seen n).mp (SortedSet.contains_iff_mem.mp hc))]
    refine ⟨hvalid, fun x => ?_, fun x => ?_⟩
    · rw [SortedSet.mem_insert, h.seen x, or_comm]
      exact (List.mem_append.trans (or_congr Iff.rfl List.mem_singleton)).symm
    · rw [SortedSet.mem_insert, h.live x, ← Roster.mem_live, ← Roster.mem_live,
        Roster.live_claim h.roster hn, List.mem_append, List.mem_singleton, or_comm]

theorem touch_peak (s : Liveness) (n : Node) : (s.touch n).peak = s.peak := by
  unfold touch
  split <;> rfl

theorem foldl_touch_peak (s : Liveness) (l : List Node) : (l.foldl touch s).peak = s.peak := by
  induction l generalizing s with
  | nil => rfl
  | cons n l ih => exact (ih _).trans (s.touch_peak n)

theorem Tracks.foldl_touch {s : Liveness} {r : Roster} (h : Tracks s r) (l : List Node) :
    Tracks (l.foldl Liveness.touch s) (r.placeAll l) := by
  induction l generalizing s r with
  | nil => exact h
  | cons n l ih => exact ih (h.touch n)

theorem Tracks.record {s : Liveness} {r : Roster} (h : Tracks s r) : Tracks s.record r :=
  ⟨h.roster, h.seen, h.live⟩

theorem Tracks.erase {s : Liveness} {r : Roster} (h : Tracks s r) {n : Node} (hn : r.Live n) :
    Tracks { s with live := s.live.erase n } (r.move (.measure n)) := by
  refine ⟨h.roster.move (m := .measure n) hn, h.seen, fun x => ?_⟩
  show x ∈ s.live.erase n ↔ x ∈ r.placed ∧ x ∉ r.measured.insert n
  rw [SortedSet.mem_erase, SortedSet.mem_insert, not_or, h.live x]
  exact and_assoc.trans (and_congr Iff.rfl and_comm)

/-- **One command**: a walk and a roster still know the same nodes after it, unless it acts on a
measured node. -/
theorem Tracks.step {s : Liveness} {r : Roster} (h : Tracks s r) {c : Command}
    (hc : ∀ n ∈ c.targets, n ∉ r.measured) : Tracks (s.step c) (r.step c) := by
  have htouch := (h.foldl_touch c.targets).record
  have hlive := Roster.live_placeAll hc
  cases c with
  | measure n plane angle d e => exact htouch.erase (hlive n (List.mem_cons_self ..))
  | _ => exact htouch

/-- The walk finds the largest number of live nodes during a command. -/
theorem Tracks.step_peak (ctx : CompileContext) {s : Liveness} {r : Roster} (h : Tracks s r)
    (c : Command) : (s.step c).peak = max s.peak (r.peak (r.commandMoves ctx c)) := by
  have hsize := (h.foldl_touch c.targets).size_live
  have hpeak : (s.step c).peak = (c.targets.foldl Liveness.touch s).record.peak := by
    cases c <;> rfl
  rw [hpeak, Roster.peak_commandMoves ctx h.roster c, ← hsize, ← foldl_touch_peak s c.targets]
  rfl

/-- **Several commands**: the walk finds the largest number of live nodes. -/
theorem Tracks.foldl_step (ctx : CompileContext) {s : Liveness} {r : Roster} (h : Tracks s r)
    (hpeak : r.live.length ≤ s.peak) {l : List Command} {i : Nat}
    (hl : r.firstFault? ctx l i = none) :
    Tracks (l.foldl Liveness.step s) (r.steps l) ∧
      (l.foldl Liveness.step s).peak = max s.peak (r.peak (r.commandsMoves ctx l)) := by
  induction l generalizing s r i with
  | nil => exact ⟨h, (Nat.max_eq_left hpeak).symm⟩
  | cons c l ih =>
    rw [Roster.firstFault?, Option.or_eq_none_iff, Roster.after_commandMoves] at hl
    have htargets := ((Roster.fault?_eq_none_iff ctx).mp hl.1).1
    have hstep := h.step_peak ctx c
    -- the bound that the rest of the walk starts from
    have hlive : (r.step c).live.length ≤ (s.step c).peak := by
      have hafter := r.length_live_after_le_peak (r.commandMoves ctx c)
      rw [Roster.after_commandMoves] at hafter
      rw [hstep]
      exact Nat.le_trans hafter (Nat.le_max_right ..)
    obtain ⟨htracks, heq⟩ := ih (h.step htargets) hlive hl.2
    refine ⟨htracks, ?_⟩
    show (l.foldl Liveness.step (s.step c)).peak = _
    rw [heq, hstep, Roster.commandsMoves, Roster.peak_append, Roster.after_commandMoves,
      Nat.max_assoc]

end Pattern.Liveness

/-! ### A whole pattern -/

namespace Pattern

theorem tracks_inputs (ctx : CompileContext) (peak : Nat) :
    Liveness.Tracks ⟨.ofList ctx.pattern.inputs, .ofList ctx.pattern.inputs, peak⟩
      ctx.inputRoster := by
  have hm : ctx.inputRoster.measured = ∅ := by
    rw [ctx.inputRoster_eq]
    exact (Roster.placeAll_frame {} ctx.pattern.inputs).1
  have hplaced : ∀ n, n ∈ ctx.inputRoster.placed ↔ n ∈ ctx.pattern.inputs := fun n => by
    rw [ctx.inputRoster_eq, Roster.mem_placed_placeAll]
    exact or_iff_right List.not_mem_nil
  refine ⟨ctx.valid_inputRoster, fun n => ?_, fun n => ?_⟩
  · rw [hplaced, SortedSet.mem_ofList]
  · rw [Roster.Live, hplaced, hm, SortedSet.mem_ofList]
    exact (and_iff_left (SortedSet.not_mem_empty n)).symm

/-- **Live nodes**: the walk through an accepted pattern finds the largest number of live nodes of
its moves. -/
theorem maxSpace_eq_peak {ctx : CompileContext} (h : ctx.Accepted)
    (hreuse : ctx.options.qubitReuse = true) :
    ctx.pattern.maxSpace = Roster.peak {} ctx.moves := by
  have hstart := tracks_inputs ctx (SortedSet.ofList ctx.pattern.inputs).size
  have hinputs : Roster.peak {} ctx.inputMoves = (SortedSet.ofList ctx.pattern.inputs).size := by
    rw [CompileContext.inputMoves, Roster.peak_touchAll ctx Roster.valid_empty,
      ← ctx.inputRoster_eq]
    exact hstart.size_live.symm
  obtain ⟨hbody, hpeak⟩ := hstart.foldl_step ctx (Nat.le_of_eq hstart.size_live.symm) h.ordered
  rw [← ctx.bodyRoster_eq] at hbody
  -- the outputs that no command acts on come to life last
  have hend := (hbody.foldl_touch ctx.pattern.outputs).size_live
  rw [← Roster.peak_ending hreuse hbody.roster] at hend
  show max (List.foldl Liveness.touch _ _).peak (List.foldl Liveness.touch _ _).live.size = _
  rw [Liveness.foldl_touch_peak, hpeak, hend, CompileContext.moves, CompileContext.bodyMoves,
    Roster.peak_append, Roster.peak_append, hinputs]
  rfl

/-- **Space**: with wires reused, a pattern is compiled to a circuit with as many wires as nodes are
live at once. -/
theorem qubitCount_eq_maxSpace {p : Pattern} {inputs : SortedMap Node InputState}
    {options : CompileOptions} {c : Compiled} (hreuse : options.qubitReuse = true)
    (h : p.compile inputs options = .ok c) : c.qubitCount = p.maxSpace := by
  obtain ⟨haccepted, rfl⟩ := compile_eq_ok_iff.mp h
  rw [maxSpace_eq_peak haccepted hreuse]
  have hsound := Draft.sound_start true
  have hrun := hsound.numQubits_playAll haccepted.admitsAll
  show (CompileContext.draft _).circuit.numQubits = _
  rw [CompileContext.draft, hreuse, hrun]
  exact Nat.max_eq_right (Nat.zero_le _)

/-- Two wires suffice for four nodes: each of the last two takes the wire of a measured one. -/
theorem qubitCount_relay :
    ∃ c, relay.compile ∅ { qubitReuse := true } = .ok c ∧ c.qubitCount = 2 := by
  obtain ⟨c, h⟩ := exists_compile_relay { qubitReuse := true }
  have hspace : relay.maxSpace = 2 := by decide +kernel
  exact ⟨c, h, (qubitCount_eq_maxSpace rfl h).trans hspace⟩

end Pattern

end OneWay
