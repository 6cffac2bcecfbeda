import OneWay.Proofs.Circuit.Validity
import OneWay.Proofs.Compile.Moves
import OneWay.Proofs.Sorted
import Mathlib.Data.List.Nodup

/-!
# The books of a compilation

`Roster.Admits` says that a move is in order: a claimed node has no wire yet, and gates and
measurements act on nodes that have a wire and were not measured. `Draft.Sound` ties a draft to a
roster: both know the same nodes, the wires of the nodes that hold one and the free wires are
together the wires of the circuit, each once, and every instruction fits the registers.

A move in order keeps the books (`Draft.Sound.play`), hence so does a whole sequence of them
(`Draft.Sound.playAll`).
-/

namespace OneWay

namespace Roster

/-! ### Moves in order -/

/-- A node has a wire and was not measured. -/
def Live (r : Roster) (n : Node) : Prop := n ∈ r.placed ∧ n ∉ r.measured

/-- The nodes that have a wire and were not measured. -/
def live (r : Roster) : List Node := r.placed.filter (· ∉ r.measured)

theorem mem_live {r : Roster} {n : Node} : n ∈ r.live ↔ r.Live n := by
  simp [live, Live, List.mem_filter]

/-- The nodes whose wires cannot be given to others: the live ones if wires are reused, else all
that have one. -/
def holders (reuse : Bool) (r : Roster) : List Node := if reuse then r.live else r.placed

theorem mem_holders_of_live {reuse : Bool} {r : Roster} {n : Node} (h : r.Live n) :
    n ∈ r.holders reuse := by
  unfold holders
  split
  · exact mem_live.mpr h
  · exact h.1

theorem mem_placed_of_mem_holders {reuse : Bool} {r : Roster} {n : Node}
    (h : n ∈ r.holders reuse) : n ∈ r.placed := by
  unfold holders at h
  split at h
  · exact (mem_live.mp h).1
  · exact h

/-- The demands of a move. -/
def Admits (r : Roster) : Move → Prop
  | .claim n => n ∉ r.placed
  | .gate g nodes =>
    nodes.length = g.gate.arity ∧ nodes.Nodup ∧ (∀ n ∈ nodes, r.Live n) ∧
      ∀ c, g.condition = some c → ∀ b ∈ c.bits, b < r.bits
  | .measure n | .readOut n => r.Live n
  | .snapshot => True

/-- The demands of several moves, each at its time. -/
def AdmitsAll : Roster → List Move → Prop
  | _, [] => True
  | r, m :: l => r.Admits m ∧ (r.move m).AdmitsAll l

theorem admitsAll_append {r : Roster} {l₁ l₂ : List Move} :
    r.AdmitsAll (l₁ ++ l₂) ↔ r.AdmitsAll l₁ ∧ (r.after l₁).AdmitsAll l₂ := by
  induction l₁ generalizing r with
  | nil => simp [AdmitsAll]
  | cons m l ih => simp [AdmitsAll, ih, and_assoc]

/-- The books of the nodes alone. -/
structure Valid (r : Roster) : Prop where
  nodup : r.placed.Nodup
  measured_placed : ∀ n ∈ r.measured, n ∈ r.placed
  register_lt : ∀ n b, r.register.get? n = some b → b < r.bits

theorem valid_empty : Valid {} where
  nodup := .nil
  measured_placed := fun n h => absurd h (SortedSet.not_mem_empty n)
  register_lt := fun n b h => by rw [SortedMap.get?_empty] at h; cases h

theorem register_lt_insert {r : Roster} (h : r.Valid) (n x : Node) (b : Bit)
    (hb : (r.register.insert n r.bits).get? x = some b) : b < r.bits + 1 := by
  rw [SortedMap.get?_insert] at hb
  split at hb
  · obtain rfl := Option.some.inj hb
    exact Nat.lt_succ_self _
  · exact Nat.lt_succ_of_lt (h.register_lt x b hb)

theorem Valid.move {r : Roster} {m : Move} (h : r.Valid) (hm : r.Admits m) : (r.move m).Valid := by
  cases m with
  | claim n =>
    refine ⟨?_, fun x hx => List.mem_append_left _ (h.measured_placed x hx), h.register_lt⟩
    refine List.nodup_append.mpr ⟨h.nodup, List.nodup_singleton n, ?_⟩
    rintro x hx y hy rfl
    exact hm (List.mem_singleton.mp hy ▸ hx)
  | gate g nodes => exact h
  | measure n =>
    refine ⟨h.nodup, fun x hx => ?_, register_lt_insert h n⟩
    rcases SortedSet.mem_insert.mp hx with rfl | hx
    · exact hm.1
    · exact h.measured_placed x hx
  | readOut n => exact ⟨h.nodup, h.measured_placed, register_lt_insert h n⟩
  | snapshot => exact h

theorem Valid.after {r : Roster} {l : List Move} (h : r.Valid) (hl : r.AdmitsAll l) :
    (r.after l).Valid := by
  induction l generalizing r with
  | nil => exact h
  | cons m l ih => exact ih (h.move hl.1) hl.2

theorem mem_placed_move {r : Roster} {x : Node} (m : Move) (hx : x ∈ r.placed) :
    x ∈ (r.move m).placed := by
  cases m with
  | claim n => exact List.mem_append_left _ hx
  | _ => exact hx

/-- A node that has a wire has one from then on. -/
theorem mem_placed_after {r : Roster} {x : Node} (l : List Move) (hx : x ∈ r.placed) :
    x ∈ (r.after l).placed := by
  induction l generalizing r with
  | nil => exact hx
  | cons m l ih => exact ih (mem_placed_move m hx)

theorem live_claim {r : Roster} (h : r.Valid) {n : Node} (hn : n ∉ r.placed) :
    (r.move (.claim n)).live = r.live ++ [n] := by
  have hm : n ∉ r.measured := fun hm => hn (h.measured_placed n hm)
  show (r.placed ++ [n]).filter (· ∉ r.measured) = r.live ++ [n]
  rw [List.filter_append, live, List.filter_singleton, decide_eq_true hm, cond_true]

theorem holders_claim {reuse : Bool} {r : Roster} (h : r.Valid) {n : Node} (hn : n ∉ r.placed) :
    (r.move (.claim n)).holders reuse = r.holders reuse ++ [n] := by
  unfold holders
  split
  · exact live_claim h hn
  · rfl

/-- A measured node is no longer live; all others stay what they are. -/
theorem live_perm_measure {r : Roster} (h : r.Valid) {n : Node} (hn : r.Live n) :
    r.live.Perm (n :: (r.move (.measure n)).live) := by
  have hnodup : r.live.Nodup := h.nodup.filter _
  have heq : (r.move (.measure n)).live = r.live.erase n := by
    rw [hnodup.erase_eq_filter, live, live, List.filter_filter]
    refine List.filter_congr fun x _ => ?_
    show decide (x ∉ r.measured.insert n) = _
    by_cases hx : x = n <;> simp [SortedSet.mem_insert, hx]
  rw [heq]
  exact List.perm_cons_erase (mem_live.mpr hn)

end Roster

/-! ### Drafts and rosters -/

namespace Draft

/-- How a node gets its wire: the least free one, or else a new one. -/
theorem play_claim_cases (d : Draft) (n : Node) :
    (∃ w free, d.free.toList = w :: free.toList ∧ ∀ reuse, d.play reuse (.claim n)
      = { ({ d with free }.push ⟨.reset, [w], []⟩) with wires := d.wires.insert n w }) ∨
    (d.free.toList = [] ∧ ∀ reuse, d.play reuse (.claim n)
      = { d with
          circuit := d.circuit.addQubit.2
          wires := d.wires.insert n d.circuit.numQubits }) := by
  unfold play claimed
  cases hpop : d.free.popMin? with
  | some popped =>
    obtain ⟨w, free⟩ := popped
    exact .inl ⟨w, free, SortedSet.popMin?_eq_some_iff.mp hpop, fun _ => rfl⟩
  | none => exact .inr ⟨SortedSet.popMin?_eq_none_iff.mp hpop, fun _ => rfl⟩

theorem wireAt_of_get? {d : Draft} {n : Node} {w : Qubit} (h : d.wires.get? n = some w) :
    d.wireAt n = w := by
  rw [wireAt, SortedMap.getD, h]
  rfl

theorem wireAt_insert (d : Draft) (n x : Node) (w : Qubit) :
    (d.wires.insert n w).getD x 0 = if x = n then w else d.wireAt x :=
  SortedMap.getD_insert ..

/-- A draft and a roster of the same compilation, with all books in order. -/
structure Sound (reuse : Bool) (d : Draft) (r : Roster) : Prop where
  roster : r.Valid
  placed : ∀ n, (d.wires.get? n).isSome ↔ n ∈ r.placed
  measured : d.measured = r.measured
  register : d.register = r.register
  bits : d.circuit.numBits = r.bits
  /-- The wires that are held and those that are free are all wires, each once. -/
  pool : ((r.holders reuse).map d.wireAt ++ d.free.toList).Perm (List.range d.circuit.numQubits)
  /-- Unless wires are reused, none becomes free and nodes have theirs in the order in which they
  got them. -/
  plain : reuse = false →
    d.free.toList = [] ∧ r.placed.map d.wireAt = List.range d.circuit.numQubits
  valid : ∀ inst ∈ d.circuit.instructions.toList,
    inst.Fits d.circuit.numQubits d.circuit.numBits

theorem sound_start (reuse : Bool) : Sound reuse .start {} where
  roster := Roster.valid_empty
  placed := fun n => by simp [start, SortedMap.get?_empty]
  measured := rfl
  register := rfl
  bits := rfl
  pool := by cases reuse <;> exact .refl _
  plain := fun _ => ⟨rfl, rfl⟩
  valid := fun inst h => absurd h List.not_mem_nil

namespace Sound

variable {reuse : Bool} {d : Draft} {r : Roster}

theorem pool_nodup (h : Sound reuse d r) :
    ((r.holders reuse).map d.wireAt ++ d.free.toList).Nodup :=
  h.pool.nodup_iff.mpr List.nodup_range

theorem wireAt_lt (h : Sound reuse d r) {n : Node} (hn : r.Live n) :
    d.wireAt n < d.circuit.numQubits := by
  have hmem : d.wireAt n ∈ (r.holders reuse).map d.wireAt ++ d.free.toList :=
    List.mem_append_left _ (List.mem_map_of_mem (Roster.mem_holders_of_live hn))
  exact List.mem_range.mp (h.pool.mem_iff.mp hmem)

theorem free_lt (h : Sound reuse d r) {w : Qubit} (hw : w ∈ d.free.toList) :
    w < d.circuit.numQubits :=
  List.mem_range.mp (h.pool.mem_iff.mp (List.mem_append_right _ hw))

/-- Two nodes that hold their wires hold different ones. -/
theorem wireAt_injOn (h : Sound reuse d r) :
    ∀ a ∈ r.holders reuse, ∀ b ∈ r.holders reuse, d.wireAt a = d.wireAt b → a = b := by
  have hnodup := (List.nodup_append.mp h.pool_nodup).1
  exact fun a ha b hb => List.inj_on_of_nodup_map hnodup ha hb

theorem wireAt_not_free (h : Sound reuse d r) {n : Node} (hn : r.Live n) :
    d.wireAt n ∉ d.free := by
  intro hmem
  have hdisj := (List.nodup_append.mp h.pool_nodup).2.2
  exact hdisj _ (List.mem_map_of_mem (Roster.mem_holders_of_live hn)) _ hmem rfl

/-! ### One move -/

/-- The instruction of a gate on live nodes fits. -/
theorem fits_gate (h : Sound reuse d r) {g : GateUse} {nodes : List Node}
    (ha : r.Admits (.gate g nodes)) :
    Instruction.Fits ⟨.gate g, nodes.map d.wireAt, []⟩ d.circuit.numQubits d.circuit.numBits := by
  obtain ⟨harity, hnodup, hlive, hcond⟩ := ha
  refine ⟨?_, ?_, ?_, ?_⟩
  · show (nodes.map d.wireAt).length = g.gate.arity
    rw [List.length_map, harity]
  · intro q hq
    obtain ⟨n, hn, rfl⟩ := List.mem_map.mp hq
    exact h.wireAt_lt (hlive n hn)
  · show ∀ b ∈ Instruction.conditionBits ⟨.gate g, nodes.map d.wireAt, []⟩, b < _
    intro b hb
    unfold Instruction.conditionBits at hb
    split at hb
    · next c hc => exact h.bits ▸ hcond c hc b hb
    · exact absurd hb List.not_mem_nil
  · refine hnodup.map_on fun a ha b hb heq => ?_
    exact h.wireAt_injOn a (Roster.mem_holders_of_live (hlive a ha)) b
      (Roster.mem_holders_of_live (hlive b hb)) heq

/-- The instruction that measures a live node fits once its classical bit is added. -/
theorem fits_measure (h : Sound reuse d r) {n : Node} (hn : r.Live n) :
    Instruction.Fits ⟨.measure, [d.wireAt n], [d.circuit.numBits]⟩ d.circuit.numQubits
      (d.circuit.numBits + 1) where
  arity := rfl
  qubits_lt := fun q hq => List.mem_singleton.mp hq ▸ h.wireAt_lt hn
  bits_lt := fun b hb => by
    rw [show b = d.circuit.numBits from List.mem_singleton.mp hb]
    exact Nat.lt_succ_self _
  nodup := List.nodup_singleton _

theorem fits_snapshot (q b : Nat) : Instruction.Fits ⟨.snapshot, List.range q, []⟩ q b where
  arity := trivial
  qubits_lt := fun _ hx => List.mem_range.mp hx
  bits_lt := fun _ hx => absurd hx List.not_mem_nil
  nodup := List.nodup_range

theorem fits_reset {q b w : Nat} (hw : w < q) : Instruction.Fits ⟨.reset, [w], []⟩ q b where
  arity := trivial
  qubits_lt := fun _ hx => List.mem_singleton.mp hx ▸ hw
  bits_lt := fun _ hx => absurd hx List.not_mem_nil
  nodup := List.nodup_singleton _

theorem valid_push (h : Sound reuse d r) {inst : Instruction} {q b : Nat}
    (hq : d.circuit.numQubits ≤ q) (hb : d.circuit.numBits ≤ b) (hinst : inst.Fits q b) :
    ∀ i ∈ (d.circuit.instructions.push inst).toList, i.Fits q b := by
  intro i hi
  rw [Array.toList_push, List.mem_append, List.mem_singleton] at hi
  rcases hi with hi | rfl
  · exact (h.valid i hi).mono hq hb
  · exact hinst

theorem push (h : Sound reuse d r) {inst : Instruction}
    (hinst : inst.Fits d.circuit.numQubits d.circuit.numBits) : Sound reuse (d.push inst) r :=
  { h with valid := h.valid_push (Nat.le_refl _) (Nat.le_refl _) hinst }

/-- Placing a node in the table of wires. -/
theorem placed_insert (h : Sound reuse d r) (n x : Node) (w : Qubit) :
    ((d.wires.insert n w).get? x).isSome ↔ x ∈ r.placed ++ [n] := by
  rw [SortedMap.get?_insert, List.mem_append, List.mem_singleton, ← h.placed x]
  by_cases hx : x = n <;> simp [hx]

theorem map_wireAt_claim {n : Node} {w : Qubit} {l : List Node} (hn : n ∉ l) :
    (l ++ [n]).map (fun x => (d.wires.insert n w).getD x 0) = l.map d.wireAt ++ [w] := by
  rw [List.map_append, List.map_singleton, wireAt_insert, if_pos rfl]
  congr 1
  refine List.map_congr_left fun x hx => ?_
  rw [wireAt_insert, if_neg]
  rintro rfl
  exact hn hx

theorem claim (h : Sound reuse d r) {n : Node} (hn : n ∉ r.placed) :
    Sound reuse (d.play reuse (.claim n)) (r.move (.claim n)) := by
  have hholds : n ∉ r.holders reuse := fun hmem => hn (Roster.mem_placed_of_mem_holders hmem)
  have hroster := h.roster.move (m := .claim n) hn
  obtain ⟨w, free, hfree, hplay⟩ | ⟨hfree, hplay⟩ := d.play_claim_cases n
  · -- a free wire goes from the pool to the node
    have hw : w < d.circuit.numQubits := h.free_lt (hfree ▸ List.mem_cons_self ..)
    rw [hplay]
    refine ⟨hroster, fun x => h.placed_insert n x w, h.measured, h.register, h.bits, ?_, ?_,
      h.valid_push (Nat.le_refl _) (Nat.le_refl _) (fits_reset hw)⟩
    · show (((r.move (.claim n)).holders reuse).map (fun x => (d.wires.insert n w).getD x 0)
        ++ free.toList).Perm _
      rw [Roster.holders_claim h.roster hn, map_wireAt_claim hholds, List.append_assoc,
        List.singleton_append, ← hfree]
      exact h.pool
    · intro hreuse
      rw [(h.plain hreuse).1] at hfree
      cases hfree
  · -- the circuit grows by a wire
    rw [hplay]
    refine ⟨hroster, fun x => h.placed_insert n x _, h.measured, h.register, h.bits, ?_, ?_,
      fun i hi => (h.valid i hi).mono (Nat.le_succ _) (Nat.le_refl _)⟩
    · show (((r.move (.claim n)).holders reuse).map
        (fun x => (d.wires.insert n d.circuit.numQubits).getD x 0) ++ d.free.toList).Perm
        (List.range (d.circuit.numQubits + 1))
      have hpool := h.pool
      rw [hfree, List.append_nil] at hpool
      rw [Roster.holders_claim h.roster hn, map_wireAt_claim hholds, hfree, List.append_nil,
        List.range_succ]
      exact hpool.append_right _
    · intro hreuse
      refine ⟨hfree, ?_⟩
      show (r.placed ++ [n]).map (fun x => (d.wires.insert n d.circuit.numQubits).getD x 0)
        = List.range (d.circuit.numQubits + 1)
      rw [map_wireAt_claim hn, (h.plain hreuse).2, List.range_succ]

theorem read (h : Sound reuse d r) {n : Node} (hn : r.Live n) :
    Sound reuse (d.read n) (r.move (.readOut n)) where
  roster := h.roster.move hn
  placed := h.placed
  measured := h.measured
  register := by
    show d.register.insert n d.circuit.numBits = r.register.insert n r.bits
    rw [h.register, h.bits]
  bits := by
    show d.circuit.numBits + 1 = r.bits + 1
    rw [h.bits]
  pool := h.pool
  plain := h.plain
  valid := h.valid_push (Nat.le_refl _) (Nat.le_succ _) (h.fits_measure hn)

theorem measure (h : Sound reuse d r) {n : Node} (hn : r.Live n) :
    Sound reuse (d.play reuse (.measure n)) (r.move (.measure n)) := by
  have hread := h.read hn
  refine ⟨h.roster.move hn, h.placed, ?_, hread.register, hread.bits, ?_, ?_, hread.valid⟩
  · show d.measured.insert n = r.measured.insert n
    rw [h.measured]
  · have hpool := h.pool
    cases reuse with
    | false => exact hpool
    | true =>
      show ((r.move (.measure n)).live.map d.wireAt
        ++ (d.free.insert (d.wireAt n)).toList).Perm (List.range d.circuit.numQubits)
      -- the wire of `n` goes from the live nodes to the pool
      have hlive := (Roster.live_perm_measure h.roster hn).map d.wireAt
      have hfree := SortedSet.toList_insert_perm (h.wireAt_not_free hn)
      have hmove := (hlive.append_right d.free.toList).symm.trans hpool
      refine .trans ?_ hmove
      exact (hfree.append_left _).trans List.perm_middle
  · intro hreuse
    subst hreuse
    exact h.plain rfl

/-- **One move**: a move in order keeps the books. -/
theorem play (h : Sound reuse d r) {m : Move} (hm : r.Admits m) :
    Sound reuse (d.play reuse m) (r.move m) := by
  cases m with
  | claim n => exact h.claim hm
  | gate g nodes => exact h.push (h.fits_gate hm)
  | measure n => exact h.measure hm
  | readOut n => exact h.read hm
  | snapshot => exact h.push (fits_snapshot _ _)

/-- **A run**: moves in order keep the books. -/
theorem playAll (h : Sound reuse d r) {l : List Move} (hl : r.AdmitsAll l) :
    Sound reuse (d.playAll reuse l) (r.after l) := by
  induction l generalizing d r with
  | nil => exact h
  | cons m l ih => exact ih (h.play hl.1) hl.2

/-! ### Nodes keep their wires -/

theorem get?_wires_play (reuse : Bool) (d : Draft) {m : Move} (hm : r.Admits m) {x : Node}
    (hx : x ∈ r.placed) :
    (d.play reuse m).wires.get? x = d.wires.get? x := by
  cases m with
  | claim n =>
    show (d.wires.insert n d.claimed.1).get? x = d.wires.get? x
    rw [SortedMap.get?_insert, if_neg]
    rintro rfl
    exact hm hx
  | _ => rfl

/-- A node that has a wire keeps it. -/
theorem get?_wires_playAll (reuse : Bool) (d : Draft) {l : List Move} (hl : r.AdmitsAll l)
    {x : Node} (hx : x ∈ r.placed) :
    (d.playAll reuse l).wires.get? x = d.wires.get? x := by
  induction l generalizing d r with
  | nil => rfl
  | cons m l ih =>
    rw [playAll_cons, ih _ hl.2 (Roster.mem_placed_move m hx), get?_wires_play reuse d hl.1 hx]

theorem wireAt_playAll (reuse : Bool) (d : Draft) {l : List Move} (hl : r.AdmitsAll l) {x : Node}
    (hx : x ∈ r.placed) :
    (d.playAll reuse l).wireAt x = d.wireAt x := by
  unfold wireAt SortedMap.getD
  rw [get?_wires_playAll reuse d hl hx]

end Sound

end Draft

end OneWay
