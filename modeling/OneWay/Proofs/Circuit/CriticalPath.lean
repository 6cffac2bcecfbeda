import Mathlib.Data.List.Chain
import Mathlib.Order.Bounds.Basic
import Mathlib.Order.MinMax
import OneWay.Proofs.Circuit.Depth
import OneWay.Proofs.Sorted

/-!
# Depth as the longest chain

A chain goes through the instructions of a circuit in order, and each of its instructions shares a
wire or a classical bit with the one before. Its weight is the number of its instructions that take
a layer; barriers and snapshots are passed through and take none.

The depth of a circuit is the largest weight of a chain (`Circuit.depth_eq_longest_chain`). The
computation keeps one number for each place of a register. This number is the largest weight of a
chain that ends at the place (`Layers.Measures`), which every instruction keeps up
(`Layers.Measures.step`): a chain that ends with a new instruction is one that ends at one of its
operands, and one instruction more.
-/

namespace OneWay

namespace Instruction

/-- The instructions have a wire in common, or a classical bit that each of them writes or
reads. -/
def Shares (a b : Instruction) : Prop :=
  (∃ q ∈ a.qubits, q ∈ b.qubits) ∨ ∃ x ∈ Circuit.Layers.bitsOf a, x ∈ Circuit.Layers.bitsOf b

/-- The number of layers that an instruction takes. -/
def layers (inst : Instruction) : Nat := if inst.isPassive then 0 else 1

end Instruction

namespace Circuit

variable {insts : List Instruction} {inst : Instruction}

/-! ### Chains -/

/-- Increasing positions, such that the instructions at consecutive ones share an operand. -/
structure Chain (insts : List Instruction) (path : List Nat) : Prop where
  increasing : path.Pairwise (· < ·)
  inside : ∀ i ∈ path, i < insts.length
  linked : path.IsChain fun i j => ∃ a ∈ insts[i]?, ∃ b ∈ insts[j]?, a.Shares b

/-- The number of instructions at the positions that take a layer. -/
def weight (insts : List Instruction) (path : List Nat) : Nat :=
  path.countP fun i => insts[i]?.any (! ·.isPassive)

/-- The last instruction of a chain, if there is one, is as demanded. -/
def EndsWith (insts : List Instruction) (P : Instruction → Prop) (path : List Nat) : Prop :=
  ∀ i ∈ path.getLast?, ∃ a ∈ insts[i]?, P a

theorem chain_nil : Chain insts [] := ⟨.nil, by simp, .nil⟩

/-- Positions that are there keep their instructions when one more is appended. -/
theorem getElem?_concat_of_lt {i : Nat} (h : i < insts.length) :
    (insts ++ [inst])[i]? = insts[i]? := List.getElem?_append_left h

theorem chain_concat_iff_of_inside (inst : Instruction) {path : List Nat}
    (h : ∀ i ∈ path, i < insts.length) : Chain (insts ++ [inst]) path ↔ Chain insts path := by
  have hlinked : (path.IsChain fun i j => ∃ a ∈ (insts ++ [inst])[i]?,
        ∃ b ∈ (insts ++ [inst])[j]?, a.Shares b) ↔
      path.IsChain fun i j => ∃ a ∈ insts[i]?, ∃ b ∈ insts[j]?, a.Shares b := by
    refine List.IsChain.iff_of_mem_imp fun i j hi hj => ?_
    rw [getElem?_concat_of_lt (h i hi), getElem?_concat_of_lt (h j hj)]
  constructor
  · intro hchain
    exact ⟨hchain.increasing, h, hlinked.mp hchain.linked⟩
  · intro hchain
    refine ⟨hchain.increasing, fun i hi => ?_, hlinked.mpr hchain.linked⟩
    rw [List.length_append]
    exact Nat.lt_add_right 1 (h i hi)

/-- A chain in instructions to which one is appended either does without it, or ends with it. -/
theorem chain_concat_iff {path : List Nat} :
    Chain (insts ++ [inst]) path ↔ Chain insts path ∨
      ∃ front, path = front ++ [insts.length] ∧ Chain insts front ∧
        EndsWith insts (·.Shares inst) front := by
  constructor
  · intro h
    rcases List.eq_nil_or_concat path with rfl | ⟨front, last, rfl⟩
    · exact .inl chain_nil
    rw [List.concat_eq_append] at h ⊢
    have hfront : ∀ i ∈ front, i < last := by
      intro i hi
      exact (List.pairwise_append.mp h.increasing).2.2 i hi last (List.mem_singleton.mpr rfl)
    have hlast : last < insts.length + 1 := by simpa using h.inside last (by simp)
    by_cases hnew : last = insts.length
    · -- what comes before the new instruction is a chain, and its end is linked to it
      subst hnew
      obtain ⟨hlinked, -, hend⟩ := List.isChain_append.mp h.linked
      have hchain : Chain insts front := by
        rw [← chain_concat_iff_of_inside inst hfront]
        refine ⟨(List.pairwise_append.mp h.increasing).1, fun i hi => ?_, hlinked⟩
        exact h.inside i (List.mem_append_left _ hi)
      refine .inr ⟨front, rfl, hchain, fun i hi => ?_⟩
      obtain ⟨a, ha, b, hb, hshares⟩ := hend i hi insts.length rfl
      rw [getElem?_concat_of_lt (hfront i (List.mem_of_getLast? hi))] at ha
      obtain rfl : inst = b := by simpa using hb
      exact ⟨a, ha, hshares⟩
    · refine .inl ((chain_concat_iff_of_inside inst fun i hi => ?_).mp h)
      rcases List.mem_append.mp hi with hi | hi
      · have := hfront i hi
        omega
      · have := List.mem_singleton.mp hi
        omega
  · rintro (h | ⟨front, rfl, h, hend⟩)
    · exact (chain_concat_iff_of_inside inst h.inside).mpr h
    · have hfront := (chain_concat_iff_of_inside inst h.inside).mpr h
      refine ⟨?_, ?_, List.isChain_append.mpr ⟨hfront.linked, .singleton _, ?_⟩⟩
      · refine List.pairwise_append.mpr ⟨h.increasing, List.pairwise_singleton _ _, ?_⟩
        intro i hi j hj
        rw [List.mem_singleton.mp hj]
        exact h.inside i hi
      · intro i hi
        rw [List.length_append]
        rcases List.mem_append.mp hi with hi | hi
        · exact Nat.lt_add_right 1 (h.inside i hi)
        · rw [List.mem_singleton.mp hi]
          exact Nat.lt_succ_self _
      · intro i hi j hj
        obtain ⟨a, ha, hshares⟩ := hend i hi
        obtain rfl : insts.length = j := by simpa using hj
        refine ⟨a, ?_, inst, by simp, hshares⟩
        rwa [getElem?_concat_of_lt (h.inside i (List.mem_of_getLast? hi))]

theorem weight_concat_of_inside (inst : Instruction) {path : List Nat}
    (h : ∀ i ∈ path, i < insts.length) :
    weight (insts ++ [inst]) path = weight insts path := by
  refine List.countP_congr fun i hi => ?_
  rw [getElem?_concat_of_lt (h i hi)]

theorem weight_concat {front : List Nat} (h : ∀ i ∈ front, i < insts.length) :
    weight (insts ++ [inst]) (front ++ [insts.length]) = weight insts front + inst.layers := by
  have hnew : weight (insts ++ [inst]) [insts.length] = inst.layers := by
    unfold weight Instruction.layers
    cases hpassive : inst.isPassive <;> simp [hpassive]
  rw [← hnew, ← weight_concat_of_inside inst h]
  exact List.countP_append

theorem endsWith_concat_of_inside {P : Instruction → Prop} {path : List Nat}
    (h : ∀ i ∈ path, i < insts.length) :
    EndsWith (insts ++ [inst]) P path ↔ EndsWith insts P path := by
  refine forall₂_congr fun i hi => ?_
  rw [getElem?_concat_of_lt (h i (List.mem_of_getLast? hi))]

theorem endsWith_concat {P : Instruction → Prop} {front : List Nat} :
    EndsWith (insts ++ [inst]) P (front ++ [insts.length]) ↔ P inst := by
  simp [EndsWith]

/-! ### Chains of the largest weight -/

/-- The largest weight of a chain that is empty or ends as demanded. -/
def Longest (insts : List Instruction) (P : Instruction → Prop) (d : Nat) : Prop :=
  IsGreatest {w | ∃ path, Chain insts path ∧ EndsWith insts P path ∧ weight insts path = w} d

variable {P Q : Instruction → Prop} {d e : Nat}

theorem Longest.le (h : Longest insts P d) {path : List Nat} (hchain : Chain insts path)
    (hend : EndsWith insts P path) : weight insts path ≤ d :=
  h.2 ⟨path, hchain, hend, rfl⟩

theorem longest_nil : Longest [] P 0 := by
  refine ⟨⟨[], chain_nil, by simp [EndsWith], rfl⟩, ?_⟩
  rintro w ⟨path, hchain, -, rfl⟩
  obtain rfl : path = [] := List.eq_nil_iff_forall_not_mem.mpr fun i hi => by
    simpa using hchain.inside i hi
  exact Nat.le_refl _

theorem longest_false : Longest insts (fun _ => False) 0 := by
  refine ⟨⟨[], chain_nil, by simp [EndsWith], rfl⟩, ?_⟩
  rintro w ⟨path, -, hend, rfl⟩
  -- only the empty chain ends in no instruction
  cases hlast : path.getLast? with
  | none =>
    rw [List.getLast?_eq_none_iff.mp hlast]
    exact Nat.le_refl _
  | some i =>
    obtain ⟨a, -, hfalse⟩ := hend i hlast
    exact hfalse.elim

theorem Longest.congr (h : Longest insts P d) (hPQ : ∀ a, P a ↔ Q a) : Longest insts Q d := by
  obtain rfl : P = Q := funext fun a => propext (hPQ a)
  exact h

/-- A chain that ends in one way or another is one that ends in one of these ways. -/
theorem Longest.or (hP : Longest insts P d) (hQ : Longest insts Q e) :
    Longest insts (fun a => P a ∨ Q a) (max d e) := by
  constructor
  · rcases max_choice d e with hmax | hmax
    · obtain ⟨path, hchain, hend, hw⟩ := hP.1
      refine ⟨path, hchain, fun i hi => ?_, hw.trans hmax.symm⟩
      obtain ⟨a, ha, hPa⟩ := hend i hi
      exact ⟨a, ha, .inl hPa⟩
    · obtain ⟨path, hchain, hend, hw⟩ := hQ.1
      refine ⟨path, hchain, fun i hi => ?_, hw.trans hmax.symm⟩
      obtain ⟨a, ha, hQa⟩ := hend i hi
      exact ⟨a, ha, .inr hQa⟩
  · rintro w ⟨path, hchain, hend, rfl⟩
    cases hlast : path.getLast? with
    | none =>
      rw [List.getLast?_eq_none_iff.mp hlast]
      exact Nat.zero_le _
    | some i =>
      obtain ⟨a, ha, hPa | hQa⟩ := hend i hlast
      · refine (hP.le hchain fun j hj => ?_).trans (le_max_left d e)
        obtain rfl : i = j := Option.some.inj (hlast.symm.trans hj)
        exact ⟨a, ha, hPa⟩
      · refine (hQ.le hchain fun j hj => ?_).trans (le_max_right d e)
        obtain rfl : i = j := Option.some.inj (hlast.symm.trans hj)
        exact ⟨a, ha, hQa⟩

/-- The largest weight of a chain that ends at one of several places is that of their largest
one. -/
theorem Longest.foldl_max {α : Type} {l : List α} {R : α → Instruction → Prop} {front : α → Nat}
    (h : ∀ x, Longest insts (R x) (front x)) (hP : Longest insts P d) :
    Longest insts (fun a => P a ∨ ∃ x ∈ l, R x a) ((l.map front).foldl max d) := by
  induction l generalizing P d with
  | nil => exact hP.congr fun a => by simp
  | cons x l ih => exact (ih (hP.or (h x))).congr fun a => by simp [or_assoc]

/-- An instruction that does not end chains as demanded leaves those that do as they are. -/
theorem Longest.concat_of_not (hP : Longest insts P d) (hinst : ¬ P inst) :
    Longest (insts ++ [inst]) P d := by
  constructor
  · obtain ⟨path, hchain, hend, hw⟩ := hP.1
    refine ⟨path, chain_concat_iff.mpr (.inl hchain), ?_, ?_⟩
    · exact (endsWith_concat_of_inside hchain.inside).mpr hend
    · exact (weight_concat_of_inside inst hchain.inside).trans hw
  · rintro w ⟨path, hchain, hend, rfl⟩
    rcases chain_concat_iff.mp hchain with hchain | ⟨front, rfl, -, -⟩
    · rw [weight_concat_of_inside inst hchain.inside]
      exact hP.le hchain ((endsWith_concat_of_inside hchain.inside).mp hend)
    · exact absurd (endsWith_concat.mp hend) hinst

/-- **A new instruction** prolongs the chains that end at one of its operands. -/
theorem Longest.concat (hP : Longest insts P d) (hshares : Longest insts (·.Shares inst) e)
    (hinst : P inst) : Longest (insts ++ [inst]) P (max d (e + inst.layers)) := by
  constructor
  · rcases max_choice d (e + inst.layers) with hmax | hmax
    · obtain ⟨path, hchain, hend, hw⟩ := hP.1
      refine ⟨path, chain_concat_iff.mpr (.inl hchain), ?_, ?_⟩
      · exact (endsWith_concat_of_inside hchain.inside).mpr hend
      · rw [weight_concat_of_inside inst hchain.inside, hw, hmax]
    · obtain ⟨front, hchain, hend, hw⟩ := hshares.1
      refine ⟨front ++ [insts.length], ?_, endsWith_concat.mpr hinst, ?_⟩
      · exact chain_concat_iff.mpr (.inr ⟨front, rfl, hchain, hend⟩)
      · rw [weight_concat hchain.inside, hw, hmax]
  · rintro w ⟨path, hchain, hend, rfl⟩
    rcases chain_concat_iff.mp hchain with hchain | ⟨front, rfl, hchain, hlink⟩
    · rw [weight_concat_of_inside inst hchain.inside]
      have hle := hP.le hchain ((endsWith_concat_of_inside hchain.inside).mp hend)
      exact hle.trans (le_max_left _ _)
    · rw [weight_concat hchain.inside]
      have hle := hshares.le hchain hlink
      exact (Nat.add_le_add_right hle _).trans (le_max_right _ _)

/-! ### Fronts -/

namespace Fronts

variable {f f' : Fronts} {l : List Nat}

/-- The front at a place, inside the register or not. -/
def front (f : Fronts) (i : Nat) : Nat := f.touched.getD i 0

theorem mapM_read?_eq {r : List Nat} (h : l.mapM f.read? = some r) : r = l.map f.front := by
  induction l generalizing r with
  | nil =>
    obtain rfl := Option.some.inj h
    rfl
  | cons i l ih =>
    rw [List.mapM_cons] at h
    obtain ⟨d, hd, h⟩ := Option.bind_eq_some_iff.mp h
    obtain ⟨ds, hds, h⟩ := Option.bind_eq_some_iff.mp h
    obtain rfl := Option.some.inj h
    unfold read? at hd
    split at hd
    · obtain rfl := Option.some.inj hd
      rw [ih hds]
      rfl
    · cases hd

theorem front_touch? {depth i : Nat} (h : f.touch? depth i = some f') (j : Nat) :
    f'.front j = if j = i then depth else f.front j := by
  unfold touch? at h
  split at h
  · obtain rfl := Option.some.inj h
    exact SortedMap.getD_insert i j depth 0 f.touched
  · cases h

theorem front_foldlM_touch? {depth : Nat} (h : l.foldlM (touch? depth) f = some f') (j : Nat) :
    f'.front j = if j ∈ l then depth else f.front j := by
  induction l generalizing f with
  | nil =>
    obtain rfl := Option.some.inj h
    simp
  | cons i l ih =>
    rw [List.foldlM_cons] at h
    obtain ⟨f₁, htouch, hrest⟩ := Option.bind_eq_some_iff.mp h
    rw [ih hrest, front_touch? htouch]
    by_cases hj : j ∈ l <;> simp [hj]

end Fronts

/-! ### Layers -/

namespace Layers

variable {s s' : Layers}

/-- What an instruction does to the fronts: it starts at the largest one of its operands, and all of
these are where it ends. -/
theorem step?_eq_some (h : s.step? inst = some s') :
    ∃ depth, depth = (inst.qubits.map s.qubits.front ++ (bitsOf inst).map s.bits.front).foldl max 0
        + inst.layers ∧
      (∀ q, s'.qubits.front q = if q ∈ inst.qubits then depth else s.qubits.front q) ∧
      (∀ b, s'.bits.front b = if b ∈ bitsOf inst then depth else s.bits.front b) ∧
      s'.deepest = max s.deepest depth := by
  obtain ⟨start, hstart, h⟩ := Option.bind_eq_some_iff.mp h
  obtain ⟨qubits, hqubits, h⟩ := Option.bind_eq_some_iff.mp h
  obtain ⟨bits, hbits, h⟩ := Option.bind_eq_some_iff.mp h
  obtain rfl := Option.some.inj h
  obtain ⟨rq, hrq, hstart⟩ := Option.bind_eq_some_iff.mp hstart
  obtain ⟨rb, hrb, hstart⟩ := Option.bind_eq_some_iff.mp hstart
  obtain rfl := Option.some.inj hstart
  refine ⟨_, ?_, Fronts.front_foldlM_touch? hqubits, Fronts.front_foldlM_touch? hbits, rfl⟩
  rw [Fronts.mapM_read?_eq hrq, Fronts.mapM_read?_eq hrb, Instruction.layers]
  split <;> rfl

/-- The front of each place is the largest weight of a chain that ends there, and the deepest layer
is the largest weight of a chain. -/
structure Measures (insts : List Instruction) (s : Layers) : Prop where
  qubits : ∀ q, Longest insts (q ∈ ·.qubits) (s.qubits.front q)
  bits : ∀ b, Longest insts (b ∈ bitsOf ·) (s.bits.front b)
  deepest : Longest insts (fun _ => True) s.deepest

theorem measures_start (c : Circuit) : (start c).Measures [] :=
  ⟨fun _ => longest_nil, fun _ => longest_nil, longest_nil⟩

/-- An instruction starts where the chains end that it can prolong. -/
theorem Measures.shares (h : s.Measures insts) (inst : Instruction) :
    Longest insts (·.Shares inst)
      ((inst.qubits.map s.qubits.front ++ (bitsOf inst).map s.bits.front).foldl max 0) := by
  rw [List.foldl_append]
  have hqubits := longest_false.foldl_max (l := inst.qubits) h.qubits
  refine (hqubits.foldl_max (l := bitsOf inst) h.bits).congr fun a => ?_
  unfold Instruction.Shares
  simp [and_comm]

/-- **One instruction** keeps the fronts to the largest weights. -/
theorem Measures.step (h : s.Measures insts) (hstep : s.step? inst = some s') :
    s'.Measures (insts ++ [inst]) := by
  obtain ⟨depth, hdepth, hqubits, hbits, hdeepest⟩ := step?_eq_some hstep
  have hshares := h.shares inst
  -- a chain that ends at an operand is one that the instruction prolongs
  have htop : ∀ {P : Instruction → Prop} {d : Nat}, Longest insts P d →
      (∀ a, P a → a.Shares inst) → max d depth = depth := by
    intro P d hP hsub
    obtain ⟨path, hchain, hend, rfl⟩ := hP.1
    refine max_eq_right ?_
    rw [hdepth]
    refine Nat.le_add_right_of_le (hshares.le hchain fun i hi => ?_)
    obtain ⟨a, ha, hPa⟩ := hend i hi
    exact ⟨a, ha, hsub a hPa⟩
  refine ⟨fun q => ?_, fun b => ?_, ?_⟩
  · rw [hqubits]
    by_cases hq : q ∈ inst.qubits
    · have hlongest := (h.qubits q).concat hshares hq
      rw [← hdepth, htop (h.qubits q) fun a ha => .inl ⟨q, ha, hq⟩] at hlongest
      rwa [if_pos hq]
    · rw [if_neg hq]
      exact (h.qubits q).concat_of_not hq
  · rw [hbits]
    by_cases hb : b ∈ bitsOf inst
    · have hlongest := (h.bits b).concat hshares hb
      rw [← hdepth, htop (h.bits b) fun a ha => .inr ⟨b, ha, hb⟩] at hlongest
      rwa [if_pos hb]
    · rw [if_neg hb]
      exact (h.bits b).concat_of_not hb
  · rw [hdeepest, hdepth]
    exact h.deepest.concat hshares trivial

/-- **Several instructions** keep the fronts to the largest weights. -/
theorem Measures.foldlM_step? {rest : List Instruction} (h : s.Measures insts)
    (hrun : rest.foldlM Layers.step? s = some s') : s'.Measures (insts ++ rest) := by
  induction rest generalizing insts s with
  | nil =>
    obtain rfl := Option.some.inj hrun
    rwa [List.append_nil]
  | cons inst rest ih =>
    rw [List.foldlM_cons] at hrun
    obtain ⟨s₁, hstep, hrest⟩ := Option.bind_eq_some_iff.mp hrun
    have := ih (h.step hstep) hrest
    rwa [List.append_assoc, List.singleton_append] at this

end Layers

/-- **Depth**: a valid circuit has a depth, and this is the largest number of instructions other
than barriers and snapshots in a chain of its instructions. -/
theorem depth_eq_longest_chain {c : Circuit} (hc : c.validate = .ok ()) :
    ∃ depth, c.depth? = some depth ∧
      IsGreatest {w | ∃ path, Chain c.instructions.toList path ∧
        weight c.instructions.toList path = w} depth := by
  have hrange : ∀ inst ∈ c.instructions.toList, c.InRange inst := fun inst hinst =>
    inRange_of_fits (validate_eq_ok_iff.mp hc inst hinst)
  obtain ⟨depth, hdepth⟩ := Option.isSome_iff_exists.mp (depth?_isSome_iff.mpr hrange)
  refine ⟨depth, hdepth, ?_⟩
  obtain ⟨layers, hrun, hdeepest⟩ := Option.bind_eq_some_iff.mp hdepth
  obtain rfl := Option.some.inj hdeepest
  have hlongest := ((Layers.measures_start c).foldlM_step? hrun).deepest
  rw [List.nil_append] at hlongest
  -- every chain ends as nothing demands
  have hany : ∀ path, Chain c.instructions.toList path →
      EndsWith c.instructions.toList (fun _ => True) path := by
    intro path hchain i hi
    have hlt := hchain.inside i (List.mem_of_getLast? hi)
    exact ⟨_, List.getElem?_eq_getElem hlt, trivial⟩
  constructor
  · obtain ⟨path, hchain, -, hw⟩ := hlongest.1
    exact ⟨path, hchain, hw⟩
  · rintro w ⟨path, hchain, rfl⟩
    exact hlongest.le hchain (hany path hchain)

/-- A chain of four instructions on two wires and a classical bit: a gate that depends on the
measurement of the other wire, which comes after a barrier. The barrier is in the chain and takes
no layer. -/
theorem depth_feedForward :
    let c : Circuit := ⟨"feed", 2, 1, #[⟨.gate { gate := .h }, [0], []⟩, ⟨.barrier, [0, 1], []⟩,
      ⟨.measure, [0], [0]⟩, ⟨.gate { gate := .x, condition := some ⟨[0], true⟩ }, [1], []⟩]⟩
    c.validate = .ok () ∧ c.depth? = some 3 ∧ Chain c.instructions.toList [0, 1, 2, 3] ∧
      ∀ path, Chain c.instructions.toList path → weight c.instructions.toList path ≤ 3 := by
  intro c
  have hc : c.validate = .ok () := by decide
  have hdepth : c.depth? = some 3 := by decide
  refine ⟨hc, hdepth, ?_, fun path hchain => ?_⟩
  · refine ⟨by decide, by decide, ?_⟩
    simp [c, Instruction.Shares, Layers.bitsOf, Instruction.conditionBits, Instruction.condition?,
      Instruction.gateUse?]
  · obtain ⟨depth, hdepth', hgreatest⟩ := depth_eq_longest_chain hc
    obtain rfl : 3 = depth := Option.some.inj (hdepth.symm.trans hdepth')
    exact hgreatest.2 ⟨path, hchain, rfl⟩

end Circuit

end OneWay
