import OneWay.Proofs.Compile.Acceptance
import OneWay.Proofs.Compile.Wires
import OneWay.Proofs.Pattern.Renaming
import Mathlib.Data.List.Forall2
import Mathlib.Data.Set.Function

/-!
# Compilation does not depend on the names of nodes

The nodes of a pattern are kept in sets and tables by name, and what is read from these comes in
the order of the names. A renaming that keeps the declared nodes apart changes this order. It is
seen in two places: in the classical bits of a condition, which come in the order of a domain, and
in the wires of declared nodes that nothing acts on, which are given out last.

The moves of the two compilations correspond one by one (`Move.Renames`), but for these last claims.
Corresponding moves keep rosters and drafts in correspondence (`Roster.Renames.after`,
`Draft.Renames.playAll`). The last claims give out equally many wires and touch no others
(`Draft.Renames.claimRest`). `Pattern.compile_rename` is what this says of compiled patterns.
-/

namespace OneWay

variable {f : Node → Node}

/-! ### Acceptance -/

namespace Pattern

variable {p : Pattern}

theorem take_commands_rename (i : Nat) :
    (p.rename f).commands.take i = (p.commands.take i).map (Command.rename f) :=
  List.map_take.symm

theorem WellFormed.targets_declared (h : p.WellFormed) {c : Command} (hc : c ∈ p.commands) :
    ∀ n ∈ c.targets, n ∈ p.nodes :=
  fun n hn => (h.commands_allowed c hc).declared n (List.mem_append_left _ hn)

theorem WellFormed.dependencies_declared (h : p.WellFormed) {c : Command} (hc : c ∈ p.commands) :
    ∀ n ∈ c.dependencies, n ∈ p.nodes :=
  fun n hn => (h.commands_allowed c hc).declared n (List.mem_append_right _ hn)

theorem measuredBefore_rename_iff (h : p.WellFormed) (hf : p.nodes.InjOn f) {i : Nat} {n : Node}
    (hn : n ∈ p.nodes) : (p.rename f).MeasuredBefore i (f n) ↔ p.MeasuredBefore i n := by
  unfold MeasuredBefore
  rw [take_commands_rename]
  constructor
  · rintro ⟨c', hc', hm⟩
    obtain ⟨c, hc, rfl⟩ := List.mem_map.mp hc'
    obtain ⟨m, hm, hmn⟩ := Command.measures_rename.mp hm
    have hdeclared := h.targets_declared (List.mem_of_mem_take hc) m hm.mem_targets
    exact ⟨c, hc, hf m hdeclared n hn hmn ▸ hm⟩
  · rintro ⟨c, hc, hm⟩
    exact ⟨c.rename f, List.mem_map_of_mem hc, Command.measures_rename.mpr ⟨n, hm, rfl⟩⟩

theorem usedBefore_rename_iff (h : p.WellFormed) (hf : p.nodes.InjOn f) {i : Nat} {n : Node}
    (hn : n ∈ p.nodes) : (p.rename f).UsedBefore i (f n) ↔ p.UsedBefore i n := by
  unfold UsedBefore
  rw [take_commands_rename]
  constructor
  · rintro ⟨c', hc', hmem⟩
    obtain ⟨c, hc, rfl⟩ := List.mem_map.mp hc'
    rw [Command.targets_rename] at hmem
    have hdeclared := h.targets_declared (List.mem_of_mem_take hc)
    exact ⟨c, hc, (mem_map_list_iff hf hdeclared hn).mp hmem⟩
  · rintro ⟨c, hc, hmem⟩
    refine ⟨c.rename f, List.mem_map_of_mem hc, ?_⟩
    rw [Command.targets_rename]
    exact List.mem_map_of_mem hmem

theorem mem_results_rename_iff (h : p.WellFormed) (hf : p.nodes.InjOn f) {n : Node}
    (hn : n ∈ p.nodes) : f n ∈ (p.rename f).results.keys ↔ n ∈ p.results.keys := by
  show f n ∈ (p.results.mapKeys f).keys ↔ _
  rw [SortedMap.mem_keys_mapKeys]
  constructor
  · rintro ⟨m, hm, hmn⟩
    exact hf m (h.results_declared m hm) n hn hmn ▸ hm
  · exact fun hmem => ⟨n, hmem, rfl⟩

/-- A command is in order where its renamed form is. -/
theorem inOrder_rename_iff (h : p.WellFormed) (hf : p.nodes.InjOn f) {i : Nat} {c : Command}
    (hc : c ∈ p.commands) : (p.rename f).InOrder i (c.rename f) ↔ p.InOrder i c := by
  have htargets := h.targets_declared hc
  have hdependencies := h.dependencies_declared hc
  constructor
  · intro ho
    refine ⟨fun n hn => ?_, ?_, fun n hn => ?_⟩
    · rw [← measuredBefore_rename_iff h hf (htargets n hn)]
      refine ho.unmeasured (f n) ?_
      rw [Command.targets_rename]
      exact List.mem_map_of_mem hn
    · rintro n rfl
      have hn : n ∈ p.nodes := htargets n List.mem_cons_self
      obtain ⟨hin, hused⟩ := ho.fresh (f n) rfl
      exact ⟨fun hmem => hin (List.mem_map_of_mem hmem),
        fun hmem => hused ((usedBefore_rename_iff h hf hn).mpr hmem)⟩
    · rw [← measuredBefore_rename_iff h hf (hdependencies n hn),
        ← mem_results_rename_iff h hf (hdependencies n hn)]
      exact ho.outcomes (f n) (Command.mem_dependencies_rename.mpr ⟨n, hn, rfl⟩)
  · intro ho
    refine ⟨fun n' hn' => ?_, fun n' hn' => ?_, fun n' hn' => ?_⟩
    · rw [Command.targets_rename] at hn'
      obtain ⟨n, hn, rfl⟩ := List.mem_map.mp hn'
      rw [measuredBefore_rename_iff h hf (htargets n hn)]
      exact ho.unmeasured n hn
    · obtain ⟨n, rfl, rfl⟩ := Command.rename_eq_prepare.mp hn'
      have hn : n ∈ p.nodes := htargets n List.mem_cons_self
      obtain ⟨hin, hused⟩ := ho.fresh n rfl
      exact ⟨fun hmem => hin ((mem_map_list_iff hf h.inputs_declared hn).mp hmem),
        fun hmem => hused ((usedBefore_rename_iff h hf hn).mp hmem)⟩
    · obtain ⟨n, hn, rfl⟩ := Command.mem_dependencies_rename.mp hn'
      rw [measuredBefore_rename_iff h hf (hdependencies n hn),
        mem_results_rename_iff h hf (hdependencies n hn)]
      exact ho.outcomes n hn

theorem ordered_rename_iff (h : p.WellFormed) (hf : p.nodes.InjOn f) :
    (p.rename f).Ordered ↔ p.Ordered := by
  have hget : ∀ i, (p.rename f).commands[i]? = p.commands[i]?.map (Command.rename f) :=
    fun i => List.getElem?_map
  constructor
  · intro ho i c hc
    have hc' : (p.rename f).commands[i]? = some (c.rename f) := by rw [hget, hc]; rfl
    exact (inOrder_rename_iff h hf (List.mem_of_getElem? hc)).mp (ho i _ hc')
  · intro ho i c' hc'
    rw [hget] at hc'
    obtain ⟨c, hc, rfl⟩ := Option.map_eq_some_iff.mp hc'
    exact (inOrder_rename_iff h hf (List.mem_of_getElem? hc)).mpr (ho i c hc)

end Pattern

namespace CompileContext

/-- The same compilation on renamed nodes. -/
def rename (f : Node → Node) (ctx : CompileContext) : CompileContext :=
  ⟨ctx.pattern.rename f, ctx.inputs.mapKeys f, ctx.options⟩

variable {ctx : CompileContext}

theorem Accepted.inputs_declared (h : ctx.Accepted) :
    ∀ n ∈ ctx.inputs.keys, n ∈ ctx.pattern.nodes := by
  intro n hn
  obtain ⟨e, he, rfl⟩ := List.mem_map.mp hn
  exact h.wellFormed.inputs_declared e.1 (h.inputs e he).1

theorem Accepted.rename (h : ctx.Accepted) (hf : ctx.pattern.nodes.InjOn f) :
    (ctx.rename f).Accepted := by
  have hordered := (fault?_eq_none_iff ctx).mp h.ordered
  refine ⟨h.wellFormed.rename hf, fun e he => ?_, (fault?_eq_none_iff _).mpr ?_⟩
  · obtain ⟨n, hn, hne⟩ := SortedMap.mem_entries_mapKeys he
    obtain ⟨hin, hcheck⟩ := h.inputs _ hn
    exact ⟨hne ▸ List.mem_map_of_mem hin, hcheck⟩
  · exact (Pattern.ordered_rename_iff h.wellFormed hf).mpr hordered

/-- A renamed pattern is accepted only if the pattern is, unless a node is taken for a declared
one. -/
theorem Accepted.of_rename (h : (ctx.rename f).Accepted) (hf : ctx.pattern.nodes.InjOn f)
    (hnew : ctx.pattern.KeepsApart f (ctx.pattern.names ++ ctx.inputs.keys)) : ctx.Accepted := by
  have hwf : ctx.pattern.WellFormed :=
    h.wellFormed.of_rename hf fun n hn => hnew n (List.mem_append_left _ hn)
  have hordered := (fault?_eq_none_iff _).mp h.ordered
  -- every supplied state is that of a declared node
  have hkeys : ∀ n ∈ ctx.inputs.keys, n ∈ ctx.pattern.nodes := by
    intro n hn
    obtain ⟨e, he, hen⟩ := List.mem_map.mp (SortedMap.mem_keys_mapKeys.mpr ⟨n, hn, rfl⟩)
    have hdeclared := h.wellFormed.inputs_declared e.1 (h.inputs e he).1
    exact hnew n (List.mem_append_right _ hn) (hen ▸ hdeclared)
  refine ⟨hwf, fun e he => ?_, (fault?_eq_none_iff ctx).mpr ?_⟩
  · have hn : e.1 ∈ ctx.pattern.nodes := hkeys e.1 (List.mem_map_of_mem he)
    have hget : (ctx.inputs.mapKeys f).get? (f e.1) = some e.2 := by
      rw [SortedMap.get?_mapKeys fun n hmem => hf n (hkeys n hmem) e.1 hn]
      exact SortedMap.get?_eq_some_iff.mpr he
    obtain ⟨hin, hcheck⟩ := h.inputs (f e.1, e.2) (SortedMap.get?_eq_some_iff.mp hget)
    exact ⟨(Pattern.mem_map_list_iff hf hwf.inputs_declared hn).mp hin, hcheck⟩
  · exact (Pattern.ordered_rename_iff hwf hf).mp hordered

end CompileContext

/-! ### Instructions up to the order of bits -/

/-- The same gate, up to the order of the classical bits of its condition. -/
inductive GateUse.Similar : GateUse → GateUse → Prop
  | refl (g : GateUse) : Similar g g
  | conditioned {gate : Gate} {label : Option String} {bits bits' : List Bit} {parity : Bool} :
    bits.Perm bits' →
      Similar ⟨gate, label, some ⟨bits, parity⟩⟩ ⟨gate, label, some ⟨bits', parity⟩⟩

/-- The same instruction, up to the order of the classical bits of its condition. -/
inductive Instruction.Similar : Instruction → Instruction → Prop
  | refl (inst : Instruction) : Similar inst inst
  | gate {g g' : GateUse} {qubits : List Qubit} {bits : List Bit} :
    g.Similar g' → Similar ⟨.gate g, qubits, bits⟩ ⟨.gate g', qubits, bits⟩

/-! ### Moves and rosters -/

/-- The same move on renamed nodes of a set, up to the order of the bits of its condition. -/
inductive Move.Renames (f : Node → Node) (U : Set Node) : Move → Move → Prop
  | claim {n : Node} : n ∈ U → Renames f U (.claim n) (.claim (f n))
  | gate {g g' : GateUse} {nodes : List Node} :
    g.Similar g' → (∀ n ∈ nodes, n ∈ U) → Renames f U (.gate g nodes) (.gate g' (nodes.map f))
  | measure {n : Node} : n ∈ U → Renames f U (.measure n) (.measure (f n))
  | readOut {n : Node} : n ∈ U → Renames f U (.readOut n) (.readOut (f n))
  | snapshot : Renames f U .snapshot .snapshot

theorem Move.renames_plain {U : Set Node} {n : Node} (hn : n ∈ U) (gates : List Gate) :
    List.Forall₂ (Move.Renames f U) (gates.map (.plain n)) (gates.map (.plain (f n))) := by
  induction gates with
  | nil => exact .nil
  | cons g gates ih =>
    exact .cons (.gate (.refl _) fun m hm => List.mem_singleton.mp hm ▸ hn) ih

namespace Roster

/-- What is known of renamed nodes is what was known of the nodes. -/
structure Renames (f : Node → Node) (S : Set Node) (r r' : Roster) : Prop where
  placed : r'.placed = r.placed.map f
  within : ∀ n ∈ r.placed, n ∈ S
  register : ∀ n ∈ S, r'.register.get? (f n) = r.register.get? n
  bits : r'.bits = r.bits

theorem renames_empty (f : Node → Node) (S : Set Node) : ({} : Roster).Renames f S {} where
  placed := rfl
  within := fun _ hn => absurd hn List.not_mem_nil
  register := fun _ _ => rfl
  bits := rfl

namespace Renames

variable {S : Set Node} {r r' : Roster}

theorem mem_placed_iff (h : r.Renames f S r') (hS : Set.InjOn f S) {n : Node} (hn : n ∈ S) :
    f n ∈ r'.placed ↔ n ∈ r.placed := by
  rw [h.placed, List.mem_map]
  constructor
  · rintro ⟨m, hm, hmn⟩
    rwa [← hS (h.within m hm) hn hmn]
  · exact fun hmem => ⟨n, hmem, rfl⟩

theorem record (h : r.Renames f S r') (hS : Set.InjOn f S) {n : Node} (hn : n ∈ S) :
    ∀ m ∈ S, (r'.register.insert (f n) r'.bits).get? (f m)
      = (r.register.insert n r.bits).get? m := by
  intro m hm
  rw [SortedMap.get?_insert, SortedMap.get?_insert, h.register m hm, h.bits]
  simp only [hS.eq_iff hm hn]

/-- **One move** keeps the rosters in correspondence. -/
theorem move (h : r.Renames f S r') (hS : Set.InjOn f S) {m m' : Move} (hm : m.Renames f S m') :
    (r.move m).Renames f S (r'.move m') := by
  cases hm with
  | @claim n hn =>
    refine ⟨?_, ?_, h.register, h.bits⟩
    · show r'.placed ++ [f n] = (r.placed ++ [n]).map f
      rw [h.placed, List.map_append, List.map_singleton]
    · intro x hx
      rcases List.mem_append.mp hx with hx | hx
      · exact h.within x hx
      · exact List.mem_singleton.mp hx ▸ hn
  | gate hg hnodes => exact h
  | measure hn => exact ⟨h.placed, h.within, h.record hS hn, congrArg (· + 1) h.bits⟩
  | readOut hn => exact ⟨h.placed, h.within, h.record hS hn, congrArg (· + 1) h.bits⟩
  | snapshot => exact h

/-- **Several moves** keep the rosters in correspondence. -/
theorem after (h : r.Renames f S r') (hS : Set.InjOn f S) {l l' : List Move}
    (hl : List.Forall₂ (Move.Renames f S) l l') : (r.after l).Renames f S (r'.after l') := by
  induction hl generalizing r r' with
  | nil => exact h
  | cons hm _ ih => exact ih (h.move hS hm)

end Renames

/-- The order of a domain does not matter for its parity. -/
theorem knownParity_perm (ctx : CompileContext) (r : Roster) {l l' : List Node} (h : l.Perm l') :
    r.knownParity ctx l = r.knownParity ctx l' := by
  induction h with
  | nil => rfl
  | cons n _ ih => rw [knownParity, knownParity, ih]
  | swap m n l =>
    simp only [knownParity]
    split <;> split <;> simp [Bool.xor_left_comm]
  | trans _ _ ih₁ ih₂ => exact ih₁.trans ih₂

/-- Nodes are given wires but for those that have one. -/
theorem claimAll_eq (r : Roster) {l : List Node} (hl : l.Nodup) :
    r.claimAll l = (l.filter (· ∉ r.placed)).map .claim := by
  induction l generalizing r with
  | nil => rfl
  | cons n l ih =>
    obtain ⟨hn, hl⟩ := List.nodup_cons.mp hl
    unfold claimAll
    by_cases hplaced : n ∈ r.placed
    · rw [if_pos hplaced, ih r hl, List.filter_cons_of_neg (by simpa using hplaced)]
    · rw [if_neg hplaced, ih _ hl, List.filter_cons_of_pos (by simpa using hplaced), List.map_cons]
      -- `n` does not come again
      have hrest : l.filter (· ∉ (r.move (.claim n)).placed) = l.filter (· ∉ r.placed) := by
        refine List.filter_congr fun m hm => ?_
        have hne : m ≠ n := fun heq => hn (heq ▸ hm)
        simp [move, hne]
      rw [hrest]

end Roster

/-! ### The moves of a renamed pattern -/

namespace CompileContext

/-- The declared nodes. -/
def declared (ctx : CompileContext) : Set Node := {n | n ∈ ctx.pattern.nodes}

variable {ctx : CompileContext} {r r' : Roster}

theorem injOn_declared (hf : ctx.pattern.nodes.InjOn f) : Set.InjOn f ctx.declared :=
  fun a ha b hb => hf a ha b hb

theorem Accepted.preparation_rename (h : ctx.Accepted) (hf : ctx.pattern.nodes.InjOn f) {n : Node}
    (hn : n ∈ ctx.declared) :
    Draft.preparation (ctx.rename f) (f n) = Draft.preparation ctx n := by
  have hget : (ctx.rename f).inputs.get? (f n) = ctx.inputs.get? n :=
    SortedMap.get?_mapKeys fun m hm => hf m (h.inputs_declared m hm) n hn
  unfold Draft.preparation
  rw [hget]

theorem Accepted.results_rename (h : ctx.Accepted) (hf : ctx.pattern.nodes.InjOn f) {n : Node}
    (hn : n ∈ ctx.declared) :
    (ctx.rename f).pattern.results.getD (f n) false = ctx.pattern.results.getD n false := by
  have hget : (ctx.rename f).pattern.results.get? (f n) = ctx.pattern.results.get? n :=
    SortedMap.get?_mapKeys fun m hm => hf m (h.wellFormed.results_declared m hm) n hn
  unfold SortedMap.getD
  rw [hget]

theorem Accepted.renames_touch (h : ctx.Accepted) (hf : ctx.pattern.nodes.InjOn f)
    (hr : r.Renames f ctx.declared r') {n : Node} (hn : n ∈ ctx.declared) :
    List.Forall₂ (Move.Renames f ctx.declared) (r.touch ctx n) (r'.touch (ctx.rename f) (f n)) := by
  unfold Roster.touch
  simp only [hr.mem_placed_iff (injOn_declared hf) hn]
  split
  · exact .nil
  · rw [h.preparation_rename hf hn]
    exact .cons (.claim hn)
      (.cons (.gate (.refl _) fun m hm => List.mem_singleton.mp hm ▸ hn) .nil)

theorem Accepted.renames_touchAll (h : ctx.Accepted) (hf : ctx.pattern.nodes.InjOn f)
    (hr : r.Renames f ctx.declared r') {l : List Node} (hl : ∀ n ∈ l, n ∈ ctx.declared) :
    List.Forall₂ (Move.Renames f ctx.declared) (r.touchAll ctx l)
      (r'.touchAll (ctx.rename f) (l.map f)) := by
  induction l generalizing r r' with
  | nil => exact .nil
  | cons n l ih =>
    obtain ⟨hn, hl⟩ := List.forall_mem_cons.mp hl
    have htouch := h.renames_touch hf hr hn
    exact List.rel_append htouch (ih (hr.after (injOn_declared hf) htouch) hl)

theorem Accepted.renames_knownParity (h : ctx.Accepted) (hf : ctx.pattern.nodes.InjOn f)
    (hr : r.Renames f ctx.declared r') {l : List Node} (hl : ∀ n ∈ l, n ∈ ctx.declared) :
    r'.knownParity (ctx.rename f) (l.map f) = r.knownParity ctx l := by
  induction l with
  | nil => rfl
  | cons n l ih =>
    obtain ⟨hn, hl⟩ := List.forall_mem_cons.mp hl
    rw [List.map_cons, Roster.knownParity, Roster.knownParity, ih hl, h.results_rename hf hn,
      SortedMap.contains, SortedMap.contains, hr.register n hn]

/-- A correction depends on the same bits, in some order. -/
theorem Accepted.renames_correction (h : ctx.Accepted) (hf : ctx.pattern.nodes.InjOn f)
    (hr : r.Renames f ctx.declared r') (pauli : Gate) {n : Node} (hn : n ∈ ctx.declared)
    {domain : Domain} (hdomain : ∀ m ∈ domain, m ∈ ctx.declared) :
    List.Forall₂ (Move.Renames f ctx.declared) (r.correction ctx pauli n domain)
      (r'.correction (ctx.rename f) pauli (f n) (domain.map f)) := by
  -- bits come in the order of the domain, and renaming changes that order
  have horder := SortedSet.toList_map_perm hf hdomain
  have hbits : (r.measuredBits domain.toList).Perm (r'.measuredBits (domain.map f).toList) := by
    have hsame : (domain.toList.map f).filterMap r'.register.get?
        = r.measuredBits domain.toList := by
      rw [List.filterMap_map]
      exact List.filterMap_congr fun m hm => hr.register m (hdomain m hm)
    exact (hsame ▸ horder.filterMap r'.register.get?).symm
  have hknown : r'.knownParity (ctx.rename f) (domain.map f).toList
      = r.knownParity ctx domain.toList := by
    rw [Roster.knownParity_perm _ _ horder, h.renames_knownParity hf hr hdomain]
  have hsingle : ∀ m ∈ [n], m ∈ ctx.declared := fun m hm => List.mem_singleton.mp hm ▸ hn
  have hempty : (r'.measuredBits (domain.map f).toList).isEmpty
      = (r.measuredBits domain.toList).isEmpty := by
    rw [Bool.eq_iff_iff, List.isEmpty_iff, List.isEmpty_iff]
    exact ⟨fun hnil => (hnil ▸ hbits).eq_nil, fun hnil => (hnil ▸ hbits.symm).eq_nil⟩
  unfold Roster.correction
  simp only [hknown, hempty]
  split
  · split
    · exact .cons (.gate (.refl _) hsingle) .nil
    · exact .nil
  · exact .cons (.gate (.conditioned hbits) hsingle) .nil

/-- The moves of a command, one case for each kind. -/
theorem Accepted.renames_act (h : ctx.Accepted) (hf : ctx.pattern.nodes.InjOn f)
    (hr : r.Renames f ctx.declared r') {c : Command}
    (hc : ∀ n ∈ c.targets ++ c.dependencies, n ∈ ctx.declared) :
    List.Forall₂ (Move.Renames f ctx.declared) (r.act ctx c)
      (r'.act (ctx.rename f) (c.rename f)) := by
  have htarget : ∀ n ∈ c.targets, n ∈ ctx.declared := fun n hn => hc n (List.mem_append_left _ hn)
  have hdependency : ∀ n ∈ c.dependencies, n ∈ ctx.declared :=
    fun n hn => hc n (List.mem_append_right _ hn)
  cases c with
  | prepare n => exact .nil
  | entangle a b => exact .cons (.gate (.refl _) htarget) .nil
  | measure n plane angle s t =>
    have hn := htarget n List.mem_cons_self
    have hs := h.renames_correction hf hr .x hn
      fun m hm => hdependency m (List.mem_append_left _ hm)
    have ht := h.renames_correction hf hr .z hn
      fun m hm => hdependency m (List.mem_append_right _ hm)
    exact List.rel_append (List.rel_append (List.rel_append hs ht)
      (Move.renames_plain hn _)) (.cons (.measure hn) .nil)
  | correctX n d => exact h.renames_correction hf hr .x (htarget n List.mem_cons_self) hdependency
  | correctZ n d => exact h.renames_correction hf hr .z (htarget n List.mem_cons_self) hdependency
  | clifford n c => exact Move.renames_plain (htarget n List.mem_cons_self) _

theorem Accepted.renames_commandsMoves (h : ctx.Accepted) (hf : ctx.pattern.nodes.InjOn f)
    (hr : r.Renames f ctx.declared r') {l : List Command} (hl : ∀ c ∈ l, c ∈ ctx.pattern.commands) :
    List.Forall₂ (Move.Renames f ctx.declared) (r.commandsMoves ctx l)
      (r'.commandsMoves (ctx.rename f) (l.map (Command.rename f))) := by
  induction l generalizing r r' with
  | nil => exact .nil
  | cons c l ih =>
    obtain ⟨hc, hl⟩ := List.forall_mem_cons.mp hl
    have hmoves : List.Forall₂ (Move.Renames f ctx.declared) (r.commandMoves ctx c)
        (r'.commandMoves (ctx.rename f) (c.rename f)) := by
      unfold Roster.commandMoves
      rw [Command.targets_rename]
      exact List.rel_append (h.renames_touchAll hf hr (h.wellFormed.targets_declared hc))
        (h.renames_act hf hr (h.wellFormed.commands_allowed c hc).declared)
    exact List.rel_append hmoves (ih (hr.after (injOn_declared hf) hmoves) hl)

/-- Up to the last command the moves correspond one by one. -/
theorem Accepted.renames_bodyMoves (h : ctx.Accepted) (hf : ctx.pattern.nodes.InjOn f) :
    List.Forall₂ (Move.Renames f ctx.declared) ctx.bodyMoves (ctx.rename f).bodyMoves := by
  have hinputs := h.renames_touchAll hf (Roster.renames_empty f _) h.wellFormed.inputs_declared
  have hroster := (Roster.renames_empty f _).after (injOn_declared hf) hinputs
  exact List.rel_append hinputs (h.renames_commandsMoves hf hroster fun c hc => hc)

theorem renames_claimAll (hf : ctx.pattern.nodes.InjOn f) (hr : r.Renames f ctx.declared r')
    {l : List Node} (hl : ∀ n ∈ l, n ∈ ctx.declared) :
    List.Forall₂ (Move.Renames f ctx.declared) (r.claimAll l) (r'.claimAll (l.map f)) := by
  induction l generalizing r r' with
  | nil => exact .nil
  | cons n l ih =>
    obtain ⟨hn, hl⟩ := List.forall_mem_cons.mp hl
    rw [List.map_cons]
    unfold Roster.claimAll
    simp only [hr.mem_placed_iff (injOn_declared hf) hn]
    split
    · exact ih hr hl
    · exact .cons (.claim hn) (ih (hr.move (injOn_declared hf) (.claim hn)) hl)

end CompileContext

/-! ### Drafts -/

namespace Draft

/-- Nothing else of a set has the image of a node. -/
def Apart (f : Node → Node) (S : Set Node) (n : Node) : Prop := ∀ m ∈ S, f m = f n → m = n

/-- The draft of a renamed pattern: its circuit is the same up to the order of the bits of
conditions, the nodes of `U` have the same wires, and nodes have the same classical bits. -/
structure Renames (f : Node → Node) (S U : Set Node) (d d' : Draft) : Prop where
  numQubits : d'.circuit.numQubits = d.circuit.numQubits
  numBits : d'.circuit.numBits = d.circuit.numBits
  instructions : List.Forall₂ Instruction.Similar d.circuit.instructions.toList
    d'.circuit.instructions.toList
  wires : ∀ n ∈ U, d'.wires.get? (f n) = d.wires.get? n
  register : ∀ n, Apart f S n → d'.register.get? (f n) = d.register.get? n
  free : d'.free = d.free

theorem renames_start (f : Node → Node) (S U : Set Node) : start.Renames f S U start where
  numQubits := rfl
  numBits := rfl
  instructions := .nil
  wires := fun _ _ => rfl
  register := fun _ _ => rfl
  free := rfl

/-- What claiming wires does while none is free: the circuit grows by as many wires, and the other
nodes keep theirs. -/
theorem playAll_claims (reuse : Bool) {d : Draft} (hfree : d.free.toList = []) (l : List Node) :
    (d.playAll reuse (l.map .claim)).circuit
        = { d.circuit with numQubits := d.circuit.numQubits + l.length } ∧
      (d.playAll reuse (l.map .claim)).register = d.register ∧
      (d.playAll reuse (l.map .claim)).free = d.free ∧
      ∀ n, n ∉ l → (d.playAll reuse (l.map .claim)).wires.get? n = d.wires.get? n := by
  induction l generalizing d with
  | nil => exact ⟨rfl, rfl, rfl, fun _ _ => rfl⟩
  | cons m l ih =>
    obtain ⟨w, free, hcons, -⟩ | ⟨-, hplay⟩ := d.play_claim_cases m
    · -- there is no free wire to take
      rw [hfree] at hcons
      cases hcons
    · rw [List.map_cons, playAll_cons, hplay reuse]
      obtain ⟨hcircuit, hregister, hfree', hwires⟩ := ih
        (d := { d with
          circuit := d.circuit.addQubit.2
          wires := d.wires.insert m d.circuit.numQubits }) hfree
      refine ⟨?_, hregister, hfree', fun n hn => ?_⟩
      · rw [hcircuit, List.length_cons, Nat.add_comm l.length 1, ← Nat.add_assoc]
        rfl
      · rw [List.mem_cons, not_or] at hn
        rw [hwires n hn.2, SortedMap.get?_insert, if_neg hn.1]

namespace Renames

variable {S U : Set Node} {d d' : Draft}

theorem mono (h : d.Renames f S U d') {V : Set Node} (hV : ∀ n ∈ V, n ∈ U) : d.Renames f S V d' :=
  { h with wires := fun n hn => h.wires n (hV n hn) }

theorem wireAt (h : d.Renames f S U d') {n : Node} (hn : n ∈ U) : d'.wireAt (f n) = d.wireAt n := by
  unfold Draft.wireAt SortedMap.getD
  rw [h.wires n hn]

theorem map_wireAt (h : d.Renames f S U d') {l : List Node} (hl : ∀ n ∈ l, n ∈ U) :
    (l.map f).map d'.wireAt = l.map d.wireAt := by
  rw [List.map_map]
  exact List.map_congr_left fun n hn => h.wireAt (hl n hn)

theorem push (h : d.Renames f S U d') {inst inst' : Instruction} (hinst : inst.Similar inst') :
    (d.push inst).Renames f S U (d'.push inst') := by
  refine { h with instructions := ?_ }
  show List.Forall₂ _ (d.circuit.instructions.push inst).toList
    (d'.circuit.instructions.push inst').toList
  rw [Array.toList_push, Array.toList_push]
  exact List.rel_append h.instructions (.cons hinst .nil)

theorem insert_wires (h : d.Renames f S U d') (hU : Set.InjOn f U) {n : Node} (hn : n ∈ U)
    (w : Qubit) : ∀ m ∈ U, (d'.wires.insert (f n) w).get? (f m) = (d.wires.insert n w).get? m := by
  intro m hm
  rw [SortedMap.get?_insert, SortedMap.get?_insert, h.wires m hm]
  simp only [hU.eq_iff hm hn]

/-- Corresponding nodes get the same wire: the same wires are free and there are as many. -/
theorem claim (h : d.Renames f S U d') (hU : Set.InjOn f U) {n : Node} (hn : n ∈ U)
    (reuse : Bool) : (d.play reuse (.claim n)).Renames f S U (d'.play reuse (.claim (f n))) := by
  obtain ⟨w, free, hfree, hplay⟩ | ⟨hfree, hplay⟩ := d.play_claim_cases n
  · obtain ⟨w', free', hfree', hplay'⟩ | ⟨hfree', -⟩ := d'.play_claim_cases (f n)
    · -- the least free wire is the same on both sides
      rw [h.free, hfree] at hfree'
      obtain ⟨rfl, hsame⟩ := List.cons.inj hfree'
      obtain rfl := SortedSet.ext_toList hsame
      rw [hplay, hplay']
      have hreset := ({ h with free := rfl } : Renames f S U { d with free } { d' with free }).push
        (.refl ⟨.reset, [w], []⟩)
      exact { hreset with wires := h.insert_wires hU hn w }
    · rw [h.free, hfree] at hfree'
      cases hfree'
  · obtain ⟨w', free', hfree', -⟩ | ⟨-, hplay'⟩ := d'.play_claim_cases (f n)
    · rw [h.free, hfree] at hfree'
      cases hfree'
    · rw [hplay, hplay', h.numQubits]
      exact { h with
        numQubits := congrArg (· + 1) h.numQubits
        wires := h.insert_wires hU hn _ }

theorem read (h : d.Renames f S U d') (hUS : ∀ n ∈ U, n ∈ S) {n : Node} (hn : n ∈ U) :
    (d.read n).Renames f S U (d'.read (f n)) := by
  have hinst : Instruction.Similar ⟨.measure, [d.wireAt n], [d.circuit.numBits]⟩
      ⟨.measure, [d'.wireAt (f n)], [d'.circuit.numBits]⟩ := by
    rw [h.wireAt hn, h.numBits]
    exact .refl _
  have hpush := h.push hinst
  refine { hpush with numBits := congrArg (· + 1) h.numBits, register := fun m hm => ?_ }
  show (d'.register.insert (f n) d'.circuit.numBits).get? (f m)
    = (d.register.insert n d.circuit.numBits).get? m
  -- `m` need not be in `U`, so injectivity there does not tell it from `n`
  have hiff : f m = f n ↔ m = n := ⟨fun heq => (hm n (hUS n hn) heq.symm).symm, congrArg f⟩
  rw [SortedMap.get?_insert, SortedMap.get?_insert, h.register m hm, h.numBits]
  simp only [hiff]

/-- **One move** keeps the drafts in correspondence. -/
theorem play (h : d.Renames f S U d') (hU : Set.InjOn f U) (hUS : ∀ n ∈ U, n ∈ S) (reuse : Bool)
    {m m' : Move} (hm : m.Renames f U m') :
    (d.play reuse m).Renames f S U (d'.play reuse m') := by
  cases hm with
  | claim hn => exact h.claim hU hn reuse
  | @gate g g' nodes hg hnodes =>
    show (d.push _).Renames f S U (d'.push ⟨.gate g', (nodes.map f).map d'.wireAt, []⟩)
    rw [h.map_wireAt hnodes]
    exact h.push (.gate hg)
  | @measure n hn =>
    have hread := h.read hUS hn
    refine { hread with free := ?_ }
    show (if reuse then d'.free.insert (d'.wireAt (f n)) else d'.free)
      = if reuse then d.free.insert (d.wireAt n) else d.free
    rw [h.free, h.wireAt hn]
  | readOut hn => exact h.read hUS hn
  | snapshot =>
    show (d.push _).Renames f S U (d'.push ⟨.snapshot, List.range d'.circuit.numQubits, []⟩)
    rw [h.numQubits]
    exact h.push (.refl _)

/-- **Several moves** keep the drafts in correspondence. -/
theorem playAll (h : d.Renames f S U d') (hU : Set.InjOn f U) (hUS : ∀ n ∈ U, n ∈ S)
    (reuse : Bool) {l l' : List Move} (hl : List.Forall₂ (Move.Renames f U) l l') :
    (d.playAll reuse l).Renames f S U (d'.playAll reuse l') := by
  induction hl generalizing d d' with
  | nil => exact h
  | cons hm _ ih => exact ih (h.play hU hUS reuse hm)

/-- Claims of equally many other nodes, in whatever order, keep the drafts in correspondence. -/
theorem claimRest (h : d.Renames f S U d') (reuse : Bool) (hfree : d.free.toList = [])
    {l l' : List Node} (hlength : l'.length = l.length) (hl : ∀ n ∈ U, n ∉ l)
    (hl' : ∀ n ∈ U, f n ∉ l') :
    (d.playAll reuse (l.map .claim)).Renames f S U (d'.playAll reuse (l'.map .claim)) := by
  have hfree' : d'.free.toList = [] := by rw [h.free, hfree]
  obtain ⟨hcircuit, hregister, hsame, hwires⟩ := playAll_claims reuse hfree l
  obtain ⟨hcircuit', hregister', hsame', hwires'⟩ := playAll_claims reuse hfree' l'
  refine ⟨?_, ?_, ?_, fun n hn => ?_, fun n hn => ?_, ?_⟩
  · rw [hcircuit, hcircuit', hlength, h.numQubits]
  · rw [hcircuit, hcircuit', h.numBits]
  · rw [hcircuit, hcircuit']
    exact h.instructions
  · rw [hwires n (hl n hn), hwires' (f n) (hl' n hn), h.wires n hn]
  · rw [hregister, hregister', h.register n hn]
  · rw [hsame, hsame', h.free]

end Renames

end Draft

/-! ### The drafts of a pattern and of its renamed form -/

/-- A node is an input or an output node, or a command acts on it. -/
def Pattern.Uses (p : Pattern) (n : Node) : Prop :=
  n ∈ p.inputs ∨ n ∈ p.outputs ∨ ∃ c ∈ p.commands, n ∈ c.targets

theorem Pattern.WellFormed.uses_declared {p : Pattern} (h : p.WellFormed) {n : Node}
    (hn : p.Uses n) : n ∈ p.nodes := by
  rcases hn with hin | hout | ⟨c, hc, hmem⟩
  · exact h.inputs_declared n hin
  · exact h.outputs_declared n hout
  · exact h.targets_declared hc n hmem

namespace CompileContext

variable {ctx : CompileContext}

/-- The nodes that have a wire before the idle ones get theirs. -/
theorem mem_placed_outputs {n : Node} :
    n ∈ (ctx.bodyRoster.after (ctx.bodyRoster.claimAll ctx.pattern.outputs)).placed ↔
      ctx.pattern.Uses n := by
  rw [Roster.after_claimAll, Roster.mem_placed_placeAll, mem_placed_bodyRoster, or_assoc]
  exact or_congr Iff.rfl or_comm

/-- As many declared nodes are idle under the new names as under the old. -/
theorem length_idle (hf : ctx.pattern.nodes.InjOn f) {r r' : Roster}
    (hr : r.Renames f ctx.declared r') :
    ((ctx.rename f).pattern.nodes.toList.filter (· ∉ r'.placed)).length
      = (ctx.pattern.nodes.toList.filter (· ∉ r.placed)).length := by
  have horder : (ctx.rename f).pattern.nodes.toList.Perm (ctx.pattern.nodes.toList.map f) :=
    SortedSet.toList_map_perm hf fun n hn => hn
  have hsame : (ctx.pattern.nodes.toList.map f).filter (· ∉ r'.placed)
      = (ctx.pattern.nodes.toList.filter (· ∉ r.placed)).map f := by
    rw [List.filter_map]
    congr 1
    refine List.filter_congr fun n hn => ?_
    simp only [Function.comp_apply, hr.mem_placed_iff (injOn_declared hf) hn]
  rw [(horder.filter _).length_eq, hsame, List.length_map]

/-- Once all wires are given out, the nodes in use have the same ones. -/
theorem Accepted.renames_lastClaims (h : ctx.Accepted) (hf : ctx.pattern.nodes.InjOn f) :
    (Draft.start.playAll ctx.options.qubitReuse
      (ctx.bodyMoves ++ ctx.bodyRoster.lastClaims ctx)).Renames f ctx.declared
        {n | ctx.pattern.Uses n}
        (Draft.start.playAll ctx.options.qubitReuse
          ((ctx.rename f).bodyMoves ++ (ctx.rename f).bodyRoster.lastClaims (ctx.rename f))) := by
  have hS := injOn_declared hf
  have hbody := h.renames_bodyMoves hf
  have hroster : ctx.bodyRoster.Renames f ctx.declared (ctx.rename f).bodyRoster :=
    (Roster.renames_empty f _).after hS hbody
  have hclaims := renames_claimAll hf hroster h.wellFormed.outputs_declared
  have hplaced := hroster.after hS hclaims
  have hdraft := ((Draft.renames_start f _ _).playAll hS (fun n hn => hn)
    ctx.options.qubitReuse (List.rel_append hbody hclaims)).mono
      (V := {n | ctx.pattern.Uses n}) fun n hn => h.wellFormed.uses_declared hn
  unfold Roster.lastClaims
  cases hreuse : ctx.options.qubitReuse with
  | true =>
    have hreuse' : (ctx.rename f).options.qubitReuse = true := hreuse
    rw [hreuse] at hdraft
    simp only [hreuse', if_true]
    exact hdraft
  | false =>
    have hreuse' : (ctx.rename f).options.qubitReuse = false := hreuse
    rw [hreuse] at hdraft
    simp only [hreuse', Bool.false_eq_true, if_false]
    rw [← List.append_assoc, ← List.append_assoc, Draft.playAll_append _ _ (_ ++ _),
      Draft.playAll_append _ _ (_ ++ _), Roster.claimAll_eq _ (SortedSet.nodup _),
      Roster.claimAll_eq _ (SortedSet.nodup _)]
    -- no wire is free without reuse
    have hadmits : Roster.AdmitsAll {}
        (ctx.bodyMoves ++ ctx.bodyRoster.claimAll ctx.pattern.outputs) :=
      Roster.admitsAll_append.mpr
        ⟨ctx.admitsAll_bodyMoves h.wellFormed h.ordered, Roster.admitsAll_claimAll _ _⟩
    have hfree := ((Draft.sound_start false).playAll hadmits).plain rfl
    refine hdraft.claimRest false hfree.1 (length_idle hf hplaced) ?_ ?_
    · intro n hn hidle
      have hnot := (List.mem_filter.mp hidle).2
      exact of_decide_eq_true hnot (mem_placed_outputs.mpr hn)
    · intro n hn hidle
      have hnot := (List.mem_filter.mp hidle).2
      refine of_decide_eq_true hnot ((hplaced.mem_placed_iff hS ?_).mpr (mem_placed_outputs.mpr hn))
      exact h.wellFormed.uses_declared hn

/-- The circuits of a pattern and of its renamed form. -/
theorem Accepted.renames_draft (h : ctx.Accepted) (hf : ctx.pattern.nodes.InjOn f) :
    ctx.draft.Renames f ctx.declared {n | ctx.pattern.Uses n} (ctx.rename f).draft := by
  have hused : ∀ n ∈ {n | ctx.pattern.Uses n}, n ∈ ctx.declared :=
    fun n hn => h.wellFormed.uses_declared hn
  have hsnapshot : List.Forall₂ (Move.Renames f {n | ctx.pattern.Uses n})
      (if ctx.options.saveStatevector then [.snapshot] else [])
      (if ctx.options.saveStatevector then [.snapshot] else []) := by
    split
    · exact .cons .snapshot .nil
    · exact .nil
  have hreadOut : List.Forall₂ (Move.Renames f {n | ctx.pattern.Uses n})
      (if ctx.options.measureOutputs then ctx.pattern.outputs.map .readOut else [])
      (if ctx.options.measureOutputs then (ctx.pattern.outputs.map f).map .readOut else []) := by
    split
    · rw [List.map_map, List.forall₂_map_left_iff, List.forall₂_map_right_iff, List.forall₂_same]
      exact fun n hn => .readOut (.inr (.inl hn))
    · exact .nil
  have hlast := (h.renames_lastClaims hf).playAll ((injOn_declared hf).mono hused) hused
    ctx.options.qubitReuse (List.rel_append hsnapshot hreadOut)
  rw [← Draft.playAll_append, ← Draft.playAll_append] at hlast
  simp only [draft, moves, Roster.ending, List.append_assoc] at hlast ⊢
  exact hlast

end CompileContext

/-! ### Compiled patterns -/

/-- What is compiled from a renamed pattern: as many wires and classical bits and the same
instructions up to the order of the bits of conditions, the same classical bit for each node that
is not taken for a declared one, the same wire for each node in use, and the outputs on the same
wires. -/
structure Compiled.Renames (f : Node → Node) (p : Pattern) (c c' : Compiled) : Prop where
  numQubits : c'.circuit.numQubits = c.circuit.numQubits
  numBits : c'.circuit.numBits = c.circuit.numBits
  instructions : List.Forall₂ Instruction.Similar c.circuit.instructions.toList
    c'.circuit.instructions.toList
  register : ∀ n, (∀ m ∈ p.nodes, f m = f n → m = n) → c'.register.get? (f n) = c.register.get? n
  wires : ∀ n, p.Uses n → c'.wires.get? (f n) = c.wires.get? n
  outputs : c'.outputs = c.outputs.map f
  outputQubits : c'.outputQubits = c.outputQubits

theorem Draft.Renames.compiled {ctx : CompileContext} {d d' : Draft}
    (h : d.Renames f ctx.declared {n | ctx.pattern.Uses n} d') :
    (d.compiled ctx).Renames f ctx.pattern (d'.compiled (ctx.rename f)) where
  numQubits := h.numQubits
  numBits := h.numBits
  instructions := h.instructions
  register := h.register
  wires := h.wires
  outputs := rfl
  outputQubits := h.map_wireAt fun _ hn => .inr (.inl hn)

/-- **Names do not matter**: if a renaming keeps the declared nodes of a pattern apart, the renamed
pattern is compiled where the pattern is, to the same circuit up to the order of the bits of
conditions. It is compiled nowhere else, unless the renaming takes a node that is used, but not
declared, for a declared one. -/
theorem Pattern.compile_rename (p : Pattern) (inputs : SortedMap Node InputState)
    (options : CompileOptions) (f : Node → Node)
    (hf : ∀ m ∈ p.nodes, ∀ n ∈ p.nodes, f m = f n → m = n) :
    (∀ c, p.compile inputs options = .ok c →
      ∃ c', (p.rename f).compile (inputs.mapKeys f) options = .ok c' ∧ c.Renames f p c') ∧
    (p.KeepsApart f (p.names ++ inputs.keys) →
      ∀ c', (p.rename f).compile (inputs.mapKeys f) options = .ok c' →
        ∃ c, p.compile inputs options = .ok c ∧ c.Renames f p c') := by
  set ctx : CompileContext := ⟨p, inputs, options⟩
  constructor
  · intro c hc
    obtain ⟨haccepted, rfl⟩ := compile_eq_ok_iff.mp hc
    exact ⟨_, compile_eq_ok_iff.mpr ⟨haccepted.rename hf, rfl⟩,
      (haccepted.renames_draft hf).compiled⟩
  · intro hnew c' hc'
    obtain ⟨haccepted', rfl⟩ := compile_eq_ok_iff.mp hc'
    have haccepted : ctx.Accepted := CompileContext.Accepted.of_rename haccepted' hf hnew
    exact ⟨_, compile_eq_ok_iff.mpr ⟨haccepted, rfl⟩, (haccepted.renames_draft hf).compiled⟩

/-- Names that come in the opposite order, with and without reuse of wires. -/
theorem Pattern.compile_rename_relay :
    (∀ m ∈ relay.nodes, ∀ n ∈ relay.nodes, 100 - m = 100 - n → m = n) ∧
    relay.KeepsApart (100 - ·) (relay.names ++ (∅ : SortedMap Node InputState).keys) ∧
    ∀ options,
      (∃ c c', relay.compile ∅ options = .ok c ∧
        (relay.rename (100 - ·)).compile ∅ options = .ok c' ∧ c.Renames (100 - ·) relay c') ∧
      ∀ c', (relay.rename (100 - ·)).compile ∅ options = .ok c' →
        ∃ c, relay.compile ∅ options = .ok c ∧ c.Renames (100 - ·) relay c' := by
  have hinjective : ∀ m n : Node, 100 - m = 100 - n → m = n :=
    fun m n h => (UInt32.sub_right_inj 100).mp h
  have hf : ∀ m ∈ relay.nodes, ∀ n ∈ relay.nodes, 100 - m = 100 - n → m = n :=
    fun m _ n _ => hinjective m n
  have hnew : relay.KeepsApart (100 - ·)
      (relay.names ++ (∅ : SortedMap Node InputState).keys) := by
    intro n _ hn
    obtain ⟨m, hm, hmn⟩ := SortedSet.mem_map.mp hn
    exact hinjective m n hmn ▸ hm
  refine ⟨hf, hnew, fun options => ?_⟩
  have hrename := compile_rename relay ∅ options (100 - ·) hf
  obtain ⟨c, hc⟩ := exists_compile_relay options
  obtain ⟨c', hc', hsame⟩ := hrename.1 c hc
  exact ⟨⟨c, c', hc, hc', hsame⟩, hrename.2 hnew⟩

/-- A renaming can keep the declared nodes apart and take another node for one of them. Then a
pattern is compiled that was refused, for an input node or for a state of a node that it does not
declare, and a node that was never measured has the classical bit of one that was. -/
theorem Pattern.compile_rename_collision :
    let f : Node → Node := fun _ => 0
    let undeclared := ofParts [0] [] [1] [] [] []
    let bare := ofParts [0] [] [0] [] [] []
    let states : SortedMap Node InputState := .ofList [(1, .zero)]
    let measured := ofParts [0] [] [] [] [.measure 0 .xy 0.0 ∅ ∅] []
    (∀ p ∈ [undeclared, bare, measured], ∀ m ∈ p.nodes, ∀ n ∈ p.nodes, f m = f n → m = n) ∧
    (undeclared.compile.isOk = false ∧ (undeclared.rename f).compile.isOk = true) ∧
    ((bare.compile states).isOk = false ∧
      ((bare.rename f).compile (states.mapKeys f)).isOk = true) ∧
    measured.compile.toOption.map (·.register.get? 1) = some none ∧
    (measured.rename f).compile.toOption.map (·.register.get? (f 1)) = some (some 0) := by
  refine ⟨?_, by decide +kernel, by decide +kernel, by decide +kernel⟩
  intro p hp m hm n hn _
  -- each of the patterns declares the node 0 alone
  have hnodes : p.nodes = .ofList [0] := by
    simp only [List.mem_cons, List.not_mem_nil, or_false] at hp
    rcases hp with rfl | rfl | rfl <;> rfl
  rw [hnodes, SortedSet.mem_ofList, List.mem_singleton] at hm hn
  rw [hm, hn]

end OneWay
