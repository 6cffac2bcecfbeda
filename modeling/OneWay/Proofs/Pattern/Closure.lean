import OneWay.Proofs.Pattern.Diagnosis

/-!
# Patterns grown step by step

`Pattern.extend` declares the nodes that an addition acts on and records an edge for each
entanglement. So a pattern that was grown from nothing declares every node that it touches
(`Pattern.covers_ofSteps`): the ends of its edges, its input and output nodes, the nodes of known
outcomes and those that its commands act on.

The nodes of domains are the exception. They are declared only if some addition acts on them, and
`Pattern.build_closure` says that nothing else can be undeclared in a pattern that is built so, and
when building it fails for that reason.
-/

namespace OneWay

namespace Edge

/-- The edge between two nodes has them as its ends, whichever is the smaller one. -/
theorem eq_between_iff {e : Edge} {a b : Node} :
    e = between a b ↔ e.lo = a ∧ e.hi = b ∨ e.lo = b ∧ e.hi = a := by
  obtain ⟨lo, hi, hle⟩ := e
  unfold between
  split
  · next hab =>
    rw [Edge.mk.injEq]
    constructor
    · exact .inl
    · rintro (h | ⟨rfl, rfl⟩)
      · exact h
      · -- each end is at most the other one
        have heq := UInt32.le_antisymm hle hab
        exact ⟨heq, heq.symm⟩
  · next hab =>
    rw [Edge.mk.injEq]
    constructor
    · exact .inr
    · rintro (⟨rfl, rfl⟩ | h)
      · exact absurd hle hab
      · exact h

/-- The ends of the edge between two nodes. -/
theorem end_between_iff {a b n : Node} :
    n = (between a b).lo ∨ n = (between a b).hi ↔ n = a ∨ n = b := by
  rcases eq_between_iff.mp (rfl : between a b = between a b) with ⟨hlo, hhi⟩ | ⟨hlo, hhi⟩
  · rw [hlo, hhi]
  · rw [hlo, hhi, or_comm]

end Edge

namespace Pattern

variable {p : Pattern} {n : Node} {l : Location} {steps : List Step}

/-! ### One addition -/

namespace Step

/-- The nodes that an addition acts on. -/
def targets : Step → List Node
  | .node n | .input n | .output n | .result n _ => [n]
  | .command c => c.targets

/-- The command that an addition appends. -/
def command? : Step → Option Command
  | .command c => some c
  | _ => none

end Step

theorem mem_nodes_extend {s : Step} : n ∈ (p.extend s).nodes ↔ n ∈ p.nodes ∨ n ∈ s.targets := by
  have hnodes : (p.extend s).nodes = s.targets.foldl (fun set m => set.insert m) p.nodes := by
    cases s with
    | command c => cases c <;> rfl
    | _ => rfl
  rw [hnodes, SortedSet.mem_foldl_insert]

theorem mem_edges_extend {s : Step} {e : Edge} :
    e ∈ (p.extend s).edges ↔
      e ∈ p.edges ∨ ∃ a b, s = .command (.entangle a b) ∧ e = Edge.between a b := by
  cases s with
  | command c =>
    cases c with
    | entangle a b =>
      show e ∈ p.edges.insert (Edge.between a b) ↔ _
      rw [SortedSet.mem_insert]
      simp [or_comm]
    | _ => simp [extend, Command.targets, declare]
  | _ => simp [extend, declare]

theorem commands_extend (p : Pattern) (s : Step) :
    (p.extend s).commands = p.commands ++ s.command?.toList := by
  cases s with
  | command c => cases c <;> rfl
  | _ => exact (List.append_nil _).symm

theorem mem_inputs_extend {s : Step} : n ∈ (p.extend s).inputs ↔ n ∈ p.inputs ∨ s = .input n := by
  cases s with
  | input m =>
    show n ∈ p.inputs ++ [m] ↔ _
    simp [eq_comm]
  | command c => cases c <;> simp [extend, Command.targets, declare]
  | _ => simp [extend, declare]

theorem mem_outputs_extend {s : Step} :
    n ∈ (p.extend s).outputs ↔ n ∈ p.outputs ∨ s = .output n := by
  cases s with
  | output m =>
    show n ∈ p.outputs ++ [m] ↔ _
    simp [eq_comm]
  | command c => cases c <;> simp [extend, Command.targets, declare]
  | _ => simp [extend, declare]

theorem mem_results_extend {s : Step} :
    n ∈ (p.extend s).results.keys ↔ n ∈ p.results.keys ∨ ∃ b, s = .result n b := by
  cases s with
  | result m b =>
    show n ∈ (p.results.insert m b).keys ↔ _
    rw [SortedMap.mem_keys_insert]
    simp [or_comm, eq_comm]
  | command c => cases c <;> simp [extend, Command.targets, declare]
  | _ => simp [extend, declare]

/-- The pattern touches a node elsewhere than in the domain of a command. -/
inductive Touches (p : Pattern) (n : Node) : Prop where
  | edge (e : Edge) (hedge : e ∈ p.edges) (hend : n = e.lo ∨ n = e.hi)
  | input (hinput : n ∈ p.inputs)
  | output (houtput : n ∈ p.outputs)
  | result (hresult : n ∈ p.results.keys)
  | command (c : Command) (hcommand : c ∈ p.commands) (htarget : n ∈ c.targets)

/-- The pattern declares every node that it touches. -/
def Covers (p : Pattern) : Prop := ∀ n, p.Touches n → n ∈ p.nodes

/-- An addition makes a pattern touch the nodes that it acts on, and no others. -/
theorem Touches.of_extend {s : Step} (h : (p.extend s).Touches n) :
    p.Touches n ∨ n ∈ s.targets := by
  cases h with
  | edge e hedge hend =>
    rcases mem_edges_extend.mp hedge with hedge | ⟨a, b, rfl, rfl⟩
    · exact .inl (.edge e hedge hend)
    · refine .inr ?_
      simpa [Step.targets, Command.targets] using Edge.end_between_iff.mp hend
  | input hinput =>
    rcases mem_inputs_extend.mp hinput with hinput | rfl
    · exact .inl (.input hinput)
    · exact .inr List.mem_cons_self
  | output houtput =>
    rcases mem_outputs_extend.mp houtput with houtput | rfl
    · exact .inl (.output houtput)
    · exact .inr List.mem_cons_self
  | result hresult =>
    rcases mem_results_extend.mp hresult with hresult | ⟨b, rfl⟩
    · exact .inl (.result hresult)
    · exact .inr List.mem_cons_self
  | command c hcommand htarget =>
    rw [commands_extend, List.mem_append] at hcommand
    rcases hcommand with hcommand | hnew
    · exact .inl (.command c hcommand htarget)
    · -- only a step with a command appends one
      cases s with
      | command c' =>
        obtain rfl : c = c' := by simpa [Step.command?] using hnew
        exact .inr htarget
      | _ => simp [Step.command?] at hnew

/-- **One addition** keeps what is touched declared. -/
theorem Covers.extend (h : p.Covers) (s : Step) : (p.extend s).Covers := by
  intro n hn
  rw [mem_nodes_extend]
  exact hn.of_extend.imp (h n) id

/-! ### Growing from nothing -/

theorem mem_nodes_foldl_extend :
    n ∈ (steps.foldl Pattern.extend p).nodes ↔ n ∈ p.nodes ∨ ∃ s ∈ steps, n ∈ s.targets := by
  induction steps generalizing p with
  | nil => simp
  | cons s steps ih =>
    rw [List.foldl_cons, ih, mem_nodes_extend, or_assoc]
    simp

theorem mem_nodes_ofSteps : n ∈ (ofSteps steps).nodes ↔ ∃ s ∈ steps, n ∈ s.targets := by
  rw [ofSteps, mem_nodes_foldl_extend]
  exact or_iff_right (SortedSet.not_mem_empty n)

theorem mem_edges_foldl_extend {e : Edge} :
    e ∈ (steps.foldl Pattern.extend p).edges ↔
      e ∈ p.edges ∨ ∃ a b, .command (.entangle a b) ∈ steps ∧ e = Edge.between a b := by
  induction steps generalizing p with
  | nil => simp
  | cons s steps ih =>
    rw [List.foldl_cons, ih, mem_edges_extend, or_assoc]
    simp only [List.mem_cons, or_and_right, exists_or, eq_comm]

theorem mem_edges_ofSteps {e : Edge} :
    e ∈ (ofSteps steps).edges ↔
      ∃ a b, .command (.entangle a b) ∈ steps ∧ e = Edge.between a b := by
  rw [ofSteps, mem_edges_foldl_extend]
  exact or_iff_right (SortedSet.not_mem_empty e)

theorem commands_foldl_extend (p : Pattern) (steps : List Step) :
    (steps.foldl Pattern.extend p).commands = p.commands ++ steps.filterMap Step.command? := by
  induction steps generalizing p with
  | nil => simp
  | cons s steps ih =>
    rw [List.foldl_cons, ih, commands_extend, List.append_assoc]
    cases hs : s.command? <;> simp [hs]

theorem commands_ofSteps (steps : List Step) :
    (ofSteps steps).commands = steps.filterMap Step.command? :=
  commands_foldl_extend empty steps

/-- **A run** of additions keeps what is touched declared. -/
theorem Covers.foldl_extend (h : p.Covers) (steps : List Step) :
    (steps.foldl Pattern.extend p).Covers := by
  induction steps generalizing p with
  | nil => exact h
  | cons s steps ih => exact ih (h.extend s)

theorem covers_empty : empty.Covers := by
  intro n hn
  cases hn with
  | edge e hedge _ => exact absurd hedge (SortedSet.not_mem_empty e)
  | input hinput => exact absurd hinput List.not_mem_nil
  | output houtput => exact absurd houtput List.not_mem_nil
  | result hresult => exact absurd hresult List.not_mem_nil
  | command c hcommand _ => exact absurd hcommand List.not_mem_nil

theorem covers_ofSteps (steps : List Step) : (ofSteps steps).Covers :=
  covers_empty.foldl_extend steps

/-! ### Undeclared nodes -/

/-- A node is used where it is touched, or in the domain of a command. -/
theorem UsesAt.touches_or_dependency (h : p.UsesAt n l) :
    p.Touches n ∨ ∃ i c, l = .command i ∧ p.commands[i]? = some c ∧ n ∈ c.dependencies := by
  cases l with
  | edges =>
    obtain ⟨e, hedge, hend⟩ := h
    exact .inl (.edge e hedge hend)
  | inputNodes => exact .inl (.input h)
  | outputNodes => exact .inl (.output h)
  | results => exact .inl (.result h)
  | command i =>
    obtain ⟨c, hc, hn⟩ := h
    rcases List.mem_append.mp hn with htarget | hdep
    · exact .inl (.command c (List.mem_of_getElem? hc) htarget)
    · exact .inr ⟨i, c, rfl, hc, hdep⟩

/-- In a pattern that declares what it touches, an undeclared node stands in a domain. -/
theorem Covers.dependency_of_has (h : p.Covers) {l' : Location}
    (hfault : p.Has l' (.undeclared n l)) :
    ∃ i c, l = .command i ∧ p.commands[i]? = some c ∧ n ∈ c.dependencies ∧ n ∉ p.nodes := by
  cases hfault with
  | undeclared _ _ huse hnode =>
    rcases huse.touches_or_dependency with htouch | ⟨i, c, hl, hc, hdep⟩
    · exact absurd (h n htouch) hnode
    · exact ⟨i, c, hl, hc, hdep, hnode⟩

theorem commandFault?_of_undeclared {c : Command} (l : Location) (hn : n ∈ c.dependencies)
    (hnode : n ∉ p.nodes) : ∃ m, p.commandFault? l c = some (.undeclared m l) := by
  have hsome : ((c.targets ++ c.dependencies).findSome? (p.undeclared? l)).isSome = true := by
    rw [List.findSome?_isSome_iff]
    refine ⟨n, List.mem_append_right _ hn, ?_⟩
    rw [undeclared?_eq_some_iff.mpr ⟨hnode, rfl⟩]
    rfl
  obtain ⟨f, hf⟩ := Option.isSome_iff_exists.mp hsome
  obtain ⟨m, -, hm⟩ := List.exists_of_findSome?_eq_some hf
  obtain ⟨-, rfl⟩ := undeclared?_eq_some_iff.mp hm
  refine ⟨m, ?_⟩
  rw [commandFault?, hf, Option.some_or]

/-- The fault of a command is the first one if those before it are allowed. -/
theorem commandsFault?_of_allows {commands : List Command} {start j : Nat} {c : Command}
    {f : PatternFault} (hget : commands[j]? = some c)
    (hbefore : ∀ c' ∈ commands.take j, p.Allows c')
    (hf : p.commandFault? (.command (start + j)) c = some f) :
    ((commands.zipIdx start).findSome? fun (c, i) => p.commandFault? (.command i) c)
      = some f := by
  induction commands generalizing start j with
  | nil => simp at hget
  | cons c' commands ih =>
    rw [List.zipIdx_cons, List.findSome?_cons]
    cases j with
    | zero =>
      obtain rfl : c' = c := by simpa using hget
      rw [Nat.add_zero] at hf
      simp only [hf]
    | succ j =>
      rw [List.take_succ_cons, List.forall_mem_cons] at hbefore
      simp only [(commandFault?_eq_none_iff (.command start)).mpr hbefore.1]
      refine ih (by simpa using hget) hbefore.2 ?_
      rw [Nat.add_right_comm]
      exact hf

/-- A fault of a command is reported iff the places that are looked at before have none. -/
theorem fault?_eq_some_command_iff {f : PatternFault} {i : Nat}
    (hf : f.location? = some (.command i)) :
    p.fault? = some f ↔
      p.edges.toList.findSome? p.edgeFault? = none ∧
      p.listFault? .inputNodes [] p.inputs = none ∧
      p.listFault? .outputNodes [] p.outputs = none ∧
      p.results.keys.findSome? (p.undeclared? .results) = none ∧
      (p.commands.zipIdx.findSome? fun (c, i) => p.commandFault? (.command i) c) = some f := by
  -- a fault found at another place names that place
  have hplace : ∀ l, f.location? = some l → l = .command i := by
    intro l hl
    exact Option.some.inj (hl.symm.trans hf)
  have hlist : ∀ {l : Location} {nodes : List Node}, p.listFault? l [] nodes = some f →
      l = .command i := by
    intro l nodes hfault
    obtain ⟨n, -, ⟨-, rfl⟩ | ⟨-, rfl⟩⟩ := listFault?_eq_some hfault
    · exact hplace l rfl
    · exact hplace l rfl
  unfold fault?
  constructor
  · intro hfault
    rcases Option.or_eq_some_iff.mp hfault with hedge | ⟨hedges, hfault⟩
    · obtain ⟨e, he, hedge⟩ := List.exists_of_findSome?_eq_some hedge
      cases hplace _ (has_of_edgeFault? he hedge).location
    rcases Option.or_eq_some_iff.mp hfault with hinput | ⟨hinputs, hfault⟩
    · cases hlist hinput
    rcases Option.or_eq_some_iff.mp hfault with houtput | ⟨houtputs, hfault⟩
    · cases hlist houtput
    rcases Option.or_eq_some_iff.mp hfault with hresult | ⟨hresults, hcommands⟩
    · obtain ⟨n, -, hresult⟩ := List.exists_of_findSome?_eq_some hresult
      obtain ⟨-, rfl⟩ := undeclared?_eq_some_iff.mp hresult
      cases hplace .results rfl
    exact ⟨hedges, hinputs, houtputs, hresults, hcommands⟩
  · rintro ⟨hedges, hinputs, houtputs, hresults, hcommands⟩
    rw [hedges, hinputs, houtputs, hresults, hcommands]
    rfl

/-- Where everything that is touched is declared, validation reports an undeclared node iff some
domain holds one and nothing that is looked at before has another fault. -/
theorem Covers.exists_undeclared_iff (h : p.Covers) :
    (∃ n l, p.validate = .error (.undeclared n l)) ↔
      (∀ e ∈ p.edges, e.lo ≠ e.hi) ∧ p.inputs.Nodup ∧ p.outputs.Nodup ∧
      ∃ i c, p.commands[i]? = some c ∧ (∀ c' ∈ p.commands.take i, p.Allows c') ∧
        ∃ n ∈ c.dependencies, n ∉ p.nodes := by
  have hedges : p.edges.toList.findSome? p.edgeFault? = none ↔ ∀ e ∈ p.edges, e.lo ≠ e.hi := by
    simp only [List.findSome?_eq_none_iff, edgeFault?_eq_none_iff]
    exact forall₂_congr fun e he =>
      and_iff_right ⟨h _ (.edge e he (.inl rfl)), h _ (.edge e he (.inr rfl))⟩
  have hlist : ∀ {l : Location} {nodes : List Node}, (∀ n ∈ nodes, n ∈ p.nodes) →
      (p.listFault? l [] nodes = none ↔ nodes.Nodup) := by
    intro l nodes hnodes
    rw [listFault?_eq_none_iff, and_iff_right hnodes]
    exact and_iff_left fun _ _ => List.not_mem_nil
  have hinputs := hlist (l := .inputNodes) fun n hn => h n (.input hn)
  have houtputs := hlist (l := .outputNodes) fun n hn => h n (.output hn)
  constructor
  · rintro ⟨n, l, hfault⟩
    rw [validate_eq_error_iff] at hfault
    obtain ⟨l', hhas, hbefore⟩ := has_of_fault? hfault
    obtain ⟨i, c, rfl, hget, hdep, hnode⟩ := h.dependency_of_has hhas
    obtain rfl : .command i = l' := Option.some.inj hhas.location
    obtain ⟨hedge, hinput, houtput, -⟩ := (fault?_eq_some_command_iff rfl).mp hfault
    exact ⟨hedges.mp hedge, hinputs.mp hinput, houtputs.mp houtput, i, c, hget, hbefore i rfl, n,
      hdep, hnode⟩
  · rintro ⟨hedge, hinput, houtput, i, c, hget, hbefore, n, hn, hnode⟩
    obtain ⟨m, hm⟩ := commandFault?_of_undeclared (.command i) hn hnode
    refine ⟨m, .command i, validate_eq_error_iff.mpr ((fault?_eq_some_command_iff rfl).mpr
      ⟨hedges.mpr hedge, hinputs.mpr hinput, houtputs.mpr houtput, ?_, ?_⟩)⟩
    · simp only [List.findSome?_eq_none_iff, undeclared?_eq_none_iff]
      exact fun n hn => h n (.result hn)
    · refine commandsFault?_of_allows hget hbefore ?_
      rw [Nat.zero_add]
      exact hm

theorem build_eq_error_iff {f : PatternFault} :
    build steps = .error f ↔ (ofSteps steps).validate = .error f := by
  cases hvalidate : (ofSteps steps).validate <;>
    simp [build, hvalidate, bind, Except.bind, pure, Except.pure]

theorem edges_distinct_ofSteps_iff :
    (∀ e ∈ (ofSteps steps).edges, e.lo ≠ e.hi) ↔
      ∀ n, .command (.entangle n n) ∉ steps := by
  constructor
  · intro h n hn
    have hedge : Edge.between n n ∈ (ofSteps steps).edges :=
      mem_edges_ofSteps.mpr ⟨n, n, hn, rfl⟩
    apply h _ hedge
    rcases Edge.eq_between_iff.mp (rfl : Edge.between n n = _) with ⟨hlo, hhi⟩ | ⟨hlo, hhi⟩
    · rw [hlo, hhi]
    · rw [hlo, hhi]
  · intro h e he heq
    obtain ⟨a, b, hstep, hbetween⟩ := mem_edges_ofSteps.mp he
    have hab : a = b := by
      rcases Edge.eq_between_iff.mp hbetween with ⟨hlo, hhi⟩ | ⟨hlo, hhi⟩
      · rw [← hlo, ← hhi, heq]
      · rw [← hlo, ← hhi, heq]
    subst hab
    exact h a hstep

/-- **Closure**: a pattern that is grown from nothing declares the nodes that its steps act on, and
no others; its edges are those between entangled nodes, and its commands those of the steps. If it
is refused because of an undeclared node, then that node stands in the domain of the command that
is named, and no step acts on it. It is refused so iff there is such a command, no node is entangled
with itself, neither the input nor the output nodes repeat a node, and all commands before are
allowed. -/
theorem build_closure (steps : List Step) :
    let p := ofSteps steps
    (∀ n, n ∈ p.nodes ↔ ∃ s ∈ steps, n ∈ s.targets) ∧
    (∀ e, e ∈ p.edges ↔ ∃ a b, .command (.entangle a b) ∈ steps ∧
      (e.lo = a ∧ e.hi = b ∨ e.lo = b ∧ e.hi = a)) ∧
    p.commands = steps.filterMap Step.command? ∧
    (∀ n l, build steps = .error (.undeclared n l) →
      ∃ i c, l = .command i ∧ p.commands[i]? = some c ∧ n ∈ c.dependencies ∧
        ∀ s ∈ steps, n ∉ s.targets) ∧
    ((∃ n l, build steps = .error (.undeclared n l)) ↔
      (∀ n, .command (.entangle n n) ∉ steps) ∧ p.inputs.Nodup ∧ p.outputs.Nodup ∧
      ∃ i c, p.commands[i]? = some c ∧ (∀ c' ∈ p.commands.take i, p.Allows c') ∧
        ∃ n ∈ c.dependencies, ∀ s ∈ steps, n ∉ s.targets) := by
  intro p
  have hcovers : p.Covers := covers_ofSteps steps
  have hnode : ∀ n, n ∉ p.nodes ↔ ∀ s ∈ steps, n ∉ s.targets := by
    intro n
    rw [mem_nodes_ofSteps]
    simp
  refine ⟨fun n => mem_nodes_ofSteps, fun e => ?_, commands_ofSteps steps, ?_, ?_⟩
  · rw [mem_edges_ofSteps]
    simp only [Edge.eq_between_iff]
  · intro n l hfault
    obtain ⟨l', hhas, -⟩ :=
      has_of_fault? (validate_eq_error_iff.mp (build_eq_error_iff.mp hfault))
    obtain ⟨i, c, hl, hget, hdep, hn⟩ := hcovers.dependency_of_has hhas
    exact ⟨i, c, hl, hget, hdep, (hnode n).mp hn⟩
  · simp only [build_eq_error_iff, ← hnode]
    rw [← edges_distinct_ofSteps_iff]
    exact hcovers.exists_undeclared_iff

/-- Both commands depend on a node in their domains. A later step acts on the one that the first
command depends on, but none acts on node 2, so building fails at the second command. -/
theorem build_closure_openDomain :
    let steps : List Step := [.command (.correctX 0 (.ofList [1])),
      .command (.measure 1 .xy 0.5 (.ofList [0, 2]) ∅), .output 0]
    build steps = .error (.undeclared 2 (.command 1)) ∧ 2 ∉ (ofSteps steps).nodes ∧
      (∀ s ∈ steps, 2 ∉ s.targets) ∧ 1 ∈ (ofSteps steps).nodes := by
  intro steps
  have hbuild : build steps = .error (.undeclared 2 (.command 1)) := by decide +kernel
  obtain ⟨hnodes, -, -, hundeclared, -⟩ := build_closure steps
  obtain ⟨i, c, -, -, -, huntouched⟩ := hundeclared 2 _ hbuild
  refine ⟨hbuild, ?_, huntouched, ?_⟩
  · rw [hnodes]
    rintro ⟨s, hs, htarget⟩
    exact huntouched s hs htarget
  · exact (hnodes 1).mpr ⟨.command (.measure 1 .xy 0.5 (.ofList [0, 2]) ∅), by simp [steps],
      List.mem_cons_self⟩

end Pattern

end OneWay
