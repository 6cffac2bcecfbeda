import OneWay.Proofs.Pattern.Validity

/-!
# What validation reports

A fault names a node, a place and a rule. `Pattern.Has` says which faults a pattern really has: the
node stands at that place and breaks that rule there. A well-formed pattern has none
(`Pattern.Has.not_wellFormed`).

`Pattern.fault?` goes through a pattern place by place and stops at the first fault.
`Pattern.validate_diagnosis` says that what it reports is a fault that the pattern has, and that no
command before a reported one breaks a rule.
-/

namespace OneWay.Pattern

variable {p : Pattern} {l : Location} {f : PatternFault}

/-! ### Faults that a pattern has -/

/-- The node is used at the place. -/
def UsesAt (p : Pattern) (n : Node) : Location → Prop
  | .edges => ∃ e ∈ p.edges, n = e.lo ∨ n = e.hi
  | .inputNodes => n ∈ p.inputs
  | .outputNodes => n ∈ p.outputs
  | .results => n ∈ p.results.keys
  | .command i => ∃ c, p.commands[i]? = some c ∧ n ∈ c.targets ++ c.dependencies

/-- The faults of a pattern at a place, each with a node that breaks a rule there. -/
inductive Has (p : Pattern) : Location → PatternFault → Prop where
  | undeclared (n : Node) (l : Location) (huse : p.UsesAt n l) (hnode : n ∉ p.nodes) :
    Has p l (.undeclared n l)
  | loop (e : Edge) (hedge : e ∈ p.edges) (hloop : e.lo = e.hi) :
    Has p .edges (.selfEntangled e.lo .edges)
  | entangled (n : Node) (i : Nat) (hcommand : p.commands[i]? = some (.entangle n n)) :
    Has p (.command i) (.selfEntangled n (.command i))
  | repeatedInput (n : Node) (htwice : 2 ≤ p.inputs.count n) :
    Has p .inputNodes (.duplicate n .inputNodes)
  | repeatedOutput (n : Node) (htwice : 2 ≤ p.outputs.count n) :
    Has p .outputNodes (.duplicate n .outputNodes)
  | angle (n : Node) (plane : Plane) (angle : Float) (s t : Domain) (i : Nat)
    (hcommand : p.commands[i]? = some (.measure n plane angle s t))
    (hangle : angle.isFinite = false) : Has p (.command i) (.nonFiniteAngle n angle (.command i))
  | output (n : Node) (plane : Plane) (angle : Float) (s t : Domain) (i : Nat)
    (hcommand : p.commands[i]? = some (.measure n plane angle s t)) (hout : n ∈ p.outputs) :
    Has p (.command i) (.outputMeasured n (.command i))

/-- A fault names the place at which the pattern has it. -/
theorem Has.location (h : p.Has l f) : f.location? = some l := by
  cases h <;> rfl

/-- A node that is used in a well-formed pattern is declared. -/
theorem WellFormed.declares_of_usesAt (h : p.WellFormed) {n : Node} (huse : p.UsesAt n l) :
    n ∈ p.nodes := by
  cases l with
  | edges =>
    obtain ⟨e, he, rfl | rfl⟩ := huse
    · exact (h.edges_declared e he).1
    · exact (h.edges_declared e he).2
  | inputNodes => exact h.inputs_declared n huse
  | outputNodes => exact h.outputs_declared n huse
  | results => exact h.results_declared n huse
  | command i =>
    obtain ⟨c, hc, hn⟩ := huse
    exact (h.commands_allowed c (List.mem_of_getElem? hc)).declared n hn

/-- A well-formed pattern has no fault. -/
theorem Has.not_wellFormed (hf : p.Has l f) : ¬ p.WellFormed := by
  intro h
  cases hf with
  | undeclared n l huse hnode => exact hnode (h.declares_of_usesAt huse)
  | loop e hedge hloop => exact h.edges_distinct e hedge hloop
  | entangled n i hcommand =>
    exact (h.commands_allowed _ (List.mem_of_getElem? hcommand)).distinct n n rfl rfl
  | repeatedInput n htwice =>
    have := List.nodup_iff_count_le_one.mp h.inputs_nodup n
    omega
  | repeatedOutput n htwice =>
    have := List.nodup_iff_count_le_one.mp h.outputs_nodup n
    omega
  | angle n plane angle s t i hcommand hangle =>
    have hfinite := (h.commands_allowed _ (List.mem_of_getElem? hcommand)).finite n plane angle s t
    rw [hangle] at hfinite
    cases hfinite rfl
  | output n plane angle s t i hcommand hout =>
    have hallowed := h.commands_allowed _ (List.mem_of_getElem? hcommand)
    exact hallowed.not_output n ⟨plane, angle, s, t, rfl⟩ hout

/-! ### Reports place by place -/

theorem undeclared?_eq_some_iff {n : Node} :
    p.undeclared? l n = some f ↔ n ∉ p.nodes ∧ f = .undeclared n l := by
  unfold undeclared?
  rw [← declares_iff]
  cases p.declares n <;> simp [eq_comm]

theorem has_of_edgeFault? {e : Edge} (he : e ∈ p.edges) (h : p.edgeFault? e = some f) :
    p.Has .edges f := by
  unfold edgeFault? at h
  rcases Option.or_eq_some_iff.mp h with h | ⟨-, h⟩
  · obtain ⟨hnode, rfl⟩ := undeclared?_eq_some_iff.mp h
    exact .undeclared e.lo .edges ⟨e, he, .inl rfl⟩ hnode
  rcases Option.or_eq_some_iff.mp h with h | ⟨-, h⟩
  · obtain ⟨hnode, rfl⟩ := undeclared?_eq_some_iff.mp h
    exact .undeclared e.hi .edges ⟨e, he, .inr rfl⟩ hnode
  · split at h
    · next hloop =>
      obtain rfl := Option.some.inj h
      exact .loop e he hloop
    · cases h

/-- The first fault of a list is a node that is not declared, or one that stands before. -/
theorem listFault?_eq_some {seen nodes : List Node} (h : p.listFault? l seen nodes = some f) :
    ∃ n ∈ nodes, (n ∉ p.nodes ∧ f = .undeclared n l) ∨
      ((n ∈ seen ∨ 2 ≤ nodes.count n) ∧ f = .duplicate n l) := by
  induction nodes generalizing seen with
  | nil => cases h
  | cons n nodes ih =>
    rw [listFault?] at h
    rcases Option.or_eq_some_iff.mp h with h | ⟨-, h⟩
    · exact ⟨n, List.mem_cons_self, .inl (undeclared?_eq_some_iff.mp h)⟩
    split at h
    · next hseen =>
      obtain rfl := Option.some.inj h
      exact ⟨n, List.mem_cons_self, .inr ⟨.inl (by simpa using hseen), rfl⟩⟩
    · -- a node further on that stands before is seen already, or is `n` itself
      obtain ⟨m, hm, hnode | ⟨hbefore, hf⟩⟩ := ih h
      · exact ⟨m, List.mem_cons_of_mem n hm, .inl hnode⟩
      · refine ⟨m, List.mem_cons_of_mem n hm, .inr ⟨?_, hf⟩⟩
        rcases hbefore with hseen | htwice
        · rcases List.mem_cons.mp hseen with rfl | hseen
          · have := List.count_pos_iff.mpr hm
            refine .inr ?_
            rw [List.count_cons_self]
            omega
          · exact .inl hseen
        · exact .inr (Nat.le_trans htwice List.count_le_count_cons)

theorem has_of_actionFault? {i : Nat} {c : Command} (hc : p.commands[i]? = some c)
    (h : p.actionFault? (.command i) c = some f) : p.Has (.command i) f := by
  cases c with
  | entangle a b =>
    rw [actionFault?] at h
    split at h
    · next heq =>
      subst heq
      obtain rfl := Option.some.inj h
      exact .entangled a i hc
    · cases h
  | measure n plane angle s t =>
    -- a measurement may break two rules, and the angle is looked at first
    rw [actionFault?] at h
    split at h
    · next hangle =>
      obtain rfl := Option.some.inj h
      exact .angle n plane angle s t i hc (by simpa using hangle)
    split at h
    · next hout =>
      obtain rfl := Option.some.inj h
      exact .output n plane angle s t i hc (by simpa [isOutput] using hout)
    · cases h
  | _ => cases h

theorem has_of_commandFault? {i : Nat} {c : Command} (hc : p.commands[i]? = some c)
    (h : p.commandFault? (.command i) c = some f) : p.Has (.command i) f := by
  rcases Option.or_eq_some_iff.mp h with h | ⟨-, h⟩
  · obtain ⟨n, hn, hundeclared⟩ := List.exists_of_findSome?_eq_some h
    obtain ⟨hnode, rfl⟩ := undeclared?_eq_some_iff.mp hundeclared
    exact .undeclared n (.command i) ⟨c, hc, hn⟩ hnode
  · exact has_of_actionFault? hc h

/-- The first fault of some commands is that of one of them, and those before it are allowed. -/
theorem commandsFault?_eq_some {commands : List Command} {start : Nat}
    (h : ((commands.zipIdx start).findSome? fun (c, i) => p.commandFault? (.command i) c)
      = some f) :
    ∃ j c, commands[j]? = some c ∧ p.commandFault? (.command (start + j)) c = some f ∧
      ∀ c' ∈ commands.take j, p.Allows c' := by
  induction commands generalizing start with
  | nil => cases h
  | cons c commands ih =>
    rw [List.zipIdx_cons, List.findSome?_cons] at h
    cases hc : p.commandFault? (.command start) c with
    | some g =>
      simp only [hc, Option.some.injEq] at h
      subst h
      exact ⟨0, c, rfl, hc, fun c' hc' => absurd hc' List.not_mem_nil⟩
    | none =>
      simp only [hc] at h
      obtain ⟨j, c', hget, hfault, hbefore⟩ := ih h
      refine ⟨j + 1, c', hget, ?_, ?_⟩
      · rw [← hfault]
        congr 2
        omega
      · rw [List.take_succ_cons, List.forall_mem_cons]
        exact ⟨(commandFault?_eq_none_iff _).mp hc, hbefore⟩

/-- The first fault of a pattern is one that it has, and if it is the fault of a command then all
commands before that one are allowed. -/
theorem has_of_fault? (h : p.fault? = some f) :
    ∃ l, p.Has l f ∧ ∀ i, l = .command i → ∀ c ∈ p.commands.take i, p.Allows c := by
  -- a fault that is not that of a command asks nothing of the commands
  rcases Option.or_eq_some_iff.mp h with h | ⟨-, h⟩
  · obtain ⟨e, he, hfault⟩ := List.exists_of_findSome?_eq_some h
    exact ⟨.edges, has_of_edgeFault? he hfault, by simp⟩
  rcases Option.or_eq_some_iff.mp h with h | ⟨-, h⟩
  · obtain ⟨n, hn, ⟨hnode, rfl⟩ | ⟨hseen | htwice, rfl⟩⟩ := listFault?_eq_some h
    · exact ⟨.inputNodes, .undeclared n _ hn hnode, by simp⟩
    · exact absurd hseen List.not_mem_nil
    · exact ⟨.inputNodes, .repeatedInput n htwice, by simp⟩
  rcases Option.or_eq_some_iff.mp h with h | ⟨-, h⟩
  · obtain ⟨n, hn, ⟨hnode, rfl⟩ | ⟨hseen | htwice, rfl⟩⟩ := listFault?_eq_some h
    · exact ⟨.outputNodes, .undeclared n _ hn hnode, by simp⟩
    · exact absurd hseen List.not_mem_nil
    · exact ⟨.outputNodes, .repeatedOutput n htwice, by simp⟩
  rcases Option.or_eq_some_iff.mp h with h | ⟨-, h⟩
  · obtain ⟨n, hn, hundeclared⟩ := List.exists_of_findSome?_eq_some h
    obtain ⟨hnode, rfl⟩ := undeclared?_eq_some_iff.mp hundeclared
    exact ⟨.results, .undeclared n _ hn hnode, by simp⟩
  · obtain ⟨j, c, hget, hfault, hbefore⟩ := commandsFault?_eq_some h
    rw [Nat.zero_add] at hfault
    refine ⟨.command j, has_of_commandFault? hget hfault, fun i hi => ?_⟩
    obtain rfl := Location.command.inj hi
    exact hbefore

theorem validate_eq_error_iff : p.validate = .error f ↔ p.fault? = some f := by
  unfold validate
  split
  · next g hg => simp [hg]
  · next hg => simp [hg]

/-- A pattern is well-formed iff it has no fault at any place. -/
theorem wellFormed_iff_forall_not_has : p.WellFormed ↔ ∀ l f, ¬ p.Has l f := by
  constructor
  · intro h l f hf
    exact hf.not_wellFormed h
  · intro h
    rw [← fault?_eq_none_iff]
    cases hfault : p.fault? with
    | none => rfl
    | some f =>
      obtain ⟨l, hhas, -⟩ := has_of_fault? hfault
      exact absurd hhas (h l f)

/-- **Diagnosis**: validation accepts a pattern iff it is well-formed, that is iff it has no fault.
A fault that it reports names the place at which the pattern has it, and no command before a
reported one breaks a rule. -/
theorem validate_diagnosis (p : Pattern) :
    (p.validate = .ok () ↔ p.WellFormed) ∧ (p.WellFormed ↔ ∀ l f, ¬ p.Has l f) ∧
    ∀ f, p.validate = .error f →
      ∃ l, f.location? = some l ∧ p.Has l f ∧
        ∀ i, l = .command i → ∀ c ∈ p.commands.take i, p.Allows c := by
  refine ⟨validate_eq_ok_iff, wellFormed_iff_forall_not_has, fun f hf => ?_⟩
  obtain ⟨l, hhas, hbefore⟩ := has_of_fault? (validate_eq_error_iff.mp hf)
  exact ⟨l, hhas.location, hhas, hbefore⟩

/-- The second command measures an output node, at an angle that is not finite. The angle is
reported, and the first command is allowed. -/
theorem validate_diagnosis_twoFaults :
    let p := Pattern.ofParts [0, 1] [(0, 1)] [0] [1]
      [.entangle 0 1, .measure 1 .xy (1.0 / 0.0) ∅ ∅, .entangle 0 0] []
    p.validate = .error (.nonFiniteAngle 1 (1.0 / 0.0) (.command 1)) ∧ ¬ p.WellFormed ∧
      p.Has (.command 1) (.nonFiniteAngle 1 (1.0 / 0.0) (.command 1)) ∧
      p.Has (.command 1) (.outputMeasured 1 (.command 1)) ∧ p.Allows (.entangle 0 1) := by
  intro p
  have hreport : p.validate = .error (.nonFiniteAngle 1 (1.0 / 0.0) (.command 1)) := by
    decide +kernel
  obtain ⟨hok, -, herror⟩ := validate_diagnosis p
  obtain ⟨l, hl, hhas, hbefore⟩ := herror _ hreport
  obtain rfl : Location.command 1 = l := Option.some.inj hl
  refine ⟨hreport, ?_, hhas, ?_, hbefore 1 rfl _ (by decide)⟩
  · rw [← hok, hreport]
    simp
  · exact .output 1 .xy (1.0 / 0.0) ∅ ∅ 1 rfl (by decide)

end OneWay.Pattern
