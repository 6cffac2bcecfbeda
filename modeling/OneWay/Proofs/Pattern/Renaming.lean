import OneWay.Proofs.Pattern.Validity

/-!
# Renaming nodes

`Pattern.rename f` replaces every node `n` of a pattern by `f n`, in its sets and tables as well as
in its lists. Renaming keeps a pattern well formed if it keeps the declared nodes apart
(`Pattern.WellFormed.rename`). The converse needs more, since a node that was not declared could be
taken for one that was: `Pattern.KeepsApart` rules that out (`Pattern.WellFormed.of_rename`).
-/

namespace OneWay

variable {f : Node → Node}

/-! ### Edges and commands -/

/-- The edge between the renamed nodes. -/
def Edge.rename (f : Node → Node) (e : Edge) : Edge := .between (f e.lo) (f e.hi)

/-- The ends of an edge, in whichever order they are given. -/
theorem Edge.between_cases (a b : Node) :
    ((between a b).lo = a ∧ (between a b).hi = b) ∨
      (between a b).lo = b ∧ (between a b).hi = a := by
  unfold between
  split
  · exact .inl ⟨rfl, rfl⟩
  · exact .inr ⟨rfl, rfl⟩

/-- What holds of both ends does not depend on their order. -/
theorem Edge.rename_iff (e : Edge) {P : Node → Node → Prop} (hP : ∀ {a b}, P a b → P b a) :
    P (e.rename f).lo (e.rename f).hi ↔ P (f e.lo) (f e.hi) := by
  unfold rename
  rcases between_cases (f e.lo) (f e.hi) with ⟨hlo, hhi⟩ | ⟨hlo, hhi⟩
  · rw [hlo, hhi]
  · rw [hlo, hhi]
    exact ⟨hP, hP⟩

namespace Command

/-- The command on renamed nodes. -/
def rename (f : Node → Node) : Command → Command
  | .prepare n => .prepare (f n)
  | .entangle a b => .entangle (f a) (f b)
  | .measure n plane angle s t => .measure (f n) plane angle (s.map f) (t.map f)
  | .correctX n d => .correctX (f n) (d.map f)
  | .correctZ n d => .correctZ (f n) (d.map f)
  | .clifford n c => .clifford (f n) c

theorem targets_rename (c : Command) : (c.rename f).targets = c.targets.map f := by
  cases c <;> rfl

theorem mem_dependencies_rename {c : Command} {n : Node} :
    n ∈ (c.rename f).dependencies ↔ ∃ m ∈ c.dependencies, f m = n := by
  have hmap : ∀ d : Domain, n ∈ (d.map f).toList ↔ ∃ m ∈ d.toList, f m = n :=
    fun d => SortedSet.mem_map
  cases c with
  | measure x plane angle s t =>
    simp only [rename, dependencies, List.mem_append, hmap, or_and_right, exists_or]
  | correctX x d => exact hmap d
  | correctZ x d => exact hmap d
  | _ => simp [rename, dependencies]

/-- The nodes that a command acts or depends on. -/
theorem mem_rename {c : Command} {n : Node} :
    n ∈ (c.rename f).targets ++ (c.rename f).dependencies ↔
      ∃ m ∈ c.targets ++ c.dependencies, f m = n := by
  simp only [List.mem_append, mem_dependencies_rename, targets_rename, List.mem_map, or_and_right,
    exists_or]

theorem measures_rename {c : Command} {n : Node} :
    (c.rename f).Measures n ↔ ∃ m, c.Measures m ∧ f m = n := by
  constructor
  · rintro ⟨plane, angle, s, t, hc⟩
    cases c with
    | measure m _ _ s t =>
      cases hc
      exact ⟨m, ⟨_, _, s, t, rfl⟩, rfl⟩
    | _ => cases hc
  · rintro ⟨m, ⟨plane, angle, s, t, rfl⟩, rfl⟩
    exact ⟨plane, angle, s.map f, t.map f, rfl⟩

theorem Measures.mem_targets {c : Command} {n : Node} (h : c.Measures n) : n ∈ c.targets := by
  obtain ⟨plane, angle, s, t, rfl⟩ := h
  exact List.mem_cons_self

theorem rename_eq_prepare {c : Command} {n : Node} :
    c.rename f = .prepare n ↔ ∃ m, c = .prepare m ∧ f m = n := by
  cases c <;> simp [rename]

end Command

namespace Pattern

/-- The pattern on renamed nodes. -/
def rename (f : Node → Node) (p : Pattern) : Pattern where
  nodes := p.nodes.map f
  edges := p.edges.map (Edge.rename f)
  inputs := p.inputs.map f
  outputs := p.outputs.map f
  commands := p.commands.map (Command.rename f)
  results := p.results.mapKeys f

/-- The nodes that a pattern uses, declared or not. -/
def names (p : Pattern) : List Node :=
  p.edges.toList.flatMap (fun e => [e.lo, e.hi]) ++ p.inputs ++ p.outputs ++ p.results.keys
    ++ p.commands.flatMap fun c => c.targets ++ c.dependencies

/-- No node of a list is taken for a declared one unless it is declared itself. -/
def KeepsApart (p : Pattern) (f : Node → Node) (l : List Node) : Prop :=
  ∀ n ∈ l, f n ∈ p.nodes.map f → n ∈ p.nodes

variable {p : Pattern}

theorem mem_names {n : Node} :
    n ∈ p.names ↔ (∃ e ∈ p.edges, n = e.lo ∨ n = e.hi) ∨ n ∈ p.inputs ∨ n ∈ p.outputs ∨
      n ∈ p.results.keys ∨ ∃ c ∈ p.commands, n ∈ c.targets ++ c.dependencies := by
  simp [names, SortedSet.mem_def]

/-! ### Well-formed patterns -/

/-- All nodes that a well-formed pattern uses are declared. -/
theorem WellFormed.declared (h : p.WellFormed) {n : Node} (hn : n ∈ p.names) : n ∈ p.nodes := by
  rcases mem_names.mp hn with ⟨e, he, rfl | rfl⟩ | hin | hout | hres | ⟨c, hc, hn⟩
  · exact (h.edges_declared e he).1
  · exact (h.edges_declared e he).2
  · exact h.inputs_declared n hin
  · exact h.outputs_declared n hout
  · exact h.results_declared n hres
  · exact (h.commands_allowed c hc).declared n hn

/-- Renaming a list of declared nodes repeats none of them. -/
theorem nodup_map_iff (hf : p.nodes.InjOn f) {l : List Node} (hl : ∀ n ∈ l, n ∈ p.nodes) :
    (l.map f).Nodup ↔ l.Nodup :=
  ⟨.of_map f, fun h => h.map_on fun a ha b hb => hf a (hl a ha) b (hl b hb)⟩

theorem mem_map_list_iff (hf : p.nodes.InjOn f) {l : List Node} (hl : ∀ n ∈ l, n ∈ p.nodes)
    {n : Node} (hn : n ∈ p.nodes) : f n ∈ l.map f ↔ n ∈ l := by
  rw [List.mem_map]
  constructor
  · rintro ⟨m, hm, hmn⟩
    rwa [← hf m (hl m hm) n hn hmn]
  · exact fun h => ⟨n, h, rfl⟩

/-- A command of declared nodes is allowed where its renamed form is. -/
theorem allows_rename_iff (hf : p.nodes.InjOn f) (hout : ∀ n ∈ p.outputs, n ∈ p.nodes) {c : Command}
    (hc : ∀ n ∈ c.targets ++ c.dependencies, n ∈ p.nodes) :
    (p.rename f).Allows (c.rename f) ↔ p.Allows c := by
  have hdeclared : ∀ n ∈ (c.rename f).targets ++ (c.rename f).dependencies,
      n ∈ (p.rename f).nodes := by
    intro n hn
    obtain ⟨m, hm, rfl⟩ := Command.mem_rename.mp hn
    exact SortedSet.mem_map.mpr ⟨m, hc m hm, rfl⟩
  have htarget : ∀ n ∈ c.targets, n ∈ p.nodes := fun n hn => hc n (List.mem_append_left _ hn)
  constructor
  · intro h
    refine ⟨hc, ?_, ?_, ?_⟩
    · rintro a b rfl rfl
      exact h.distinct (f a) (f a) rfl rfl
    · rintro n plane angle s t rfl
      exact h.finite (f n) plane angle (s.map f) (t.map f) rfl
    · intro n hn hmem
      exact h.not_output (f n) (Command.measures_rename.mpr ⟨n, hn, rfl⟩) (List.mem_map_of_mem hmem)
  · intro h
    refine ⟨hdeclared, ?_, ?_, ?_⟩
    · intro a b hab heq
      cases c with
      | entangle a' b' =>
        cases hab
        exact h.distinct a' b' rfl (hf a' (htarget a' (by simp [Command.targets])) b'
          (htarget b' (by simp [Command.targets])) heq)
      | _ => cases hab
    · intro n plane angle s t hm
      cases c with
      | measure n' _ _ s' t' =>
        cases hm
        exact h.finite n' plane angle s' t' rfl
      | _ => cases hm
    · intro n hn hmem
      obtain ⟨m, hm, rfl⟩ := Command.measures_rename.mp hn
      exact h.not_output m hm ((mem_map_list_iff hf hout (htarget m hm.mem_targets)).mp hmem)

/-- Renaming keeps a pattern well formed if it keeps the declared nodes apart. -/
theorem WellFormed.rename (h : p.WellFormed) (hf : p.nodes.InjOn f) : (p.rename f).WellFormed := by
  have hdeclared : ∀ n ∈ p.nodes, f n ∈ (p.rename f).nodes :=
    fun n hn => SortedSet.mem_map.mpr ⟨n, hn, rfl⟩
  have hlist : ∀ {l : List Node}, (∀ n ∈ l, n ∈ p.nodes) →
      ∀ n ∈ l.map f, n ∈ (p.rename f).nodes := by
    intro l hl n hn
    obtain ⟨m, hm, rfl⟩ := List.mem_map.mp hn
    exact hdeclared m (hl m hm)
  refine ⟨?_, ?_, hlist h.inputs_declared, (nodup_map_iff hf h.inputs_declared).mpr h.inputs_nodup,
    hlist h.outputs_declared, (nodup_map_iff hf h.outputs_declared).mpr h.outputs_nodup, ?_, ?_⟩
  · intro e' he'
    obtain ⟨e, he, rfl⟩ := SortedSet.mem_map.mp he'
    refine (e.rename_iff (P := fun a b => a ∈ (p.rename f).nodes ∧ b ∈ (p.rename f).nodes)
      And.symm).mpr ?_
    exact ⟨hdeclared _ (h.edges_declared e he).1, hdeclared _ (h.edges_declared e he).2⟩
  · intro e' he'
    obtain ⟨e, he, rfl⟩ := SortedSet.mem_map.mp he'
    refine (e.rename_iff (P := fun a b => a ≠ b) Ne.symm).mpr fun heq => ?_
    obtain ⟨hlo, hhi⟩ := h.edges_declared e he
    exact h.edges_distinct e he (hf _ hlo _ hhi heq)
  · intro n hn
    obtain ⟨m, hm, rfl⟩ := SortedMap.mem_keys_mapKeys.mp hn
    exact hdeclared m (h.results_declared m hm)
  · intro c' hc'
    obtain ⟨c, hc, rfl⟩ := List.mem_map.mp hc'
    have hallowed := h.commands_allowed c hc
    exact (allows_rename_iff hf h.outputs_declared hallowed.declared).mpr hallowed

/-- The nodes of a renamed pattern are the renamed nodes. -/
theorem mem_names_rename {n : Node} (hn : n ∈ p.names) : f n ∈ (p.rename f).names := by
  rw [mem_names] at hn ⊢
  rcases hn with ⟨e, he, hn⟩ | hin | hout | hres | ⟨c, hc, hn⟩
  · refine .inl ⟨e.rename f, SortedSet.mem_map.mpr ⟨e, he, rfl⟩, ?_⟩
    refine (e.rename_iff (P := fun a b => f n = a ∨ f n = b) Or.symm).mpr ?_
    exact hn.imp (congrArg f) (congrArg f)
  · exact .inr (.inl (List.mem_map_of_mem hin))
  · exact .inr (.inr (.inl (List.mem_map_of_mem hout)))
  · exact .inr (.inr (.inr (.inl (SortedMap.mem_keys_mapKeys.mpr ⟨n, hres, rfl⟩))))
  · refine .inr (.inr (.inr (.inr ⟨c.rename f, List.mem_map_of_mem hc, ?_⟩)))
    exact Command.mem_rename.mpr ⟨n, hn, rfl⟩

/-- A pattern is well formed if its renamed form is and no node is taken for a declared one. -/
theorem WellFormed.of_rename (h : (p.rename f).WellFormed) (hf : p.nodes.InjOn f)
    (hnew : p.KeepsApart f p.names) : p.WellFormed := by
  -- what is used is declared under its new name, hence under the old one
  have hdeclared : ∀ n ∈ p.names, n ∈ p.nodes :=
    fun n hn => hnew n hn (h.declared (mem_names_rename hn))
  have hedges : ∀ e ∈ p.edges, e.lo ∈ p.nodes ∧ e.hi ∈ p.nodes := fun e he =>
    ⟨hdeclared _ (mem_names.mpr (.inl ⟨e, he, .inl rfl⟩)),
      hdeclared _ (mem_names.mpr (.inl ⟨e, he, .inr rfl⟩))⟩
  have hinputs : ∀ n ∈ p.inputs, n ∈ p.nodes :=
    fun n hn => hdeclared n (mem_names.mpr (.inr (.inl hn)))
  have houtputs : ∀ n ∈ p.outputs, n ∈ p.nodes :=
    fun n hn => hdeclared n (mem_names.mpr (.inr (.inr (.inl hn))))
  have hresults : ∀ n ∈ p.results.keys, n ∈ p.nodes :=
    fun n hn => hdeclared n (mem_names.mpr (.inr (.inr (.inr (.inl hn)))))
  refine ⟨hedges, ?_, hinputs, (nodup_map_iff hf hinputs).mp h.inputs_nodup, houtputs,
    (nodup_map_iff hf houtputs).mp h.outputs_nodup, hresults, ?_⟩
  · intro e he heq
    have hdistinct := h.edges_distinct (e.rename f) (SortedSet.mem_map.mpr ⟨e, he, rfl⟩)
    exact (e.rename_iff (P := fun a b => a ≠ b) Ne.symm).mp hdistinct (congrArg f heq)
  · intro c hc
    have hnodes : ∀ n ∈ c.targets ++ c.dependencies, n ∈ p.nodes := fun n hn =>
      hdeclared n (mem_names.mpr (.inr (.inr (.inr (.inr ⟨c, hc, hn⟩)))))
    exact (allows_rename_iff hf houtputs hnodes).mp
      (h.commands_allowed (c.rename f) (List.mem_map_of_mem hc))

end Pattern

end OneWay
