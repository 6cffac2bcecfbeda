import OneWay.Proofs.Compile.Correspondence

/-!
# Which patterns are compiled

`Pattern.InOrder` states the rules for a command that depend on the commands before it: it acts on
no node that was measured, prepares only a node that is neither an input node nor in use, and
depends only on nodes whose outcome is known. `Pattern.Offends` says which faults name a node that
breaks one of them.

The compiler finds these rules in sets that it builds up on the way. `CompileContext.fault?_cases`
relates its answer to the rules, and `Pattern.compile_acceptance` says which patterns are compiled
and for which fault the others are refused.
-/

namespace OneWay

namespace Pattern

/-! ### Commands in order -/

/-- A command before an index measures the node. -/
def MeasuredBefore (p : Pattern) (i : Nat) (n : Node) : Prop :=
  ∃ c ∈ p.commands.take i, c.Measures n

/-- A command before an index acts on the node. -/
def UsedBefore (p : Pattern) (i : Nat) (n : Node) : Prop :=
  ∃ c ∈ p.commands.take i, n ∈ c.targets

/-- The rules for the command at an index that depend on the commands before it. -/
structure InOrder (p : Pattern) (i : Nat) (c : Command) : Prop where
  unmeasured : ∀ n ∈ c.targets, ¬ p.MeasuredBefore i n
  fresh : ∀ n, c = .prepare n → n ∉ p.inputs ∧ ¬ p.UsedBefore i n
  outcomes : ∀ n ∈ c.dependencies, p.MeasuredBefore i n ∨ n ∈ p.results.keys

/-- Every command is in order. -/
def Ordered (p : Pattern) : Prop := ∀ i c, p.commands[i]? = some c → p.InOrder i c

/-- The faults that name a node for which the command at an index is not in order. -/
inductive Offends (p : Pattern) (i : Nat) (c : Command) : PatternFault → Prop where
  | measured (n : Node) (htarget : n ∈ c.targets) (hbefore : p.MeasuredBefore i n) :
    Offends p i c (.alreadyMeasured n (.command i))
  | prepared (n : Node) (hprepare : c = .prepare n)
    (hbefore : n ∈ p.inputs ∨ p.UsedBefore i n) : Offends p i c (.alreadyPrepared n (.command i))
  | outcome (n d : Node) (htarget : n ∈ c.targets) (hdependency : d ∈ c.dependencies)
    (hbefore : ¬ p.MeasuredBefore i d) (hresult : d ∉ p.results.keys) :
    Offends p i c (.unmeasuredDomain n d (.command i))

theorem Offends.location {p : Pattern} {i : Nat} {c : Command} {f : PatternFault}
    (h : p.Offends i c f) : f.location? = some (.command i) := by
  cases h <;> rfl

theorem Offends.not_inOrder {p : Pattern} {i : Nat} {c : Command} {f : PatternFault}
    (h : p.Offends i c f) : ¬ p.InOrder i c := by
  intro hc
  cases h with
  | measured n htarget hbefore => exact hc.unmeasured n htarget hbefore
  | prepared n hprepare hbefore =>
    rcases hbefore with hin | hused
    · exact (hc.fresh n hprepare).1 hin
    · exact (hc.fresh n hprepare).2 hused
  | outcome n d htarget hdependency hbefore hresult =>
    exact (hc.outcomes d hdependency).elim hbefore hresult

end Pattern

/-! ### The first fault of some commands -/

namespace Roster

variable (ctx : CompileContext)

/-- Either no command is refused, or one is and none before it. -/
theorem firstFault?_cases (r : Roster) (l : List Command) (i : Nat) :
    (r.firstFault? ctx l i = none ∧
      ∀ j c, l[j]? = some c → (r.steps (l.take j)).fault? ctx (i + j) c = none) ∨
    ∃ j c f, l[j]? = some c ∧ r.firstFault? ctx l i = some f ∧
      (r.steps (l.take j)).fault? ctx (i + j) c = some f ∧
      ∀ k < j, ∀ c', l[k]? = some c' → (r.steps (l.take k)).fault? ctx (i + k) c' = none := by
  induction l generalizing r i with
  | nil => exact .inl ⟨rfl, fun j c hc => by simp at hc⟩
  | cons c l ih =>
    rw [firstFault?, after_commandMoves]
    cases hf : r.fault? ctx i c with
    | some f => exact .inr ⟨0, c, f, rfl, rfl, hf, fun k hk => absurd hk (Nat.not_lt_zero k)⟩
    | none =>
      -- the commands after `c` are looked at with the roster that `c` leaves behind
      have hshift : ∀ k c', ((r.step c).steps (l.take k)).fault? ctx (i + 1 + k) c'
          = (r.steps ((c :: l).take (k + 1))).fault? ctx (i + (k + 1)) c' := by
        intro k c'
        rw [Nat.add_assoc, Nat.add_comm 1 k]
        rfl
      rcases ih (r.step c) (i + 1) with ⟨hnone, hall⟩ | ⟨j, c', f, hget, hsome, hfault, hleast⟩
      · refine .inl ⟨hnone, fun j c' hget => ?_⟩
        cases j with
        | zero => exact Option.some.inj hget ▸ hf
        | succ j => exact hshift j c' ▸ hall j c' hget
      · refine .inr ⟨j + 1, c', f, hget, hsome, hshift j c' ▸ hfault, fun k hk c'' hget' => ?_⟩
        cases k with
        | zero => exact Option.some.inj hget' ▸ hf
        | succ k => exact hshift k c'' ▸ hleast k (Nat.lt_of_succ_lt_succ hk) c'' hget'

end Roster

namespace CompileContext

variable (ctx : CompileContext)

/-- What is known of the nodes when the command at an index is read. -/
def rosterAt (i : Nat) : Roster := ctx.inputRoster.steps (ctx.pattern.commands.take i)

theorem mem_placed_rosterAt {i : Nat} {n : Node} :
    n ∈ (ctx.rosterAt i).placed ↔ n ∈ ctx.pattern.inputs ∨ ctx.pattern.UsedBefore i n := by
  rw [rosterAt, Roster.mem_placed_steps, inputRoster_eq, Roster.mem_placed_placeAll]
  exact or_congr (or_iff_right List.not_mem_nil) Iff.rfl

theorem mem_measured_rosterAt {i : Nat} {n : Node} :
    n ∈ (ctx.rosterAt i).measured ↔ ctx.pattern.MeasuredBefore i n := by
  rw [rosterAt, Roster.mem_measured_steps, inputRoster_eq,
    (Roster.placeAll_frame {} ctx.pattern.inputs).1]
  exact or_iff_right (SortedSet.not_mem_empty n)

theorem contains_register_rosterAt {i : Nat} {n : Node} :
    (ctx.rosterAt i).register.contains n = true ↔ ctx.pattern.MeasuredBefore i n := by
  rw [rosterAt, Roster.contains_register_steps, inputRoster_eq,
    (Roster.placeAll_frame {} ctx.pattern.inputs).2.1]
  exact or_iff_right nofun

/-- A command is accepted iff it is in order. -/
theorem fault?_rosterAt_eq_none_iff {i : Nat} {c : Command} :
    (ctx.rosterAt i).fault? ctx i c = none ↔ ctx.pattern.InOrder i c := by
  simp only [Roster.fault?_eq_none_iff, mem_placed_rosterAt, mem_measured_rosterAt,
    contains_register_rosterAt, not_or]
  constructor
  · rintro ⟨hunmeasured, hfresh, houtcomes⟩
    exact ⟨hunmeasured, hfresh, fun n hn => (houtcomes n hn).imp id SortedMap.mem_keys_iff.mpr⟩
  · rintro ⟨hunmeasured, hfresh, houtcomes⟩
    exact ⟨hunmeasured, hfresh, fun n hn => (houtcomes n hn).imp id SortedMap.mem_keys_iff.mp⟩

/-- The fault of a refused command names a node that is not in order. -/
theorem offends_of_fault?_eq_some {i : Nat} {c : Command} {f : PatternFault}
    (h : (ctx.rosterAt i).fault? ctx i c = some f) : ctx.pattern.Offends i c f := by
  unfold Roster.fault? at h
  rcases Option.or_eq_some_iff.mp h with h | ⟨-, h⟩
  · obtain ⟨n, hn, hf⟩ := List.exists_of_findSome?_eq_some h
    unfold Roster.measuredFault? at hf
    split at hf
    · next hm =>
      obtain rfl := Option.some.inj hf
      exact .measured n hn (ctx.mem_measured_rosterAt.mp (SortedSet.contains_iff_mem.mp hm))
    · cases hf
  rcases Option.or_eq_some_iff.mp h with h | ⟨-, h⟩
  · cases c with
    | prepare n =>
      rw [Roster.preparedFault?] at h
      split at h
      · next hplaced =>
        obtain rfl := Option.some.inj h
        exact .prepared n rfl (ctx.mem_placed_rosterAt.mp hplaced)
      · cases h
    | _ => cases h
  · obtain ⟨n, hn, h⟩ := List.exists_of_findSome?_eq_some h
    obtain ⟨d, hd, hf⟩ := List.exists_of_findSome?_eq_some h
    unfold Roster.domainFault? at hf
    split at hf
    · cases hf
    · next hnone =>
      obtain rfl := Option.some.inj hf
      rw [Bool.or_eq_true, not_or] at hnone
      refine .outcome n d hn hd (fun hm => ?_) (fun hk => ?_)
      · exact hnone.1 (ctx.contains_register_rosterAt.mpr hm)
      · exact hnone.2 (SortedMap.mem_keys_iff.mp hk)

/-- Either all commands are in order, or the fault is that of the first that is not. -/
theorem fault?_cases :
    (ctx.fault? = none ∧ ctx.pattern.Ordered) ∨
    ∃ i c f, ctx.pattern.commands[i]? = some c ∧ ctx.fault? = some f ∧
      ctx.pattern.Offends i c f ∧
      ∀ j < i, ∀ c', ctx.pattern.commands[j]? = some c' → ctx.pattern.InOrder j c' := by
  rcases ctx.inputRoster.firstFault?_cases ctx ctx.pattern.commands 0 with
    ⟨hnone, hall⟩ | ⟨i, c, f, hget, hsome, hfault, hleast⟩
  · refine .inl ⟨hnone, fun i c hget => ctx.fault?_rosterAt_eq_none_iff.mp ?_⟩
    have := hall i c hget
    rwa [Nat.zero_add] at this
  · rw [Nat.zero_add] at hfault
    refine .inr ⟨i, c, f, hget, hsome, ctx.offends_of_fault?_eq_some hfault, ?_⟩
    intro j hj c' hget'
    have := hleast j hj c' hget'
    rw [Nat.zero_add] at this
    exact ctx.fault?_rosterAt_eq_none_iff.mp this

theorem fault?_eq_none_iff : ctx.fault? = none ↔ ctx.pattern.Ordered := by
  rcases ctx.fault?_cases with ⟨hnone, hord⟩ | ⟨i, c, f, hget, hsome, hoff, -⟩
  · exact ⟨fun _ => hord, fun _ => hnone⟩
  · refine ⟨fun h => ?_, fun h => absurd (h i c hget) hoff.not_inOrder⟩
    rw [hsome] at h
    cases h

end CompileContext

/-! ### Acceptance -/

namespace Pattern

theorem precheck_ne_circuit (p : Pattern) (inputs : SortedMap Node InputState)
    (f : CircuitFault) : p.precheck inputs ≠ .error (.circuit f) := by
  unfold precheck
  split
  · nofun
  · rcases checkInputs_cases p inputs.entries with ⟨hok, -⟩ | ⟨⟨n, g, herr⟩, -⟩
    · rw [hok]
      nofun
    · rw [herr]
      nofun

/-- **Acceptance**: a pattern is compiled iff it is well formed, each supplied state is a proper
state of an input node, and every command is in order. The first command that is not gives the
fault. No instruction is ever refused by the circuit, and a circuit that is returned is valid. -/
theorem compile_acceptance (p : Pattern) (inputs : SortedMap Node InputState)
    (options : CompileOptions) :
    ((∃ c, p.compile inputs options = .ok c) ↔
      p.validate = .ok () ∧
      (∀ e ∈ inputs.entries, p.isInput e.1 = true ∧ e.2.check = .ok ()) ∧ p.Ordered) ∧
    (p.validate = .ok () → (∀ e ∈ inputs.entries, p.isInput e.1 = true ∧ e.2.check = .ok ()) →
      ¬ p.Ordered →
      ∃ i c f, p.compile inputs options = .error (.pattern f) ∧
        f.location? = some (.command i) ∧ p.commands[i]? = some c ∧ ¬ p.InOrder i c ∧
        (∀ j < i, ∀ c', p.commands[j]? = some c' → p.InOrder j c') ∧ p.Offends i c f) ∧
    (∀ f, p.compile inputs options ≠ .error (.circuit f)) ∧
    ∀ c, p.compile inputs options = .ok c → c.circuit.validate = .ok () := by
  set ctx : CompileContext := ⟨p, inputs, options⟩
  have hchecks : p.precheck inputs = .ok () ↔ p.validate = .ok () ∧
      ∀ e ∈ inputs.entries, p.isInput e.1 = true ∧ e.2.check = .ok () := by
    simp only [precheck_eq_ok_iff, validate_eq_ok_iff, isInput, List.contains_iff_mem]
  refine ⟨?_, ?_, ?_, ?_⟩
  · rw [← and_assoc, ← hchecks, precheck_eq_ok_iff, ← ctx.fault?_eq_none_iff]
    constructor
    · rintro ⟨c, hc⟩
      have hacc := (compile_eq_ok_iff.mp hc).1
      exact ⟨⟨hacc.wellFormed, hacc.inputs⟩, hacc.ordered⟩
    · rintro ⟨⟨hwf, hin⟩, hf⟩
      exact ⟨_, compile_eq_ok_iff.mpr ⟨⟨hwf, hin, hf⟩, rfl⟩⟩
  · intro hval hin hord
    rcases ctx.fault?_cases with ⟨-, hord'⟩ | ⟨i, c, f, hget, hsome, hoff, hleast⟩
    · exact absurd hord' hord
    · refine ⟨i, c, f, ?_, hoff.location, hget, hoff.not_inOrder, hleast, hoff⟩
      rw [compile_eq, hchecks.mpr ⟨hval, hin⟩]
      show unlessFault ctx.fault? _ = _
      rw [hsome]
      rfl
  · intro f hf
    rw [compile_eq] at hf
    cases hpre : p.precheck inputs with
    | error g =>
      rw [hpre] at hf
      obtain rfl : g = .circuit f := Except.error.inj hf
      exact precheck_ne_circuit p inputs f hpre
    | ok u =>
      rw [hpre] at hf
      have hf' : unlessFault ctx.fault? _ = .error (.circuit f) := hf
      cases hfault : ctx.fault? <;> rw [hfault] at hf' <;> cases hf'
  · intro c hc
    obtain ⟨hacc, rfl⟩ := compile_eq_ok_iff.mp hc
    exact Circuit.validate_eq_ok_iff.mpr hacc.sound.valid

/-- A command on a measured node at the end of the chain is refused, at its index. -/
theorem compile_relay_again :
    ∃ i c f, compile { relay with commands := relay.commands ++ [.correctX 0 ∅] } ∅ {}
        = .error (.pattern f) ∧
      f.location? = some (.command i) ∧ (relay.commands ++ [.correctX 0 ∅])[i]? = some c ∧
      ¬ InOrder { relay with commands := relay.commands ++ [.correctX 0 ∅] } i c := by
  set p : Pattern := { relay with commands := relay.commands ++ [.correctX 0 ∅] }
  have hvalid : p.validate = .ok () := by decide +kernel
  have hinputs : ∀ e ∈ (∅ : SortedMap Node InputState).entries,
      p.isInput e.1 = true ∧ e.2.check = .ok () := fun e he => absurd he List.not_mem_nil
  have hordered : ¬ p.Ordered := by
    intro h
    have hlast := h 6 (.correctX 0 ∅) (by decide +kernel)
    refine hlast.unmeasured 0 (List.mem_cons_self ..) ⟨.measure 0 .xy 0.25 ∅ ∅, ?_, ?_⟩
    · decide +kernel
    · exact ⟨_, _, _, _, rfl⟩
  obtain ⟨i, c, f, hcompile, hlocation, hget, hnot, -⟩ :=
    (compile_acceptance p ∅ {}).2.1 hvalid hinputs hordered
  exact ⟨i, c, f, hcompile, hlocation, hget, hnot⟩

end Pattern

end OneWay
