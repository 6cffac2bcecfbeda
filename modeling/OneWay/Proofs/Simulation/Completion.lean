import OneWay.Proofs.Circuit.Validity
import OneWay.Proofs.Sorted
import OneWay.Proofs.State
import OneWay.Simulation.Shot

/-!
# Simulations of valid circuits run to the end

A shot of a valid circuit keeps the sizes of its state and of its register (`Shot.Sized.step` for
one instruction, `Shot.yields_run` for all of them), so only a coin can stop it. Each shot adds one
observation of a bitstring as wide as the register, so the counts of a simulation are of as many
observations as there are shots (`Circuit.yields_simulate`).
-/

namespace OneWay

/-! ### Counts -/

/-- A string of zeros and ones. -/
structure IsBitstring (width : Nat) (s : String) : Prop where
  length : s.length = width
  binary : ∀ c ∈ s.toList, c = '0' ∨ c = '1'

namespace Counts

/-- The counts are of some number of observations, of bitstrings of one width. -/
structure Tallies (c : Counts) (observations width : Nat) : Prop where
  total : c.total = observations
  keys : ∀ e ∈ c.toList, IsBitstring width e.1

theorem sum_insertInto (k : String) (n : Nat) (l : List (String × Nat)) :
    ((SortedMap.insertInto (· + ·) k n l).map (·.2)).sum = (l.map (·.2)).sum + n := by
  induction l with
  | nil => simp [SortedMap.insertInto]
  | cons e l ih =>
    rw [SortedMap.insertInto]
    split <;> simp [ih] <;> omega

theorem total_eq_sum (c : Counts) : c.total = (c.toList.map (·.2)).sum :=
  (List.sum_eq_foldl ..).symm

theorem total_add (c : Counts) (k : String) (n : Nat) : (c.add k n).total = c.total + n := by
  rw [total_eq_sum, total_eq_sum]
  exact sum_insertInto k n c.toList

theorem tallies_empty (width : Nat) : (∅ : Counts).Tallies 0 width := ⟨rfl, nofun⟩

theorem Tallies.add {c : Counts} {observations width : Nat} (h : c.Tallies observations width)
    {k : String} (hk : IsBitstring width k) (n : Nat) :
    (c.add k n).Tallies (observations + n) width where
  total := by rw [total_add, h.total]
  keys := fun e he => by
    rcases SortedMap.fst_of_mem_insertInto he with hnew | ⟨old, hold, heq⟩
    · rw [hnew]
      exact hk
    · rw [← heq]
      exact h.keys old hold

end Counts

/-! ### Shots -/

namespace Shot

variable {σ : Type} {c : Circuit} {s : Shot σ}

/-- The state and the register are as large as the circuit says. -/
structure Sized (c : Circuit) (s : Shot σ) : Prop where
  amplitudes : s.amplitudes.size = 2 ^ c.numQubits
  register : s.register.size = c.numBits

theorem sized_start (c : Circuit) (source : σ) : (start c source).Sized c :=
  ⟨Amplitudes.size_ground _, Array.size_replicate⟩

theorem isBitstring_bitstring (s : Shot σ) : IsBitstring s.register.size s.bitstring := by
  refine ⟨by simp [bitstring], fun ch hch => ?_⟩
  obtain ⟨b, -, rfl⟩ : ∃ b ∈ s.register.toList, (if b then '1' else '0') = ch := by
    simpa [bitstring] using hch
  cases b
  · exact .inl rfl
  · exact .inr rfl

theorem Sized.flip (h : s.Sized c) (t : Trigonometry) {g : Gate} (hg : g.arity = 1) {q : Qubit}
    (hq : q < c.numQubits) : Yields (Sized c) (s.flip t g q) := by
  have harity : [q].length = g.arity := hg.symm
  have hqubits : ∀ x ∈ [q], x < c.numQubits := by simpa using hq
  obtain ⟨w, happly, hw⟩ := Amplitudes.exists_apply t harity hqubits h.amplitudes
  unfold Shot.flip
  rw [happly]
  exact ⟨hw.trans h.amplitudes, h.register⟩

variable [RandomSource σ] (t : Trigonometry) (noise : NoiseModel)

namespace Sized

theorem disturb (h : s.Sized c) (channel : NoiseChannel) {q : Qubit} (hq : q < c.numQubits) :
    Yields (Sized c) (s.disturb t channel q) := by
  unfold Shot.disturb
  cases channel.kind with
  | amplitudeDamping =>
    refine (Amplitudes.yields_damp hq h.amplitudes _ _).bind fun r hr => ?_
    exact ⟨hr.trans h.amplitudes, h.register⟩
  | depolarizing =>
    refine (Yields.coin ..).bind ?_
    rintro ⟨hit, source⟩ -
    cases hit with
    | false => exact ⟨h.amplitudes, h.register⟩
    | true =>
      have hpauli : ∀ k : Nat,
          (if k = 0 then Gate.x else if k = 1 then Gate.y else Gate.z).arity = 1 := by
        intro k
        split
        · rfl
        · split <;> rfl
      exact flip (s := { s with source := (RandomSource.oneOfThree source).2 })
        ⟨h.amplitudes, h.register⟩ t (hpauli _) hq
  | bitFlip | phaseFlip =>
    refine (Yields.coin ..).bind ?_
    rintro ⟨hit, source⟩ -
    cases hit with
    | false => exact ⟨h.amplitudes, h.register⟩
    | true => exact flip (s := { s with source }) ⟨h.amplitudes, h.register⟩ t rfl hq

theorem gate (h : s.Sized c) {g : Gate} {qubits : List Qubit} (harity : qubits.length = g.arity)
    (hq : ∀ q ∈ qubits, q < c.numQubits) : Yields (Sized c) (s.gate t noise g qubits) := by
  obtain ⟨w, happly, hw⟩ := Amplitudes.exists_apply t harity hq h.amplitudes
  unfold Shot.gate
  rw [happly]
  refine Yields.foldlM (fun q hmem s' hs' => ?_)
    (⟨hw.trans h.amplitudes, h.register⟩ : Sized c { s with amplitudes := w })
  exact Yields.foldlM (fun channel _ s'' hs'' => hs''.disturb t channel (hq q hmem)) hs'

theorem measure (h : s.Sized c) (q : Qubit) {b : Bit} (hb : b < c.numBits) :
    Yields (Sized c) (s.measure noise q b) := by
  refine (Amplitudes.yields_measure ..).bind ?_
  rintro ⟨outcome, w, source⟩ hw
  have hread : Yields (fun _ => True) (readout noise.readoutError outcome source) := by
    unfold readout
    split
    · exact (Yields.coin ..).bind fun _ _ => trivial
    · trivial
  refine hread.bind ?_
  rintro ⟨bit, source'⟩ -
  rw [← h.register] at hb
  simp only [dif_pos hb]
  exact ⟨hw.trans h.amplitudes, by simpa using h.register⟩

theorem reset (h : s.Sized c) {q : Qubit} (hq : q < c.numQubits) :
    Yields (Sized c) (s.reset q) := by
  refine (Amplitudes.yields_reset hq h.amplitudes s.source).bind fun r hr => ?_
  exact ⟨hr.trans h.amplitudes, h.register⟩

/-- **One instruction** that fits keeps the sizes, and only a coin can stop it. -/
theorem step (h : s.Sized c) {inst : Instruction} (hfits : inst.Fits c.numQubits c.numBits) :
    Yields (Sized c) (s.step t noise inst) := by
  obtain ⟨harity, hqubits, hbits, -⟩ := hfits
  unfold Shot.step
  unfold Instruction.HasArity at harity
  cases haction : inst.action with
  | gate g =>
    rw [haction] at harity
    have hgate := h.gate t noise harity hqubits
    simp only
    cases g.condition with
    | none => exact hgate
    | some condition =>
      simp only
      split
      · exact hgate
      · exact h
  | measure =>
    refine Yields.foldlM (fun e he s' hs' => hs'.measure noise e.1 ?_) h
    exact hbits e.2 (List.mem_append_left _ (List.of_mem_zip he).2)
  | reset => exact Yields.foldlM (fun q hmem s' hs' => hs'.reset (hqubits q hmem)) h
  | snapshot =>
    show Sized c (if _ then _ else _)
    split
    · exact ⟨h.amplitudes, h.register⟩
    · exact h
  | barrier => exact h

end Sized

/-- **One shot** of a valid circuit keeps the sizes, and only a coin can stop it. -/
theorem yields_run (hc : c.validate = .ok ()) (source : σ) :
    Yields (Sized c) (run t noise c source) := by
  have hfits := Circuit.validate_eq_ok_iff.mp hc
  exact Yields.foldlM (fun inst hinst s hs => hs.step t noise (hfits inst hinst))
    (sized_start c source)

end Shot

/-! ### Simulations -/

namespace Circuit

variable {σ : Type} [RandomSource σ] {c : Circuit} (t : Trigonometry) (noise : NoiseModel)

theorem yields_repeatShots (hc : c.validate = .ok ()) (n : Nat) {m : Nat} {tally : Tally σ}
    (h : tally.counts.Tallies m c.numBits) :
    Yields (fun r : Tally σ => r.counts.Tallies (m + n) c.numBits)
      (repeatShots t noise c n tally) := by
  induction n generalizing m tally with
  | zero => exact h
  | succ n ih =>
    refine (Shot.yields_run t noise hc tally.source).bind fun shot hshot => ?_
    have hbits := shot.isBitstring_bitstring
    rw [hshot.register] at hbits
    rw [show m + (n + 1) = m + 1 + n by omega]
    exact ih (h.add hbits 1)

/-- **Shots are conserved**: a simulation of a valid circuit counts as many bitstrings of the
register as there are shots, and only a coin can stop it. -/
theorem yields_simulate (hc : c.validate = .ok ()) (shots : Nat) (source : σ) :
    Yields (fun r : ExecutionResult × σ => r.1.counts.Tallies shots c.numBits)
      (c.simulate t noise shots source) := by
  cases shots with
  | zero => exact Counts.tallies_empty _
  | succ n =>
    refine (Shot.yields_run t noise hc source).bind fun first hfirst => ?_
    have hbits := first.isBitstring_bitstring
    rw [hfirst.register] at hbits
    refine (yields_repeatShots t noise hc n ((Counts.tallies_empty _).add hbits 1)).bind ?_
    intro tally htally
    rw [Nat.add_comm n 1, ← Nat.zero_add 1]
    exact htally

end Circuit

end OneWay
