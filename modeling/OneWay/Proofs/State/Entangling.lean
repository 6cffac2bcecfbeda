import Mathlib.Data.Sym.Sym2
import OneWay.Proofs.State.Action

/-!
# Entangling in any order

Entangling two wires negates the amplitudes at which both are 1. After several pairs of wires, an
amplitude has been negated once for each pair that is 1 at its index (`Amplitudes.amplitude_entangle`),
and that number depends neither on the order of the pairs nor on that of the wires in a pair
(`Amplitudes.signs_eq_of_perm`). So the order does not matter, and no law of arithmetic is needed to
see it: every amplitude is negated as often, and not just to the same effect.
-/

namespace OneWay.Amplitudes

variable {pairs pairs' : List (Nat × Nat)}

/-- Entangles pairs of wires, one after the other. -/
def entangle (t : Trigonometry) (pairs : List (Nat × Nat)) (v : Amplitudes) :
    Except SimulationFault Amplitudes :=
  pairs.foldlM (fun v p => apply t .cz [p.1, p.2] v) v

/-- How many of the pairs of wires are 1 at an index. -/
def signs (pairs : List (Nat × Nat)) (i : Nat) : Nat :=
  pairs.countP fun p => i.testBit p.1 && i.testBit p.2

/-- The pairs, whichever of the two wires comes first. -/
def unordered (pairs : List (Nat × Nat)) : List (Sym2 Nat) := pairs.map fun p => s(p.1, p.2)

/-- Whether both wires of a pair are 1 at an index. -/
def bothSet (i : Nat) : Sym2 Nat → Bool :=
  Sym2.lift ⟨fun a b => i.testBit a && i.testBit b, fun _ _ => Bool.and_comm ..⟩

theorem signs_eq (pairs : List (Nat × Nat)) (i : Nat) :
    signs pairs i = (unordered pairs).countP (bothSet i) := by
  rw [unordered, List.countP_map]
  rfl

/-- The signs of an amplitude depend on the unordered pairs alone. -/
theorem signs_eq_of_perm (h : (unordered pairs).Perm (unordered pairs')) (i : Nat) :
    signs pairs i = signs pairs' i := by
  rw [signs_eq, signs_eq, h.countP_eq]

/-- Entangling negates each amplitude once for each pair that is 1 at its index. -/
theorem amplitude_entangle (t : Trigonometry) (pairs : List (Nat × Nat)) (v : Amplitudes) :
    ∃ w, entangle t pairs v = .ok w ∧ w.size = v.size ∧
      ∀ i < v.size, w.amplitude i = Neg.neg^[signs pairs i] (v.amplitude i) := by
  -- the state varies: the pairs that are left start from what the first one has made
  induction pairs generalizing v with
  | nil => exact ⟨v, rfl, rfl, fun _ _ => rfl⟩
  | cons p pairs ih =>
    obtain ⟨u, hstep, hsize, hu⟩ := exists_apply_of_double t rfl (amplitude_negate p.1 p.2 v)
    obtain ⟨w, hrest, hsize', hw⟩ := ih u
    refine ⟨w, ?_, hsize'.trans hsize, fun i hi => ?_⟩
    · rw [entangle, List.foldlM_cons, hstep]
      exact hrest
    · rw [hw i (hsize ▸ hi), hu i hi, signs, signs, List.countP_cons]
      split
      · rfl
      · rfl

theorem eq_of_amplitude {v w : Amplitudes} (hsize : v.size = w.size)
    (h : ∀ i < v.size, v.amplitude i = w.amplitude i) : v = w := by
  refine Array.ext hsize fun i hi hi' => ?_
  rw [Kernel.getElem_eq_getD v hi .zero, Kernel.getElem_eq_getD w hi' .zero]
  exact h i hi

/-- **Order of entangling**: lists with the same unordered pairs of wires, each as often, entangle
every state alike, and negate each amplitude as often as pairs are 1 at its index. -/
theorem entangle_any_order (t : Trigonometry) (v : Amplitudes)
    (h : (unordered pairs).Perm (unordered pairs')) :
    ∃ w, entangle t pairs v = .ok w ∧ entangle t pairs' v = .ok w ∧ w.size = v.size ∧
      ∀ i < v.size, w.amplitude i = Neg.neg^[signs pairs i] (v.amplitude i) := by
  obtain ⟨w, hw, hsize, hentry⟩ := amplitude_entangle t pairs v
  obtain ⟨w', hw', hsize', hentry'⟩ := amplitude_entangle t pairs' v
  have heq : w' = w := by
    refine eq_of_amplitude (hsize'.trans hsize.symm) fun i hi => ?_
    rw [hentry' i (hsize' ▸ hi), hentry i (hsize' ▸ hi), signs_eq_of_perm h]
  exact ⟨w, hw, heq ▸ hw', hsize, hentry⟩

/-- A triangle of wires, gone round in either direction. -/
theorem entangle_triangle :
    (unordered [(0, 1), (1, 2), (2, 0)]).Perm (unordered [(0, 2), (2, 1), (1, 0)]) ∧
    ∃ w, entangle .machine [(0, 1), (1, 2), (2, 0)] ramp = .ok w ∧
      entangle .machine [(0, 2), (2, 1), (1, 0)] ramp = .ok w ∧
      w.amplitude 7 = - - -ramp.amplitude 7 ∧ w.amplitude 6 = -ramp.amplitude 6 ∧
      w.amplitude 4 = ramp.amplitude 4 := by
  have hperm : (unordered [(0, 1), (1, 2), (2, 0)]).Perm (unordered [(0, 2), (2, 1), (1, 0)]) := by
    decide
  obtain ⟨w, hw, hw', -, hentry⟩ := entangle_any_order .machine ramp hperm
  exact ⟨hperm, w, hw, hw', hentry 7 (by decide), hentry 6 (by decide), hentry 4 (by decide)⟩

end OneWay.Amplitudes
