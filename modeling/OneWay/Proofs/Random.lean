import Mathlib.Logic.Function.Iterate
import OneWay.Random.ChaCha

/-!
# Drawing one of three

Words are passed over until one can be used, however many that takes: `RandomSource.Draws` is this
search without a bound. A recorded source always ends it (`Recorded.draws_oneOfThree`). The words
of a seeded source come from blocks that are numbered in 64 bits, so they repeat themselves
(`ChaCha.Stream.recurs_ofSeed`, kept by every draw), and looking through one period finds what the
search finds (`ChaCha.Stream.Recurs.oneOfThree_eq`).
-/

namespace OneWay

namespace RandomSource

variable {σ : Type} {next : σ → UInt32 × σ} {s s' : σ} {k m n : Nat}

/-- Words are passed over until one can be used. -/
inductive Draws (next : σ → UInt32 × σ) : σ → Nat → σ → Prop where
  | taken {s : σ} {k : Nat} (h : third? (next s).1 = some k) : Draws next s k (next s).2
  | passed {s s' : σ} {k : Nat} (h : third? (next s).1 = none)
    (hrest : Draws next (next s).2 k s') : Draws next s k s'

/-- The state after `n` words. -/
def after (next : σ → UInt32 × σ) (n : Nat) : σ → σ := (fun s => (next s).2)^[n]

theorem after_zero (s : σ) : after next 0 s = s := rfl

theorem after_succ (n : Nat) (s : σ) : after next (n + 1) s = after next n (next s).2 := rfl

theorem after_add (m n : Nat) (s : σ) : after next (m + n) s = after next n (after next m s) := by
  rw [Nat.add_comm]
  exact Function.iterate_add_apply _ n m s

theorem after_comm (m n : Nat) (s : σ) :
    after next m (after next n s) = after next n (after next m s) := by
  rw [← after_add, ← after_add, Nat.add_comm]

theorem firstThird?_succ (n : Nat) (s : σ) : firstThird? next (n + 1) s =
    match third? (next s).1 with
    | some k => some (k, (next s).2)
    | none => firstThird? next n (next s).2 := rfl

/-- What is not found among the first words is looked for among those after them. -/
theorem firstThird?_add (m n : Nat) (s : σ) : firstThird? next (m + n) s =
    (firstThird? next m s).or (firstThird? next n (after next m s)) := by
  induction m generalizing s with
  | zero => rw [Nat.zero_add, after_zero, firstThird?, Option.none_or]
  | succ m ih =>
    rw [Nat.add_right_comm, firstThird?_succ, firstThird?_succ, after_succ]
    cases third? (next s).1 with
    | some k => rfl
    | none => exact ih (next s).2

theorem Draws.exists_after (h : Draws next s k s') : ∃ n, s' = after next n s := by
  induction h with
  | taken => exact ⟨1, rfl⟩
  | passed _ _ ih =>
    obtain ⟨n, rfl⟩ := ih
    exact ⟨n + 1, rfl⟩

/-- The search ends if the draw does. -/
theorem Draws.exists_firstThird? (h : Draws next s k s') :
    ∃ n, firstThird? next n s = some (k, s') := by
  induction h with
  | taken h => exact ⟨1, by rw [firstThird?_succ, h]⟩
  | passed h _ ih =>
    obtain ⟨n, hn⟩ := ih
    exact ⟨n + 1, by rw [firstThird?_succ, h]; exact hn⟩

/-- **Looking through a period** is enough: if none of its words can be used, none ever can. -/
theorem Draws.firstThird?_period (h : Draws next s k s') (hperiod : after next m s = s)
    (hm : 0 < m) : firstThird? next m s = some (k, s') := by
  obtain ⟨n, hn⟩ := h.exists_firstThird?
  cases hfirst : firstThird? next m s with
  | none =>
    have hnone : ∀ j, firstThird? next (m * j) s = none := by
      intro j
      induction j with
      | zero => rfl
      | succ j ih =>
        rw [Nat.mul_succ, Nat.add_comm, firstThird?_add, hfirst, hperiod, ih, Option.none_or]
    have hlong : firstThird? next (n + (m * n - n)) s = _ := firstThird?_add n (m * n - n) s
    rw [Nat.add_sub_cancel' (Nat.le_mul_of_pos_left n hm), hnone, hn] at hlong
    cases hlong
  | some r =>
    -- both searches find what the one through all their words finds
    have hlong : firstThird? next (m + n) s = _ := firstThird?_add m n s
    rw [Nat.add_comm, firstThird?_add, hn, hfirst] at hlong
    exact hlong.symm

end RandomSource

open RandomSource

/-! ### Recorded words -/

/-- **Recorded words** are followed by zeros, so that every draw ends. -/
theorem Recorded.draws_oneOfThree (s : Recorded) :
    Draws (fun s => ((next s).1.toUInt32, (next s).2)) s (oneOfThree s).1 (oneOfThree s).2 := by
  obtain ⟨words, drawn⟩ := s
  induction words generalizing drawn with
  | nil => exact .taken (show third? 0 = some 0 by decide)
  | cons w l ih =>
    show Draws _ _ (third (w :: l) drawn).1 (third (w :: l) drawn).2
    rw [third]
    cases hword : third? w.toUInt32 with
    | some k => exact .taken hword
    | none => exact .passed hword (ih (drawn + 1))

/-! ### Seeded words -/

namespace ChaCha.Stream

theorem after_pending (key : Key) (counter : UInt64) (l : List UInt32) :
    after next l.length ⟨key, counter, l⟩ = ⟨key, counter, []⟩ := by
  induction l with
  | nil => rfl
  | cons w l ih => exact ih

theorem after_block (key : Key) (counter : UInt64) :
    after next 16 ⟨key, counter, []⟩ = ⟨key, counter + 1, []⟩ := by
  have hlength : ((block key counter).toList.drop 1).length = 15 := by simp
  rw [after_succ, ← hlength]
  exact after_pending key (counter + 1) _

theorem after_blocks (key : Key) (counter : UInt64) (n : Nat) :
    after next (n * 16) ⟨key, counter, []⟩ = ⟨key, counter + .ofNat n, []⟩ := by
  induction n with
  | zero => simp [after_zero]
  | succ n ih =>
    rw [Nat.succ_mul, after_add, ih, after_block, UInt64.add_assoc, UInt64.ofNat_add]
    rfl

/-- A stream that is back where it was after a period. -/
def Recurs (s : Stream) : Prop := after next period s = s

/-- **Seeded streams** repeat themselves. -/
theorem recurs_ofSeed (seed : UInt64) : (ofSeed seed).Recurs := by
  have hperiod : period = UInt64.size * 16 := by decide
  rw [Recurs, hperiod, ofSeed, after_blocks, UInt64.ofNat_size]
  rfl

variable {s : Stream}

theorem Recurs.after (h : s.Recurs) (n : Nat) : (after next n s).Recurs := by
  rw [Recurs, after_comm, h]

theorem Recurs.next64 (h : s.Recurs) : (RandomSource.next64 s).2.Recurs := h.after 2

/-- **Draws** from a seeded stream give what the first word that can be used gives, however late
it comes, and leave a stream that repeats itself as well. -/
theorem Recurs.oneOfThree_eq (h : s.Recurs) {s' : Stream} {k : Nat} (hdraw : Draws next s k s') :
    RandomSource.oneOfThree s = (k, s') ∧ s'.Recurs := by
  have hfirst := hdraw.firstThird?_period h (by decide)
  refine ⟨?_, ?_⟩
  · show (firstThird? next period s).getD (0, s) = _
    rw [hfirst, Option.getD_some]
  · obtain ⟨n, rfl⟩ := hdraw.exists_after
    exact h.after n

end ChaCha.Stream

end OneWay
