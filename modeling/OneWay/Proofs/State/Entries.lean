import OneWay.Proofs.State

/-!
# The entries of an updated vector

What a vector holds after an update, entry by entry. The updates are loops that work in place, so
what is read late could have been written before; it has not, since every entry is written in one
step of the loop, its own, and read in no other (`Kernel.getD_foldlM_range`).

An update on pairs replaces each entry by what is computed from the pair it belongs to
(`Kernel.getD_onPairs`), an exchange permutes the entries (`Kernel.getD_exchange`,
`Kernel.perm_exchange`), and lowering a wire brings the entries with the bit set to those without it
(`Kernel.getD_lower`), so it leaves no entry that is new, but for zeros (`Kernel.mem_lower`).
-/

namespace OneWay.Kernel

variable {α : Type} {n q : Nat} {v w : Array α}

/-- What each step keeps of a vector, the update does. -/
theorem of_foldlM {P : Array α → Prop} {f : Array α → Nat → Option (Array α)} {l : List Nat}
    (hstep : ∀ {u : Array α} {i : Nat} {u' : Array α}, P u → f u i = some u' → P u') (hv : P v)
    (h : l.foldlM f v = some w) : P w := by
  induction l generalizing v with
  | nil =>
    cases h
    exact hv
  | cons i l ih =>
    rw [List.foldlM_cons] at h
    obtain ⟨u, hfirst, hrest⟩ := Option.bind_eq_some_iff.mp h
    exact ih (hstep hv hfirst) hrest

/-- What each step keeps of a vector and the number of steps, the update does. -/
theorem exists_foldlM_range_of_step {P : Nat → Array α → Prop}
    {f : Array α → Nat → Option (Array α)} (hstart : P 0 v) (m : Nat)
    (hstep : ∀ i < m, ∀ w, P i w → ∃ w', f w i = some w' ∧ P (i + 1) w') :
    ∃ w, (List.range m).foldlM f v = some w ∧ P m w := by
  induction m with
  | zero => exact ⟨v, rfl, hstart⟩
  | succ m ih =>
    obtain ⟨w, hfold, hw⟩ := ih fun i hi => hstep i (Nat.lt_succ_of_lt hi)
    obtain ⟨w', hlast, hw'⟩ := hstep m (Nat.lt_succ_self m) w hw
    refine ⟨w', ?_, hw'⟩
    rw [List.range_succ, List.foldlM_append, hfold]
    show List.foldlM f w [m] = some w'
    simp [hlast]

/-- **Loops in place**: each entry has a step of its own. If that step finds what it needs as it was
at the start and no other step writes the entry, the loop ends with what the steps have written. -/
theorem getD_foldlM_range {f : Array α → Nat → Option (Array α)} (own : Nat → Nat) {new : Nat → α}
    {z : α} (hown : ∀ j < v.size, own j < v.size)
    (hstep : ∀ i < v.size, ∀ w : Array α, w.size = v.size →
      (∀ j < v.size, own j = i → w.getD j z = v.getD j z) →
      ∃ w', f w i = some w' ∧ w'.size = v.size ∧
        ∀ j < v.size, w'.getD j z = if own j = i then new j else w.getD j z) :
    ∃ w, (List.range v.size).foldlM f v = some w ∧ w.size = v.size ∧
      ∀ j < v.size, w.getD j z = new j := by
  -- after `i` steps the entries with a step below `i` are new, and the others untouched
  let P : Nat → Array α → Prop := fun i w => w.size = v.size ∧
    ∀ j < v.size, w.getD j z = if own j < i then new j else v.getD j z
  suffices h : ∃ w, (List.range v.size).foldlM f v = some w ∧ P v.size w by
    obtain ⟨w, hw, hsize, hentry⟩ := h
    exact ⟨w, hw, hsize, fun j hj => (hentry j hj).trans (if_pos (hown j hj))⟩
  refine exists_foldlM_range_of_step ⟨rfl, fun j _ => (if_neg (Nat.not_lt_zero _)).symm⟩ v.size ?_
  rintro i hi w ⟨hsize, hentry⟩
  have hfresh : ∀ j < v.size, own j = i → w.getD j z = v.getD j z := fun j hj hji =>
    (hentry j hj).trans (if_neg (hji ▸ Nat.lt_irrefl i))
  obtain ⟨w', hw', hsize', hentry'⟩ := hstep i hi w hsize hfresh
  refine ⟨w', hw', hsize', fun j hj => ?_⟩
  rw [hentry' j hj]
  by_cases hji : own j = i
  · rw [if_pos hji, if_pos (hji ▸ Nat.lt_succ_self i)]
  · rw [if_neg hji, hentry j hj]
    congr 1
    exact propext ⟨fun h => by omega, fun h => by omega⟩

theorem getD_set (v : Array α) {i : Nat} (x : α) (hi : i < v.size) (j : Nat) (z : α) :
    (v.set i x hi).getD j z = if i = j then x else v.getD j z := by
  rw [Array.getD_eq_getD_getElem?, Array.getElem?_set, Array.getD_eq_getD_getElem?]
  split <;> rfl

theorem getElem_eq_getD (v : Array α) {i : Nat} (hi : i < v.size) (z : α) : v[i] = v.getD i z := by
  rw [Array.getD_eq_getD_getElem?, Array.getElem?_eq_getElem hi]
  rfl

/-- A step that writes two entries, those whose own step it is. -/
theorem getD_set_set {own : Nat → Nat} {i a b : Nat} {x y z : α} (new : Nat → α) (ha : a < w.size)
    (hb : b < (w.set a x ha).size) (hab : a ≠ b) (hown : ∀ j, own j = i ↔ j = a ∨ j = b)
    (hx : x = new a) (hy : y = new b) (j : Nat) :
    ((w.set a x ha).set b y hb).getD j z = if own j = i then new j else w.getD j z := by
  rw [getD_set, getD_set]
  by_cases hj : own j = i
  · rw [if_pos hj]
    obtain rfl | rfl := (hown j).mp hj
    · rw [if_neg (Ne.symm hab), if_pos rfl, hx]
    · rw [if_pos rfl, hy]
  · have hother := mt (hown j).mpr hj
    rw [not_or] at hother
    rw [if_neg hj, if_neg (Ne.symm hother.2), if_neg (Ne.symm hother.1)]

theorem getD_onEach (f : Nat → α → α) (z : α) {i : Nat} (hi : i < v.size) :
    (onEach f v).getD i z = f i (v.getD i z) := by
  rw [← getElem_eq_getD v hi, ← getElem_eq_getD (onEach f v) ((size_onEach f v).symm ▸ hi)]
  exact Array.getElem_mapIdx ..

/-! ### Pairs -/

/-- The index with bit `q` clear. -/
def base (q i : Nat) : Nat := if i.testBit q then across q i else i

theorem across_eq_xor (q i : Nat) : across q i = i ^^^ 2 ^ q := by
  rw [across, Nat.one_shiftLeft]

theorem partner_eq_or (q i : Nat) : partner q i = i ||| 2 ^ q := by
  rw [partner, Nat.one_shiftLeft]

theorem testBit_across (q i j : Nat) :
    (across q i).testBit j = (i.testBit j ^^ decide (q = j)) := by
  rw [across_eq_xor, Nat.testBit_xor, Nat.testBit_two_pow]

theorem testBit_partner (q i j : Nat) :
    (partner q i).testBit j = (i.testBit j || decide (q = j)) := by
  rw [partner_eq_or, Nat.testBit_or, Nat.testBit_two_pow]

theorem testBit_base (q i : Nat) : (base q i).testBit q = false := by
  unfold base
  split
  · next h => simp [testBit_across, h]
  · next h => simpa using h

theorem base_lt (hq : q < n) {i : Nat} (hi : i < 2 ^ n) : base q i < 2 ^ n := by
  unfold base
  split
  · exact across_lt hq hi
  · exact hi

/-- Indices are equal if they agree at bit `q` and elsewhere. -/
theorem eq_of_testBit_off {i j : Nat} (q : Nat) (hq : i.testBit q = j.testBit q)
    (hother : ∀ k, q ≠ k → i.testBit k = j.testBit k) : i = j := by
  refine Nat.eq_of_testBit_eq fun k => ?_
  by_cases hk : q = k
  · exact hk ▸ hq
  · exact hother k hk

theorem partner_across {i : Nat} (h : i.testBit q = true) : partner q (across q i) = i :=
  eq_of_testBit_off q (by simp [testBit_partner, h])
    fun k hk => by simp [testBit_partner, testBit_across, hk]

theorem across_partner {i : Nat} (h : i.testBit q = false) : across q (partner q i) = i :=
  eq_of_testBit_off q (by simp [testBit_partner, testBit_across, h])
    fun k hk => by simp [testBit_partner, testBit_across, hk]

theorem across_eq_partner {i : Nat} (h : i.testBit q = false) : across q i = partner q i :=
  eq_of_testBit_off q (by simp [testBit_partner, testBit_across, h])
    fun k hk => by simp [testBit_partner, testBit_across, hk]

theorem partner_of_testBit {i : Nat} (h : i.testBit q = true) : partner q i = i :=
  eq_of_testBit_off q (by simp [testBit_partner, h]) fun k hk => by simp [testBit_partner, hk]

theorem across_across (q i : Nat) : across q (across q i) = i := by
  rw [across, across, Nat.xor_assoc, Nat.xor_self, Nat.xor_zero]

theorem across_ne (q i : Nat) : across q i ≠ i := by
  intro heq
  have hflip := testBit_across q i q
  rw [heq] at hflip
  simp at hflip

/-- Two indices have the base `i`: itself and its partner. -/
theorem base_eq_iff {i j : Nat} (hi : i.testBit q = false) :
    base q j = i ↔ j = i ∨ j = partner q i := by
  unfold base
  by_cases hj : j.testBit q = true
  · rw [if_pos hj]
    constructor
    · rintro rfl
      exact .inr (partner_across hj).symm
    · rintro (rfl | rfl)
      · rw [hi] at hj
        cases hj
      · exact across_partner hi
  · rw [if_neg hj]
    constructor
    · exact .inl
    · rintro (rfl | rfl)
      · rfl
      · rw [testBit_partner] at hj
        simp at hj

/-- Two indices have the partner `i`: itself and the one across. -/
theorem partner_eq_iff {i j : Nat} (hi : i.testBit q = true) :
    partner q j = i ↔ j = i ∨ j = across q i := by
  constructor
  · rintro rfl
    by_cases hj : j.testBit q = true
    · exact .inl (partner_of_testBit hj).symm
    · exact .inr (across_partner (by simpa using hj)).symm
  · rintro (rfl | rfl)
    · exact partner_of_testBit hi
    · exact partner_across hi

theorem partner_ne {i : Nat} (hi : i.testBit q = false) : partner q i ≠ i := by
  intro heq
  have := testBit_partner q i q
  rw [heq, hi] at this
  simp at this

/-- What an update on pairs puts at an index. -/
def paired (f : α → α → α × α) (q : Nat) (z : α) (v : Array α) (i : Nat) : α :=
  if i.testBit q then (f (v.getD (across q i) z) (v.getD i z)).2
  else (f (v.getD i z) (v.getD (partner q i) z)).1

/-- An **update on pairs** replaces each entry by what is computed from its pair. -/
theorem getD_onPairs (f : α → α → α × α) (z : α) (hq : q < n) (hv : v.size = 2 ^ n) :
    ∃ w, onPairs f q v = some w ∧ w.size = v.size ∧
      ∀ i < v.size, w.getD i z = paired f q z v i := by
  refine getD_foldlM_range (base q) (fun j hj => by rw [hv] at hj ⊢; exact base_lt hq hj) ?_
  intro i hi w hsize hfresh
  unfold pairStep
  by_cases hbit : i.testBit q = true
  · rw [if_pos hbit]
    refine ⟨w, rfl, hsize, fun j _ => (if_neg ?_).symm⟩
    rintro rfl
    rw [testBit_base] at hbit
    cases hbit
  · have hclear : i.testBit q = false := by simpa using hbit
    have hpartner : partner q i < v.size := by
      rw [hv] at hi ⊢
      exact partner_lt hq hi
    rw [if_neg hbit, dif_pos ⟨hsize ▸ hi, hsize ▸ hpartner⟩]
    refine ⟨_, rfl, by simpa using hsize, fun j _ => ?_⟩
    -- both are read before either is written
    have hlow : w[i] = v.getD i z := (getElem_eq_getD w _ z).trans
      (hfresh i hi ((base_eq_iff hclear).mpr (.inl rfl)))
    have hhigh : w[partner q i] = v.getD (partner q i) z := (getElem_eq_getD w _ z).trans
      (hfresh _ hpartner ((base_eq_iff hclear).mpr (.inr rfl)))
    refine getD_set_set (paired f q z v) _ _ (Ne.symm (partner_ne hclear))
      (fun j => base_eq_iff hclear) ?_ ?_ j
    · rw [hlow, hhigh, paired, if_neg hbit]
    · rw [hlow, hhigh, paired, if_pos (by simp [testBit_partner]), across_partner hclear]

/-! ### Exchanges -/

/-- An **exchange** brings each entry with bit `control` set from across the target wire. -/
theorem getD_exchange {control target : Nat} (hne : control ≠ target) (z : α) (hq : target < n)
    (hv : v.size = 2 ^ n) :
    ∃ w, exchange control target v = some w ∧ w.size = v.size ∧
      ∀ i < v.size, w.getD i z = v.getD (if i.testBit control then across target i else i) z := by
  refine getD_foldlM_range (base target) (fun j hj => by rw [hv] at hj ⊢; exact base_lt hq hj) ?_
  intro i hi w hsize hfresh
  -- the control bit is the same throughout a pair
  have hcontrol : ∀ j, base target j = i → j.testBit control = i.testBit control := by
    rintro j rfl
    unfold base
    split <;> simp [testBit_across, Ne.symm hne]
  unfold exchangeStep
  by_cases hactive : (i.testBit control && !i.testBit target) = true
  · obtain ⟨hset, hclear⟩ : i.testBit control = true ∧ i.testBit target = false := by
      simpa using hactive
    have hpartner : partner target i < v.size := by
      rw [hv] at hi ⊢
      exact partner_lt hq hi
    rw [if_pos hactive, dif_pos ⟨hsize ▸ hi, hsize ▸ hpartner⟩]
    refine ⟨_, rfl, by simpa using hsize, fun j _ => ?_⟩
    have howni : base target i = i := (base_eq_iff hclear).mpr (.inl rfl)
    have hownp : base target (partner target i) = i := (base_eq_iff hclear).mpr (.inr rfl)
    rw [Array.swap_def]
    refine getD_set_set (fun j => v.getD (if j.testBit control then across target j else j) z) _ _
      (Ne.symm (partner_ne hclear)) (fun j => base_eq_iff hclear) ?_ ?_ j
    · rw [getElem_eq_getD w _ z, hfresh _ hpartner hownp, if_pos hset, across_eq_partner hclear]
    · rw [getElem_eq_getD w _ z, hfresh i hi howni, if_pos ((hcontrol _ hownp).trans hset),
        across_partner hclear]
  · rw [if_neg hactive]
    refine ⟨w, rfl, hsize, fun j hj => ?_⟩
    by_cases hown : base target j = i
    · have hclear : i.testBit target = false := hown ▸ testBit_base target j
      have hidle : j.testBit control = false := by
        rw [hcontrol j hown]
        simpa [hclear] using hactive
      rw [if_pos hown, hidle, hfresh j hj hown]
      rfl
    · rw [if_neg hown]

/-- An exchange **permutes** the entries. -/
theorem perm_exchange {control target : Nat} (h : exchange control target v = some w) :
    w.toList.Perm v.toList := by
  refine of_foldlM (P := fun u => u.toList.Perm v.toList) ?_ (.refl _) h
  intro u i u' hu hstep
  unfold exchangeStep at hstep
  split at hstep
  · split at hstep
    · cases hstep
      exact (Array.swap_perm _ _).toList.trans hu
    · cases hstep
  · cases hstep
    exact hu

/-! ### Lowering -/

/-- **Lowering** a wire brings the entries with the bit set to the indices without it. -/
theorem getD_lower (zero z : α) (hq : q < n) (hv : v.size = 2 ^ n) :
    ∃ w, lower zero q v = some w ∧ w.size = v.size ∧
      ∀ i < v.size, w.getD i z = if i.testBit q then zero else v.getD (partner q i) z := by
  refine getD_foldlM_range (partner q) (fun j hj => by rw [hv] at hj ⊢; exact partner_lt hq hj) ?_
  intro i hi w hsize hfresh
  unfold lowerStep
  by_cases hbit : i.testBit q = true
  · have hacross : across q i < v.size := by
      rw [hv] at hi ⊢
      exact across_lt hq hi
    rw [if_pos hbit, dif_pos ⟨hsize ▸ hi, hsize ▸ hacross⟩]
    refine ⟨_, rfl, by simpa using hsize, fun j _ => ?_⟩
    have hown : ∀ j, partner q j = i ↔ j = across q i ∨ j = i := fun j =>
      (partner_eq_iff hbit).trans Or.comm
    refine getD_set_set (fun j => if j.testBit q then zero else v.getD (partner q j) z) _ _
      (across_ne q i) hown ?_ (if_pos hbit).symm j
    rw [getElem_eq_getD w _ z, hfresh i hi ((hown i).mpr (.inr rfl)),
      if_neg (by simp [testBit_across, hbit]), partner_across hbit]
  · rw [if_neg hbit]
    refine ⟨w, rfl, hsize, fun j _ => (if_neg ?_).symm⟩
    rintro rfl
    simp [testBit_partner] at hbit

/-- **Lowering** a wire leaves only entries that were there, and zeros. -/
theorem mem_lower {zero x : α} (h : lower zero q v = some w) (hx : x ∈ w) : x ∈ v ∨ x = zero := by
  refine of_foldlM (P := fun u => ∀ x ∈ u, x ∈ v ∨ x = zero) ?_ (fun _ => .inl) h x hx
  intro u i u' hu hstep x hx
  unfold lowerStep at hstep
  split at hstep
  · split at hstep
    · cases hstep
      obtain hx | rfl := Array.mem_or_eq_of_mem_set hx
      · obtain hx | rfl := Array.mem_or_eq_of_mem_set hx
        · exact hu x hx
        · exact hu _ (Array.getElem_mem _)
      · exact .inr rfl
    · cases hstep
  · cases hstep
    exact hu x hx

end OneWay.Kernel
