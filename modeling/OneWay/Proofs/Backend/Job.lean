import OneWay.Backend.Job
import OneWay.Proofs.Sorted

/-!
# Job tables

What the requests to a job table do to the record of each job. Identifiers are numbers in
hexadecimal digits, so no two jobs share one (`JobTable.idOf_injective`).
-/

namespace OneWay

namespace JobRecord

variable {r : JobRecord}

/-- A job that has ended stays as it is. -/
theorem advance_of_isTerminal (h : r.status.isTerminal = true) (next : JobStatus)
    (now : Instant) : r.advance next now = (false, r) := by
  have hstage : r.status.stage = 2 := by simpa [JobStatus.isTerminal] using h
  have hnext : next.stage ≤ 2 := by cases next <;> simp [JobStatus.stage]
  have hnot : r.status.precedes next = false := by
    simpa [JobStatus.precedes, hstage] using hnext
  rw [advance, if_neg (by simp [hnot])]

/-- A job that has ended drops a result. -/
theorem complete_of_isTerminal (h : r.status.isTerminal = true) (result : ExecutionResult)
    (now : Instant) : r.complete result now = (false, r) := by
  rw [complete, advance_of_isTerminal h]

theorem advance_cancelled_of_running (h : r.status = .running) (now : Instant) :
    r.advance .cancelled now = (true, { r with status := .cancelled, finishedAt := some now }) := by
  simp [advance, h, JobStatus.precedes, JobStatus.stage, JobStatus.isTerminal]

theorem complete_of_running (h : r.status = .running) (result : ExecutionResult)
    (now : Instant) :
    r.complete result now =
      (true, { r with status := .completed, finishedAt := some now, result? := some result }) := by
  simp [complete, advance, h, JobStatus.precedes, JobStatus.stage, JobStatus.isTerminal]

end JobRecord

namespace JobTable

/-! ### Identifiers -/

/-- The value of a hexadecimal digit. -/
def digitValue (c : Char) : Nat := ((List.range 16).find? (·.digitChar = c)).getD 0

/-- The value of hexadecimal digits. -/
def digitsValue (l : List Char) : Nat := l.foldl (fun value c => 16 * value + digitValue c) 0

theorem digitValue_digitChar : ∀ d < 16, digitValue d.digitChar = d := by decide

theorem digitsValue_toDigits (n : Nat) : digitsValue (Nat.toDigits 16 n) = n := by
  induction n using Nat.strongRecOn with
  | ind n ih =>
    rw [Nat.toDigits_eq_if (by decide)]
    split
    · next hn => simpa [digitsValue] using digitValue_digitChar n hn
    · next hn =>
      have hdigit := digitValue_digitChar (n % 16) (Nat.mod_lt n (by decide))
      have hrest := ih (n / 16) (by omega)
      unfold digitsValue at hrest ⊢
      rw [List.foldl_append, hrest]
      show 16 * (n / 16) + digitValue (n % 16).digitChar = n
      omega

/-- Zeros in front do not change the value. -/
theorem digitsValue_replicate_append (k : Nat) (l : List Char) :
    digitsValue (List.replicate k '0' ++ l) = digitsValue l := by
  induction k with
  | zero => rfl
  | succ k ih => exact ih

theorem digitsValue_hex (width n : Nat) : digitsValue (hex width n).toList = n := by
  simp only [hex, String.toList_ofList, digitsValue_replicate_append, digitsValue_toDigits]

/-- No two jobs share an identifier. -/
theorem idOf_injective {m n : Nat} (h : idOf m = idOf n) : m = n := by
  unfold idOf at h
  have hchars := congrArg String.toList h
  rw [String.toList_append, String.toList_append] at hchars
  have hvalue := digitsValue_hex 12 m
  rw [List.append_cancel_left hchars, digitsValue_hex] at hvalue
  exact hvalue.symm

/-! ### Requests -/

variable (t : JobTable)

theorem get?_enter (backend : String) (c : Circuit) (shots : Nat) (x : JobId) :
    (t.enter backend c shots).2.records.get? x =
      if x = idOf t.taken then
        some { id := idOf t.taken, backend, shots, numQubits := c.numQubits, status := .running }
      else t.records.get? x :=
  SortedMap.get?_insert ..

theorem get?_close (id : JobId) (result : ExecutionResult) (x : JobId) :
    (t.close id result).records.get? x =
      if x = id then (t.records.get? id).map fun r => (r.complete result).2
      else t.records.get? x := by
  unfold close
  cases hid : t.records.get? id with
  | none =>
    by_cases hx : x = id
    · rw [if_pos hx, hx]
      exact hid
    · rw [if_neg hx]
  | some r => exact SortedMap.get?_insert ..

theorem get?_cancel (id x : JobId) :
    (t.cancel id).2.records.get? x =
      if x = id then (t.records.get? id).map fun r => (r.advance .cancelled).2
      else t.records.get? x := by
  unfold cancel
  cases hid : t.records.get? id with
  | none =>
    by_cases hx : x = id
    · rw [if_pos hx, hx]
      exact hid
    · rw [if_neg hx]
  | some r => exact SortedMap.get?_insert ..

theorem taken_close (id : JobId) (result : ExecutionResult) :
    (t.close id result).taken = t.taken := by
  unfold close
  cases t.records.get? id <;> rfl

theorem taken_cancel (id : JobId) : (t.cancel id).2.taken = t.taken := by
  unfold cancel
  cases t.records.get? id <;> rfl

end JobTable

end OneWay
