import XChainHub.Library.OrderedMap
import XChainHub.Library.PaidLog

/-!
The marker table of batch windows: attest_published_batches with the statements of
db/attestation.js, for one network. Each statement is one definition; what it
answers is the number of rows it touched.
-/
namespace XChainHub.Attestation.BatchPublisher
open PaidLog

inductive Status where
  | tracking
  | intent
  | sent
  | landed
  | skipped
  | deadletter
  | reopened
  deriving DecidableEq

structure Marker where
  windowEnd : ℕ
  status : Status
  deriving DecidableEq

/- Keyed by the start of the window. -/
abbrev Table := OrderedMap ℕ Marker

section Statements
variable (table : Table) (start : ℕ)

def statusAt : Option Status := (table.get start).map Marker.status

def deleteAttestPublishedBatch (status : Status) : Table × ℕ :=
  if statusAt table start = some status then (table.erase start, 1) else (table, 0)

/- INSERT IGNORE: a row of any status stays as it is. -/
def setAttestPublishedBatchByNetwork (windowEnd : ℕ) (status : Status) : Table × ℕ :=
  if (table.get start).isSome then (table, 0) else (table.set start ⟨windowEnd, status⟩, 1)

/- ON DUPLICATE KEY UPDATE: the status is written over whatever is there. -/
def upsertStatus (windowEnd : ℕ) (status : Status) : Table :=
  match table.get start with
  | none => table.set start ⟨windowEnd, status⟩
  | some row => table.set start { row with status := status }

def updateAttestPublishedBatchStatus (windowEnd : ℕ) (before after : Status) : Table × ℕ :=
  match table.get start with
  | none => (table, 0)
  | some row =>
    if row.windowEnd = windowEnd ∧ row.status = before then
      (table.set start { row with status := after }, 1)
    else (table, 0)

def updateAttestPublishedBatch (before after : Status) : Table × ℕ :=
  match table.get start with
  | none => (table, 0)
  | some row =>
    if row.status = before then (table.set start { row with status := after }, 1) else (table, 0)

end Statements

/- Markers of a window that has been paid for, or that nothing will publish. -/
def Status.holds : Status → Bool
  | .intent | .sent | .landed | .deadletter => true
  | .tracking | .skipped | .reopened => false

def Held (table : Table) (start : ℕ) : Prop := ∃ s ∈ statusAt table start, s.holds = true

instance (table : Table) (start : ℕ) : Decidable (Held table start) :=
  decidable_of_iff ((statusAt table start).any Status.holds = true) (by
    unfold Held
    cases statusAt table start <;> simp)

section Laws
variable {table : Table} {start other : ℕ}

@[simp] theorem status_at_set_same (row : Marker) :
    statusAt (table.set start row) start = some row.status := by
  simp [statusAt]

theorem status_at_set_other (row : Marker) (apart : other ≠ start) :
    statusAt (table.set start row) other = statusAt table other := by
  rw [statusAt, OrderedMap.get_set_other apart, statusAt]

theorem delete_other {status : Status} (apart : other ≠ start) :
    statusAt (deleteAttestPublishedBatch table start status).1 other = statusAt table other := by
  unfold deleteAttestPublishedBatch
  split
  · simp only [statusAt, OrderedMap.get_erase_other apart]
  · rfl

/-- A delete under a status that does not hold the window leaves the held ones. -/
theorem delete_held {status : Status} (open' : status.holds = false) (held : Held table other) :
    Held (deleteAttestPublishedBatch table start status).1 other := by
  unfold deleteAttestPublishedBatch
  split
  · rename_i same
    obtain ⟨s, at', holds⟩ := held
    by_cases apart : other = start
    · rw [apart, same, Option.mem_some_iff] at at'
      rw [← at', open'] at holds
      exact Bool.noConfusion holds
    · refine ⟨s, ?_, holds⟩
      rw [statusAt, OrderedMap.get_erase_other apart]
      exact at'
  · exact held

theorem insert_held {windowEnd : ℕ} {status : Status} (held : Held table other) :
    Held (setAttestPublishedBatchByNetwork table start windowEnd status).1 other := by
  unfold setAttestPublishedBatchByNetwork
  split
  · exact held
  · rename_i absent
    obtain ⟨s, at', holds⟩ := held
    have apart : other ≠ start := by
      rintro rfl
      rw [Bool.not_eq_true, Option.isSome_eq_false_iff, Option.isNone_iff_eq_none] at absent
      rw [statusAt, absent] at at'
      exact absurd at' (by simp)
    exact ⟨s, by rw [status_at_set_other _ apart]; exact at', holds⟩

theorem insert_created {windowEnd : ℕ} {status : Status}
    (created : (setAttestPublishedBatchByNetwork table start windowEnd status).2 = 1) :
    statusAt table start = none ∧
      statusAt (setAttestPublishedBatchByNetwork table start windowEnd status).1 start =
        some status := by
  unfold setAttestPublishedBatchByNetwork at created ⊢
  split at created
  · exact absurd created (by simp)
  · rename_i absent
    rw [if_neg absent]
    refine ⟨?_, status_at_set_same _⟩
    rw [Bool.not_eq_true, Option.isSome_eq_false_iff, Option.isNone_iff_eq_none] at absent
    rw [statusAt, absent]
    rfl

theorem upsert_same {windowEnd : ℕ} {status : Status} :
    statusAt (upsertStatus table start windowEnd status) start = some status := by
  unfold upsertStatus
  split <;> exact status_at_set_same _

theorem upsert_other {windowEnd : ℕ} {status : Status} (apart : other ≠ start) :
    statusAt (upsertStatus table start windowEnd status) other = statusAt table other := by
  unfold upsertStatus
  split <;> exact status_at_set_other _ apart

variable (table start) in
theorem update_status_cases (windowEnd : ℕ) (before after : Status) :
    (updateAttestPublishedBatchStatus table start windowEnd before after = (table, 0)) ∨
    statusAt table start = some before ∧
      ∃ row, updateAttestPublishedBatchStatus table start windowEnd before after =
        (table.set start row, 1) ∧ row.status = after := by
  unfold updateAttestPublishedBatchStatus
  split
  · exact Or.inl rfl
  · rename_i row found
    split
    · rename_i both
      exact Or.inr ⟨by rw [statusAt, found, ← both.2]; rfl, _, rfl, rfl⟩
    · exact Or.inl rfl

variable (table start) in
theorem update_cases (before after : Status) :
    (updateAttestPublishedBatch table start before after = (table, 0)) ∨
    statusAt table start = some before ∧
      ∃ row, updateAttestPublishedBatch table start before after = (table.set start row, 1) ∧
        row.status = after := by
  unfold updateAttestPublishedBatch
  split
  · exact Or.inl rfl
  · rename_i row found
    split
    · rename_i same
      exact Or.inr ⟨by rw [statusAt, found, ← same]; rfl, _, rfl, rfl⟩
    · exact Or.inl rfl

theorem set_held {row : Marker} (holds : row.status.holds = true) (held : Held table other) :
    Held (table.set start row) other := by
  by_cases apart : other = start
  · rw [apart]
    exact ⟨row.status, status_at_set_same row, holds⟩
  · obtain ⟨s, at', holds⟩ := held
    exact ⟨s, by rw [status_at_set_other _ apart]; exact at', holds⟩

end Laws
end XChainHub.Attestation.BatchPublisher
