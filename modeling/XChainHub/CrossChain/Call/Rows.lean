import XChainHub.CrossChain.Bridge.Retraction

/-!
Rows of cross_chain_calls and the statements of db/cross_chain.js over them. A call has one
row for each phase, and a retraction reads the source fields of both.
-/
namespace XChainHub.CrossChain.Call
open Bridge (Coin Bounds Entry Status)

inductive Phase where
  | dispatch
  | result
  deriving DecidableEq

def Phase.text : Phase → String
  | .dispatch => "dispatch"
  | .result => "result"

/- What the write, the checks of a result and the retraction read of a row. -/
structure CallRow where
  callId : String
  phase : Phase
  network : String
  sourceChain : Coin
  sourceActionIndex : ℤ
  targetChain : Coin
  pushGeneration : ℤ
  deriving DecidableEq

structure Stored extends CallRow where
  status : Status
  deriving DecidableEq

abbrev Key := String × Phase

def CallRow.key (row : CallRow) : Key := (row.callId, row.phase)

/- cross_chain_calls under its unique index call_phase. -/
abbrev Table := OrderedMap Key Stored

/- The WHERE clause of both retraction statements; retractedSince tests the same. -/
def crossChainCallRetractionTail (entry : Entry) (row : CallRow) : Bool :=
  entry.chain = row.sourceChain && entry.bounds.first ≤ row.sourceActionIndex &&
    entry.bounds.last.all (row.sourceActionIndex ≤ ·) && entry.bounds.gen.all (row.pushGeneration ≤ ·)

section Statements
variable (table : Table)

/- The upsert overwrites every column, the status of a retracted row included. -/
def setCrossChainCallFinalized (row : CallRow) : Table :=
  table.set row.key { row with status := .finalized }

def hasCrossChainCalls (callId : String) (phase : Phase) : Bool :=
  (table.get (callId, phase)).any (fun row => row.status ≠ .retracted)

def getCrossChainCallByCallId (callId : String) : Option Stored :=
  (table.get (callId, .dispatch)).filter (fun row => row.status ≠ .retracted)

def findCrossChainCallDispatchesAwaitingResult (targetChain : Coin) (parked : List String) :
    List CallRow :=
  ((table.entries.filter (fun e =>
    e.1.2 = .dispatch && e.2.status = .finalized && e.2.targetChain = targetChain &&
      !hasCrossChainCalls table e.1.1 .result && e.1.1 ∉ parked)).take 100).map (·.2.toCallRow)

def findFinalizedCrossChainCallsInRetractionRange (entry : Entry) : List Stored :=
  (table.entries.filter (fun e =>
    e.2.status = .finalized && crossChainCallRetractionTail entry e.2.toCallRow)).map Prod.snd

def retractRow (entry : Entry) (_ : Key) (row : Stored) : Stored :=
  if row.status = .finalized ∧ crossChainCallRetractionTail entry row.toCallRow = true then
    { row with status := .retracted }
  else row

def updateCrossChainCallsRetractedInRange (entry : Entry) : Table := table.mapValues (retractRow entry)

end Statements

section Laws
variable {table : Table} {entry : Entry}

/-- Nothing in the range of an entry is finalized. -/
def Cleared (table : Table) (entry : Entry) : Prop :=
  ∀ key row, table.get key = some row → row.status = .finalized →
    crossChainCallRetractionTail entry row.toCallRow = false

theorem cleared_of_none_found
    (none' : findFinalizedCrossChainCallsInRetractionRange table entry = []) : Cleared table entry := by
  intro key row held final
  by_contra covers
  rw [Bool.not_eq_false] at covers
  have member : row ∈ findFinalizedCrossChainCallsInRetractionRange table entry :=
    List.mem_map.mpr ⟨(key, row), List.mem_filter.mpr
      ⟨OrderedMap.mem_of_get held, by simp [final, covers]⟩, rfl⟩
  rw [none'] at member
  exact absurd member List.not_mem_nil

/-- The range update leaves a row as it was, or retracts it. -/
theorem update_cases {other : Entry} {key : Key} {row : Stored}
    (held : (updateCrossChainCallsRetractedInRange table other).get key = some row) :
    row.status = .retracted ∨ table.get key = some row ∧
      (row.status = .finalized → crossChainCallRetractionTail other row.toCallRow = false) := by
  rw [updateCrossChainCallsRetractedInRange, OrderedMap.get_map_values, Option.map_eq_some_iff] at held
  obtain ⟨old, found, rfl⟩ := held
  unfold retractRow
  split
  · exact Or.inl rfl
  · rename_i missed
    refine Or.inr ⟨found, fun final => ?_⟩
    by_contra covers
    rw [Bool.not_eq_false] at covers
    exact missed ⟨final, covers⟩

theorem update_clears : Cleared (updateCrossChainCallsRetractedInRange table entry) entry := by
  intro key row held final
  rcases update_cases held with gone | ⟨-, free⟩
  · rw [gone] at final
    exact absurd final (by decide)
  · exact free final

theorem Cleared.update (clear : Cleared table entry) (other : Entry) :
    Cleared (updateCrossChainCallsRetractedInRange table other) entry := by
  intro key row held final
  rcases update_cases held with gone | ⟨old, -⟩
  · rw [gone] at final
    exact absurd final (by decide)
  · exact clear key row old final

/-- The upsert finalizes its own row and no other. -/
theorem Cleared.upsert (clear : Cleared table entry) {row : CallRow}
    (free : crossChainCallRetractionTail entry row = false) :
    Cleared (setCrossChainCallFinalized table row) entry := by
  intro key found held final
  unfold setCrossChainCallFinalized at held
  by_cases same : key = row.key
  · rw [same, OrderedMap.get_set_same, Option.some.injEq] at held
    rw [← held]
    exact free
  · rw [OrderedMap.get_set_other same] at held
    exact clear key found held final

end Laws
end XChainHub.CrossChain.Call
