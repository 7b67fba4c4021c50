import XChainHub.Library.OrderedMap

/-!
The marker table of requests: attest_published_requests with the statements of
db/attestation.js. One row a request, with one intent column for all its statuses.
-/
namespace XChainHub.Attestation.Publisher

inductive Status where
  | ok
  | providerError
  | noQuorum
  deriving DecidableEq

def Status.text : Status → String
  | .ok => "ok"
  | .providerError => "provider_error"
  | .noQuorum => "no_quorum"

/- sent_statuses NULL is the empty list: a row from before the column names none. -/
structure Row where
  sentAt : Bool
  statuses : List Status
  intent : Option Status
  deriving DecidableEq

/- Keyed by the request id in lower case. -/
abbrev Table := OrderedMap String Row

section Statements
variable (table : Table) (rid : String)

/- ON DUPLICATE KEY UPDATE: the intent is written over whatever is there. -/
def setAttestPublishedRequest (intent : Status) : Table :=
  match table.get rid with
  | none => table.set rid ⟨false, [], some intent⟩
  | some row => table.set rid { row with intent := some intent }

def appendStatus (statuses : List Status) (st : Status) : List Status :=
  if st ∈ statuses then statuses else statuses ++ [st]

def updateAttestPublishedRequestByRequestId (st : Status) : Table :=
  match table.get rid with
  | none => table
  | some row => table.set rid ⟨true, appendStatus row.statuses st, none⟩

def updateAttestPublishedRequestByRequestIdAndIntentStatus (intent : Status) : Table :=
  match table.get rid with
  | none => table
  | some row => if row.intent = some intent then table.set rid { row with intent := none } else table

def deleteAttestPublishedRequest : Table :=
  if (table.get rid).any (fun row => !row.sentAt) then table.erase rid else table

def settled (row : Row) : Bool := row.sentAt && row.intent.isNone

/- aged: the requests sent longer ago than the window, less those on the queue. -/
def deleteSettledAttestPublishedRequests (aged : List String) : Table :=
  aged.foldl (fun t r => if (t.get r).any settled then t.erase r else t) table

/- What a row has on record for one of its statuses. -/
def intentAt : Option Status := (table.get rid).bind Row.intent

def Sent (st : Status) : Prop :=
  ∃ row, table.get rid = some row ∧ row.sentAt = true ∧ st ∈ row.statuses

end Statements

section Laws
variable {table : Table} {rid other : String} {st was : Status}

theorem intent_set_same (row : Row) : intentAt (table.set rid row) rid = row.intent := by
  simp [intentAt]

theorem intent_set_other (row : Row) (apart : other ≠ rid) :
    intentAt (table.set rid row) other = intentAt table other := by
  rw [intentAt, OrderedMap.get_set_other apart, intentAt]

/-- A row written over another keeps what was sent when it keeps the sent columns. -/
theorem sent_set {row after : Row} (found : table.get rid = some row)
    (keeps : row.sentAt = true → after.sentAt = true)
    (grows : ∀ s ∈ row.statuses, s ∈ after.statuses) (sent : Sent table other was) :
    Sent (table.set rid after) other was := by
  obtain ⟨old, at', marked, named⟩ := sent
  by_cases same : other = rid
  · subst same
    rw [found, Option.some.injEq] at at'
    subst at'
    exact ⟨after, OrderedMap.get_set_same .., keeps marked, grows was named⟩
  · exact ⟨old, by rw [OrderedMap.get_set_other same]; exact at', marked, named⟩

theorem sent_new {row : Row} (absent : table.get rid = none) (sent : Sent table other was) :
    Sent (table.set rid row) other was := by
  obtain ⟨old, at', record⟩ := sent
  have apart : other ≠ rid := by
    rintro rfl
    rw [absent] at at'
    exact absurd at' (by simp)
  exact ⟨old, by rw [OrderedMap.get_set_other apart]; exact at', record⟩

@[simp] theorem arm_intent_same :
    intentAt (setAttestPublishedRequest table rid st) rid = some st := by
  unfold setAttestPublishedRequest
  split <;> exact intent_set_same _

theorem arm_intent_other (apart : other ≠ rid) :
    intentAt (setAttestPublishedRequest table rid st) other = intentAt table other := by
  unfold setAttestPublishedRequest
  split <;> exact intent_set_other _ apart

theorem arm_sent (sent : Sent table other was) :
    Sent (setAttestPublishedRequest table rid st) other was := by
  unfold setAttestPublishedRequest
  split
  · rename_i absent
    exact sent_new absent sent
  · rename_i row found
    exact sent_set found (fun marked => marked) (fun _ named => named) sent

theorem mem_append_status {statuses : List Status} {s : Status} :
    s ∈ appendStatus statuses st ↔ s ∈ statuses ∨ s = st := by
  unfold appendStatus
  split
  · rename_i present
    constructor
    · exact Or.inl
    · rintro (old | rfl)
      · exact old
      · exact present
  · simp

theorem mark_intent_other (apart : other ≠ rid) :
    intentAt (updateAttestPublishedRequestByRequestId table rid st) other = intentAt table other := by
  unfold updateAttestPublishedRequestByRequestId
  split
  · rfl
  · exact intent_set_other _ apart

theorem mark_sent (sent : Sent table other was) :
    Sent (updateAttestPublishedRequestByRequestId table rid st) other was := by
  unfold updateAttestPublishedRequestByRequestId
  split
  · exact sent
  · rename_i row found
    exact sent_set found (fun _ => rfl) (fun _ named => mem_append_status.mpr (Or.inl named)) sent

/-- The update finds the row of the intent that was armed for the send. -/
theorem mark_records (armed : intentAt table rid = some st) :
    Sent (updateAttestPublishedRequestByRequestId table rid st) rid st := by
  unfold updateAttestPublishedRequestByRequestId
  split
  · rename_i absent
    rw [intentAt, absent] at armed
    exact absurd armed (by simp)
  · exact ⟨_, OrderedMap.get_set_same .., rfl, mem_append_status.mpr (Or.inr rfl)⟩

theorem disarm_sent (sent : Sent table other was) :
    Sent (updateAttestPublishedRequestByRequestIdAndIntentStatus table rid st) other was := by
  unfold updateAttestPublishedRequestByRequestIdAndIntentStatus
  split
  · exact sent
  · rename_i row found
    split
    · exact sent_set found (fun marked => marked) (fun _ named => named) sent
    · exact sent

/-- Only the intent of the very status is withdrawn. -/
theorem disarm_intent (kept : other = rid → was ≠ st) (armed : intentAt table other = some was) :
    intentAt (updateAttestPublishedRequestByRequestIdAndIntentStatus table rid st) other =
      some was := by
  unfold updateAttestPublishedRequestByRequestIdAndIntentStatus
  split
  · exact armed
  · rename_i row found
    split
    · rename_i hit
      by_cases same : other = rid
      · subst same
        rw [intentAt, found] at armed
        rw [show row.intent = some was from armed, Option.some.injEq] at hit
        exact absurd hit (kept rfl)
      · rw [intent_set_other _ same]
        exact armed
    · exact armed

theorem delete_sent (sent : Sent table other was) :
    Sent (deleteAttestPublishedRequest table rid) other was := by
  unfold deleteAttestPublishedRequest
  split
  · rename_i unsent
    obtain ⟨row, at', marked, named⟩ := sent
    have apart : other ≠ rid := by
      rintro rfl
      rw [at', Option.any_some, marked] at unsent
      exact absurd unsent (by simp)
    exact ⟨row, by rw [OrderedMap.get_erase_other apart]; exact at', marked, named⟩
  · exact sent

/- The DELETE finds no intent: the row is a sent one, or nothing is armed on it. -/
def NothingArmed (table : Table) (rid : String) : Prop :=
  (table.get rid).all (fun row => row.sentAt || row.intent.isNone) = true

instance : Decidable (NothingArmed table rid) := by
  unfold NothingArmed
  infer_instance

theorem delete_intent (free : NothingArmed table rid) (armed : intentAt table other = some was) :
    intentAt (deleteAttestPublishedRequest table rid) other = some was := by
  unfold deleteAttestPublishedRequest
  split
  · rename_i unsent
    have apart : other ≠ rid := by
      rintro rfl
      unfold NothingArmed at free
      unfold intentAt at armed
      cases found : table.get other with
      | none => simp [found] at armed
      | some row =>
        rw [found] at free unsent armed
        rw [Option.bind_some] at armed
        rw [Option.all_some, armed] at free
        rw [Option.any_some] at unsent
        simp_all
    rw [intentAt, OrderedMap.get_erase_other apart]
    exact armed
  · exact armed

theorem prune_get {aged : List String} (young : other ∉ aged) :
    (deleteSettledAttestPublishedRequests table aged).get other = table.get other := by
  unfold deleteSettledAttestPublishedRequests
  induction aged generalizing table with
  | nil => rfl
  | cons r aged ih =>
    rw [List.mem_cons, not_or] at young
    rw [List.foldl_cons, ih young.2]
    split
    · exact OrderedMap.get_erase_other young.1
    · rfl

/-- Retention leaves every row that has an intent. -/
theorem prune_armed {aged : List String} (armed : intentAt table other = some was) :
    intentAt (deleteSettledAttestPublishedRequests table aged) other = some was := by
  unfold deleteSettledAttestPublishedRequests
  induction aged generalizing table with
  | nil => exact armed
  | cons r aged ih =>
    rw [List.foldl_cons]
    refine ih ?_
    split
    · rename_i gone
      have apart : other ≠ r := by
        rintro rfl
        unfold intentAt at armed
        cases found : table.get other with
        | none => simp [found] at armed
        | some row =>
          rw [found] at gone armed
          rw [Option.bind_some] at armed
          simp [settled, armed] at gone
      rw [intentAt, OrderedMap.get_erase_other apart]
      exact armed
    · exact armed

end Laws
end XChainHub.Attestation.Publisher
