import XChainHub.Lib.IdempotentBroadcast
import XChainHub.Attestation.BatchPublisher.Markers

/-!
The window sweep of one hub: attestation/batch_publisher/window.js, broadcast.js,
chain_reconcile.js and the marker writes of markers.js. Every await is a stage; the
receive half's landings and retractions come between any two of them.
-/
namespace XChainHub.Attestation.BatchPublisher
open PaidLog IdempotentBroadcast

structure Params where
  windowS : ℕ
  maxRefusalAttempts : ℕ

def maxCatchupWindows : ℕ := 4

def attestBatchMaxRows : ℕ := 256

inductive Reopening where
  | skipped
  | reopened
  deriving DecidableEq

def Reopening.status : Reopening → Status
  | .skipped => .skipped
  | .reopened => .reopened

/- reopenedFrom names the marker that the claim must remove. -/
structure Candidate where
  start : ℕ
  reopenedFrom : Option Reopening
  deriving DecidableEq

/- The marker a claim removes; a tracking row is no claim. -/
def Candidate.claims (c : Candidate) : Status := (c.reopenedFrom.map Reopening.status).getD .tracking

/- What became of a statement: done, failed and not done, or failed to the caller only. -/
inductive Reply where
  | done
  | lost
  | left
  deriving DecidableEq

def Reply.ran : Reply → Bool
  | .lost => false
  | _ => true

/- A batch that the chain answer lists; action is its index there. -/
structure LandedBatch where
  windowStart : ℕ
  windowEnd : ℕ
  action : ℕ
  deriving DecidableEq

structure ChainAnswer where
  batches : List LandedBatch
  truncated : Bool
  deriving DecidableEq

/- How far a window with rows got before its claim: the anchor, the publisher election, the
   signing round, the encoding, the rails and the spend guard. -/
inductive Prepared where
  | deferred
  | unencodable
  | wires (count : ℕ)
  deriving DecidableEq

inductive Stage where
  | marker (todo : List ℕ) (out : List Candidate)
  | skippedRows (start : ℕ) (todo : List ℕ) (out : List Candidate)
  | chain (pending : List Candidate)
  | landing (todo : List LandedBatch) (pending : List Candidate)
  | rows (c : Candidate) (rest : List Candidate)
  | skipping (c : Candidate) (rest : List Candidate)
  | burying (c : Candidate) (rest : List Candidate)
  | preparing (c : Candidate) (rest : List Candidate)
  | claimDelete (c : Candidate) (wires : ℕ) (rest : List Candidate)
  | claimInsert (c : Candidate) (wires : ℕ) (rest : List Candidate)
  | sending (c : Candidate) (wire wires : ℕ) (rest : List Candidate)
  | withdrawing (c : Candidate) (rest : List Candidate)
  | moving (c : Candidate) (rest : List Candidate)
  | marking (c : Candidate) (rest : List Candidate)
  deriving DecidableEq

/- log and landedBy are history: the payments and markers of each window, newest first, and
   the batch whose landing was recorded for it last. -/
structure Hub where
  table : Table
  refusalAttempts : OrderedMap ℕ ℕ
  call : Option Stage
  log : List (Mark ℕ)
  landedBy : OrderedMap ℕ ℕ

inductive Event where
  | sweep (now : ℕ) (floor : Option ℕ) (below : List ℕ)
  | markerRead (answered ready : Bool)
  | skippedRead (rows : Option ℕ)
  | chainRead (answer : Option ChainAnswer)
  | wrote (reply : Reply)
  | rowsRead (rows : Option ℕ)
  | prepared (answer : Prepared)
  | sent (error : Option SendError)
  | landed (batch : LandedBatch)
  | retracted (batch : LandedBatch) (was : Status)
  | restart (tracking : Option ℕ)

section Candidates
variable (cfg : Params)

def windowStartFor (now : ℕ) : ℕ := now / cfg.windowS * cfg.windowS

def windowEndFor (start : ℕ) : ℕ := start + cfg.windowS

/- Closed windows of the catch-up horizon at or above the floor, oldest first. -/
def catchupStarts (now : ℕ) (floor : Option ℕ) : List ℕ :=
  let current := windowStartFor cfg now
  ((List.range maxCatchupWindows).reverse.filterMap (fun i =>
    let back := (i + 1) * cfg.windowS
    if back ≤ current then some (current - back) else none)).filter
      (fun start => floor.all (· ≤ start))

/- reopenedBelowHorizon: the reopened windows whose wait is over, at most as many as a sweep
   catches up. -/
def reopenedBelowHorizon (table : Table) (now : ℕ) (below : List ℕ) : List Candidate :=
  let horizon := windowStartFor cfg now - maxCatchupWindows * cfg.windowS
  ((below.filter (fun start => start < horizon ∧ statusAt table start = some .reopened)).take
    maxCatchupWindows).map (fun start => ⟨start, some .reopened⟩)

end Candidates

section Steps
variable (cfg : Params)

def Hub.at (h : Hub) (stage : Stage) : Hub := { h with call := some stage }

def Hub.idle (h : Hub) : Hub := { h with call := none }

def nextMarker (h : Hub) (todo : List ℕ) (out : List Candidate) : Hub :=
  match todo with
  | [] => if out = [] then h.idle else h.at (.chain out)
  | _ :: _ => h.at (.marker todo out)

def nextWindow (h : Hub) (pending : List Candidate) : Hub :=
  match pending with
  | [] => h.idle
  | c :: rest => h.at (.rows c rest)

def sweep (h : Hub) (now : ℕ) (floor : Option ℕ) (below : List ℕ) : Hub :=
  if h.call.isSome then h
  else nextMarker h (catchupStarts cfg now floor) (reopenedBelowHorizon cfg h.table now below)

/- One turn of pendingWindows' loop; ready is the reopened window's wait. -/
def readMarker (h : Hub) (start : ℕ) (todo : List ℕ) (out : List Candidate) (ready : Bool) : Hub :=
  match statusAt h.table start with
  | none | some .tracking => nextMarker h todo (out ++ [⟨start, none⟩])
  | some .skipped => h.at (.skippedRows start todo out)
  | some .reopened =>
    if ready then nextMarker h todo (out ++ [⟨start, some .reopened⟩]) else nextMarker h todo out
  | some .intent | some .sent | some .landed | some .deadletter => nextMarker h todo out

def readSkipped (h : Hub) (start : ℕ) (todo : List ℕ) (out : List Candidate) (rows : Option ℕ) :
    Hub :=
  if rows.any (0 < ·) then nextMarker h todo (out ++ [⟨start, some .skipped⟩])
  else nextMarker h todo out

def recordLandedWindow (h : Hub) (batch : LandedBatch) : Hub :=
  { h with
    table := upsertStatus h.table batch.windowStart batch.windowEnd .landed
    log := .paid batch.windowStart :: h.log
    landedBy := h.landedBy.set batch.windowStart batch.action }

def nextLanding (h : Hub) (todo : List LandedBatch) (pending : List Candidate) : Hub :=
  match todo with
  | [] => nextWindow h pending
  | _ :: _ => h.at (.landing todo pending)

/- reconcilePendingAgainstChain, up to the landings it has yet to record. -/
def reconcile (h : Hub) (pending : List Candidate) (answer : Option ChainAnswer) : Hub :=
  match answer with
  | none => nextWindow h (pending.filter (fun c => c.reopenedFrom ≠ some .reopened))
  | some a =>
    let found := a.batches.filter (fun b =>
      b.windowStart ∈ pending.map Candidate.start ∧ b.windowEnd = windowEndFor cfg b.windowStart)
    nextLanding h found
      (if a.truncated then []
      else pending.filter (fun c => c.start ∉ found.map LandedBatch.windowStart))

def readRows (h : Hub) (c : Candidate) (rest : List Candidate) (rows : Option ℕ) : Hub :=
  match rows with
  | none => nextWindow h rest
  | some n =>
    if n = 0 then h.at (.skipping c rest)
    else if attestBatchMaxRows < n then h.at (.burying c rest)
    else h.at (.preparing c rest)

/- recordSkipped and recordDeadLetter: an upsert, its failure logged. -/
def recordStatus (h : Hub) (c : Candidate) (rest : List Candidate) (status : Status)
    (reply : Reply) : Hub :=
  nextWindow
    (if reply.ran then
      { h with table := upsertStatus h.table c.start (windowEndFor cfg c.start) status }
    else h) rest

def prepare (h : Hub) (c : Candidate) (rest : List Candidate) (answer : Prepared) : Hub :=
  match answer with
  | .deferred => nextWindow h rest
  | .unencodable => h.at (.burying c rest)
  | .wires count => if count = 0 then nextWindow h rest else h.at (.claimDelete c count rest)

def claimDelete (h : Hub) (c : Candidate) (wires : ℕ) (rest : List Candidate) (reply : Reply) :
    Hub :=
  let removed := deleteAttestPublishedBatch h.table c.start c.claims
  let after := if reply.ran then { h with table := removed.1 } else h
  if reply ≠ .done then nextWindow after rest
  else if c.reopenedFrom.isSome ∧ removed.2 ≠ 1 then nextWindow after rest
  else after.at (.claimInsert c wires rest)

/- The insert that creates the intent row is the claim; the first wire goes out with it. -/
def claimInsert (h : Hub) (c : Candidate) (wires : ℕ) (rest : List Candidate) (reply : Reply) :
    Hub :=
  let inserted := setAttestPublishedBatchByNetwork h.table c.start (windowEndFor cfg c.start) .intent
  if inserted.2 ≠ 1 ∨ reply = .lost then nextWindow h rest
  else if reply = .left then
    nextWindow { h with table := inserted.1, log := .paid c.start :: h.log } rest
  else
    { h with table := inserted.1, log := .paid c.start :: .begun c.start :: h.log }.at
      (.sending c 0 wires rest)

/- A wire's outcome: only the head's can prove the window untouched. -/
def wireSent (h : Hub) (c : Candidate) (wire wires : ℕ) (rest : List Candidate)
    (error : Option SendError) : Hub :=
  match error with
  | none => if wire + 1 < wires then h.at (.sending c (wire + 1) wires rest) else h.at (.marking c rest)
  | some e =>
    if wire = 0 ∧ isAmbiguousSendError e = false ∧ isNeverSentError e = true then
      let attempt := ((h.refusalAttempts.get c.start).getD 0) + 1
      let noted := { h with refusalAttempts := h.refusalAttempts.set c.start attempt }
      if cfg.maxRefusalAttempts ≤ attempt then noted.at (.moving c rest)
      else noted.at (.withdrawing c rest)
    else nextWindow h rest

def withdraw (h : Hub) (c : Candidate) (rest : List Candidate) (reply : Reply) : Hub :=
  let removed := deleteAttestPublishedBatch h.table c.start .intent
  nextWindow
    (if reply.ran ∧ removed.2 = 1 then
      { h with table := removed.1, log := .freed c.start :: h.log }
    else h) rest

def moveToDeadLetter (h : Hub) (c : Candidate) (rest : List Candidate) (reply : Reply) : Hub :=
  let moved := updateAttestPublishedBatchStatus h.table c.start (windowEndFor cfg c.start) .intent
    .deadletter
  let after := if reply.ran then { h with table := moved.1 } else h
  nextWindow
    (if reply = .done then { after with refusalAttempts := after.refusalAttempts.erase c.start }
    else after) rest

def markSent (h : Hub) (c : Candidate) (rest : List Candidate) (reply : Reply) : Hub :=
  let marked := updateAttestPublishedBatch h.table c.start .intent .sent
  let after :=
    if reply.ran ∧ marked.2 = 1 then { h with table := marked.1, log := .paid c.start :: h.log }
    else h
  nextWindow { after with refusalAttempts := after.refusalAttempts.erase c.start } rest

/- One of the two updates of reopenLandedWindow. A retraction of another batch than the one
   recorded last frees nothing. -/
def reopenLandedWindow (h : Hub) (batch : LandedBatch) (was : Status) : Hub :=
  let moved := updateAttestPublishedBatchStatus h.table batch.windowStart batch.windowEnd was
    .reopened
  if moved.2 = 1 then
    if was = .sent ∨ h.landedBy.get batch.windowStart = some batch.action then
      { h with table := moved.1, log := .freed batch.windowStart :: h.log }
    else { h with table := moved.1 }
  else h

/- Only the durable table outlives the process; start() may note the coverage floor. -/
def restart (h : Hub) (tracking : Option ℕ) : Hub :=
  { h with
    table := match tracking with
      | none => h.table
      | some start =>
        (setAttestPublishedBatchByNetwork h.table start (windowEndFor cfg start) .tracking).1
    refusalAttempts := OrderedMap.empty
    call := none }

def callStep (h : Hub) (stage : Stage) (ev : Event) : Hub :=
  match stage, ev with
  | .marker (start :: todo) out, .markerRead answered ready =>
    if answered then readMarker h start todo out ready else h.idle
  | .skippedRows start todo out, .skippedRead rows => readSkipped h start todo out rows
  | .chain pending, .chainRead answer => reconcile cfg h pending answer
  | .landing (batch :: todo) pending, .wrote reply =>
    match reply with
    | .done => nextLanding (recordLandedWindow h batch) todo pending
    | .left => (recordLandedWindow h batch).idle
    | .lost => h.idle
  | .rows c rest, .rowsRead rows => readRows h c rest rows
  | .skipping c rest, .wrote reply => recordStatus cfg h c rest .skipped reply
  | .burying c rest, .wrote reply => recordStatus cfg h c rest .deadletter reply
  | .preparing c rest, .prepared answer => prepare h c rest answer
  | .claimDelete c wires rest, .wrote reply => claimDelete h c wires rest reply
  | .claimInsert c wires rest, .wrote reply => claimInsert cfg h c wires rest reply
  | .sending c wire wires rest, .sent error => wireSent cfg h c wire wires rest error
  | .withdrawing c rest, .wrote reply => withdraw h c rest reply
  | .moving c rest, .wrote reply => moveToDeadLetter cfg h c rest reply
  | .marking c rest, .wrote reply => markSent h c rest reply
  | _, _ => h

def step (h : Hub) (ev : Event) : Hub :=
  match ev with
  | .sweep now floor below => sweep cfg h now floor below
  | .landed batch => recordLandedWindow h batch
  | .retracted batch was =>
    if was = .landed ∨ was = .sent then reopenLandedWindow h batch was else h
  | .restart tracking => restart cfg h tracking
  | ev =>
    match h.call with
    | none => h
    | some stage => callStep cfg h stage ev

end Steps
end XChainHub.Attestation.BatchPublisher
