import XChainHub.CrossChain.Call.Rows

/-!
One CrossChainCallEngine: cross_chain/call/{poll, validate, finalize}.js over the rounds of
its consensus. A statement runs at one event and its answer is taken up at a later one.
-/
namespace XChainHub.CrossChain.Call
open SlotHeap
open Bridge (Coin Bounds Entry normalizeRetractionBounds)

/- One poll runs at a time; stamping stands for the awaits between the last look at the table
   and the proposal. -/
inductive Poll where
  | probing (row : CallRow)
  | probed (row : CallRow) (found : Bool)
  | reading (coin : Coin) (parked : List String)
  | read (pending : List CallRow)
  | stamping (row : CallRow) (rest : List CallRow)
  deriving DecidableEq

inductive VouchStage where
  | asking
  | asked (dispatch : Option CallRow)
  | confirming
  deriving DecidableEq

/- A leader's row that this hub validates before it adopts it. -/
structure Vouch where
  row : CallRow
  stage : VouchStage
  deriving DecidableEq

inductive WriteStage where
  | snapshot
  | chainId
  | upserting
  | upserted
  | mirroring
  deriving DecidableEq

/- A pending token. known and passed are history: the retractions recorded when the round
   reached its quorum, and those recorded when the write made its fence check. -/
structure Write where
  seq : ℕ
  row : CallRow
  stage : WriteStage
  known : List Entry
  passed : List Entry
  deriving DecidableEq

inductive CallStage where
  | selecting
  | selected (rows : List Stored)
  | updating (rows : List Stored)
  | updated (rows : List Stored)
  deriving DecidableEq

/- A running retractCallsForReorg. -/
structure Retraction where
  entry : Entry
  stage : CallStage
  deriving DecidableEq

/- recorded, closed, returned, touched and refused are history: the retractions that were
   recorded, those whose last statement has run and those that have returned, the rows each one
   retracted, and the rows whose write was given up with the retractions that covered them. -/
structure Engine where
  table : Table
  fence : List Entry
  retractionSeq : ℕ
  writes : List (Option Write)
  retractions : List (Option Retraction)
  vouches : List (Option Vouch)
  rounds : OrderedMap String CallRow
  finalized : OrderedSet String
  inflight : OrderedSet String
  polling : Option Poll
  recorded : List Entry
  closed : List Entry
  returned : List Entry
  touched : List (Entry × CallRow)
  refused : List (CallRow × List Entry)

inductive Event where
  | pollDispatch (row : CallRow)
  | pollResults (coin : Coin) (parked : List String)
  | pollRan
  | pollAnswered (ok : Bool)
  | proposed (row : CallRow)
  | vouchRan (n : ℕ)
  | vouchAnswered (n : ℕ) (ok : Bool)
  | synced (row : CallRow)
  | abandoned (id : String)
  | committed (id : String)
  | ringFull (id : String)
  | writeRan (n : ℕ)
  | writeAnswered (n : ℕ) (ok : Bool)
  | retract (chain : Coin) (first : Option ℤ) (last gen : Option (Option ℤ))
  | retractionRan (k : ℕ)
  | retractionAnswered (k : ℕ) (ok : Bool)
  | restart

section Rounds
variable (sha256 : String → String) (h : Engine)

def roundId (phase : Phase) (callId : String) : String :=
  sha256 ("XCALLROUND|" ++ phase.text ++ "|" ++ callId)

def CallRow.roundId (row : CallRow) : String := Call.roundId sha256 row.phase row.callId

/- The consensus ignores a proposal for a round that is open or finalized. -/
def propose (row : CallRow) : Engine :=
  if row.roundId sha256 ∈ h.finalized ∨ h.rounds.has (row.roundId sha256) = true then h
  else { h with rounds := h.rounds.set (row.roundId sha256) row }

/- forgetFinalized also evicts a round that is still open. -/
def forgetFinalized (id : String) : Engine :=
  { h with finalized := h.finalized.erase id, rounds := h.rounds.erase id }

def releaseRound (id : String) : Engine :=
  forgetFinalized { h with inflight := h.inflight.erase id } id

end Rounds

section Polls
variable (sha256 : String → String) (h : Engine)

/- A request that passes the gates of maybeDispatch. -/
def maybeDispatch (row : CallRow) : Engine :=
  if h.polling.isSome then h
  else if row.roundId sha256 ∈ h.inflight then h
  else { h with polling := some (.probing row) }

def pollTargetResults (coin : Coin) (parked : List String) : Engine :=
  if h.polling.isSome then h else { h with polling := some (.reading coin parked) }

/- The result row of a dispatch inherits its source fields. -/
def resultRow (dispatch : CallRow) : CallRow := { dispatch with phase := .result }

def maybeRelayResult : List CallRow → Engine
  | [] => { h with polling := none }
  | dispatch :: rest =>
    if (resultRow dispatch).roundId sha256 ∈ h.inflight then maybeRelayResult rest
    else { h with polling := some (.stamping (resultRow dispatch) rest) }

def pollRan : Engine :=
  match h.polling with
  | some (.probing row) =>
    { h with polling := some (.probed row (hasCrossChainCalls h.table row.callId row.phase)) }
  | some (.reading coin parked) =>
    { h with
      polling := some (.read (findCrossChainCallDispatchesAwaitingResult h.table coin parked)) }
  | _ => h

/- ok: the awaited promise resolves with something to go on with. -/
def pollAnswered (ok : Bool) : Engine :=
  match h.polling, ok with
  | some (.probed row found), true =>
    if found then { h with polling := none } else { h with polling := some (.stamping row []) }
  | some (.read pending), true => maybeRelayResult sha256 h pending
  | some (.stamping row rest), true =>
    maybeRelayResult sha256
      (propose sha256 { h with inflight := h.inflight.add (row.roundId sha256) } row) rest
  | some (.stamping _ rest), false => maybeRelayResult sha256 h rest
  | some (.probed ..), false | some (.read _), false => { h with polling := none }
  | some (.probing _), _ | some (.reading ..), _ | none, _ => h

end Polls

section Followers
variable (sha256 : String → String) (h : Engine)

/- A dispatch is confirmed by the source indexer alone, a result first by the own dispatch row. -/
def validateProposedMatch (row : CallRow) : Engine :=
  if row.sourceChain = row.targetChain then h
  else if row.roundId sha256 ∉ h.finalized ∧ h.rounds.has (row.roundId sha256) = true then
    { h with vouches := h.vouches ++ [some ⟨row, match row.phase with
      | .dispatch => .confirming
      | .result => .asking⟩] }
  else h

def validateResult (dispatch : Option CallRow) (row : CallRow) : Bool :=
  match dispatch with
  | none => false
  | some d =>
    d.sourceChain = row.sourceChain && d.targetChain = row.targetChain && d.network = row.network &&
      d.sourceActionIndex = row.sourceActionIndex && d.pushGeneration = row.pushGeneration

def putVouch (n : ℕ) (v : Vouch) (stage : VouchStage) : Engine :=
  { h with vouches := h.vouches.set n (some { v with stage := stage }) }

def endVouch (n : ℕ) : Engine := { h with vouches := h.vouches.set n none }

def adoptLeaderRow (row : CallRow) : Engine :=
  if h.rounds.has (row.roundId sha256) = true then
    { h with rounds := h.rounds.set (row.roundId sha256) row }
  else h

def vouchRan (n : ℕ) (v : Vouch) : Engine :=
  match v.stage with
  | .asking =>
    putVouch h n v (.asked ((getCrossChainCallByCallId h.table v.row.callId).map (·.toCallRow)))
  | _ => h

def vouchAnswered (n : ℕ) (v : Vouch) (ok : Bool) : Engine :=
  match v.stage, ok with
  | _, false => endVouch h n
  | .asking, true => h
  | .asked dispatch, true =>
    if validateResult dispatch v.row then putVouch h n v .confirming else endVouch h n
  | .confirming, true => adoptLeaderRow sha256 (endVouch h n) v.row

end Followers

section Fence
variable (h : Engine)

/- The oldest start among the pending writes. -/
def fenceFloor (retractionSeq : ℕ) (pending : List Write) : ℕ :=
  pending.foldl (fun low w => min low w.seq) retractionSeq

def pruneRetractionFence : Engine :=
  { h with fence := h.fence.filter (fun e => fenceFloor h.retractionSeq (h.writes.filterMap id) < e.seq) }

def retractedSince (startSeq : ℕ) (row : CallRow) : List Entry :=
  h.fence.filter (fun e => startSeq < e.seq && crossChainCallRetractionTail e row)

def recordRetraction (entry : Entry) : Engine :=
  pruneRetractionFence { h with
    retractionSeq := entry.seq
    fence := h.fence ++ [entry]
    recorded := entry :: h.recorded }

end Fence

section Writes
variable (sha256 : String → String) (h : Engine)

/- A round reaches its commit quorum. -/
def writeFinalizedRow (id : String) : Engine :=
  match h.rounds.get id with
  | none => h
  | some row =>
    { h with
      rounds := h.rounds.erase id
      finalized := h.finalized.add id
      writes := h.writes ++ [some ⟨h.retractionSeq, row, .snapshot, h.recorded, []⟩] }

/- A quorum of signatures over another row of an open round replaces its row, unvalidated. -/
def handleFinalSync (row : CallRow) : Engine :=
  writeFinalizedRow (adoptLeaderRow sha256 h row) (row.roundId sha256)

def endWrite (n : ℕ) : Engine := pruneRetractionFence { h with writes := h.writes.set n none }

def putWrite (n : ℕ) (w : Write) : Engine := { h with writes := h.writes.set n (some w) }

def deferFinalize (n : ℕ) (w : Write) : Engine := endWrite (releaseRound h (w.row.roundId sha256)) n

def checkFence (n : ℕ) (w : Write) : Engine :=
  match retractedSince h w.seq w.row with
  | [] => putWrite h n { w with stage := .upserting, passed := h.recorded }
  | hits => deferFinalize sha256 { h with refused := (w.row, hits) :: h.refused } n w

def writeRan (n : ℕ) (w : Write) : Engine :=
  match w.stage with
  | .upserting =>
    putWrite { h with table := setCrossChainCallFinalized h.table w.row } n { w with stage := .upserted }
  | _ => h

/- ok: the awaited promise resolves, as opposed to a throw or an empty snapshot. -/
def writeAnswered (n : ℕ) (w : Write) (ok : Bool) : Engine :=
  match w.stage, ok with
  | .mirroring, _ => endWrite h n
  | .chainId, _ => checkFence sha256 h n w
  | .snapshot, true => putWrite h n { w with stage := .chainId }
  | .upserted, true =>
    putWrite { h with inflight := h.inflight.erase (w.row.roundId sha256) } n { w with stage := .mirroring }
  | _, false => deferFinalize sha256 h n w
  | .upserting, true => h

end Writes

section Retractions
variable (sha256 : String → String) (h : Engine)

def retractCallsForReorg (chain : Coin) (first : Option ℤ) (last gen : Option (Option ℤ)) : Engine :=
  match normalizeRetractionBounds first last gen with
  | none => h
  | some bounds =>
    let entry : Entry := ⟨h.retractionSeq + 1, chain, bounds⟩
    { recordRetraction h entry with retractions := h.retractions ++ [some ⟨entry, .selecting⟩] }

def putRetraction (k : ℕ) (c : Retraction) (stage : CallStage) : Engine :=
  { h with retractions := h.retractions.set k (some { c with stage := stage }) }

def returnRetraction (k : ℕ) (c : Retraction) : Engine :=
  { h with retractions := h.retractions.set k none, returned := c.entry :: h.returned }

def retractionRan (k : ℕ) (c : Retraction) : Engine :=
  match c.stage with
  | .selecting =>
    let rows := findFinalizedCrossChainCallsInRetractionRange h.table c.entry
    putRetraction { h with closed := if rows = [] then c.entry :: h.closed else h.closed } k c
      (.selected rows)
  | .updating rows =>
    putRetraction { h with
      table := updateCrossChainCallsRetractedInRange h.table c.entry
      closed := c.entry :: h.closed
      touched := (findFinalizedCrossChainCallsInRetractionRange h.table c.entry).map
        (fun row => (c.entry, row.toCallRow)) ++ h.touched } k c (.updated rows)
  | _ => h

/- A throw ends the call; it has not returned. -/
def retractionAnswered (k : ℕ) (c : Retraction) (ok : Bool) : Engine :=
  match c.stage, ok with
  | _, false => { h with retractions := h.retractions.set k none }
  | .selected [], true => returnRetraction h k c
  | .selected (row :: rows), true => putRetraction h k c (.updating (row :: rows))
  | .updated rows, true =>
    returnRetraction (rows.foldl (fun s row => releaseRound s (row.roundId sha256)) h) k c
  | .selecting, true | .updating _, true => h

end Retractions

section Steps
variable (sha256 : String → String)

/- Only the table outlives the process. -/
def restart (h : Engine) : Engine :=
  { h with
    fence := []
    retractionSeq := 0
    writes := []
    retractions := []
    vouches := []
    rounds := OrderedMap.empty
    finalized := OrderedSet.empty
    inflight := OrderedSet.empty
    polling := none }

def step (h : Engine) (ev : Event) : Engine :=
  match ev with
  | .pollDispatch row => maybeDispatch sha256 h { row with phase := .dispatch }
  | .pollResults coin parked => pollTargetResults h coin parked
  | .pollRan => pollRan h
  | .pollAnswered ok => pollAnswered sha256 h ok
  | .proposed row => validateProposedMatch sha256 h row
  | .vouchRan n => (slotAt h.vouches n).elim h (vouchRan h n)
  | .vouchAnswered n ok => (slotAt h.vouches n).elim h (fun v => vouchAnswered sha256 h n v ok)
  | .synced row => handleFinalSync sha256 h row
  | .abandoned id => { h with inflight := h.inflight.erase id, rounds := h.rounds.erase id }
  | .committed id => writeFinalizedRow h id
  | .ringFull id => { h with finalized := h.finalized.erase id }
  | .writeRan n => (slotAt h.writes n).elim h (writeRan h n)
  | .writeAnswered n ok => (slotAt h.writes n).elim h (fun w => writeAnswered sha256 h n w ok)
  | .retract chain first last gen => retractCallsForReorg h chain first last gen
  | .retractionRan k => (slotAt h.retractions k).elim h (retractionRan h k)
  | .retractionAnswered k ok =>
    (slotAt h.retractions k).elim h (fun c => retractionAnswered sha256 h k c ok)
  | .restart => restart h

def Engine.start : Engine :=
  ⟨OrderedMap.empty, [], 0, [], [], [], OrderedMap.empty, OrderedSet.empty, OrderedSet.empty, none,
    [], [], [], [], []⟩

end Steps
end XChainHub.CrossChain.Call
