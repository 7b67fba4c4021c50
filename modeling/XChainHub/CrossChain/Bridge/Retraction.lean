import XChainHub.Library.OrderedMap
import XChainHub.Library.SlotHeap
import XChainHub.CrossChain.Bridge.Legs

/-!
Finalize writes and retractions of one CrossChainBridgeEngine: cross_chain/bridge/persist.js,
the statements of db/bridge_transfers.js and the leg guards of transfer_poll.js. A statement
runs at one event and its answer is taken up at a later one.
-/
namespace XChainHub.CrossChain.Bridge
open SlotHeap

/- What the write and the retraction read of a row. -/
structure Transfer where
  leg : Leg
  pushGeneration : ℤ
  deriving DecidableEq

inductive Status where
  | finalized
  | retracted
  deriving DecidableEq

structure Stored extends Transfer where
  status : Status
  deriving DecidableEq

/- bridge_transfers, keyed by the transfer id. -/
abbrev Table := OrderedMap String Stored

structure Bounds where
  first : ℤ
  last : Option ℤ
  gen : Option ℤ
  deriving DecidableEq

/- A bound that was supplied but does not parse is none inside; an absent one is none. -/
def normalizeRetractionBounds (first : Option ℤ) (last gen : Option (Option ℤ)) : Option Bounds := do
  let low ← first
  if low < 0 then none
  else
    let high ← last.elim (some none) (fun supplied =>
      supplied.bind (fun v => if v < low then none else some (some v)))
    let fence ← gen.elim (some none) (fun supplied =>
      supplied.bind (fun v => if v < 0 then none else some (some v)))
    some ⟨low, high, fence⟩

structure Entry where
  seq : ℕ
  chain : Coin
  bounds : Bounds
  deriving DecidableEq

def retractionCovers (entry : Entry) (row : Transfer) : Bool :=
  entry.chain = row.leg.srcChain && entry.bounds.first ≤ row.leg.srcActionIndex &&
    entry.bounds.last.all (row.leg.srcActionIndex ≤ ·) && entry.bounds.gen.all (row.pushGeneration ≤ ·)

inductive WriteStage where
  | snapshot
  | chainId
  | inserting
  | inserted (fresh : Bool)
  | reviving
  | revived (changed : Bool)
  | mirroring
  deriving DecidableEq

/- A pending token. -/
structure Write where
  seq : ℕ
  row : Transfer
  stage : WriteStage
  deriving DecidableEq

inductive CallStage where
  | waiting (slots : List ℕ)
  | selecting
  | selected (ids : List String)
  | updating (id : String) (rest : List String)
  | updated (id : String) (rest : List String)
  deriving DecidableEq

/- A running retractTransfersForReorg. -/
structure Call where
  entry : Entry
  stage : CallStage
  deriving DecidableEq

/- recorded, returned, touched and refused are history: the retractions that were recorded and
   those that have returned, the finalized rows each one retracted, and the rows whose write was
   given up with the retractions that covered them. -/
structure Engine where
  table : Table
  fence : List Entry
  retractionSeq : ℕ
  writes : List (Option Write)
  calls : List (Option Call)
  rounds : OrderedMap String Transfer
  inflight : OrderedSet String
  inflightSourceLegs : OrderedSet (Coin × ℤ)
  inflightTransferLeg : OrderedMap String (Coin × ℤ)
  polled : Option Transfer
  recorded : List Entry
  returned : List Entry
  touched : List (Entry × Transfer)
  refused : List (Transfer × List Entry)

inductive Event where
  | poll (t : Transfer)
  | stamped (ok : Bool)
  | joined (t : Transfer)
  | abandoned (id : String)
  | committed (id : String)
  | writeRan (n : ℕ)
  | writeAnswered (n : ℕ) (ok : Bool)
  | retract (chain : Coin) (first : Option ℤ) (last gen : Option (Option ℤ))
  | callRan (k : ℕ)
  | callAnswered (k : ℕ) (ok : Bool)
  | restart

section Statements
variable (table : Table)

def insertIgnore (id : String) (row : Transfer) : Table × Bool :=
  if table.has id then (table, false) else (table.set id { row with status := .finalized }, true)

/- The revive rewrites what the new round chose; the source leg stays as it was inserted. -/
def reviveRetracted (id : String) (row : Transfer) : Table × Bool :=
  match table.get id with
  | none => (table, false)
  | some old =>
    if old.status = .retracted then
      (table.set id { old with pushGeneration := row.pushGeneration, status := .finalized }, true)
    else (table, false)

def updateBridgeTransfer (id : String) : Table :=
  match table.get id with
  | none => table
  | some old => table.set id { old with status := .retracted }

def bridgeTransferExistsForSource (leg : Leg) : Bool :=
  table.entries.any (fun e => e.2.leg.srcChain = leg.srcChain &&
    e.2.leg.srcActionIndex = leg.srcActionIndex && e.2.status ≠ .retracted)

def findFinalizedBridgeTransferIdsForReorg (entry : Entry) : List String :=
  (table.entries.filter (fun e =>
    e.2.status = .finalized && retractionCovers entry e.2.toTransfer)).map Prod.fst

end Statements

section Polls
variable (cfg : Params) (h : Engine)

def Transfer.id (t : Transfer) : String := deriveTransferId cfg cfg.network t.leg

def Transfer.sourceLegKey (t : Transfer) : Coin × ℤ := (t.leg.srcChain, t.leg.srcActionIndex)

/- A leg that passes the depth and the gates of admitTransferLeg; one poll at a time. -/
def poll (t : Transfer) : Engine :=
  if h.polled.isSome then h
  else if t.id cfg ∈ h.inflight then h
  else if t.sourceLegKey ∈ h.inflightSourceLegs then h
  else if bridgeTransferExistsForSource h.table t.leg then h
  else { h with polled := some t }

def openRound (t : Transfer) : Engine :=
  if h.rounds.has (t.id cfg) then h else { h with rounds := h.rounds.set (t.id cfg) t }

/- The stamps and the validator set are resolved: the leg is guarded and the round opens. -/
def proposeTransfer (ok : Bool) : Engine :=
  match h.polled with
  | none => h
  | some t =>
    let free := { h with polled := none }
    if ok then
      openRound cfg { free with
        inflight := h.inflight.add (t.id cfg)
        inflightSourceLegs := h.inflightSourceLegs.add t.sourceLegKey
        inflightTransferLeg := h.inflightTransferLeg.set (t.id cfg) t.sourceLegKey } t
    else free

def releaseSourceLegGuard (id : String) : Engine :=
  let plain := { h with inflight := h.inflight.erase id }
  match h.inflightTransferLeg.get id with
  | none => plain
  | some legKey =>
    { plain with
      inflightSourceLegs := h.inflightSourceLegs.erase legKey
      inflightTransferLeg := h.inflightTransferLeg.erase id }

end Polls

section Fence
variable (h : Engine)

def pruneRetractionFence : Engine :=
  let floor := (h.writes.filterMap id).foldl (fun low w => min low w.seq) h.retractionSeq
  { h with fence := h.fence.filter (fun e => floor < e.seq) }

def retractedSince (startSeq : ℕ) (row : Transfer) : List Entry :=
  h.fence.filter (fun e => startSeq < e.seq && retractionCovers e row)

def recordRetraction (entry : Entry) : Engine :=
  pruneRetractionFence { h with
    retractionSeq := entry.seq
    fence := h.fence ++ [entry]
    recorded := entry :: h.recorded }

end Fence

section Writes
variable (cfg : Params) (h : Engine)

/- A round reaches its commit quorum. -/
def writeFinalizedTransfer (id : String) : Engine :=
  match h.rounds.get id with
  | none => h
  | some t =>
    { h with
      rounds := h.rounds.erase id
      writes := h.writes ++ [some ⟨h.retractionSeq, t, .snapshot⟩] }

def endWrite (n : ℕ) : Engine := pruneRetractionFence { h with writes := h.writes.set n none }

def putWrite (n : ℕ) (w : Write) (stage : WriteStage) : Engine :=
  { h with writes := h.writes.set n (some { w with stage := stage }) }

def deferWrite (n : ℕ) (w : Write) : Engine := endWrite (releaseSourceLegGuard h (w.row.id cfg)) n

/- retractedSince, with what comes of it. -/
def unlessRetracted (n : ℕ) (w : Write) (next : Engine) : Engine :=
  match retractedSince h w.seq w.row with
  | [] => next
  | hits => deferWrite cfg { h with refused := (w.row, hits) :: h.refused } n w

def settleWrite (n : ℕ) (w : Write) (written : Bool) : Engine :=
  unlessRetracted cfg h n w
    (let released := releaseSourceLegGuard h (w.row.id cfg)
    if written then putWrite released n w .mirroring else endWrite released n)

def writeRan (n : ℕ) (w : Write) : Engine :=
  match w.stage with
  | .inserting =>
    let result := insertIgnore h.table (w.row.id cfg) w.row
    putWrite { h with table := result.1 } n w (.inserted result.2)
  | .reviving =>
    let result := reviveRetracted h.table (w.row.id cfg) w.row
    putWrite { h with table := result.1 } n w (.revived result.2)
  | _ => h

/- ok: the awaited promise resolves, as opposed to a throw or an empty snapshot. -/
def writeAnswered (n : ℕ) (w : Write) (ok : Bool) : Engine :=
  match w.stage, ok with
  | .mirroring, _ => endWrite h n
  | _, false => deferWrite cfg h n w
  | .snapshot, true => putWrite h n w .chainId
  | .chainId, true => unlessRetracted cfg h n w (putWrite h n w .inserting)
  | .inserted fresh, true => if fresh then settleWrite cfg h n w true else putWrite h n w .reviving
  | .revived changed, true => settleWrite cfg h n w changed
  | .inserting, true | .reviving, true => h

end Writes

section Retractions
variable (cfg : Params) (h : Engine)

/- The slots of the pending writes that a retraction waits for. -/
def coveredWrites (entry : Entry) : List ℕ :=
  (List.range h.writes.length).filter (fun n =>
    (slotAt h.writes n).any (fun w => w.seq < entry.seq && retractionCovers entry w.row))

def retractTransfersForReorg (chain : Coin) (first : Option ℤ) (last gen : Option (Option ℤ)) :
    Engine :=
  match normalizeRetractionBounds first last gen with
  | none => h
  | some bounds =>
    let entry : Entry := ⟨h.retractionSeq + 1, chain, bounds⟩
    let noted := recordRetraction h entry
    { noted with calls := h.calls ++ [some ⟨entry, .waiting (coveredWrites noted entry)⟩] }

def putCall (k : ℕ) (c : Call) (stage : CallStage) : Engine :=
  { h with calls := h.calls.set k (some { c with stage := stage }) }

def nextRow (k : ℕ) (c : Call) (ids : List String) : Engine :=
  match ids with
  | [] => { h with calls := h.calls.set k none, returned := c.entry :: h.returned }
  | id :: rest => putCall h k c (.updating id rest)

def callRan (k : ℕ) (c : Call) : Engine :=
  match c.stage with
  | .selecting => putCall h k c (.selected (findFinalizedBridgeTransferIdsForReorg h.table c.entry))
  | .updating id rest =>
    putCall { h with
      table := updateBridgeTransfer h.table id
      touched := match h.table.get id with
        | none => h.touched
        | some row =>
          if row.status = .finalized then (c.entry, row.toTransfer) :: h.touched else h.touched } k c
      (.updated id rest)
  | _ => h

/- A throw ends the call; it has not returned. -/
def callAnswered (k : ℕ) (c : Call) (ok : Bool) : Engine :=
  match c.stage, ok with
  | .waiting slots, _ =>
    if slots.all (fun n => (slotAt h.writes n).isNone) then putCall h k c .selecting else h
  | _, false => { h with calls := h.calls.set k none }
  | .selected ids, true => nextRow h k c ids
  | .updated id rest, true => nextRow (releaseSourceLegGuard h id) k c rest
  | .selecting, true | .updating .., true => h

end Retractions

section Steps
variable (cfg : Params)

/- Only the table outlives the process. -/
def restart (h : Engine) : Engine :=
  { h with
    fence := []
    retractionSeq := 0
    writes := []
    calls := []
    rounds := OrderedMap.empty
    inflight := OrderedSet.empty
    inflightSourceLegs := OrderedSet.empty
    inflightTransferLeg := OrderedMap.empty
    polled := none }

def step (h : Engine) (ev : Event) : Engine :=
  match ev with
  | .poll t => poll cfg h t
  | .stamped ok => proposeTransfer cfg h ok
  | .joined t => openRound cfg h t
  | .abandoned id => releaseSourceLegGuard { h with rounds := h.rounds.erase id } id
  | .committed id => writeFinalizedTransfer h id
  | .writeRan n => (slotAt h.writes n).elim h (writeRan cfg h n)
  | .writeAnswered n ok => (slotAt h.writes n).elim h (fun w => writeAnswered cfg h n w ok)
  | .retract chain first last gen => retractTransfersForReorg h chain first last gen
  | .callRan k => (slotAt h.calls k).elim h (callRan h k)
  | .callAnswered k ok => (slotAt h.calls k).elim h (fun c => callAnswered h k c ok)
  | .restart => restart h

def Engine.start : Engine :=
  ⟨OrderedMap.empty, [], 0, [], [], OrderedMap.empty, OrderedSet.empty, OrderedSet.empty,
    OrderedMap.empty, none, [], [], [], []⟩

end Steps
end XChainHub.CrossChain.Bridge
