import XChainHub.Library.PaidLog
import XChainHub.Lib.IdempotentBroadcast
import XChainHub.Attestation.Publisher.Markers

/-!
One AttestationPublisher: attestation/publisher/on_finalized.js, sweep.js, markers.js and
queue.js. A statement of a handler runs at one event and its reply is taken up at a later
one, with the other handlers in between.
-/
namespace XChainHub.Attestation.Publisher
open PaidLog IdempotentBroadcast

structure Params where
  enabled : Bool
  myPubkey : Option String
  hasBroadcaster : Bool
  failoverWindowBlocks : ℤ
  approxBlockMs : ℤ
  leaderRetryMs : ℤ
  ambiguousCooldownMs : ℤ

def attestWireMaxBytes : ℕ := 8189

/- Public keys in lower case; no responsible set is the empty list. -/
structure Entry where
  ts : ℤ
  requestId : String
  status : Status
  responsible : List String
  leaderPubkey : Option String
  deriving DecidableEq

/- What the handler reads of a finalized round: its era, its signatures, the length of its
   wire and the responsible set recomputed for it. -/
structure FinalizedEvent where
  requestId : String
  status : Status
  mirrorEra : Bool
  signatures : ℕ
  wireBytes : ℕ
  responsible : List String
  leaderPubkey : Option String

/- A statement that has not run, or its reply in hand. -/
inductive Stage where
  | reading
  | gate (row : Option Row)
  | arming
  | armed
  | sending
  | marking
  | marked
  | disarming
  | disarmed
  | deleting
  | deleted
  deriving DecidableEq

def Stage.past : Stage → Bool
  | .reading | .gate _ => false
  | _ => true

/- live: a request:finalized handler; otherwise the sweep's own send. -/
structure Flight where
  rid : String
  status : Status
  live : Bool
  stage : Stage
  deriving DecidableEq

def Flight.pair (f : Flight) : String × Status := (f.rid, f.status)

inductive Sweep where
  | fetching (entries : List Entry)
  | replaying (todo : List Entry) (pending : List String) (now : ℤ) (drop : OrderedSet String)

/- The startup SELECT of all markers: not run, its rows in hand, or loaded. -/
inductive Hydration where
  | unread
  | rows (seen : Table)
  | loaded

/- log and pruned are history: the payments of each publication, newest first, and the
   requests whose markers retention has removed. -/
structure Hub where
  table : Table
  queue : List Entry
  published : OrderedSet String
  quarantined : OrderedSet String
  ambiguousSends : OrderedMap String ℤ
  hydration : Hydration
  flights : List (Option Flight)
  sweep : Option Sweep
  log : List (Mark (String × Status))
  pruned : List String

/- Whether the queue file can be read and rewritten. -/
structure Disk where
  readable : Bool
  rewritable : Bool

inductive Event where
  | finalized (ev : FinalizedEvent) (now : ℤ) (enqueued : Bool)
  | tick (readable : Bool)
  | pendingIds (ids : Option (List String)) (now : ℤ) (disk : Disk)
  | statement (n : ℕ)
  | reply (n : ℕ) (reserved : Bool) (disk : Disk)
  | broadcast (n : ℕ) (error : Option (SendError × Bool)) (now : ℤ) (disk : Disk)
  | prune (aged : List String)
  | hydrateRead
  | hydrate
  | restart

def publicationKey (rid : String) (status : Status) : String := rid ++ "|" ++ status.text

inductive Verdict where
  | send
  | sent
  | quarantine (key : String)
  deriving DecidableEq

/- What a marker row answers for a status. -/
def markerVerdict (row : Option Row) (rid : String) (st : Status) : Verdict :=
  match row with
  | none => .send
  | some r =>
    if r.sentAt then
      if r.statuses = [] ∨ st ∈ r.statuses ∨ Status.ok ∈ r.statuses then .sent else .send
    else
      match r.intent with
      | none => .quarantine rid
      | some armed => if armed = st then .quarantine (publicationKey rid armed) else .send

section Guards
variable (h : Hub) (rid : String) (st : Status)

def isPublishedInProcess : Bool :=
  decide (rid ∈ h.published) || decide (publicationKey rid st ∈ h.published)

def isQuarantined : Bool :=
  decide (rid ∈ h.quarantined) || decide (publicationKey rid st ∈ h.quarantined)

def flightAt (n : ℕ) : Option Flight := h.flights[n]?.join

def Hub.put (n : ℕ) (f : Option Flight) : Hub := { h with flights := h.flights.set n f }

def Hub.push (f : Flight) : Hub := { h with flights := h.flights ++ [some f] }

end Guards

section Queue
variable (h : Hub)

def removeFromQueue (dropSet : OrderedSet String) (disk : Disk) : Hub :=
  if dropSet.items = [] then h
  else if disk.readable && disk.rewritable then
    { h with
      queue := h.queue.filter (fun e => e.requestId ∉ dropSet)
      published := OrderedSet.empty }
  else h

end Queue

section Sweeps
variable (cfg : Params)

def myRank (entry : Entry) : Option ℕ :=
  match cfg.myPubkey with
  | none => none
  | some me =>
    if entry.responsible = [] then
      match entry.leaderPubkey with
      | none => some 0
      | some leader => some (if leader = me then 0 else 1)
    else
      (entry.responsible.idxOf? me).map (fun idx =>
        let leaderIdx := (entry.leaderPubkey.bind (entry.responsible.idxOf? ·)).getD 0
        (idx + entry.responsible.length - leaderIdx) % entry.responsible.length)

def failoverWindowMs : ℤ := cfg.failoverWindowBlocks * cfg.approxBlockMs

def eligible (entry : Entry) (rank : ℕ) (now : ℤ) : Bool :=
  if rank = 0 then cfg.leaderRetryMs ≤ now - entry.ts
  else rank * failoverWindowMs cfg ≤ now - entry.ts

/- replayRank and ambiguousHoldsReplay on one entry: drop it, leave it, or replay it. -/
inductive Turn where
  | drop (landed : Bool)
  | leave
  | held
  | replay
  deriving DecidableEq

def replayTurn (h : Hub) (entry : Entry) (pending : List String) (now : ℤ) : Turn :=
  if isPublishedInProcess h entry.requestId entry.status then .drop false
  else if entry.requestId ∉ pending then .drop true
  else if entry.status ≠ .ok ∧ failoverWindowMs cfg < now - entry.ts then .drop false
  else
    match myRank cfg entry with
    | none => .leave
    | some rank =>
      if eligible cfg entry rank now then
        if (h.ambiguousSends.get entry.requestId).any
            (fun ambTs => now - ambTs < cfg.ambiguousCooldownMs) then .held
        else .replay
      else .leave

def forgetAmbiguous (h : Hub) (rid : String) : Hub :=
  { h with ambiguousSends := h.ambiguousSends.erase rid }

/- processQueueInner's loop, up to its next awaited marker read or its end. -/
def replayQueue (pending : List String) (now : ℤ) (disk : Disk) :
    List Entry → OrderedSet String → Hub → Hub
  | [], drop, h => { removeFromQueue h drop disk with sweep := none }
  | entry :: todo, drop, h =>
    match replayTurn cfg h entry pending now with
    | .drop landed =>
      replayQueue pending now disk todo (drop.add entry.requestId)
        (if landed then forgetAmbiguous h entry.requestId else h)
    | .leave | .held => replayQueue pending now disk todo drop h
    | .replay =>
      let cleared := forgetAmbiguous h entry.requestId
      if ¬ cfg.hasBroadcaster then replayQueue pending now disk todo drop cleared
      else if isQuarantined h entry.requestId entry.status then
        replayQueue pending now disk todo (drop.add entry.requestId) cleared
      else
        { cleared with sweep := some (.replaying todo pending now drop) }.push
          ⟨entry.requestId, entry.status, false, .reading⟩

def tick (h : Hub) (readable : Bool) : Hub :=
  match h.sweep, h.hydration with
  | none, .loaded =>
    let entries := if readable then h.queue else []
    if ¬ cfg.enabled ∨ entries = [] then h else { h with sweep := some (.fetching entries) }
  | _, _ => h

def readPending (h : Hub) (ids : Option (List String)) (now : ℤ) (disk : Disk) : Hub :=
  match h.sweep with
  | some (.fetching entries) =>
    match ids with
    | none => { h with sweep := none }
    | some pending => replayQueue cfg pending now disk entries OrderedSet.empty h
  | _ => h

end Sweeps

section Live
variable (cfg : Params)

def finalizedEventSkipped (ev : FinalizedEvent) : Bool := !cfg.enabled || ev.mirrorEra

def broadcastFinalized (h : Hub) (rid : String) (st : Status) : Hub :=
  if ¬ cfg.hasBroadcaster then h
  else if isPublishedInProcess h rid st then h
  else if isQuarantined h rid st then h
  else h.push ⟨rid, st, true, .reading⟩

def onRequestFinalized (h : Hub) (ev : FinalizedEvent) (now : ℤ) (enqueued : Bool) : Hub :=
  if finalizedEventSkipped cfg ev then h
  else if ev.signatures = 0 then h
  else if attestWireMaxBytes < ev.wireBytes then h
  else
    let leaderPubkey := ev.leaderPubkey.or ev.responsible.head?
    let isLeader := leaderPubkey.isSome && leaderPubkey = cfg.myPubkey
    if ev.status ≠ .ok ∧ ¬ isLeader then h
    else if ¬ enqueued then h
    else
      let queued := { h with
        queue := h.queue ++ [⟨now, ev.requestId, ev.status, ev.responsible, leaderPubkey⟩] }
      if ¬ isLeader then queued else broadcastFinalized cfg queued ev.requestId ev.status

end Live

section Flights
variable (cfg : Params) (h : Hub)

/- A handler that is done: the sweep takes its next entry. -/
def finish (n : ℕ) (f : Flight) (dropped : Bool) (disk : Disk) : Hub :=
  let cleared := h.put n none
  if f.live then cleared
  else
    match h.sweep with
    | some (.replaying todo pending now drop) =>
      replayQueue cfg pending now disk todo (if dropped then drop.add f.rid else drop) cleared
    | _ => cleared

/- The awaited statement of a handler runs. -/
def runStatement (n : ℕ) (f : Flight) : Hub :=
  match f.stage with
  | .reading => h.put n (some { f with stage := .gate (h.table.get f.rid) })
  | .arming =>
    { h with table := setAttestPublishedRequest h.table f.rid f.status }.put n
      (some { f with stage := .armed })
  | .marking =>
    { h with table := updateAttestPublishedRequestByRequestId h.table f.rid f.status }.put n
      (some { f with stage := .marked })
  | .disarming =>
    { h with
      table := updateAttestPublishedRequestByRequestIdAndIntentStatus h.table f.rid f.status }.put n
      (some { f with stage := .disarmed })
  | .deleting =>
    { h with table := deleteAttestPublishedRequest h.table f.rid }.put n
      (some { f with stage := .deleted })
  | _ => h

/- What durableSendGate makes of the row it read. -/
def answerGate (n : ℕ) (f : Flight) (row : Option Row) (reserved : Bool) (disk : Disk) : Hub :=
  match markerVerdict row f.rid f.status with
  | .send => if reserved then h.put n (some { f with stage := .arming }) else finish cfg h n f false disk
  | .sent =>
    finish cfg { h with published := h.published.add (publicationKey f.rid f.status) } n f true disk
  | .quarantine key =>
    finish cfg { h with quarantined := h.quarantined.add key } n f true disk

/- A handler takes up the reply of its statement. The broadcaster is invoked in the turn
   that takes up the armed intent. -/
def takeReply (n : ℕ) (f : Flight) (reserved : Bool) (disk : Disk) : Hub :=
  match f.stage with
  | .gate row => answerGate cfg h n f row reserved disk
  | .armed =>
    { h with log := .begun f.pair :: h.log }.put n (some { f with stage := .sending })
  | .marked =>
    if f.live then
      finish cfg (removeFromQueue h (OrderedSet.empty.add f.rid) disk) n f false disk
    else finish cfg h n f true disk
  | .disarmed => h.put n (some { f with stage := .deleting })
  | .deleted => finish cfg h n f false disk
  | _ => h

/- The broadcaster resolves or throws; the flag is attestAmbiguousSend on the error. -/
def settleBroadcast (n : ℕ) (f : Flight) (error : Option (SendError × Bool)) (now : ℤ)
    (disk : Disk) : Hub :=
  if f.stage ≠ .sending then h
  else
    match error with
    | none =>
      { h with
        published := h.published.add (publicationKey f.rid f.status)
        ambiguousSends := h.ambiguousSends.erase f.rid
        log := .paid f.pair :: h.log }.put n (some { f with stage := .marking })
    | some (e, attestAmbiguousSend) =>
      if isAmbiguousSendError e || attestAmbiguousSend then
        finish cfg { h with
          ambiguousSends := h.ambiguousSends.set f.rid now
          log := .refused f.pair :: h.log } n f false disk
      else
        { h with log := .refused f.pair :: h.log }.put n (some { f with stage := .disarming })

end Flights

section Lifetimes
variable (h : Hub)

/- hydratePublishedMarkers on one row. -/
def hydrateRow (sets : OrderedSet String × OrderedSet String) (marker : String × Row) :
    OrderedSet String × OrderedSet String :=
  let (rid, row) := marker
  let published :=
    if row.sentAt then
      if row.statuses = [] then sets.1.add rid
      else row.statuses.foldl (fun known st => known.add (publicationKey rid st)) sets.1
    else sets.1
  let quarantined := if !row.sentAt && row.intent.isNone then sets.2.add rid else sets.2
  (published, match row.intent with
    | none => quarantined
    | some armed => quarantined.add (publicationKey rid armed))

def hydratePublishedMarkers : Hub :=
  match h.hydration with
  | .rows seen =>
    let sets := seen.entries.foldl hydrateRow (h.published, h.quarantined)
    { h with published := sets.1, quarantined := sets.2, hydration := .loaded }
  | _ => h

/- The pairs whose broadcast a crash cuts off. -/
def sendingPairs : List (String × Status) :=
  ((occupied h.flights).filter (fun f => f.stage = .sending)).map Flight.pair

/- The table and the queue outlive the process. What a cut-off broadcast did is unknown: it
   counts as paid. -/
def restart : Hub :=
  { h with
    published := OrderedSet.empty
    quarantined := OrderedSet.empty
    ambiguousSends := OrderedMap.empty
    hydration := .unread
    flights := []
    sweep := none
    log := (sendingPairs h).map Mark.paid ++ h.log }

end Lifetimes

section Steps
variable (cfg : Params)

def step (h : Hub) (ev : Event) : Hub :=
  match ev with
  | .finalized ev now enqueued => onRequestFinalized cfg h ev now enqueued
  | .tick readable => tick cfg h readable
  | .pendingIds ids now disk => readPending cfg h ids now disk
  | .statement n => (flightAt h n).elim h (runStatement h n)
  | .reply n reserved disk => (flightAt h n).elim h (fun f => takeReply cfg h n f reserved disk)
  | .broadcast n error now disk =>
    (flightAt h n).elim h (fun f => settleBroadcast cfg h n f error now disk)
  | .prune aged =>
    { h with
      table := deleteSettledAttestPublishedRequests h.table aged
      pruned := aged ++ h.pruned }
  | .hydrateRead =>
    match h.hydration with
    | .unread => { h with hydration := .rows h.table }
    | _ => h
  | .hydrate => hydratePublishedMarkers h
  | .restart => restart h

/- A process over the tables and the queue an earlier one left. -/
def Hub.start (table : Table) (queue : List Entry) : Hub :=
  ⟨table, queue, OrderedSet.empty, OrderedSet.empty, OrderedMap.empty, .unread, [], none, [], []⟩

end Steps
end XChainHub.Attestation.Publisher
