import XChainHub.Library.OrderedMap

/-!
One hub publishing anchor bundles: publish_bundle.js with the retry ladder of
broadcast.js and the durable intents of intents.js. A step is the settling of one
await, so a crash or a clock tick may fall between any two; flush() runs one
bundle at a time. A failed send is read as send_failure.js classifies it.
-/
namespace XChainHub.Anchor.Publisher

structure Section where
  chain : String
  network : String
  blockIndex : ℕ
  checkpointSeq : ℕ
  deriving DecidableEq

abbrev MarkerKey := String × String × ℕ

def Section.markerKey (s : Section) : MarkerKey := (s.chain, s.network, s.checkpointSeq)

/- A row of anchor_published_checkpoints; an unreadable intent_at is none. -/
structure Marker where
  intentAt : Option ℕ
  sentAt : Option ℕ

abbrev Markers := OrderedMap MarkerKey Marker

structure AnchorTx where
  txid : String
  sections : List Section
  archiveBatch : Option ℕ

/- anchorMayHaveLanded is the ambiguous tag; the other two are read beside it. -/
structure SendFailure where
  mayHaveLanded : Bool
  noConfirmedUtxo : Bool
  rateLimited : Bool

structure Config where
  anchorIntentTtlMs : ℕ
  ambiguousPollAttempts : ℕ
  rateLimitMaxWaits : ℕ
  anchorMarkerRetentionMs : ℕ

def broadcastAttempts : ℕ := 5

def anchorMarkerRetentionTtlSafety : ℕ := 8

section Intents

def anchorIntentHolds (cfg : Config) (now : ℕ) : Option Marker → Bool
  | none => false
  | some marker =>
    match marker.intentAt with
    | none => true
    | some intentAt => now - intentAt < cfg.anchorIntentTtlMs

/- INSERT .. ON DUPLICATE KEY UPDATE: a re-armed intent has no sent_at. -/
def setAnchorPublishedCheckpoint (now : ℕ) (markers : Markers) (key : MarkerKey) : Markers :=
  markers.set key ⟨some now, none⟩

def updateAnchorPublishedCheckpoint (now : ℕ) (markers : Markers) (key : MarkerKey) : Markers :=
  match markers.get key with
  | none => markers
  | some marker => markers.set key { marker with sentAt := some now }

/- DELETE .. AND sent_at IS NULL. -/
def deleteAnchorPublishedCheckpoint (markers : Markers) (key : MarkerKey) : Markers :=
  match markers.get key with
  | none => markers
  | some marker => if marker.sentAt = none then markers.erase key else markers

def retentionWindow (cfg : Config) : ℕ :=
  max cfg.anchorMarkerRetentionMs (cfg.anchorIntentTtlMs * anchorMarkerRetentionTtlSafety)

/- The retention sweep, for one row of it. -/
def pruneMarker (cfg : Config) (now : ℕ) (markers : Markers) (key : MarkerKey) : Markers :=
  match markers.get key with
  | none => markers
  | some marker =>
    match marker.sentAt, marker.intentAt with
    | some _, some intentAt =>
      if intentAt + retentionWindow cfg < now then markers.erase key else markers
    | _, _ => markers

end Intents

section Existing

/- The indexer answers with the newest mined anchor that carries the section. -/
def anchorOf (mined : List AnchorTx) (s : Section) : Option String :=
  (mined.find? (fun tx => s ∈ tx.sections)).map (fun tx => tx.txid)

def archiveOf (mined : List AnchorTx) (batch : ℕ) : Option String :=
  (mined.find? (fun tx => tx.archiveBatch = some batch)).map (fun tx => tx.txid)

inductive Found where
  | undetermined
  | absent
  | mined (txid : String)

/- findExistingBundle and findExistingFoldedBundle under way: what is still to ask, and the
   one transaction the answers so far name. -/
structure Lookup where
  sections : List Section
  archiveBatch : Option ℕ
  txid : Option String

inductive Looked where
  | more (rest : Lookup)
  | done (found : Found)

def findExisting (sections : List Section) (archiveBatch : Option ℕ) : Lookup :=
  ⟨sections, archiveBatch, none⟩

def Lookup.accept (l rest : Lookup) : Option String → Looked
  | none => .done .absent
  | some txid =>
    if l.txid = none ∨ l.txid = some txid then .more { rest with txid := some txid }
    else .done .absent

/- One indexer call of the lookup; a call that fails throws out of it. -/
def Lookup.reply (mined : List AnchorTx) (answered : Bool) (l : Lookup) : Looked :=
  match l.sections, l.archiveBatch with
  | s :: rest, _ =>
    if answered then l.accept { l with sections := rest } (anchorOf mined s)
    else .done .undetermined
  | [], some batch =>
    if answered then l.accept { l with archiveBatch := none } (archiveOf mined batch)
    else .done .undetermined
  | [], none =>
    match l.txid with
    | none => .done .absent
    | some txid => .done (.mined txid)

end Existing

inductive Outcome where
  | running
  | returned
  | ambiguous
  | neverSent
  | crashed
  deriving DecidableEq

/- One call of the broadcaster, with the intents that were recorded for it. -/
structure Send where
  group : List Section
  armed : List (MarkerKey × ℕ)
  sentAt : ℕ
  outcome : Outcome

inductive Phase where
  | reading (todo : List Section)
  | holdLookup (look : Lookup)
  | preparing
  | arming (todo : List Section)
  | entering
  | looking (look : Lookup)
  | broadcasting
  | polling (left : ℕ) (look : Lookup)
  | withdrawing (todo : List Section)
  | marking (txid : String) (todo : List Section)
  | stamping (txid : String) (todo : List Section)

/- overHold: an intent held the bundle and the hold check found the bundle mined. -/
structure Call where
  group : List Section
  overHold : Bool
  archiveBatch : Option ℕ
  armed : List (MarkerKey × ℕ)
  attempt : ℕ
  rateLimitWaits : ℕ
  lastErr : Option SendFailure
  phase : Phase

structure State where
  now : ℕ
  mined : List AnchorTx
  markers : Markers
  stamped : List Section
  paused : Bool
  call : Option Call
  sends : List Send

/- The first group is the world around the hub; the second settles the await of the call. -/
inductive Event where
  | tick (ms : ℕ)
  | mine (tx : AnchorTx)
  | pause (on : Bool)
  | stamp (s : Section)
  | unstamp (s : Section)
  | prune (key : MarkerKey)
  | crash
  | start (group : List Section)
  | dbReply (ok : Bool)
  | indexerReply (answered : Bool)
  | prepared (archiveBatch : Option ℕ)
  | stoodDown
  | budget (granted : Bool)
  | returned (txid : Option String)
  | failed (failure : SendFailure)

section Steps
variable (cfg : Config)

def State.endCall (st : State) : State := { st with call := none }

def State.at (st : State) (c : Call) (phase : Phase) : State :=
  { st with call := some { c with phase := phase } }

def startCall (st : State) (group : List Section) : State :=
  if st.call.isNone ∧ group ≠ [] ∧ ∀ s ∈ group, s ∉ st.stamped then
    { st with call := some ⟨group, false, none, [], 0, 0, none, .reading group⟩ }
  else st

/- bundleHeldByIntent: the first intent that holds stops the reading. -/
def readIntent (st : State) (c : Call) (ok : Bool) : List Section → State
  | [] => st.at c .preparing
  | s :: rest =>
    if !ok then st.endCall
    else if anchorIntentHolds cfg st.now (st.markers.get s.markerKey) then
      st.at c (.holdLookup (findExisting c.group none))
    else st.at c (.reading rest)

def holdLooked (st : State) (c : Call) : Looked → State
  | .more rest => st.at c (.holdLookup rest)
  | .done (.mined _) => st.at { c with overHold := true } .preparing
  | .done _ => st.endCall

/- recordAnchorIntent for every section, then recordArchiveIntent. -/
def armIntent (st : State) (c : Call) (ok : Bool) : List Section → State
  | [] => if !ok && c.archiveBatch.isSome then st.endCall else st.at c .entering
  | s :: rest =>
    if !ok then st.endCall
    else
      { st with markers := setAnchorPublishedCheckpoint st.now st.markers s.markerKey }.at
        { c with armed := (s.markerKey, st.now) :: c.armed } (.arming rest)

/- reserveBroadcastBudget; a refusal is a definitive failure of sendBundle. -/
def enterBroadcast (st : State) (c : Call) (granted : Bool) : State :=
  if granted then st.at c (.looking (findExisting c.group c.archiveBatch))
  else st.at c (.withdrawing c.group)

/- What sendBundle does with an error of the ladder. -/
def sendFailed (st : State) (c : Call) (failure : SendFailure) : State :=
  if failure.mayHaveLanded then st.endCall else st.at c (.withdrawing c.group)

def lastMayHaveLanded (c : Call) : Bool := c.lastErr.any (fun e => e.mayHaveLanded)

def attemptSend (st : State) (c : Call) : State :=
  if st.paused then
    if lastMayHaveLanded c then st.endCall else st.at c (.withdrawing c.group)
  else
    { st with sends := ⟨c.group, c.armed, st.now, .running⟩ :: st.sends }.at c .broadcasting

/- An adopted bundle is marked and stamped like a sent one. -/
def sendLooked (st : State) (c : Call) : Looked → State
  | .more rest => st.at c (.looking rest)
  | .done (.mined txid) => st.at c (.marking txid c.group)
  | .done .undetermined => if lastMayHaveLanded c then st.endCall else attemptSend st c
  | .done .absent => attemptSend st c

def settleSend (outcome : Outcome) : List Send → List Send
  | [] => []
  | send :: rest => { send with outcome := outcome } :: rest

def sendReturned (st : State) (c : Call) (txid : Option String) : State :=
  match txid with
  | none => { st with sends := settleSend .returned st.sends }.endCall
  | some txid =>
    { st with sends := settleSend .returned st.sends }.at c (.marking txid c.group)

def retry (st : State) (c : Call) (failure : SendFailure) : State :=
  st.at { c with lastErr := some failure } (.looking (findExisting c.group c.archiveBatch))

/- The catch of broadcastWithRetry, in its order of tests. -/
def sendThrew (st : State) (c : Call) (failure : SendFailure) : State :=
  let st := { st with
    sends := settleSend (if failure.mayHaveLanded then .ambiguous else .neverSent) st.sends }
  if failure.noConfirmedUtxo then sendFailed st c failure
  else if failure.mayHaveLanded then
    st.at c (.polling cfg.ambiguousPollAttempts (findExisting c.group c.archiveBatch))
  else if failure.rateLimited then
    if cfg.rateLimitMaxWaits ≤ c.rateLimitWaits then sendFailed st c failure
    else retry st { c with rateLimitWaits := c.rateLimitWaits + 1 } failure
  else if c.attempt + 1 < broadcastAttempts then
    retry st { c with attempt := c.attempt + 1 } failure
  else sendFailed st c failure

def pollLooked (st : State) (c : Call) (left : ℕ) : Looked → State
  | .more rest => st.at c (.polling left rest)
  | .done (.mined txid) => st.at c (.marking txid c.group)
  | .done _ =>
    if left ≤ 1 then st.endCall
    else st.at c (.polling (left - 1) (findExisting c.group c.archiveBatch))

def withdrawIntent (st : State) (c : Call) (ok : Bool) : List Section → State
  | [] => st.endCall
  | s :: rest =>
    { st with markers :=
        if ok then deleteAnchorPublishedCheckpoint st.markers s.markerKey else st.markers }.at c
      (.withdrawing rest)

def markSent (st : State) (c : Call) (txid : String) (ok : Bool) : List Section → State
  | [] => st.at c (.stamping txid c.group)
  | s :: rest =>
    { st with markers :=
        if ok then updateAnchorPublishedCheckpoint st.now st.markers s.markerKey
        else st.markers }.at c (.marking txid rest)

/- A failed stamp throws out of publishBundle, the sections staying pending. -/
def stampSection (st : State) (c : Call) (txid : String) (ok : Bool) : List Section → State
  | [] => st.endCall
  | s :: rest =>
    if ok then { st with stamped := s :: st.stamped }.at c (.stamping txid rest) else st.endCall

def callStep (st : State) (c : Call) (ev : Event) : State :=
  match c.phase, ev with
  | .reading todo, .dbReply ok => readIntent cfg st c ok todo
  | .holdLookup look, .indexerReply answered => holdLooked st c (look.reply st.mined answered)
  | .preparing, .prepared archiveBatch =>
    st.at { c with archiveBatch := archiveBatch } (.arming c.group)
  | .preparing, .stoodDown => st.endCall
  | .arming todo, .dbReply ok => armIntent st c ok todo
  | .entering, .budget granted => enterBroadcast st c granted
  | .looking look, .indexerReply answered => sendLooked st c (look.reply st.mined answered)
  | .broadcasting, .returned txid => sendReturned st c txid
  | .broadcasting, .failed failure => sendThrew cfg st c failure
  | .polling left look, .indexerReply answered =>
    if left = 0 then st.endCall else pollLooked st c left (look.reply st.mined answered)
  | .withdrawing todo, .dbReply ok => withdrawIntent st c ok todo
  | .marking txid todo, .dbReply ok => markSent st c txid ok todo
  | .stamping txid todo, .dbReply ok => stampSection st c txid ok todo
  | _, _ => st

/- The broadcaster's answer to a crashed hub is lost with it. -/
def crashCall (st : State) : State :=
  match st.call with
  | none => st
  | some c =>
    match c.phase with
    | .broadcasting => { st with sends := settleSend .crashed st.sends }.endCall
    | _ => st.endCall

def step (st : State) (ev : Event) : State :=
  match ev with
  | .tick ms => { st with now := st.now + ms }
  | .mine tx => { st with mined := tx :: st.mined }
  | .pause on => { st with paused := on }
  | .stamp s => { st with stamped := s :: st.stamped }
  | .unstamp s => { st with stamped := st.stamped.filter (fun x => x ≠ s) }
  | .prune key => { st with markers := pruneMarker cfg st.now st.markers key }
  | .crash => crashCall st
  | .start group => startCall st group
  | ev =>
    match st.call with
    | none => st
    | some c => callStep cfg st c ev

end Steps

end XChainHub.Anchor.Publisher
