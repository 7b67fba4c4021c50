import XChainHub.Library.OrderedMap
import XChainHub.Library.SlotHeap
import XChainHub.Attestation.ResponseMirror.SignerRank

/-!
The rows of one hub's response mirror and the handlers that write them: build.js, gossip.js and
verify.js of attestation/response_mirror. A handler that awaits holds a slot, and the statement
that it awaits runs in the step that fills the slot. Every row is of the hub's own network.
-/
namespace XChainHub.ResponseMirror
open StakeWeightedQuorum (asciiLower)
open SlotHeap (slotAt)

section Rows

structure Signature where
  pubkey : String
  sig : String
  deriving DecidableEq

/- What the signatures cover, the request and the effective time apart. -/
structure Body where
  providerId : String
  status : String
  responsePayload : String
  responseHash : String
  «meta» : String
  admitBlockBtc : Option ℕ
  deriving DecidableEq

structure Row where
  requestId : String
  effectiveTime : ℕ
  body : Body
  signerPubkeys : List String
  signatures : List Signature
  deriving DecidableEq

def Row.key (row : Row) : String × ℕ := (row.requestId, row.effectiveTime)

/- attestation_responses by request and effective time. -/
abbrev Rows := OrderedMap (String × ℕ) Row

def createAttestationResponseMirrorRow (rows : Rows) (row : Row) : Rows :=
  if rows.has row.key then rows else rows.set row.key row

/- Only while the stored row still holds the signature list that the caller read. -/
def updateAttestationResponseSignerSet (rows : Rows) (held row : Row) : Rows :=
  match rows.get row.key with
  | none => rows
  | some stored =>
    if stored.signatures = held.signatures then
      rows.set row.key
        { stored with signerPubkeys := row.signerPubkeys, signatures := row.signatures }
    else rows

end Rows

section Verify

/- The hub's own request row and the snapshot at its block, its validators those that clear the
   provider's floor; widen is the ladder's slots at a tip. -/
structure Request where
  redundancy : ℕ
  mirrorEra : Bool
  weighted : Bool
  validators : List Validator
  widen : ℕ → ℕ

/- signed says whether a signature verifies over the row's canonical. -/
structure Context where
  request : String → Request
  sha256 : String → String
  signed : Row → Signature → Bool

variable (ctx : Context)

def attestResponseBodyMaxBytes : ℕ := 8189

def ranked (requestId : String) : List String :=
  rankedValidators ctx.sha256 (ctx.request requestId).weighted (ctx.request requestId).validators
    requestId

def responsibleRankOrder (row : Row) (latestBlock : ℕ) : List String :=
  computeResponsibleSet (ranked ctx row.requestId) (ctx.request row.requestId).redundancy
    ((ctx.request row.requestId).widen latestBlock)

/- The first entry of each pubkey. -/
def firstEntries : List Signature → List String → List Signature
  | [], _ => []
  | s :: ss, seen =>
    if s.pubkey ∈ seen then firstEntries ss seen else s :: firstEntries ss (s.pubkey :: seen)

def validSignatures (row : Row) (latestBlock : ℕ) : ℕ :=
  ((firstEntries row.signatures []).filter (fun s =>
    s.pubkey ∈ responsibleRankOrder ctx row latestBlock && ctx.signed row s)).length

def verifyGossipedRow (row : Row) (latestBlock : ℕ) : Bool :=
  row.body.responsePayload.utf8ByteSize ≤ attestResponseBodyMaxBytes &&
    ctx.sha256 row.body.responsePayload = row.body.responseHash &&
    max 1 (ctx.request row.requestId).redundancy ≤ validSignatures ctx row latestBlock

/- The listed pubkeys, where they are exactly those of the signatures, in order. -/
def pairedSignerList (row : Row) : Option (List String) :=
  if row.signerPubkeys.map asciiLower = row.signatures.map Signature.pubkey then
    some (row.signatures.map Signature.pubkey)
  else none

def outranks (row held : Row) (latestBlock : ℕ) : Bool :=
  (pairedSignerList row).any (fun incoming =>
    isRankBetterSignerSet incoming held.signerPubkeys (responsibleRankOrder ctx row latestBlock)
      (max 1 (ctx.request row.requestId).redundancy))

end Verify

section Handlers
variable (ctx : Context)

/- What a handler of a row awaits: the row held under its key, the hub's own request, the
   snapshot, a statement, the read-back after it. -/
inductive Stage where
  | read (held : Option Row)
  | resolve
  | verify (latestBlock : ℕ)
  | insert
  | converge (held : Row)
  | convergeVerify (held : Row) (latestBlock : ℕ)
  | rank (held : Row) (latestBlock : ℕ)
  | replace (held : Row)
  | settled
  deriving DecidableEq

/- A retry is a drain of the park set, with the entries still to come; a delivery may park. -/
structure Task where
  row : Row
  retry : Bool
  rest : List Row
  stage : Stage
  deriving DecidableEq

/- received, which no handler reads, lists the rows that this hub was handed. -/
structure Hub where
  rows : Rows
  parked : OrderedMap String Row
  tasks : List (Option Task)
  received : List Row

def parkMax : ℕ := 128

def Hub.next (h : Hub) (n : ℕ) (t : Task) : Hub := { h with tasks := h.tasks.set n (some t) }

def ingestGossipRow (h : Hub) (row : Row) (retry : Bool) (rest : List Row) : Task :=
  ⟨row, retry, rest, .read (h.rows.get row.key)⟩

/- The end of one row: a drain goes on with the next. -/
def Hub.finish (h : Hub) (n : ℕ) (t : Task) : Hub :=
  match t.rest with
  | [] => { h with tasks := h.tasks.set n none }
  | row :: rest => h.next n (ingestGossipRow h row true rest)

/- Where the set is full, the oldest entry goes. -/
def evictOldest (parked : OrderedMap String Row) : OrderedMap String Row :=
  if parkMax ≤ parked.size then
    match parked.entries with
    | [] => parked
    | oldest :: _ => parked.erase oldest.1
  else parked

def park (h : Hub) (row : Row) : Hub :=
  if h.parked.has row.requestId then h
  else { h with parked := (evictOldest h.parked).set row.requestId row }

def parkOrDrop (h : Hub) (row : Row) (retry : Bool) : Hub := if retry then h else park h row

def insertAndBroadcast (h : Hub) (row : Row) : Hub :=
  { h with rows := createAttestationResponseMirrorRow h.rows row }

def convergeSignerSet (h : Hub) (held row : Row) : Hub :=
  { h with rows := updateAttestationResponseSignerSet h.rows held row }

/- answer is what the awaited call brings: the tip beside the request, or a snapshot; none where
   the indexer does not list the request, or the snapshot cannot be read. -/
def resume (h : Hub) (n : ℕ) (t : Task) (answer : Option ℕ) : Hub :=
  match t.stage with
  | .read none => h.next n { t with stage := .resolve }
  | .read (some held) =>
    if sameSignerList held.signerPubkeys t.row.signerPubkeys then h.finish n t
    else h.next n { t with stage := .converge held }
  | .resolve =>
    match answer with
    | none => (parkOrDrop h t.row t.retry).finish n t
    | some latestBlock =>
      if (ctx.request t.row.requestId).mirrorEra then h.next n { t with stage := .verify latestBlock }
      else h.finish n t
  | .verify latestBlock =>
    if answer.isSome && verifyGossipedRow ctx t.row latestBlock then
      h.next n { t with stage := .insert }
    else h.finish n t
  | .insert => (insertAndBroadcast h t.row).next n { t with stage := .settled }
  | .converge held =>
    match answer with
    | none => h.finish n t
    | some latestBlock =>
      if (ctx.request t.row.requestId).mirrorEra then
        h.next n { t with stage := .convergeVerify held latestBlock }
      else h.finish n t
  | .convergeVerify held latestBlock =>
    if answer.isSome && verifyGossipedRow ctx t.row latestBlock then
      h.next n { t with stage := .rank held latestBlock }
    else h.finish n t
  | .rank held latestBlock =>
    if answer.isSome && outranks ctx t.row held latestBlock then
      h.next n { t with stage := .replace held }
    else h.finish n t
  | .replace held => (convergeSignerSet h held t.row).next n { t with stage := .settled }
  | .settled => h.finish n t

end Handlers

section Steps
variable (ctx : Context)

inductive Event where
  | handleResult (row : Row)
  | handleFinalized (row : Row)
  | drainParked
  | resume (n : ℕ) (answer : Option ℕ)

def handleResult (h : Hub) (row : Row) : Hub :=
  { h with
    tasks := h.tasks ++ [some (ingestGossipRow h row false [])]
    received := row :: h.received }

/- A round that this hub finalized itself is written as it is. -/
def handleFinalized (h : Hub) (row : Row) : Hub :=
  { h with
    tasks := h.tasks ++ [some ⟨row, false, [], .insert⟩]
    received := row :: h.received }

def drainParked (h : Hub) : Hub :=
  match h.parked.entries.map Prod.snd with
  | [] => h
  | row :: rest =>
    { h with
      parked := OrderedMap.empty
      tasks := h.tasks ++ [some (ingestGossipRow h row true rest)] }

def step (h : Hub) : Event → Hub
  | .handleResult row => handleResult h row
  | .handleFinalized row => handleFinalized h row
  | .drainParked => drainParked h
  | .resume n answer =>
    match slotAt h.tasks n with
    | none => h
    | some t => resume ctx h n t answer

def emptyHub : Hub := ⟨OrderedMap.empty, OrderedMap.empty, [], []⟩

end Steps
end XChainHub.ResponseMirror
