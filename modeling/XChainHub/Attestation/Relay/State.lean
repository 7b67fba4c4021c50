import XChainHub.Library.OrderedMap
import XChainHub.Library.PaidLog
import XChainHub.Lib.IdempotentBroadcast

/-!
Data of one hub's attestation relay: attestation/relay.js and its parts. Heights and
times are exact numbers; a request id is text in lower case once it is a key.
-/
namespace XChainHub.Attestation.Relay
open PaidLog

inductive Leg where
  | request
  | response
  deriving DecidableEq

/- (leg, request id), the idempotency key of both maps and of the log on disk. -/
abbrev Key := Leg × String

def homeChain : String := "BTC"

def originChains : List String := ["LTC", "DOGE"]

def maxTrackedDeadlines : ℕ := 50000

def attestWireMaxBytes : ℕ := 8189

structure Deadline where
  coin : String
  block : ℕ
  deriving DecidableEq

/- A record of the finalized rounds; the wire is its characters, and rank is none for a hub
   that did not sign. -/
structure Entry where
  wire : List Char
  coin : String
  finalizedAt : ℤ
  rank : Option ℕ
  deriving DecidableEq

inductive WalPhase where
  | intent
  | sent
  | failed
  deriving DecidableEq

/- One line of the log on disk, as its own fold reads it back. -/
structure Record where
  rid : String
  leg : Leg
  phase : WalPhase
  deadline : Option Deadline
  deriving DecidableEq

/- What became of an append: reported and on disk, reported lost and not on disk, or
   reported lost with the line on disk all the same. -/
inductive Append where
  | written
  | lost
  | left
  deriving DecidableEq

structure Params where
  network : String
  pubkey : Option String
  failoverWindowMs : ℤ
  evictGraceBlocks : ℕ
  confirmations : String → ℕ
  sha256 : String → String
  toLowerCase : String → String
  lower_idem : ∀ s, toLowerCase (toLowerCase s) = toLowerCase s

/- What one turn reads around it: the clock, the rails that are wired, the spend guard's
   answer, the fate of an append, and the two chains' pending views. -/
structure Env where
  now : ℤ
  rail : String → Bool
  budget : Bool
  append : Append
  homePending : List String
  homeRelayed : List String
  originPending : String → Option (List String)

/- A call of the broadcaster that has not settled. -/
structure Send where
  key : Key
  entry : Entry
  deriving DecidableEq

/- sweepFinalized under way: the leg it is at, and the send it awaits. -/
structure Sweep where
  leg : Leg
  awaits : Option ℕ
  deriving DecidableEq

/- log and forgotten are history: every paid attempt, newest first, and the keys an
   eviction dropped from the published sets. -/
structure Hub where
  wire : Leg → OrderedMap String Entry
  published : Leg → OrderedSet String
  deadlines : OrderedMap String Deadline
  originLatest : String → Option ℤ
  sends : List (Option Send)
  sweep : Option Sweep
  wal : List Record
  log : List (Mark Key)
  forgotten : List Key

def Hub.started (wal : List Record) (log : List (Mark Key)) (forgotten : List Key) : Hub where
  wire := fun _ => OrderedMap.empty
  published := fun _ => OrderedSet.empty
  deadlines := OrderedMap.empty
  originLatest := fun _ => none
  sends := []
  sweep := none
  wal := wal
  log := log
  forgotten := forgotten

/- The round row a finalization carries, each field as String() shows it; the fields that
   may be null are none. -/
structure Row where
  phase : String
  requestId : String
  originChain : String
  originActionIndex : String := ""
  providerId : String := ""
  requestPayload : Option String := none
  redundancy : String := ""
  deadlineBlocks : String := ""
  snapshotBlock : String := ""
  homeResponseActionIndex : String := ""
  responsePayloadB64 : Option String := none
  status : String := ""
  responseMeta : Option String := none

structure Sig where
  pubkey : String
  sig : String

section Wires
variable (cfg : Params)

def sigParts (sigs : List Sig) : List String :=
  toString sigs.length :: sigs.flatMap (fun s => [cfg.toLowerCase s.pubkey, cfg.toLowerCase s.sig])

def wireText (parts : List String) : List Char := ['|'].intercalate (parts.map String.toList)

def buildRequestWire (row : Row) (sigs : List Sig) : List Char :=
  wireText (["ATTEST", "3", cfg.toLowerCase row.requestId, row.originChain,
    row.originActionIndex, row.providerId, row.requestPayload.getD "", row.redundancy,
    row.deadlineBlocks, row.snapshotBlock] ++ sigParts cfg sigs)

def buildResponseWire (row : Row) (sigs : List Sig) : List Char :=
  wireText (["ATTEST", "4", cfg.toLowerCase row.requestId,
    row.homeResponseActionIndex, row.responsePayloadB64.getD "", row.status,
    row.responseMeta.getD "", row.snapshotBlock] ++ sigParts cfg sigs)

def buildWire (leg : Leg) (row : Row) (sigs : List Sig) : List Char :=
  match leg with
  | .response => buildResponseWire cfg row sigs
  | .request => buildRequestWire cfg row sigs

def variableFields (leg : Leg) (row : Row) : List (String × String) :=
  match leg with
  | .response => [("META", row.responseMeta.getD "")]
  | .request => [("PROVIDER_ID", row.providerId), ("REQUEST_PAYLOAD", row.requestPayload.getD "null")]

def zeros (n : ℕ) : String := String.ofList (List.replicate n '0')

def byteLength (text : List Char) : ℕ := (text.map Char.utf8Size).foldl (· + ·) 0

def wireVersion (leg : Leg) : String :=
  match leg with
  | .response => "4"
  | .request => "3"

def wireFault (leg : Leg) (row : Row) (sigCount : ℕ) : Option String :=
  match (variableFields leg row).find? (fun field => '|' ∈ field.2.toList) with
  | some field =>
    some (field.1 ++ " contains a \"|\", which the positional wire cannot carry")
  | none =>
    let stub := List.replicate sigCount (⟨zeros 64, zeros 128⟩ : Sig)
    let bytes := byteLength (buildWire cfg leg row stub)
    if attestWireMaxBytes < bytes then
      some ("ATTEST v" ++ wireVersion leg ++ " wire is " ++ toString bytes ++ " bytes with " ++
        toString sigCount ++ " signature(s), over the encoder limit of " ++
        toString attestWireMaxBytes)
    else none

end Wires

section Ranks
variable (cfg : Params)

/- The signers in the order of their hashes under the request id. -/
def rankedSigners (rid : String) (sigs : List Sig) : List String :=
  ((sigs.map (fun s => cfg.toLowerCase s.pubkey)).map (fun pk => (pk, cfg.sha256 (rid ++ pk)))
    |>.insertionSort (fun a b => a.2 ≤ b.2)).map Prod.fst

def myRank (rid : String) (sigs : List Sig) : Option ℕ :=
  match cfg.pubkey with
  | none => none
  | some own => (rankedSigners cfg rid sigs).findIdx? (· = cfg.toLowerCase own)

end Ranks

def Leg.ofPhase (phase : String) : Option Leg :=
  if phase = "request" then some .request
  else if phase = "response" then some .response
  else none

end XChainHub.Attestation.Relay
