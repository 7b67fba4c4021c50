import XChainHub.Library.JsonText
import XChainHub.Library.OrderedMap
import XChainHub.Lib.BftQuorum
import XChainHub.Lib.ChainSignerAdmission

/-!
Data of one hub's reorg handler: anchor/reorg_handler.js and its parts under
anchor/reorg_handler/. Wire fields are dynamic values, heights and times exact
numbers. Rounds and probes live in heaps, as timers and waiting handlers hold on
to them after they leave their maps.
-/
namespace XChainHub.Anchor.ReorgHandler
open ScriptValue ChainSignerAdmission

inductive Kind where
  | alert
  | prepare
  | commit
  deriving DecidableEq

/- envelope.type with envelope.data; a field the message does not carry is undefined. -/
structure Message where
  kind : Kind
  reorgId : Value := .undefined
  chain : Value := .undefined
  reorgHeight : Value := .undefined
  timestamp : Value := .undefined
  affectedChains : Value := .undefined
  digest : Value := .undefined
  oldHash : Value := .undefined
  newHash : Value := .undefined
  btcBlockHeight : Value := .undefined
  deriving DecidableEq

/- sigPubkey is none where the field is not a string. -/
structure Envelope where
  sender : String
  sigPubkey : Option String
  data : Message

/- Constants of one hub: configuration, identity, the activation tables read at the
   hub's network, and the hash function. -/
structure Params where
  validatorAddr : String
  identityPubkey : Option String
  network : String
  indexerUrl : String → Bool
  maxLookbackMs : ℤ
  maxReorgDepth : ℤ
  timestampSkewToleranceMs : ℚ
  maxPendingReorgs : ℕ
  allowUnrecordedOldHash : Bool
  declaredMinValidators : Option ℚ
  snapshotActivation : Option ℕ
  digestV2ActiveAt : ℕ → Bool
  sha256 : String → String
  js : Builtins

/- What the hub reads off its peer manager, validator set and clock in one event. -/
structure Env where
  signers : Signers
  validatorSet : List (Option String)
  openPeers : ℕ
  now : ℤ

/- The observation a message or a report names, after its checks. -/
structure Fields where
  reorgId : String
  chain : Value
  reorgHeight : Value
  timestamp : Value
  oldHash : String
  newHash : String

/- probeOwnNode's verdict; blockTimeMs is none where the indexer has no block time. -/
inductive Verdict where
  | refused
  | confirmed (blockTimeMs : Option ℚ)
  deriving DecidableEq

inductive ProbeStage where
  | tip
  | block
  | history (blockTimeMs : Option ℚ)
  | settled (verdict : Verdict)

/- chain is the property name, height parseInt's result, none for NaN. -/
structure Probe where
  chain : String
  height : Option ℤ
  oldHash : String
  newHash : String
  stage : ProbeStage

/- lockReorgFederationSnapshot's answer. -/
inductive Context where
  | refused
  | inactive
  | active (btcBlockHeight : ℕ) (members : OrderedSet String) (quorum : ℕ) (selfPubkey : String)

/- A record of pendingReorgs. leader tells which of the two timers it has. -/
structure Round where
  reorgId : String
  chain : Value
  reorgHeight : Value
  timestamp : Value
  affectedChains : Value
  digest : String
  oldHash : String
  newHash : String
  observedBlockTimeMs : Option ℚ
  selfVerified : Bool
  quorum : ℕ
  snapshotActive : Bool
  btcBlockHeight : Option ℕ
  memberPubkeys : OrderedSet String
  prepares : OrderedSet String
  commits : OrderedSet String
  preparePubkeys : OrderedSet String
  commitPubkeys : OrderedSet String
  commitSent : Bool
  finalized : Bool
  leader : Bool
  timer : Bool

/- The arguments executeRollback writes to the database with. -/
structure Rollback where
  chain : Value
  reorgHeight : Value
  timestamp : Value
  reorgId : String
  validatorCount : ℕ
  proof : List String
  bound : ℚ
  affectedChains : List String

/- Who may be counted, as the handler found it when the message came in. -/
structure Known where
  legacyKnown : Bool
  pubkeyKnown : Bool

/- A handler parked at an await, with what it holds on to. -/
inductive Task where
  | alertProbe (e : Envelope) (f : Fields) (known : Known) (pid : ℕ)
  | alertLock (e : Envelope) (f : Fields) (known : Known) (blockTimeMs : Option ℚ)
  | prepareLock (e : Envelope) (f : Fields) (known : Known)
  | prepareProbe (e : Envelope) (f : Fields) (known : Known) (context : Context) (pid : ℕ)
  | prepareTally (e : Envelope) (f : Fields) (known : Known)
  | reportProbe (f : Fields) (now : ℤ) (pid : ℕ)
  | reportLock (f : Fields) (now : ℤ) (blockTimeMs : Option ℚ)
  | rollbackWrites (reorgId : String) (consensus : Bool)
  | disputedRows (reorgId : String) (consensus : Bool)

/- probed records that a probe of the hub's own node ended in confirmation. -/
inductive Output where
  | broadcast (data : Message)
  | probed (chain : String) (height : Option ℤ) (oldHash newHash : String)
  | timeout (round : Round) (prepares commits : ℕ)
  | consensusRollback (round : Round) (writes : Rollback)
  | localRollback (writes : Rollback)
  | confirmed (reorgId : String)

structure Hub where
  rounds : List Round
  pendingReorgs : OrderedMap String ℕ
  processed : OrderedSet String
  reorgRateTracker : OrderedMap String ℤ
  probes : List Probe
  verifying : OrderedMap String ℕ
  tasks : List (Option Task)
  trace : List Output

def Hub.started : Hub :=
  ⟨[], OrderedMap.empty, OrderedSet.empty, OrderedMap.empty, [], OrderedMap.empty, [], []⟩

def Hub.emit (h : Hub) (o : Output) : Hub := { h with trace := h.trace ++ [o] }

def Hub.park (h : Hub) (t : Task) : Hub := { h with tasks := h.tasks ++ [some t] }

def Hub.modify (h : Hub) (rid : ℕ) (f : Round → Round) : Hub :=
  { h with rounds := h.rounds.modify rid f }

def Hub.forget (h : Hub) (reorgId : String) : Hub :=
  { h with pendingReorgs := h.pendingReorgs.erase reorgId }

def Hub.openRound (h : Hub) (p : Round) : Hub :=
  { h with
    rounds := h.rounds ++ [p]
    pendingReorgs := h.pendingReorgs.set p.reorgId h.rounds.length }

def Hub.pending (h : Hub) (reorgId : String) : Option (ℕ × Round) :=
  (h.pendingReorgs.get reorgId).bind (fun rid => h.rounds[rid]?.map (fun p => (rid, p)))

section Readings
variable (cfg : Params)

def allowedCoins : List String := ["BTC", "LTC", "DOGE"]

def getAffectedChains (sourceChain : Value) : List String :=
  allowedCoins.filter (fun c => sourceChain.textOf ≠ some c)

def canonicalReorgId (chain reorgHeight timestamp : Value) : String :=
  chain.asText ++ ":" ++ reorgHeight.asText ++ ":" ++ timestamp.asText

def timestampInBounds (now : ℤ) (timestamp : Value) : Bool :=
  match parseInt timestamp.asText with
  | none => false
  | some t => 0 ≤ t && t ≤ now + 300000 && now - cfg.maxLookbackMs ≤ t

def timestampConsistentWithBlockTime (timestamp : Value) (blockTimeMs : Option ℚ) : Bool :=
  match blockTimeMs with
  | none => true
  | some ms =>
    match parseInt timestamp.asText with
    | none => false
    | some t => ms - cfg.timestampSkewToleranceMs ≤ t

def isHex64 (s : String) : Bool := s.toList.length = 64 && s.toList.all HexText.isLowerHex

def hashesWellFormed (oldHash newHash : String) : Bool :=
  isHex64 oldHash && isHex64 newHash && oldHash ≠ newHash

/- String(v || '').toLowerCase(). -/
def asHash (v : Value) : String := cfg.js.toLowerCase (v.orElse (.text "")).asText

def isKnownSender (signers : Signers) (sender : String) : Bool :=
  match signers.validatorPubkeys with
  | none => false
  | some registry =>
    if registry.isEmpty then (signers.effectiveSignerSet.getD []).isEmpty
    else registry.any (fun entry => entry.1 = sender)

def getQuorum (env : Env) : ℕ :=
  let n :=
    if 0 < env.validatorSet.length then env.validatorSet.length
    else
      let registry := env.signers.validatorPubkeys.getD []
      if 0 < registry.length then
        if registry.any (fun entry => entry.1 = cfg.validatorAddr) then registry.length
        else registry.length + 1
      else env.openPeers + 1
  BftQuorum.bftQuorumOrSingle n 0

end Readings

end XChainHub.Anchor.ReorgHandler
