import XChainHub.Anchor.ReorgHandler.State

/-!
The round digest, the keys behind envelopes and the stamped federation snapshot,
anchor/reorg_handler/snapshot_round.js and snapshot_lock.js, and the probe of the
hub's own indexer, probe.js. An answer that failed or is malformed is none.
-/
namespace XChainHub.Anchor.ReorgHandler
open ScriptValue ChainSignerAdmission

variable (cfg : Params) (env : Env)

section Digest

def digestPayload (f : Fields) (btcBlockHeight : Option ℕ) : Value :=
  match btcBlockHeight with
  | none => .object
      [("reorgId", .text f.reorgId), ("chain", f.chain), ("reorgHeight", f.reorgHeight),
       ("timestamp", f.timestamp), ("oldHash", .text f.oldHash), ("newHash", .text f.newHash)]
  | some height =>
    if cfg.digestV2ActiveAt height then .object
      [("reorgId", .text f.reorgId), ("chain", f.chain), ("reorgHeight", f.reorgHeight),
       ("timestamp", f.timestamp), ("newHash", .text f.newHash),
       ("btcBlockHeight", .number (NumberText.Number.ofNat height))]
    else .object
      [("reorgId", .text f.reorgId), ("chain", f.chain), ("reorgHeight", f.reorgHeight),
       ("timestamp", f.timestamp), ("oldHash", .text f.oldHash), ("newHash", .text f.newHash),
       ("btcBlockHeight", .number (NumberText.Number.ofNat height))]

def reorgRoundDigest (f : Fields) (btcBlockHeight : Option ℕ) : String :=
  cfg.sha256 (JsonText.stringify (digestPayload cfg f btcBlockHeight))

end Digest

section Keys

def isPubkey (v : String) : Bool := isHex64 (cfg.js.toLowerCase v)

def readPubkey (v : Option String) : Option String :=
  (v.filter (isPubkey cfg)).map cfg.js.toLowerCase

def selfReorgPubkey : Option String :=
  match readPubkey cfg cfg.identityPubkey with
  | some pk => some pk
  | none => readPubkey cfg (env.signers.keyOf cfg.validatorAddr)

def resolveReorgSenderPubkey (e : Envelope) : Option String :=
  match readPubkey cfg e.sigPubkey with
  | some pk => some pk
  | none => readPubkey cfg (env.signers.keyOf e.sender)

def isFederatedReorg : Bool :=
  let registry := env.signers.validatorPubkeys.getD []
  let pubkeys := OrderedSet.ofList
    (env.validatorSet.filterMap (readPubkey cfg) ++
      registry.filterMap (fun entry => readPubkey cfg (some entry.2)) ++
      (selfReorgPubkey cfg env).toList)
  1 < env.validatorSet.length || 1 < registry.length || 1 < pubkeys.size ||
    1 < (env.signers.effectiveSignerSet.getD []).length ||
    cfg.declaredMinValidators.any (1 < ·) || 0 < env.openPeers

end Keys

section Lock

def reorgSnapshotToleranceBlocks : ℕ := 144

def unarmed : ℕ := 9999999999

def readHeight : Value → Option ℕ
  | .text s =>
    let digits := DecimalText.trim s.toList
    if digits ≠ [] && digits.all Char.isDigit then
      (some (DecimalText.digitsValue digits)).filter (· ≤ 9007199254740991)
    else none
  | v => v.safeNatural

def isReorgSnapshotActive (blockHeight : Option ℕ) : Bool :=
  match blockHeight, cfg.snapshotActivation with
  | some height, some threshold => threshold ≤ height
  | _, _ => false

def isReorgSnapshotRatified : Bool := cfg.snapshotActivation.any (· < unarmed)

/- The keys of the validators, none where one of them is no key. -/
def snapshotMemberPubkeys (validators : List String) : Option (OrderedSet String) :=
  if validators.all (isPubkey cfg) then
    some (OrderedSet.ofList (validators.map cfg.js.toLowerCase))
  else none

def snapshotQuorum (members : OrderedSet String) : ℕ := BftQuorum.bftQuorumOrSingle members.size 0

/- What the two awaits of the lock come back with: the hub's BTC tip, whether there is
   a snapshot service, and the keys of the snapshot's validators. -/
structure LockReply where
  ownTip : Option ℕ
  service : Bool
  validators : Option (List String)

def fetchReorgFederationSnapshot (stamped : ℕ) (reply : LockReply) : Context :=
  match reply.validators.bind (snapshotMemberPubkeys cfg) with
  | none => .refused
  | some members =>
    if members.size = 0 then .refused
    else
      match selfReorgPubkey cfg env with
      | none => .refused
      | some self =>
        if self ∈ members then .active stamped members (snapshotQuorum members) self else .refused

def lockReorgFederationSnapshot (btcBlockHeight : Value) (inbound : Bool) (reply : LockReply) :
    Context :=
  let stamped := readHeight btcBlockHeight
  let ownActive := isReorgSnapshotActive cfg reply.ownTip
  let active := if inbound then ownActive || isReorgSnapshotActive cfg stamped else ownActive
  let fetch (height : ℕ) : Context :=
    if reply.service then fetchReorgFederationSnapshot cfg env height reply
    else if isFederatedReorg cfg env then .refused else .inactive
  if !active && reply.ownTip.isNone && isReorgSnapshotRatified cfg && isFederatedReorg cfg env then
    .refused
  else if !active then .inactive
  else if inbound then
    if btcBlockHeight.safeNatural.isNone || !isReorgSnapshotActive cfg stamped then .refused
    else
      match reply.ownTip, stamped with
      | some ownTip, some height =>
        if reorgSnapshotToleranceBlocks < Int.natAbs ((ownTip : ℤ) - height) then .refused
        else fetch height
      | _, _ => .refused
  else
    match reply.ownTip with
    | some ownTip => fetch ownTip
    | none => .refused

end Lock

section Probes

/- An answer of getblockhashes; blockIndex is none where Number of it is not finite,
   the two texts are empty where the fields are falsy. -/
structure BlockHashes where
  blockIndex : Option ℚ
  blockHash : String
  network : String
  blockTime : Option ℚ

/- A block of getreorghistory's events; the hash is none where none was recorded. -/
structure OrphanedBlock where
  blockIndex : Option ℚ
  blockHash : Option String

def hasIndexer (chain : String) : Bool := chain ∈ allowedCoins && cfg.indexerUrl chain

/- String(height) of parseInt's result. -/
def heightChars : Option ℤ → List Char
  | some height => NumberText.signText (height < 0) ++ Nat.toDigits 10 height.natAbs
  | none => "NaN".toList

def probeKey (chain : String) (height : Option ℤ) (oldHash newHash : String) : String :=
  chain ++ ":" ++ String.ofList (heightChars height) ++ ":" ++ oldHash ++ ":" ++ newHash

def Probe.key (p : Probe) : String := probeKey p.chain p.height p.oldHash p.newHash

def Probe.verdict (p : Probe) : Option Verdict :=
  match p.stage with
  | .settled verdict => some verdict
  | _ => none

def checkBlock (p : Probe) (bh : BlockHashes) : ProbeStage :=
  if bh.blockHash = "" then .settled .refused
  else if bh.network = "" || (cfg.network ≠ "" && bh.network ≠ cfg.network) then .settled .refused
  else if cfg.js.toLowerCase bh.blockHash ≠ p.newHash || p.newHash = p.oldHash then
    .settled .refused
  else .history ((bh.blockTime.filter (0 < ·)).map (· * 1000))

/- Every comparison with NaN is false, so such a height goes on to the second call. -/
def tipAnswered (p : Probe) (answer : Option BlockHashes) : ProbeStage :=
  match answer.bind (fun tip => tip.blockIndex.map (fun index => (tip, index))) with
  | none => .settled .refused
  | some (tip, tipIndex) =>
    match p.height with
    | none => .block
    | some height =>
      if tipIndex < height then .settled .refused
      else if height < tipIndex - cfg.maxReorgDepth then .settled .refused
      else if height = tipIndex then checkBlock cfg p tip
      else .block

def blockAnswered (p : Probe) (answer : Option BlockHashes) : ProbeStage :=
  match answer with
  | none => .settled .refused
  | some bh => checkBlock cfg p bh

/- The recorded blocks at the height: one with the hash, or one without any where the
   operator accepts that. -/
def confirmOldHashOrphaned (height : Option ℤ) (oldHash : String) (blocks : List OrphanedBlock) :
    Bool :=
  let there := blocks.filter (fun b => b.blockIndex.isSome &&
    b.blockIndex = height.map (fun n => (n : ℚ)))
  there.any (fun b => b.blockHash.any (fun hash => cfg.js.toLowerCase hash = oldHash)) ||
    (cfg.allowUnrecordedOldHash && there.any (fun b => b.blockHash.isNone))

def historyAnswered (p : Probe) (blockTimeMs : Option ℚ) (answer : Option (List OrphanedBlock)) :
    ProbeStage :=
  match answer with
  | none => .settled .refused
  | some blocks =>
    if confirmOldHashOrphaned cfg p.height p.oldHash blocks then .settled (.confirmed blockTimeMs)
    else .settled .refused

/- A probe for an observation that is being probed already is shared. -/
def verifyReorgAgainstOwnNode (h : Hub) (f : Fields) : Hub × ℕ :=
  let chain := f.chain.asText
  let height := parseInt f.reorgHeight.asText
  match h.verifying.get (probeKey chain height f.oldHash f.newHash) with
  | some pid => (h, pid)
  | none =>
    ({ h with
        probes := h.probes ++ [{
          chain, height
          oldHash := f.oldHash
          newHash := f.newHash
          stage := if hasIndexer cfg chain then .tip else .settled .refused }]
        verifying := h.verifying.set (probeKey chain height f.oldHash f.newHash) h.probes.length },
      h.probes.length)

end Probes

end XChainHub.Anchor.ReorgHandler
