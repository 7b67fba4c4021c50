import XChainHub.Anchor.ReorgHandler.SnapshotRound

/-!
The handlers of anchor/reorg_handler/consensus.js and report.js, and one step of
the engine: a delivered envelope, a local report, an answer of the indexer or of
the snapshot lock, a resumed handler, a timer or a settled rollback. The awaits
of the snapshot lock are one pause, as nothing between them touches the rounds.
-/
namespace XChainHub.Anchor.ReorgHandler
open ScriptValue ChainSignerAdmission

variable (cfg : Params) (env : Env)

def reorgVoteCount (p : Round) (commit : Bool) : ℕ :=
  if p.snapshotActive then (if commit then p.commitPubkeys.size else p.preparePubkeys.size)
  else (if commit then p.commits.size else p.prepares.size)

section Rollbacks

/- The bound of the writes: the block's own time where it is known, not before the window. -/
def rollbackBound (now : ℤ) (timestamp : Value) (blockTimeMs : Option ℚ) : ℚ :=
  let bound := blockTimeMs.getD ((parseInt timestamp.asText).getD 0 : ℤ)
  max bound ((now - cfg.maxLookbackMs : ℤ) : ℚ)

def rollbackOf (reorgId : String) (chain reorgHeight timestamp : Value) (validatorCount : ℕ)
    (proof : List String) (blockTimeMs : Option ℚ) : Rollback where
  chain := chain
  reorgHeight := reorgHeight
  timestamp := timestamp
  reorgId := reorgId
  validatorCount := validatorCount
  proof := proof
  bound := rollbackBound cfg env.now timestamp blockTimeMs
  affectedChains := getAffectedChains chain

def Round.finalize (p : Round) : Round := { p with finalized := true, timer := false }

def checkCommitQuorum (h : Hub) (reorgId : String) : Hub :=
  match h.pending reorgId with
  | none => h
  | some (rid, p) =>
    if p.finalized || !p.selfVerified then h
    else if p.quorum ≤ reorgVoteCount p true then
      let proofSet := if p.snapshotActive then p.commitPubkeys else p.commits
      ((h.modify rid Round.finalize).emit
        (.consensusRollback p.finalize
          (rollbackOf cfg env reorgId p.chain p.reorgHeight p.timestamp (reorgVoteCount p false)
            proofSet.items p.observedBlockTimeMs))).park (.rollbackWrites reorgId true)
    else h

end Rollbacks

section Votes

/- The address counts before the key is looked at, as in the source. -/
def Round.markCommit (p : Round) : Round :=
  { p with commitSent := true, commits := p.commits.add cfg.validatorAddr }

def Round.countOwnCommit (k : String) (p : Round) : Round :=
  { p with commitPubkeys := p.commitPubkeys.add k }

def commitMessage (p : Round) : Message :=
  { kind := .commit
    reorgId := .text p.reorgId
    digest := .text p.digest
    btcBlockHeight :=
      match p.snapshotActive, p.btcBlockHeight with
      | true, some height => .number (NumberText.Number.ofNat height)
      | _, _ => .undefined }

def checkPrepareQuorum (h : Hub) (reorgId : String) : Hub :=
  match h.pending reorgId with
  | none => h
  | some (rid, p) =>
    if p.finalized || !p.selfVerified then h
    else if p.quorum ≤ reorgVoteCount p false && !p.commitSent then
      if p.snapshotActive then
        match (selfReorgPubkey cfg env).filter (· ∈ p.memberPubkeys) with
        | none => h.modify rid (Round.markCommit cfg)
        | some self =>
          checkCommitQuorum cfg env
            ((h.modify rid (fun q => Round.countOwnCommit self (Round.markCommit cfg q))).emit
              (.broadcast (commitMessage p))) reorgId
      else
        checkCommitQuorum cfg env
          ((h.modify rid (Round.markCommit cfg)).emit (.broadcast (commitMessage p))) reorgId
    else h

def Round.countPrepare (sender : String) (key : Option String) (p : Round) : Round :=
  { p with
    prepares := p.prepares.add sender
    preparePubkeys :=
      match key with
      | some k => p.preparePubkeys.add k
      | none => p.preparePubkeys }

def Round.countCommit (sender : String) (key : Option String) (p : Round) : Round :=
  { p with
    commits := p.commits.add sender
    commitPubkeys :=
      match key with
      | some k => p.commitPubkeys.add k
      | none => p.commitPubkeys }

/- The tail of handlePrepare, once there is a round. -/
def tallyPrepare (h : Hub) (e : Envelope) (f : Fields) (known : Known) : Hub :=
  match h.pending f.reorgId with
  | none => h
  | some (rid, p) =>
    if e.data.digest.textOf ≠ some p.digest then h
    else if p.snapshotActive then
      if e.data.btcBlockHeight.safeNatural ≠ p.btcBlockHeight then h
      else
        match (resolveReorgSenderPubkey cfg env e).filter (· ∈ p.memberPubkeys) with
        | none => h
        | some k =>
          if !known.pubkeyKnown then h
          else checkPrepareQuorum cfg env (h.modify rid (Round.countPrepare e.sender (some k)))
            f.reorgId
    else if !known.legacyKnown then h
    else if p.digest ≠ reorgRoundDigest cfg f none then h
    else checkPrepareQuorum cfg env (h.modify rid (Round.countPrepare e.sender none)) f.reorgId

def handleCommit (h : Hub) (e : Envelope) : Hub :=
  match e.data.reorgId.textOf, e.data.digest.textOf with
  | some reorgId, some digest =>
    if reorgId = "" || digest = "" then h
    else
      match h.pending reorgId with
      | none => h
      | some (rid, p) =>
        if p.digest ≠ digest then h
        else if p.snapshotActive then
          if e.data.btcBlockHeight.safeNatural ≠ p.btcBlockHeight ||
              !isAdmissibleSigner cfg.js.toLowerCase env.signers e.sigPubkey then h
          else
            match (resolveReorgSenderPubkey cfg env e).filter (· ∈ p.memberPubkeys) with
            | none => h
            | some k => checkCommitQuorum cfg env
                (h.modify rid (Round.countCommit e.sender (some k))) reorgId
        else if !isKnownSender env.signers e.sender then h
        else checkCommitQuorum cfg env (h.modify rid (Round.countCommit e.sender none)) reorgId
  | _, _ => h

end Votes

section Opening

/- The record both openings fill in; a follower's own vote is not counted. -/
def roundOf (f : Fields) (affectedChains : Value) (digest : String) (blockTimeMs : Option ℚ)
    (context : Context) (leader : Bool) : Round :=
  let base : Round :=
    { reorgId := f.reorgId
      chain := f.chain
      reorgHeight := f.reorgHeight
      timestamp := f.timestamp
      affectedChains, digest
      oldHash := f.oldHash
      newHash := f.newHash
      observedBlockTimeMs := blockTimeMs
      selfVerified := true
      quorum := getQuorum cfg env
      snapshotActive := false
      btcBlockHeight := none
      memberPubkeys := OrderedSet.empty
      prepares := if leader then OrderedSet.empty.add cfg.validatorAddr else OrderedSet.empty
      commits := OrderedSet.empty
      preparePubkeys := OrderedSet.empty
      commitPubkeys := OrderedSet.empty
      commitSent := false
      finalized := false
      leader
      timer := true }
  match context with
  | .active height members quorum self =>
    { base with
      quorum
      snapshotActive := true
      btcBlockHeight := some height
      memberPubkeys := members
      preparePubkeys := if leader then OrderedSet.empty.add self else OrderedSet.empty }
  | _ => base

def Context.height : Context → Option ℕ
  | .active height _ _ _ => some height
  | _ => none

def prepareMessage (p : Round) : Message :=
  { kind := .prepare
    reorgId := .text p.reorgId
    chain := p.chain
    reorgHeight := p.reorgHeight
    timestamp := p.timestamp
    affectedChains := p.affectedChains
    digest := .text p.digest
    oldHash := .text p.oldHash
    newHash := .text p.newHash
    btcBlockHeight :=
      match p.btcBlockHeight with
      | some height => .number (NumberText.Number.ofNat height)
      | none => .undefined }

def initiateReorgConsensus (h : Hub) (f : Fields) (blockTimeMs : Option ℚ) (context : Context) :
    Hub :=
  match context with
  | .refused => h
  | _ =>
    if h.pendingReorgs.has f.reorgId then h
    else
      let p := roundOf cfg env f (.array ((getAffectedChains f.chain).map .text))
        (reorgRoundDigest cfg f context.height) blockTimeMs context true
      checkPrepareQuorum cfg env ((h.openRound p).emit (.broadcast (prepareMessage p))) f.reorgId

def openFollowerRound (h : Hub) (e : Envelope) (f : Fields) (digest : String)
    (blockTimeMs : Option ℚ) (context : Context) : Hub :=
  h.openRound (roundOf cfg env f (e.data.affectedChains.orElse (.array [])) digest blockTimeMs
    context false)

/- The sender is one the opened round would count. -/
def senderAdmitted (e : Envelope) (known : Known) (context : Context) : Bool :=
  match context with
  | .active _ members _ _ =>
    known.pubkeyKnown && (resolveReorgSenderPubkey cfg env e).any (· ∈ members)
  | _ => known.legacyKnown

end Opening

section Inbound

def knownSender (e : Envelope) : Known where
  legacyKnown := isKnownSender env.signers e.sender
  pubkeyKnown := isAdmissibleSigner cfg.js.toLowerCase env.signers e.sigPubkey

/- The fields of a message whose reorgId is the canonical one of its own observation. -/
def Message.fields (m : Message) : Option Fields :=
  if m.chain.isFalsy || m.reorgHeight.isFalsy || m.timestamp.isFalsy || m.reorgId.isFalsy then none
  else
    match m.reorgId.textOf with
    | none => none
    | some reorgId =>
      if reorgId ≠ canonicalReorgId m.chain m.reorgHeight m.timestamp then none
      else some ⟨reorgId, m.chain, m.reorgHeight, m.timestamp, asHash cfg m.oldHash,
        asHash cfg m.newHash⟩

def handleAlert (h : Hub) (e : Envelope) : Hub :=
  let known := knownSender cfg env e
  if !known.legacyKnown && !known.pubkeyKnown then h
  else
    match e.data.fields cfg with
    | none => h
    | some f =>
      if f.reorgId ∈ h.processed || h.pendingReorgs.has f.reorgId then h
      else if cfg.maxPendingReorgs ≤ h.pendingReorgs.size then h
      else if !timestampInBounds cfg env.now f.timestamp then h
      else if !hashesWellFormed f.oldHash f.newHash then h
      else
        let (h, pid) := verifyReorgAgainstOwnNode cfg h f
        h.park (.alertProbe e f known pid)

def handlePrepare (h : Hub) (e : Envelope) : Hub :=
  let known := knownSender cfg env e
  if !known.legacyKnown && !known.pubkeyKnown then h
  else if e.data.digest.isFalsy then h
  else
    match e.data.fields cfg with
    | none => h
    | some f =>
      if !timestampInBounds cfg env.now f.timestamp then h
      else if !hashesWellFormed f.oldHash f.newHash then h
      else if h.pendingReorgs.has f.reorgId then tallyPrepare cfg env h e f known
      else if f.reorgId ∈ h.processed then h
      else if cfg.maxPendingReorgs ≤ h.pendingReorgs.size then h
      else h.park (.prepareLock e f known)

/- Continuations of handleAlert and openRoundFromPrepare past the probe. -/
def alertVerified (h : Hub) (e : Envelope) (f : Fields) (known : Known)
    (blockTimeMs : Option ℚ) : Hub :=
  if !timestampConsistentWithBlockTime cfg f.timestamp blockTimeMs then h
  else if f.reorgId ∈ h.processed || h.pendingReorgs.has f.reorgId then h
  else h.park (.alertLock e f known blockTimeMs)

def alertLocked (h : Hub) (e : Envelope) (f : Fields) (known : Known) (blockTimeMs : Option ℚ)
    (context : Context) : Hub :=
  if senderAdmitted cfg env e known context then
    initiateReorgConsensus cfg env h f blockTimeMs context
  else h

def prepareLocked (h : Hub) (e : Envelope) (f : Fields) (known : Known) (context : Context) :
    Hub :=
  match context with
  | .refused => h
  | _ =>
    if e.data.digest.textOf ≠ some (reorgRoundDigest cfg f context.height) then h
    else if senderAdmitted cfg env e known context then
      let (h, pid) := verifyReorgAgainstOwnNode cfg h f
      h.park (.prepareProbe e f known context pid)
    else h

def prepareVerified (h : Hub) (e : Envelope) (f : Fields) (known : Known) (context : Context)
    (blockTimeMs : Option ℚ) : Hub :=
  if !timestampConsistentWithBlockTime cfg f.timestamp blockTimeMs then h
  else
    (if h.pendingReorgs.has f.reorgId then h
      else openFollowerRound cfg env h e f (reorgRoundDigest cfg f context.height) blockTimeMs
        context).park (.prepareTally e f known)

end Inbound

section Reports

/- parseReorgReport, none where it throws. -/
def parseReorgReport (chain reorgHeight timestamp oldHash newHash : Value) : Option Fields :=
  match chain.textOf with
  | none => none
  | some coin =>
    if coin ∉ allowedCoins then none
    else if !(parseInt reorgHeight.asText).any (0 ≤ ·) then none
    else if !timestampInBounds cfg env.now timestamp then none
    else if !hashesWellFormed (asHash cfg oldHash) (asHash cfg newHash) then none
    else some ⟨canonicalReorgId chain reorgHeight timestamp, chain, reorgHeight, timestamp,
      asHash cfg oldHash, asHash cfg newHash⟩

def reportReorg (h : Hub) (chain reorgHeight timestamp oldHash newHash : Value) : Hub :=
  match parseReorgReport cfg env chain reorgHeight timestamp oldHash newHash with
  | none => h
  | some f =>
    if f.reorgId ∈ h.processed then h
    else if env.now - (h.reorgRateTracker.get f.chain.asText).getD 0 < 60000 then h
    else
      let (h, pid) := verifyReorgAgainstOwnNode cfg h f
      h.park (.reportProbe f env.now pid)

def reportVerified (h : Hub) (f : Fields) (now : ℤ) (blockTimeMs : Option ℚ) : Hub :=
  if !timestampConsistentWithBlockTime cfg f.timestamp blockTimeMs then h
  else h.park (.reportLock f now blockTimeMs)

def alertMessage (f : Fields) (context : Context) : Message :=
  { kind := .alert
    reorgId := .text f.reorgId
    chain := f.chain
    reorgHeight := f.reorgHeight
    timestamp := f.timestamp
    oldHash := .text f.oldHash
    newHash := .text f.newHash
    btcBlockHeight :=
      match context.height with
      | some height => .number (NumberText.Number.ofNat height)
      | none => .undefined }

def Context.roundQuorum : Context → ℕ
  | .active _ _ quorum _ => quorum
  | _ => getQuorum cfg env

def Context.ownProof : Context → List String
  | .active _ _ _ self => [self]
  | _ => []

def reportLocked (h : Hub) (f : Fields) (now : ℤ) (blockTimeMs : Option ℚ) (context : Context) :
    Hub :=
  let h := { h with reorgRateTracker := h.reorgRateTracker.set f.chain.asText now }
  if context.roundQuorum cfg env = 0 then
    (h.emit (.localRollback (rollbackOf cfg env f.reorgId f.chain f.reorgHeight f.timestamp 1
      context.ownProof blockTimeMs))).park (.rollbackWrites f.reorgId false)
  else
    initiateReorgConsensus cfg env (h.emit (.broadcast (alertMessage f context))) f blockTimeMs
      context

end Reports

inductive Event where
  | deliver (e : Envelope)
  | report (chain reorgHeight timestamp oldHash newHash : Value)
  | tip (pid : ℕ) (answer : Option BlockHashes)
  | block (pid : ℕ) (answer : Option BlockHashes)
  | history (pid : ℕ) (answer : Option (List OrphanedBlock))
  | probeOver (pid : ℕ)
  | resume (tid : ℕ)
  | locked (tid : ℕ) (reply : LockReply)
  | timeout (rid : ℕ)
  | written (tid : ℕ) (ok : Bool)
  | broadcasted (tid : ℕ)

def handleMessage (h : Hub) (e : Envelope) : Hub :=
  match e.data.kind with
  | .alert => handleAlert cfg env h e
  | .prepare => handlePrepare cfg env h e
  | .commit => handleCommit cfg env h e

/- A probe moves on; a confirmation is recorded. -/
def Hub.advance (h : Hub) (pid : ℕ) (p : Probe) (stage : ProbeStage) : Hub :=
  let moved := { h with probes := h.probes.set pid { p with stage } }
  match stage with
  | .settled (.confirmed _) => moved.emit (.probed p.chain p.height p.oldHash p.newHash)
  | _ => moved

def Hub.takeTask (h : Hub) (tid : ℕ) : Hub := { h with tasks := h.tasks.set tid none }

/- The probe a handler waits for has confirmed. -/
def Hub.confirmedProbe (h : Hub) (pid : ℕ) : Option (Option ℚ) :=
  match h.probes[pid]?.bind Probe.verdict with
  | some (.confirmed blockTimeMs) => some blockTimeMs
  | _ => none

def probeSettled (h : Hub) (pid : ℕ) : Bool := (h.probes[pid]?.bind Probe.verdict).isSome

def resume (h : Hub) (tid : ℕ) : Hub :=
  match h.tasks[tid]?.join with
  | some (.alertProbe e f known pid) =>
    if probeSettled h pid then
      match h.confirmedProbe pid with
      | some blockTimeMs => alertVerified cfg (h.takeTask tid) e f known blockTimeMs
      | none => h.takeTask tid
    else h
  | some (.prepareProbe e f known context pid) =>
    if probeSettled h pid then
      match h.confirmedProbe pid with
      | some blockTimeMs => prepareVerified cfg env (h.takeTask tid) e f known context blockTimeMs
      | none => h.takeTask tid
    else h
  | some (.reportProbe f now pid) =>
    if probeSettled h pid then
      match h.confirmedProbe pid with
      | some blockTimeMs => reportVerified cfg (h.takeTask tid) f now blockTimeMs
      | none => h.takeTask tid
    else h
  | some (.prepareTally e f known) => tallyPrepare cfg env (h.takeTask tid) e f known
  | _ => h

/- What a parked handler asks the snapshot lock: the stamped height and the direction. -/
def Task.lockRequest : Task → Option (Value × Bool)
  | .alertLock e _ _ _ => some (e.data.btcBlockHeight, true)
  | .prepareLock e _ _ => some (e.data.btcBlockHeight, true)
  | .reportLock _ _ _ => some (.null, false)
  | _ => none

def locked (h : Hub) (tid : ℕ) (reply : LockReply) : Hub :=
  match h.tasks[tid]?.join with
  | some (.alertLock e f known blockTimeMs) =>
    alertLocked cfg env (h.takeTask tid) e f known blockTimeMs
      (lockReorgFederationSnapshot cfg env e.data.btcBlockHeight true reply)
  | some (.prepareLock e f known) =>
    prepareLocked cfg env (h.takeTask tid) e f known
      (lockReorgFederationSnapshot cfg env e.data.btcBlockHeight true reply)
  | some (.reportLock f now blockTimeMs) =>
    match lockReorgFederationSnapshot cfg env .null false reply with
    | .refused => h.takeTask tid
    | context => reportLocked cfg env (h.takeTask tid) f now blockTimeMs context
  | _ => h

/- The leader's timer leaves a finalized round alone; the follower's clears it. -/
def timeout (h : Hub) (rid : ℕ) : Hub :=
  match h.rounds[rid]? with
  | none => h
  | some p =>
    if !p.timer then h
    else
      let h := h.modify rid (fun q => { q with timer := false })
      let said := h.emit (.timeout p (reorgVoteCount p false) (reorgVoteCount p true))
      if p.finalized then (if p.leader then h else h.forget p.reorgId)
      else said.forget p.reorgId

def written (h : Hub) (tid : ℕ) (ok : Bool) : Hub :=
  match h.tasks[tid]?.join with
  | some (.rollbackWrites reorgId consensus) =>
    let h := h.takeTask tid
    if ok then { h with processed := h.processed.add reorgId }.park (.disputedRows reorgId consensus)
    else if consensus then h.forget reorgId else h
  | _ => h

def broadcasted (h : Hub) (tid : ℕ) : Hub :=
  match h.tasks[tid]?.join with
  | some (.disputedRows reorgId consensus) =>
    let h := (h.takeTask tid).emit (.confirmed reorgId)
    if consensus then h.forget reorgId else h
  | _ => h

def step (h : Hub) (m : Env × Event) : Hub :=
  match m.2 with
  | .deliver e => handleMessage cfg m.1 h e
  | .report chain reorgHeight timestamp oldHash newHash =>
    reportReorg cfg m.1 h chain reorgHeight timestamp oldHash newHash
  | .tip pid answer =>
    match h.probes[pid]? with
    | some p =>
      match p.stage with
      | .tip => h.advance pid p (tipAnswered cfg p answer)
      | _ => h
    | none => h
  | .block pid answer =>
    match h.probes[pid]? with
    | some p =>
      match p.stage with
      | .block => h.advance pid p (blockAnswered cfg p answer)
      | _ => h
    | none => h
  | .history pid answer =>
    match h.probes[pid]? with
    | some p =>
      match p.stage with
      | .history blockTimeMs => h.advance pid p (historyAnswered cfg p blockTimeMs answer)
      | _ => h
    | none => h
  | .probeOver pid =>
    match h.probes[pid]? with
    | some p => if probeSettled h pid then { h with verifying := h.verifying.erase p.key } else h
    | none => h
  | .resume tid => resume cfg m.1 h tid
  | .locked tid reply => locked cfg m.1 h tid reply
  | .timeout rid => timeout h rid
  | .written tid ok => written h tid ok
  | .broadcasted tid => broadcasted h tid

end XChainHub.Anchor.ReorgHandler
