import XChainHub.Consensus.Pbft.Leader

/-!
The handlers of consensus/pbft/{votes,pre_prepare,propose,view_change}.js over an
explicit hub state, and one step of the engine: a delivered envelope, a settled
await, a call of propose or a timer. Two awaits with nothing between them that
reads or writes the engine are one pause.
-/
namespace XChainHub.Pbft
open BftQuorum

variable {Config : Type} (cfg : Params Config) (env : Env)

def earlyVoteMaxSeqs : ℕ := 64
def earlyVoteMaxPerSeq : ℕ := 64
def maxViewSkew : ℚ := 100

def pruneEarlyVotes (now lastAppliedSeq : ℚ) (buckets : List (EarlyBucket Config)) :
    List (EarlyBucket Config) :=
  buckets.filter (fun b => !(b.expiresAt ≤ now || b.seq ≤ lastAppliedSeq))

/- A full bucket keeps its votes and its expiry. -/
def EarlyBucket.push (b : EarlyBucket Config) (expiresAt : ℚ) (envelope : Envelope Config) :
    EarlyBucket Config :=
  if earlyVoteMaxPerSeq ≤ b.votes.length then b
  else { b with votes := b.votes ++ [envelope], expiresAt }

def bufferEarlyVote (h : Hub Config) (seq : ℚ) (envelope : Envelope Config) : Hub Config :=
  if seq.den ≠ 1 || seq ≤ 0 then h
  else if seq ≤ h.lastAppliedSeq then h
  else if h.replayingSeq = some seq then h
  else
    let expiresAt := env.now + cfg.timeout
    let live := pruneEarlyVotes env.now h.lastAppliedSeq h.earlyVotes
    let buckets :=
      if live.any (fun b => b.seq = seq) then live
      else live.drop (live.length + 1 - earlyVoteMaxSeqs) ++ [⟨seq, expiresAt, []⟩]
    { h with earlyVotes := buckets.map (fun b =>
        if b.seq = seq then b.push expiresAt envelope else b) }

def Proposal.beginApply (p : Proposal Config) : Proposal Config :=
  { p with applying := true, chain := .configInFlight }

def Proposal.awaitSeq (p : Proposal Config) : Proposal Config := { p with chain := .seqInFlight }

def Proposal.unlock (p : Proposal Config) : Proposal Config :=
  { p with applying := false, chain := .idle }

def Proposal.markApplied (p : Proposal Config) : Proposal Config :=
  { p with applied := true, chain := .idle }

def Proposal.resolve (p : Proposal Config) : Proposal Config := { p with resolved := true }

/- The apply starts here; its two awaits settle in configApplied and seqSaved. -/
def checkCommitQuorum (h : Hub Config) (seq : ℚ) : Hub Config :=
  match h.pending seq with
  | none => h
  | some (pid, p) =>
    if p.applied || p.applying then h
    else if quorumMet cfg p.quorum p.weighted p.validators p.commits p.commitPubkeys then
      h.modify pid Proposal.beginApply
    else h

def Proposal.sendCommit (p : Proposal Config) : Proposal Config :=
  { p with
    commitSent := true
    commits := p.commits.add cfg.validatorAddr
    commitPubkeys := addSelfPubkey cfg p.commitPubkeys }

def checkPrepareQuorum (h : Hub Config) (seq : ℚ) : Hub Config :=
  match h.pending seq with
  | none => h
  | some (pid, p) =>
    if p.resolved then h
    else if quorumMet cfg p.quorum p.weighted p.validators p.prepares p.preparePubkeys then
      if p.commitSent then h
      else
        checkCommitQuorum cfg
          ((h.modify pid (Proposal.sendCommit cfg)).emit
            (.broadcast (.commit (some seq) (some p.digest))
              (equivVote cfg seq p.view p.digest p.btcBlockHeight))) seq
    else h

def Proposal.countPrepare (envelope : Envelope Config) (p : Proposal Config) : Proposal Config :=
  { p with
    prepares := p.prepares.add envelope.sender
    preparePubkeys := addSenderPubkey cfg env envelope p.preparePubkeys }

def Proposal.countCommit (envelope : Envelope Config) (p : Proposal Config) : Proposal Config :=
  { p with
    commits := p.commits.add envelope.sender
    commitPubkeys := addSenderPubkey cfg env envelope p.commitPubkeys }

def handlePrepare (h : Hub Config) (envelope : Envelope Config) (seq : Option ℚ)
    (configDigest : Option String) : Hub Config :=
  match seq, configDigest with
  | some seq, some digest =>
    if seq = 0 then h
    else if !isKnownSender cfg env envelope then h
    else
      match h.pending seq with
      | none => bufferEarlyVote cfg env h seq envelope
      | some (pid, p) =>
        if digest ≠ p.digest then h
        else checkPrepareQuorum cfg (h.modify pid (Proposal.countPrepare cfg env envelope)) seq
  | _, _ => h

def handleCommit (h : Hub Config) (envelope : Envelope Config) (seq : Option ℚ)
    (configDigest : Option String) : Hub Config :=
  match seq, configDigest with
  | some seq, some digest =>
    if seq = 0 then h
    else if !isKnownSender cfg env envelope then h
    else
      match h.pending seq with
      | none => bufferEarlyVote cfg env h seq envelope
      | some (pid, p) =>
        if digest ≠ p.digest then h
        else checkCommitQuorum cfg (h.modify pid (Proposal.countCommit cfg env envelope)) seq
  | _, _ => h

/- handleMessage on what the buffer holds: PREPARE and COMMIT envelopes only. -/
def handleVote (h : Hub Config) (envelope : Envelope Config) : Hub Config :=
  match envelope.data with
  | .prepare seq digest => handlePrepare cfg env h envelope seq digest
  | .commit seq digest => handleCommit cfg env h envelope seq digest
  | _ => h

def Hub.drain (h : Hub Config) (seq : ℚ) : Hub Config :=
  { h with
    earlyVotes := h.earlyVotes.filter (fun b => b.seq ≠ seq)
    replayingSeq := some seq }

def Hub.endReplay (h : Hub Config) : Hub Config := { h with replayingSeq := none }

def replayEarlyVotes (h : Hub Config) (seq : ℚ) : Hub Config :=
  match h.earlyVotes.find? (fun b => b.seq = seq) with
  | none => h
  | some bucket =>
    if bucket.votes.isEmpty then h
    else (bucket.votes.foldl (handleVote cfg env) (h.drain seq)).endReplay

def Proposal.castPrepare (envelope : Envelope Config) (p : Proposal Config) : Proposal Config :=
  { p with
    prepares := (p.prepares.add envelope.sender).add cfg.validatorAddr
    preparePubkeys := addSelfPubkey cfg (addSenderPubkey cfg env envelope p.preparePubkeys) }

def castPrepare (h : Hub Config) (envelope : Envelope Config) (seq : ℚ)
    (configDigest : String) : Hub Config :=
  match h.pending seq with
  | none => h
  | some (pid, p) =>
    if p.digest ≠ configDigest then h
    else
      replayEarlyVotes cfg env
        (checkPrepareQuorum cfg
          ((h.modify pid (Proposal.castPrepare cfg env envelope)).emit
            (.broadcast (.prepare (some seq) (some configDigest))
              (equivVote cfg seq p.view p.digest p.btcBlockHeight))) seq) seq

/- The shape, sender, view, sequence and digest checks, in the source's order. -/
def prePrepareAdmissible (h : Hub Config) (envelope : Envelope Config) (seq view : Option ℚ)
    (configDigest : Option String) (config : Option Config) :
    Option (ℚ × ℚ × String × Config) :=
  match seq, configDigest, config with
  | some seq, some digest, some config =>
    if seq ≤ 0 then none
    else if !isKnownSender cfg env envelope then none
    else
      match view with
      | none => none
      | some view =>
        if seq ≤ h.lastAppliedSeq then none
        else if cfg.digest config ≠ digest then none
        else some (seq, view, digest, config)
  | _, _, _ => none

def isPositiveInteger (height : Option ℚ) : Bool :=
  match height with
  | none => false
  | some q => q.den = 1 && 0 < q

def stampedHeightUsable (btcBlockHeight : Option ℚ) : Bool :=
  !(isFederated cfg env (some btcBlockHeight) && !isPositiveInteger btcBlockHeight)

/- myTip is Number(tip), none where that is not finite. -/
def tipBoundOk (btcBlockHeight myTip : Option ℚ) : Bool :=
  match myTip with
  | none => false
  | some tip => decide (|tip - btcBlockHeight.getD 0| ≤ cfg.snapshotToleranceBlocks)

/- The indexer's answers to lockSnapshot: the tip it resolves and the snapshot. -/
structure LockReply where
  tip : Option ℚ
  snapshot : Option Snapshot

structure Lock where
  snapshot : Option Snapshot
  weighted : Bool
  requestedBlockIndex : Option ℚ
  roundHeight : Option ℚ

def lockSnapshot (roundHeight blockHeightOverride : Option ℚ) (reply : LockReply) : Lock :=
  if !cfg.capabilitySnapshot then ⟨none, false, none, roundHeight⟩
  else
    let blockHeight := blockHeightOverride.or reply.tip
    match blockHeight with
    | none => ⟨none, false, none, none⟩
    | some height =>
      if height = 0 then ⟨none, false, none, some height⟩
      else ⟨reply.snapshot, cfg.stakeWeightedActive height, some height, some height⟩

/- Weighted mode without validators falls back to the count. -/
def weightedUsable (weighted : Bool) (snapshot : Option Snapshot) : Bool :=
  weighted && !(snapshotRows snapshot).isEmpty

def followerRoundQuorum (seq view : ℚ) (envelope : Envelope Config) (lock : Lock) :
    Option (ℕ × Bool) :=
  let round := some lock.roundHeight
  if isFederated cfg env round && !hasDeterministicSnapshot lock.snapshot then none
  else
    let quorum := roundQuorum env lock.snapshot
    if isEmptyFederationSnapshot cfg env round lock.snapshot then none
    else if quorum = 0 && isNonMemberSnapshot cfg env round lock.snapshot then none
    else if leaderIdentityOk cfg env seq view envelope (memberPubkeySet cfg lock.snapshot) then
      some (quorum, weightedUsable lock.weighted lock.snapshot)
    else none

def newRecord (leader : Bool) (seq view : ℚ) (digest : String) (config : Config) (quorum : ℕ)
    (weighted : Bool) (snapshot : Option Snapshot) (btcBlockHeight : Option ℚ) :
    Proposal Config where
  seq := seq
  leader := leader
  config := config
  digest := digest
  view := view
  prepares := .empty
  commits := .empty
  preparePubkeys := .empty
  commitPubkeys := .empty
  resolved := false
  applied := false
  commitSent := false
  applying := false
  chain := .idle
  quorum := quorum
  weighted := weighted
  validators := normalizeValidators cfg snapshot weighted
  memberPubkeys := memberPubkeySet cfg snapshot
  btcBlockHeight := btcBlockHeight

/- The record openFollowerRound stores once the snapshot lock settles, none where
   the tip bound or the round's quorum refuses it. -/
def followerRecord (envelope : Envelope Config) (seq view : ℚ) (configDigest : String)
    (config : Config) (btcBlockHeight : Option ℚ) (tipBound : Bool) (myTip : Option ℚ)
    (reply : LockReply) : Option (Proposal Config) :=
  if tipBound && !tipBoundOk cfg btcBlockHeight myTip then none
  else
    let lock := lockSnapshot cfg btcBlockHeight btcBlockHeight reply
    (followerRoundQuorum cfg env seq view envelope lock).map (fun round =>
      newRecord cfg false seq view configDigest config round.1 round.2 lock.snapshot
        (btcBlockHeight.filter (fun q => q ≠ 0)))

/- handlePrePrepare up to its first await; a known seq needs none. -/
def handlePrePrepare (h : Hub Config) (envelope : Envelope Config) (seq view : Option ℚ)
    (configDigest : Option String) (config : Option Config) (btcBlockHeight : Option ℚ) :
    Hub Config :=
  match prePrepareAdmissible cfg env h envelope seq view configDigest config with
  | none => h
  | some (seq, view, digest, config) =>
    match h.pending seq with
    | some (_, p) =>
      if leaderIdentityOk cfg env seq view envelope p.memberPubkeys then
        castPrepare cfg env h envelope seq digest
      else h
    | none =>
      if stampedHeightUsable cfg env btcBlockHeight then
        { h with tasks := h.tasks ++ [some (.prePrepare envelope seq view digest config
            btcBlockHeight (isFederated cfg env (some btcBlockHeight)))] }
      else h

inductive ProposeOutcome (Config : Type) where
  | refused
  | applyDirect
  | notLeader (nextSeq : ℚ)
  | round (p : Proposal Config)

/- propose() after the snapshot lock: the guards, the slot and the leader check.
   The leader is looked up at the current view and the record is stamped view 0. -/
def proposeOutcome (h : Hub Config) (config : Config) (reply : LockReply) :
    ProposeOutcome Config :=
  let lock := lockSnapshot cfg none none reply
  let round := some lock.roundHeight
  if isFederated cfg env round && !hasDeterministicSnapshot lock.snapshot then .refused
  else
    let quorum := roundQuorum env lock.snapshot
    if quorum = 0 then
      if isEmptyFederationSnapshot cfg env round lock.snapshot then .refused
      else if isNonMemberSnapshot cfg env round lock.snapshot then .refused
      else .applyDirect
    else
      let memberPubkeys := memberPubkeySet cfg lock.snapshot
      let nextSeq := max h.seq h.lastAppliedSeq + 1
      let leader := leaderAt cfg env nextSeq h.view memberPubkeys
      if leader.isSome && !isLeaderIdentity cfg leader cfg.validatorAddr (selfPubkey cfg) then
        .notLeader nextSeq
      else
        .round (newRecord cfg true nextSeq 0 (cfg.digest config) config quorum
          (weightedUsable lock.weighted lock.snapshot) lock.snapshot
          (if lock.snapshot.isSome then lock.requestedBlockIndex else none))

def Proposal.castOwn (p : Proposal Config) : Proposal Config :=
  { p with
    prepares := p.prepares.add cfg.validatorAddr
    preparePubkeys := addSelfPubkey cfg p.preparePubkeys }

/- Everything openLeaderRound does after the record is in the map. -/
def announceRound (h : Hub Config) (pid : ℕ) (p : Proposal Config) : Hub Config :=
  checkPrepareQuorum cfg
    ((h.modify pid (Proposal.castOwn cfg)).emit
      (.broadcast (.prePrepare (some p.seq) (some p.view) (some p.digest) (some p.config)
          p.btcBlockHeight)
        (equivVote cfg p.seq p.view p.digest p.btcBlockHeight))) p.seq

def eraseKeys {V : Type} (stale : ℚ → Bool) (m : AList (fun _ : ℚ => V)) :
    AList (fun _ : ℚ => V) :=
  m.keys.foldl (fun (kept : AList (fun _ : ℚ => V)) k => if stale k then kept.erase k else kept) m

def viewChangeContext (h : Hub Config) (seq : ℚ) : ViewChangeContext :=
  match h.pending seq with
  | some (_, p) => ⟨p.quorum, p.weighted, p.validators, p.memberPubkeys⟩
  | none =>
    match h.viewChangeQuorums.lookup seq with
    | some ctx => ctx
    | none =>
      if isFederated cfg env none then ⟨0, false, ⟨[], false⟩, none⟩
      else ⟨liveQuorum env, false, ⟨[], false⟩, none⟩

def acceptViewChange (h : Hub Config) (view seq : ℚ) (ctx : ViewChangeContext) : Hub Config :=
  let moved := { h with view }
  let announced :=
    if isLeaderIdentity cfg (leaderAt cfg env seq view ctx.memberPubkeys) cfg.validatorAddr
        (selfPubkey cfg) then
      moved.emit (.broadcast (.newView (some view) (some seq)) none)
    else moved
  { announced with
    pendingViewChanges := eraseKeys (· < view) (h.pendingViewChanges.erase view)
    pendingViewChangePubkeys := eraseKeys (· < view) (h.pendingViewChangePubkeys.erase view)
    viewChangeQuorums := h.viewChangeQuorums.erase seq }

def addVote (m : AList (fun _ : ℚ => OrderedSet String)) (view : ℚ) (voter : String) :
    AList (fun _ : ℚ => OrderedSet String) :=
  m.insert view (((m.lookup view).getD .empty).add voter)

def handleViewChange (h : Hub Config) (envelope : Envelope Config) (view seq : Option ℚ) :
    Hub Config :=
  match view, seq with
  | some view, some seq =>
    if view < h.view || h.view + maxViewSkew < view then h
    else if !isKnownSender cfg env envelope then h
    else
      let voted := { h with
        pendingViewChanges := addVote h.pendingViewChanges view envelope.sender }
      let ctx := viewChangeContext cfg env voted seq
      if ctx.quorum = 0 then voted
      else
        let keys := addSenderPubkey cfg env envelope
          ((voted.pendingViewChangePubkeys.lookup view).getD .empty)
        let counted := { voted with
          pendingViewChangePubkeys := voted.pendingViewChangePubkeys.insert view keys }
        if quorumMet cfg ctx.quorum ctx.weighted ctx.validators
            ((counted.pendingViewChanges.lookup view).getD .empty) keys then
          acceptViewChange cfg env counted view seq ctx
        else counted
  | _, _ => h

def memberPubkeysForSeq (h : Hub Config) (seq : ℚ) : Option (OrderedSet String) :=
  ((h.pending seq).bind (fun found => found.2.memberPubkeys)).or
    ((h.viewChangeQuorums.lookup seq).bind (fun ctx => ctx.memberPubkeys))

def handleNewView (h : Hub Config) (envelope : Envelope Config) (view seq : Option ℚ) :
    Hub Config :=
  match view, seq with
  | some view, some seq =>
    if view ≤ h.view then h
    else if isLeaderIdentity cfg (leaderAt cfg env seq view (memberPubkeysForSeq h seq))
        envelope.sender (resolveSenderPubkey cfg env envelope) then
      { h with view }
    else h
  | _, _ => h

def initiateViewChange (h : Hub Config) (seq : ℚ) (ctx : ViewChangeContext) : Hub Config :=
  let view := h.view + 1
  let stashed := { h with
    view
    viewChangeQuorums :=
      (eraseKeys (· ≤ h.lastAppliedSeq) h.viewChangeQuorums).insert seq ctx }
  let announced := stashed.emit (.broadcast (.viewChange (some view) (some seq)) none)
  { announced with
    pendingViewChanges := addVote h.pendingViewChanges view cfg.validatorAddr
    pendingViewChangePubkeys :=
      if ctx.weighted then
        h.pendingViewChangePubkeys.insert view
          (addSelfPubkey cfg ((h.pendingViewChangePubkeys.lookup view).getD .empty))
      else h.pendingViewChangePubkeys }

def leaderTimeout (h : Hub Config) (pid : ℕ) : Hub Config :=
  match h.proposals[pid]? with
  | none => h
  | some p =>
    if !p.leader || p.resolved then h
    else
      (initiateViewChange cfg
        ((h.modify pid Proposal.resolve).forget p.seq) p.seq
        ⟨p.quorum, p.weighted, p.validators, p.memberPubkeys⟩).emit (.settled p.seq false)

def followerExpiry (h : Hub Config) (pid : ℕ) : Hub Config :=
  match h.proposals[pid]? with
  | none => h
  | some p =>
    if p.leader || p.resolved then h
    else (h.modify pid Proposal.resolve).forget p.seq

def unlockFailedApply (h : Hub Config) (pid : ℕ) (p : Proposal Config) : Hub Config :=
  let unlocked := h.modify pid Proposal.unlock
  if !p.resolved && p.leader then
    ((unlocked.modify pid Proposal.resolve).emit
      (.settled p.seq false)).forget p.seq
  else unlocked

def persistAppliedRound (h : Hub Config) (pid : ℕ) (p : Proposal Config) : Hub Config :=
  let marked := h.modify pid Proposal.markApplied
  let advanced := { marked with lastAppliedSeq := max p.seq h.lastAppliedSeq }
  let answered :=
    if !p.resolved && p.leader then
      (advanced.modify pid Proposal.resolve).emit (.settled p.seq true)
    else advanced
  answered.forget p.seq

def configApplied (h : Hub Config) (pid : ℕ) (ok : Bool) : Hub Config :=
  match h.proposals[pid]? with
  | none => h
  | some p =>
    if p.chain ≠ .configInFlight then h
    else if ok then
      (h.modify pid Proposal.awaitSeq).emit (.applied p.seq p.digest)
    else unlockFailedApply h pid p

def seqSaved (h : Hub Config) (pid : ℕ) (ok : Bool) : Hub Config :=
  match h.proposals[pid]? with
  | none => h
  | some p =>
    if p.chain ≠ .seqInFlight then h
    else if ok then persistAppliedRound h pid p
    else unlockFailedApply h pid p

inductive Event (Config : Type) where
  | deliver (envelope : Envelope Config)
  | propose (config : Config)
  | locked (task : ℕ) (myTip : Option ℚ) (reply : LockReply)
  | leaderTimeout (pid : ℕ)
  | followerExpiry (pid : ℕ)
  | configApplied (pid : ℕ) (ok : Bool)
  | seqSaved (pid : ℕ) (ok : Bool)

def handleMessage (h : Hub Config) (envelope : Envelope Config) : Hub Config :=
  match envelope.data with
  | .prePrepare seq view digest config height =>
    handlePrePrepare cfg env h envelope seq view digest config height
  | .prepare seq digest => handlePrepare cfg env h envelope seq digest
  | .commit seq digest => handleCommit cfg env h envelope seq digest
  | .viewChange view seq => handleViewChange cfg env h envelope view seq
  | .newView view seq => handleNewView cfg env h envelope view seq

def Hub.task (h : Hub Config) (tid : ℕ) : Option (Task Config) := (h.tasks[tid]?).join

def Hub.finishTask (h : Hub Config) (tid : ℕ) : Hub Config :=
  { h with tasks := h.tasks.set tid none }

/- propose() consumes the slot and resets the view. -/
def Hub.takeSlot (h : Hub Config) (seq : ℚ) : Hub Config := { h with seq, view := 0 }

/- A handler whose lock has settled runs on to its end. -/
def resume (h : Hub Config) (tid : ℕ) (myTip : Option ℚ) (reply : LockReply) : Hub Config :=
  let rest := h.finishTask tid
  match h.task tid with
  | none => h
  | some (.prePrepare envelope seq view digest config height tipBound) =>
    match followerRecord cfg env envelope seq view digest config height tipBound myTip reply with
    | none => rest
    | some p => castPrepare cfg env (rest.openRecord p) envelope seq digest
  | some (.propose config) =>
    match proposeOutcome cfg env h config reply with
    | .refused => rest
    | .applyDirect => rest.emit (.appliedDirect (cfg.digest config))
    | .notLeader nextSeq => { rest with seq := nextSeq }
    | .round p =>
      announceRound cfg ((rest.takeSlot p.seq).openRecord p) h.proposals.length p

def step (h : Hub Config) (m : Env × Event Config) : Hub Config :=
  match m.2 with
  | .deliver envelope => handleMessage cfg m.1 h envelope
  | .propose config => { h with tasks := h.tasks ++ [some (.propose config)] }
  | .locked task myTip reply => resume cfg m.1 h task myTip reply
  | .leaderTimeout pid => leaderTimeout cfg h pid
  | .followerExpiry pid => followerExpiry h pid
  | .configApplied pid ok => configApplied h pid ok
  | .seqSaved pid ok => seqSaved h pid ok

/- The record a step would put into pendingProposals. -/
def opens (h : Hub Config) (m : Env × Event Config) : Option (Proposal Config) :=
  match m.2 with
  | .locked tid myTip reply =>
    match h.task tid with
    | some (.prePrepare envelope seq view digest config height tipBound) =>
      followerRecord cfg m.1 envelope seq view digest config height tipBound myTip reply
    | some (.propose config) =>
      match proposeOutcome cfg m.1 h config reply with
      | .round p => some p
      | _ => none
    | none => none
  | _ => none

end XChainHub.Pbft
