import XChainHub.Library.GuardedRuns
import XChainHub.CrossChain.Attest.State

/-!
The rounds of the cross-chain attestation: cross_chain/attest/{rounds,follower,tally}.js. An
await ends a turn; the call waits in its slot until it is resumed with what it reads.
-/
namespace XChainHub.CrossChain.Attest
open SlotHeap

variable {C : Type} (cfg : Params C)

section Tally

def checkCommitQuorum (h : Hub C) (id : String) : Hub C :=
  match h.pendingRound id with
  | none => h
  | some (rid, r) =>
    if r.finalized || (r.counted r.commits).length < r.quorum then h
    else (h.modify rid (fun r => { r with finalized := true, quorate := true })).await (.store rid)

/- The hub's own COMMIT, once its round has the PREPARE quorum. -/
def Round.sendCommit (r : Round C) : Round C :=
  { r with commitSent := true, commits := r.commits.add cfg.pubkey }

def checkPrepareQuorum (h : Hub C) (id : String) : Hub C :=
  match h.pendingRound id with
  | none => h
  | some (rid, r) =>
    if r.finalized || (r.counted r.prepares).length < r.quorum || r.commitSent then h
    else
      checkCommitQuorum
        ((h.modify rid (Round.sendCommit cfg)).note (.sent (.commit id r.digest))) id

def markFinalized (h : Hub C) (id : String) : Hub C :=
  if id ∈ h.finalized then h
  else if cfg.finalizedMax ≤ h.finalized.length then
    { h with finalized := (h.finalized ++ [id]).tail }
  else { h with finalized := h.finalized ++ [id] }

def storeSettled (h : Hub C) (n rid : ℕ) (reply : StoreReply) : Hub C :=
  match h.round rid with
  | none => h.finish n
  | some r =>
    match reply with
    | .done =>
      (markFinalized cfg
        { h.modify rid (fun r => { r with timer := false }) with stored := .round rid :: h.stored }
        r.attestationId).forget r.attestationId |>.finish n
    | .lost => (h.modify rid (fun r => { r with finalized := false })).finish n
    | .left =>
      { h.modify rid (fun r => { r with finalized := false }) with
        stored := .round rid :: h.stored }.finish n

/- The re-drive timer of a round whose store was lost. -/
def redrive (h : Hub C) (rid : ℕ) : Hub C :=
  match h.round rid with
  | none => h
  | some r =>
    if !r.quorate || h.pending.get r.attestationId ≠ some rid || r.finalized then h
    else checkCommitQuorum h r.attestationId

end Tally

section Leader

/- The round that requestAttestation opens once its members are read. -/
def leaderRound (source : String) (index : ℤ) (dest : String) (quorum : ℕ) (s : Option Snapshot) :
    Round C where
  attestationId := attestationId source index dest
  confirmations := cfg.confirmations source
  digest := cfg.digest (attestationId source index dest) (cfg.confirmations source)
  quorum := quorum
  memberPubkeys := memberPubkeySet cfg s
  prepares := OrderedSet.empty.add cfg.pubkey
  commits := OrderedSet.empty
  finalized := false
  quorate := false
  commitSent := false
  timer := true
  led := true

def leaderProposal (source : String) (index : ℤ) (dest : String) (height : Option ℤ) : Proposal C where
  attestationId := attestationId source index dest
  sourceChain := source
  sourceActionIndex := some index
  destChain := dest
  confirmations := cfg.confirmations source
  digest := cfg.digest (attestationId source index dest) (cfg.confirmations source)
  btcBlockHeight := height

/- index is parseInt of the argument. A round in flight for the id is joined. -/
def requestAttestation (h : Hub C) (source : String) (index : Option ℤ) (dest : String) : Hub C :=
  match index with
  | none => h
  | some index =>
    if source ∉ cfg.allowedChains || dest ∉ cfg.allowedChains || index ≤ 0 ||
        attestationId source index dest ∈ h.finalized ||
        h.pending.has (attestationId source index dest) then h
    else h.await (.request source index dest .height)

/- Only a snapshot's sole member may attest alone. -/
def refusesSole (s : Option Snapshot) : Bool :=
  match s.bind BftQuorum.CapabilitySnapshot.validators with
  | none => false
  | some validators => validators.isEmpty || cfg.pubkey ∉ validators.map cfg.toLowerCase

def resumeRequest (h : Hub C) (n : ℕ) (reply : Reply) (source : String) (index : ℤ) (dest : String)
    (stage : Requesting) : Hub C :=
  let id := attestationId source index dest
  match stage with
  | .height => h.next n (.request source index dest (.quorum reply.tip))
  | .quorum height =>
    match resolveQuorum (height.bind (fun _ => reply.snapshot)) reply.federated with
    | none => h.finish n
    | some 0 => h.next n (.request source index dest (.sole height))
    | some quorum => h.next n (.request source index dest (.members height quorum))
  | .members height quorum =>
    let opened := ((h.finish n).note (.requested id)).openRound
      (leaderRound cfg source index dest quorum (height.bind (fun _ => reply.snapshot)))
    checkPrepareQuorum cfg
      (opened.note (.sent (.propose (leaderProposal cfg source index dest height)))) id
  | .sole height =>
    let s := height.bind (fun block => if block = 0 then none else reply.snapshot)
    if refusesSole cfg s then h.finish n
    else h.next n (.request source index dest .storing)
  | .storing =>
    match reply.stored with
    | .lost => h.finish n
    | .left => { h with stored := .sole id (cfg.confirmations source) :: h.stored }.finish n
    | .done =>
      (markFinalized cfg { h with stored := .sole id (cfg.confirmations source) :: h.stored } id).finish n

end Leader

section Follower

def followerRound (p : Proposal C) (quorum : ℕ) (s : Option Snapshot) : Round C where
  attestationId := p.attestationId
  confirmations := p.confirmations
  digest := p.digest
  quorum := quorum
  memberPubkeys := memberPubkeySet cfg s
  prepares := OrderedSet.empty
  commits := OrderedSet.empty
  finalized := false
  quorate := false
  commitSent := false
  timer := true
  led := false

def addVote (votes : OrderedSet String) (sigPubkey : Option String) : OrderedSet String :=
  match sigPubkey with
  | none => votes
  | some key => votes.add key

/- The end of handlePropose: the proposer's vote and our own in the round under the id, whatever
   that round's digest, and our PREPARE of the proposal's. -/
def prepareProposal (h : Hub C) (sigPubkey : Option String) (p : Proposal C) : Hub C :=
  match h.pendingRound p.attestationId with
  | none => h
  | some (rid, _) =>
    checkPrepareQuorum cfg
      ((h.modify rid (fun r =>
        { r with prepares := (addVote r.prepares sigPubkey).add cfg.pubkey })).note
          (.sent (.prepare p.attestationId p.digest))) p.attestationId

/- known is the answer of isKnownSender. -/
def handlePropose (h : Hub C) (sigPubkey : Option String) (known : Bool) (p : Proposal C) : Hub C :=
  if !known || p.attestationId ∈ h.finalized || !wellFormed cfg p then h
  else h.await (.propose sigPubkey p .verify)

def resumePropose (h : Hub C) (n : ℕ) (reply : Reply) (sigPubkey : Option String) (p : Proposal C)
    (stage : Proposing) : Hub C :=
  match stage with
  | .verify =>
    match p.sourceActionIndex with
    | none => h.finish n
    | some index =>
      if index ≤ 0 || !reply.verified then h.finish n
      else
        let h := h.note (.verified p.sourceChain index)
        if h.pending.has p.attestationId then prepareProposal cfg (h.finish n) sigPubkey p
        else h.next n (.propose sigPubkey p .bound)
  | .bound =>
    if proposeHeightBounded p.btcBlockHeight reply.tip then h.next n (.propose sigPubkey p .quorum)
    else h.finish n
  | .quorum =>
    match resolveQuorum reply.snapshot reply.federated with
    | none => h.finish n
    | some 0 => h.finish n
    | some quorum => h.next n (.propose sigPubkey p (.members quorum))
  | .members quorum =>
    prepareProposal cfg ((h.finish n).openRound (followerRound cfg p quorum reply.snapshot)) sigPubkey p

def handlePrepare (h : Hub C) (sigPubkey : Option String) (known : Bool) (id digest : String) : Hub C :=
  match h.pendingRound id with
  | none => h
  | some (rid, r) =>
    if !known || id = "" || digest = "" || r.digest ≠ digest then h
    else
      checkPrepareQuorum cfg
        (h.modify rid (fun r => { r with prepares := addVote r.prepares sigPubkey })) id

def handleCommit (h : Hub C) (sigPubkey : Option String) (known : Bool) (id digest : String) : Hub C :=
  match h.pendingRound id with
  | none => h
  | some (rid, r) =>
    if !known || id = "" || digest = "" || r.digest ≠ digest then h
    else
      checkCommitQuorum (h.modify rid (fun r => { r with commits := addVote r.commits sigPubkey })) id

def handleMessage (h : Hub C) (sigPubkey : Option String) (known : Bool) : Message C → Hub C
  | .propose p => handlePropose cfg h sigPubkey known p
  | .prepare id digest => handlePrepare cfg h sigPubkey known id digest
  | .commit id digest => handleCommit h sigPubkey known id digest

end Follower

/- The timers of the two kinds of round; a quorate one stays until its store lands. -/
def timeout (h : Hub C) (rid : ℕ) : Hub C :=
  match h.round rid with
  | none => h
  | some r =>
    if !r.timer then h
    else
      let h := h.modify rid (fun r => { r with timer := false })
      if r.quorate then h
      else if r.led then
        if r.finalized then h
        else (h.modify rid (fun r => { r with finalized := true })).evict r.attestationId rid
      else h.evict r.attestationId rid

/- The process is gone with its memory. -/
def restart (h : Hub C) : Hub C :=
  { h with pending := .empty, finalized := [], tasks := h.tasks.map (fun _ => none) }

inductive Act (C : Type) where
  | request (sourceChain : String) (index : Option ℤ) (destChain : String)
  | deliver (sigPubkey : Option String) (known : Bool) (m : Message C)
  | resume (n : ℕ) (reply : Reply)
  | timeout (rid : ℕ)
  | redrive (rid : ℕ)
  | restart

def act (h : Hub C) : Act C → Hub C
  | .request source index dest => requestAttestation cfg h source index dest
  | .deliver sigPubkey known m => handleMessage cfg h sigPubkey known m
  | .resume n reply =>
    match slotAt h.tasks n with
    | none => h
    | some (.request source index dest stage) => resumeRequest cfg h n reply source index dest stage
    | some (.propose sigPubkey p stage) => resumePropose cfg h n reply sigPubkey p stage
    | some (.store rid) => storeSettled cfg h n rid reply.stored
  | .timeout rid => timeout h rid
  | .redrive rid => redrive h rid
  | .restart => restart h

end XChainHub.CrossChain.Attest
