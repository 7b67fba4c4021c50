import XChainHub.Library.GuardedRuns
import XChainHub.Consensus.FullNodeChallengeRound.State

/-!
The life of a round: the poll that opens, closes and prunes rounds by chain height, the
gossip handlers, and the verdict broadcast between its two spend records. An await ends a
turn; what it waits for comes as an event of its own.
-/
namespace XChainHub.FullNodeChallengeRound
open PaidLog IdempotentBroadcast

section Finalize
variable (cfg : Params)

/- Everything that must hold before a fee may be spent, past the restart guard. -/
def verdictAllowed (gate : Gate) (st : Round) : Bool :=
  isLeader cfg st cfg.pubkey && verdictQuorum st ≤ st.sigs.size && !gate.chainMismatch &&
    gate.check && gate.reserve

def Hub.claim (h : Hub) (epoch made : ℕ) : Hub :=
  h.alter epoch made (fun st => { st with finalized := true })

def Hub.unclaim (h : Hub) (epoch made : ℕ) : Hub :=
  h.alter epoch made (fun st => { st with finalized := false })

/- maybeFinalize up to the call of broadcastVerdict. -/
def maybeFinalize (gate : Gate) (h : Hub) (epoch : ℕ) : Turn Hub :=
  match h.rounds.get epoch with
  | none => .ok h
  | some st =>
    if st.finalized || st.passList.isNone then .ok h
    else if epoch ∈ h.committedEpochs then .ok (h.claim epoch st.made)
    else if !verdictAllowed cfg gate st then .ok h
    else do
      let (h, durable) ← recordSpend (h.claim epoch st.made) ⟨.intent, epoch⟩ gate.append
      if durable then
        .ok { h with sends := h.sends ++ [some ⟨epoch, st.made⟩], log := .begun epoch :: h.log }
      else .ok (h.unclaim epoch st.made)

/- The claimants whose digest matches the one derived from our own answer. -/
def confirmedClaimants (st : Round) (answer : String) : List String :=
  st.claimants.items.filter
    (fun pk => st.answers.get pk = some (answerDigest cfg st.challengeId pk answer))

def propose (epoch : ℕ) (pass : List String) (me : String) (st : Round) : Round :=
  if pass = [] then { st with passList := some pass }
  else
    { st with
      passList := some pass
      sigs := st.sigs.set me (cfg.sign (verdictCanonical cfg st.challengeId epoch pass)) }

/- closeCollection up to its call of maybeFinalize; false where it makes none. -/
def proposePass (h : Hub) (epoch : ℕ) : Hub × Bool :=
  match h.rounds.get epoch with
  | none => (h, false)
  | some st =>
    match cfg.pubkey, st.myAnswer with
    | some me, some answer =>
      if st.finalized || !isLeader cfg st (some me) || st.passList.isSome then (h, false)
      else
        let pass := sortedPass (confirmedClaimants cfg st answer)
        (h.alter epoch st.made (propose cfg epoch pass me), pass ≠ [])
    | _, _ => (h, false)

def closeCollection (gate : Gate) (h : Hub) (epoch : ℕ) : Turn Hub :=
  if (proposePass cfg h epoch).2 then maybeFinalize cfg gate (proposePass cfg h epoch).1 epoch
  else .ok (proposePass cfg h epoch).1

end Finalize

section Settle

/- error is none where broadcastVerdict returned. -/
def settle (h : Hub) (n : ℕ) (error : Option SendError) (append : Append) : Turn Hub :=
  match h.sends[n]?.join with
  | none => .ok h
  | some send =>
    let h := { h with sends := h.sends.set n none }
    match error with
    | none => do
      let (h, _) ← recordSpend
        { h with
          committedEpochs := h.committedEpochs.add send.epoch
          log := .paid send.epoch :: h.log } ⟨.sent, send.epoch⟩ append
      .ok h
    | some e =>
      if isAmbiguousSendError e then do
        let (h, _) ← recordSpend
          { h with
            committedEpochs := h.committedEpochs.add send.epoch
            log := .paid send.epoch :: h.log } ⟨.ambiguous, send.epoch⟩ append
        .ok h
      else do
        let (h, _) ← recordSpend { h with log := .refused send.epoch :: h.log }
          ⟨.failed, send.epoch⟩ append
        .ok (h.unclaim send.epoch send.made)

end Settle

section Messages
variable (cfg : Params)

def onAnswer (h : Hub) (d : AnswerMessage) : Hub :=
  match h.rounds.get d.epoch with
  | none => h
  | some st =>
    let pk := cfg.toLowerCase d.sigPubkey
    let digest := cfg.toLowerCase d.answerDigest
    if st.finalized || !(pk ∈ st.claimants) || !isHex64 pk || d.challengeId ≠ st.challengeId ||
        !isHex64 digest || !cfg.verify (answerCanonical st.challengeId digest) d.sig pk ||
        st.answers.has pk then h
    else h.alter d.epoch st.made (fun st => { st with answers := st.answers.set pk digest })

/- Every listed claimant is confirmed, and no confirmed claimant is left out. -/
def passConfirmed (st : Round) (pass : List String) (answer : String) : Bool :=
  let digest := fun pk => answerDigest cfg st.challengeId pk answer
  pass.all (fun pk => pk ∈ st.claimants ∧ st.answers.get pk = some (digest pk)) &&
    st.answers.entries.all (fun e => !(e.1 ∈ st.claimants ∧ e.2 = digest e.1) || e.1 ∈ pass)

def coSign (epoch : ℕ) (me : String) (pass : List String) (answer : String) (st : Round) : Round :=
  let st := { st with myAnswer := some answer }
  if passConfirmed cfg st pass answer then
    { st with
      passList := some (st.passList.getD (sortedPass pass))
      sigs := st.sigs.set me (cfg.sign (verdictCanonical cfg st.challengeId epoch (sortedPass pass))) }
  else st

def onSignReq (h : Hub) (d : SignReqMessage) : Hub :=
  match h.rounds.get d.epoch, cfg.pubkey with
  | some st, some me =>
    let pass := d.passList.map cfg.toLowerCase
    if st.finalized || !(me ∈ st.eligible) || d.challengeId ≠ st.challengeId ||
        electedLeader cfg st ≠ some (cfg.toLowerCase d.sigPubkey) || !cfg.coinRpc then h
    else
      match st.myAnswer with
      | some answer => h.alter d.epoch st.made (coSign cfg d.epoch me pass answer)
      | none => { h with requests := h.requests ++ [some ⟨d.epoch, st.made, pass⟩] }
  | _, _ => h

/- onSignReq past its await; none where the answer could not be computed. -/
def signReqAnswered (h : Hub) (n : ℕ) (answer : Option String) : Hub :=
  match h.requests[n]?.join, answer, cfg.pubkey with
  | some req, some answer, some me =>
    { h with requests := h.requests.set n none }.alter req.epoch req.made
      (coSign cfg req.epoch me req.pass answer)
  | _, _, _ => { h with requests := h.requests.set n none }

/- The hub with a peer's signature stored, where it is one over the round's list. -/
def storeSig (h : Hub) (d : SignMessage) : Option Hub :=
  match h.rounds.get d.epoch with
  | none => none
  | some st =>
    match st.passList with
    | none => none
    | some pass =>
      let pk := cfg.toLowerCase d.sigPubkey
      if st.finalized || !(pk ∈ st.eligible) || d.challengeId ≠ st.challengeId ||
          !cfg.verify (verdictCanonical cfg st.challengeId d.epoch (sortedPass pass)) d.sig pk then
        none
      else some (h.alter d.epoch st.made (fun st => { st with sigs := st.sigs.set pk d.sig }))

def onSign (gate : Gate) (h : Hub) (d : SignMessage) : Turn Hub :=
  match storeSig cfg h d with
  | none => .ok h
  | some stored => maybeFinalize cfg gate stored d.epoch

def onDone (h : Hub) (epoch : ℕ) : Hub :=
  match h.rounds.get epoch with
  | none => h
  | some st => h.claim epoch st.made

end Messages

section Tick
variable (cfg : Params)

def tick (h : Hub) : Hub :=
  if cfg.interval = 0 || h.ticking.isSome then h else { h with ticking := some .tip }

/- The rank that leads once the chain is at the tip. -/
def rankAt (tip epoch : ℕ) : ℕ := (tip - (epoch + cfg.closeDepth)) / max 1 cfg.closeDepth

/- The hub with the round closed at its rank, where the tip closes it or promotes a rank. -/
def closedAt (tip : ℕ) (h : Hub) (epoch : ℕ) : Option Hub :=
  match h.rounds.get epoch with
  | none => none
  | some st =>
    if !st.finalized && epoch + cfg.closeDepth ≤ tip &&
        (!st.closed || st.leadRank < rankAt cfg tip epoch) then
      some (h.alter epoch st.made
        (fun st => { st with closed := true, leadRank := rankAt cfg tip epoch }))
    else none

def closeAt (gate : Gate) (tip : ℕ) (h : Hub) (epoch : ℕ) : Turn Hub :=
  match closedAt cfg tip h epoch with
  | none => .ok h
  | some closed => closeCollection cfg gate closed epoch

def pruneAt (tip : ℕ) (h : Hub) (epoch : ℕ) : Hub :=
  if epoch + (cfg.acceptWindow + cfg.closeDepth + cfg.interval) < tip then
    { h with rounds := h.rounds.erase epoch }
  else h

/- One turn of the loop over the rounds. -/
def visitRound (gates : ℕ → Gate) (tip : ℕ) (h : Hub) (epoch : ℕ) : Turn Hub := do
  let h ← closeAt cfg (gates epoch) tip h epoch
  .ok (pruneAt cfg tip h epoch)

def visitRounds (gates : ℕ → Gate) (tip : ℕ) : Hub → List ℕ → Turn Hub
  | h, [] => .ok h
  | h, epoch :: rest => do
    let h ← visitRound cfg gates tip h epoch
    visitRounds gates tip h rest

def epochAt (tip : ℕ) : ℕ := tip / cfg.interval * cfg.interval

/- What the tick awaits after its loop: the reads of an epoch it has no round for. -/
def nextStage (tip : ℕ) (h : Hub) : Option Ticking :=
  if epochAt cfg tip < cfg.confirmDepth || cfg.acceptWindow < tip - epochAt cfg tip ||
      h.rounds.has (epochAt cfg tip) then none
  else some (.resolving (epochAt cfg tip))

def tipRead (gates : ℕ → Gate) (h : Hub) (tip : Option ℕ) : Turn Hub :=
  match h.ticking, tip with
  | some .tip, none => .ok { h with ticking := none }
  | some .tip, some tip => do
    let h ← visitRounds cfg gates tip h h.rounds.keys.items
    .ok { h with ticking := nextStage cfg tip h }
  | _, _ => .ok h

/- The three reads of runEpoch; none where one of them is unresolved. -/
structure EpochReads where
  ledgerHash : String
  verified : List String
  validators : List String

def newEpochState (made epoch : ℕ) (reads : EpochReads) : Round where
  made := made
  challengeId := challengeId cfg epoch reads.ledgerHash (epoch - cfg.confirmDepth)
  eligible := pubkeySet cfg cfg.genesis reads.verified
  claimants := pubkeySet cfg [] reads.validators
  answers := OrderedMap.empty
  sigs := OrderedMap.empty
  passList := none
  myAnswer := none
  finalized := false
  closed := false
  leadRank := 0

/- Whether this hub answers the epoch, and whether as a claimant. -/
def ownAnswerRole (st : Round) : Option Bool :=
  match cfg.pubkey with
  | none => none
  | some me =>
    if cfg.coinRpc && (me ∈ st.claimants || me ∈ st.eligible) then some (me ∈ st.claimants) else none

def epochRead (h : Hub) (reads : Option EpochReads) : Hub :=
  match h.ticking, reads with
  | some (.resolving _), none => { h with ticking := none }
  | some (.resolving epoch), some reads =>
    let st := newEpochState cfg h.made epoch reads
    { h with
      rounds := h.rounds.set epoch st
      made := h.made + 1
      ticking := (ownAnswerRole cfg st).map (Ticking.answering epoch st.made) }
  | _, _ => h

def ownAnswer (me answer : String) (amClaimant : Bool) (st : Round) : Round :=
  let st := { st with myAnswer := some answer }
  if amClaimant then
    { st with answers := st.answers.set me (answerDigest cfg st.challengeId me answer) }
  else st

def answered (h : Hub) (answer : Option String) : Hub :=
  match h.ticking, answer, cfg.pubkey with
  | some (.answering epoch made amClaimant), some answer, some me =>
    { h with ticking := none }.alter epoch made (ownAnswer cfg me answer amClaimant)
  | some (.answering _ _ _), _, _ => { h with ticking := none }
  | _, _, _ => h

end Tick

inductive Event where
  | tick
  | tipRead (gates : ℕ → Gate) (tip : Option ℕ)
  | epochRead (reads : Option EpochReads)
  | answered (answer : Option String)
  | onAnswer (d : AnswerMessage)
  | onSignReq (d : SignReqMessage)
  | signReqAnswered (n : ℕ) (answer : Option String)
  | onSign (gate : Gate) (d : SignMessage)
  | onDone (epoch : ℕ)
  | settled (n : ℕ) (error : Option SendError) (append : Append)
  | crash

def turn (cfg : Params) (h : Hub) : Event → Turn Hub
  | .tick => .ok (tick cfg h)
  | .tipRead gates tip => tipRead cfg gates h tip
  | .epochRead reads => .ok (epochRead cfg h reads)
  | .answered answer => .ok (answered cfg h answer)
  | .onAnswer d => .ok (onAnswer cfg h d)
  | .onSignReq d => .ok (onSignReq cfg h d)
  | .signReqAnswered n answer => .ok (signReqAnswered cfg h n answer)
  | .onSign gate d => onSign cfg gate h d
  | .onDone epoch => .ok (onDone h epoch)
  | .settled n error append => settle h n error append
  | .crash => .error h

/- A turn the process dies in is followed by a restart. -/
def step (cfg : Params) (h : Hub) (e : Event) : Hub :=
  match turn cfg h e with
  | .ok h => h
  | .error h => restart h

end XChainHub.FullNodeChallengeRound
