import XChainHub.Consensus.Pbft.Leader
import XChainHub.CrossChain.Pbft.State

/-!
The handlers of cross_chain/pbft/{early_buffer,propose,votes,view_change}.js over
an explicit hub state, and one step of the engine: a call of propose, a delivered
or replayed message, a settled await or a timer. Drained messages are handled one
after the other before anything else.
-/
namespace XChainHub.CrossChain
open StakeWeightedQuorum (Row Snapshot meetsStakeThreshold)
open Pbft (rotationIndex)
open BftQuorum (bftQuorumOrSingle)

variable {R : Type} (cfg : Params R) (env : Env)

section Membership

def normalizeValidators (rows : List Row) : List Row :=
  rows.map (fun v => ⟨cfg.toLowerCase v.pubkey, some (v.source.getD ""), some (v.weight.getD "0")⟩)

def bindingOf (rows : List Row) (weighted : Bool) : Binding :=
  ⟨normalizeValidators cfg rows, bftQuorumOrSingle rows.length 0, weighted⟩

def Binding.isMember (b : Binding) (key : String) : Bool :=
  b.validators.any (fun v => v.pubkey = key)

def meetsQuorum (b : Binding) (votes : OrderedSet String) : Bool :=
  if b.weighted then meetsStakeThreshold cfg.toLowerCase ⟨b.validators, false⟩ votes.items
  else b.quorum ≤ votes.size

def hexDigit (c : Char) : Option ℕ :=
  if c.isDigit then some (c.toNat - '0'.toNat)
  else if 'a' ≤ c ∧ c ≤ 'f' then some (c.toNat - 'a'.toNat + 10)
  else if 'A' ≤ c ∧ c ≤ 'F' then some (c.toNat - 'A'.toNat + 10)
  else none

def hexValue (acc : ℕ) : List Char → ℕ
  | [] => acc
  | c :: cs =>
    match hexDigit c with
    | none => acc
    | some d => hexValue (16 * acc + d) cs

def dropHexMark : List Char → List Char
  | '0' :: 'x' :: cs => cs
  | '0' :: 'X' :: cs => cs
  | cs => cs

/- parseInt(String(matchId).slice(0, 8), 16) || 0 -/
def roundInt (matchId : String) : ℤ :=
  match (matchId.toList.take 8).dropWhile DecimalText.isSpace with
  | '-' :: cs => -(hexValue 0 (dropHexMark cs) : ℤ)
  | '+' :: cs => hexValue 0 (dropHexMark cs)
  | cs => hexValue 0 (dropHexMark cs)

def leaderFor (matchId : String) (validators : List Row) (view : ℚ) : Option String :=
  let sorted := (validators.map (fun v => cfg.toLowerCase v.pubkey)).insertionSort (· ≤ ·)
  (rotationIndex (roundInt matchId + view) sorted.length).bind (fun i => sorted[i]?)

def verifies (payload : String) (sig : Option String) (key : String) : Bool :=
  match sig with
  | none => false
  | some s => cfg.verify payload s key

end Membership

section EarlyBuffer

def earlyMessageTtlMs : ℚ := 60 * 1000
def earlyMessageMaxPerId : ℕ := 32

/- A full bucket keeps its messages and its expiry. -/
def EarlyBucket.push (b : EarlyBucket R) (expiresAt : ℚ) (m : Message R) : EarlyBucket R :=
  if earlyMessageMaxPerId ≤ b.messages.length then b
  else { b with messages := b.messages ++ [m], expiresAt }

def bufferEarlyMessage (h : Hub R) (matchId : String) (m : Message R) : Hub R :=
  let live := h.earlyMessages.filter (fun b => !(b.expiresAt ≤ env.now))
  if cfg.earlyMessageMaxBytes < cfg.wireSize m then { h with earlyMessages := live }
  else
    let expiresAt := env.now + earlyMessageTtlMs
    let buckets :=
      if live.any (fun b => b.matchId = matchId) then live
      else
        (if cfg.earlyMessageMaxDistinctIds ≤ live.length then live.tail else live) ++
          [⟨matchId, expiresAt, []⟩]
    { h with earlyMessages := buckets.map (fun b =>
        if b.matchId = matchId then b.push expiresAt m else b) }

def drainEarlyMessages (h : Hub R) (matchId : String) : Hub R :=
  match h.earlyMessages.find? (fun b => b.matchId = matchId) with
  | none => h
  | some bucket =>
    { h with
      earlyMessages := h.earlyMessages.filter (fun b => b.matchId ≠ matchId)
      replaying := bucket.messages }

end EarlyBuffer

section Votes

def Round.finalize (p : Round R) : Round R := { p with finalized := true, timer := false }

def Round.sigs (p : Round R) : List (String × String) := p.signatures.entries

def markFinalized (h : Hub R) (matchId : String) (rid : ℕ) (p : Round R) : Hub R :=
  if matchId ∈ h.finalized then h
  else
    let finalized := h.finalized ++ [matchId]
    let finalizedRows := h.finalizedRows.set matchId ⟨rid, p.sigs, p.view⟩
    match finalized with
    | oldest :: rest =>
      if cfg.finalizedMax < finalized.length then
        { h with finalized := rest, finalizedRows := finalizedRows.erase oldest }
      else { h with finalized, finalizedRows }
    | [] => { h with finalized, finalizedRows }

def Round.event (p : Round R) (matchId : String) : Finalized R :=
  ⟨matchId, p.row, p.sigs, p.view, p.binding⟩

def finalize (h : Hub R) (matchId : String) : Hub R :=
  match h.pendingRound matchId with
  | none => h
  | some (rid, p) =>
    if p.finalized then h
    else
      (markFinalized cfg (h.modify rid Round.finalize) matchId rid p).emit
        (.finalized (p.event matchId))

def checkCommitQuorum (h : Hub R) (matchId : String) : Hub R :=
  match h.pendingRound matchId with
  | none => h
  | some (_, p) =>
    if p.finalized then h
    else if !meetsQuorum cfg p.binding p.commits then h
    else finalize cfg h matchId

def Round.sendCommit (p : Round R) : Round R :=
  { p with commitSent := true, commits := p.commits.add cfg.pubkey }

def Hub.sign (h : Hub R) (matchId : String) (payload : Payload) : Hub R :=
  h.emit (.signed matchId payload)

def Round.commitMessage (p : Round R) (matchId : String) : Message R :=
  .commit matchId (some p.view) cfg.pubkey (p.signatures.get cfg.pubkey)
    (some (cfg.sign (commitPayload cfg.engine p.canonical)))

def checkPrepareQuorum (h : Hub R) (matchId : String) : Hub R :=
  match h.pendingRound matchId with
  | none => h
  | some (rid, p) =>
    if p.finalized || p.commitSent then h
    else if !meetsQuorum cfg p.binding p.prepares then h
    else
      checkCommitQuorum cfg
        (((h.modify rid (Round.sendCommit cfg)).sign matchId (.commit p.canonical)).emit
          (.broadcast (p.commitMessage cfg matchId))) matchId

def Round.collect (key sig : String) (p : Round R) : Round R :=
  { p with signatures := p.signatures.set key sig }

def Round.countPrepare (key sig : String) (p : Round R) : Round R :=
  { p.collect key sig with prepares := p.prepares.add key }

def Round.countCommit (key sig : String) (p : Round R) : Round R :=
  { p.collect key sig with commits := p.commits.add key }

def handlePrepare (h : Hub R) (m : Message R) (matchId sigPubkey : String) (sig : Option String) :
    Hub R :=
  let id := cfg.toLowerCase matchId
  if id = "" then h
  else if id ∈ h.finalized then h
  else
    match h.pendingRound id with
    | none => bufferEarlyMessage cfg env h id m
    | some (rid, p) =>
      let sender := cfg.toLowerCase sigPubkey
      if !p.binding.isMember sender then h
      else
        match sig with
        | none => bufferEarlyMessage cfg env h id m
        | some s =>
          if !cfg.verify p.canonical s sender then bufferEarlyMessage cfg env h id m
          else checkPrepareQuorum cfg (h.modify rid (Round.countPrepare sender s)) id

/- The signature is kept either way; the vote counts with a verifying commit_sig. -/
def handleCommit (h : Hub R) (m : Message R) (matchId sigPubkey : String)
    (sig commitSig : Option String) : Hub R :=
  let id := cfg.toLowerCase matchId
  if id = "" then h
  else if id ∈ h.finalized then h
  else
    match h.pendingRound id with
    | none => bufferEarlyMessage cfg env h id m
    | some (rid, p) =>
      let sender := cfg.toLowerCase sigPubkey
      if !p.binding.isMember sender then h
      else
        match sig with
        | none => bufferEarlyMessage cfg env h id m
        | some s =>
          if !cfg.verify p.canonical s sender then bufferEarlyMessage cfg env h id m
          else if !verifies cfg (commitPayload cfg.engine p.canonical) commitSig sender then
            h.modify rid (Round.collect sender s)
          else checkCommitQuorum cfg (h.modify rid (Round.countCommit sender s)) id

def leaderProposal (id : String) (rid : ℕ) (p : Round R) (view : Option ℚ) (row : Option R)
    (sigPubkey : String) (sig : Option String) : Option (Offer R) :=
  let sender := cfg.toLowerCase sigPubkey
  let view := view.getD 0
  if view < p.view then none
  else if leaderFor cfg id p.binding.validators view ≠ some sender then none
  else if !p.binding.isMember sender then none
  else
    match row, sig with
    | some row, some sig =>
      if cfg.toLowerCase (cfg.engine.matchId row) ≠ id then none
      else
        match cfg.engine.canonicalMatch row view with
        | none => none
        | some canonical =>
          if cfg.verify canonical sig sender then some ⟨id, rid, sender, view, row, canonical, sig⟩
          else none
    | _, _ => none

def handlePropose (h : Hub R) (m : Message R) (matchId : String) (view : Option ℚ)
    (row : Option R) (sigPubkey : String) (sig : Option String) : Hub R :=
  let id := cfg.toLowerCase matchId
  if id = "" then h
  else if id ∈ h.finalized then h
  else
    match h.pendingRound id with
    | none => bufferEarlyMessage cfg env h id m
    | some (rid, p) =>
      match leaderProposal cfg id rid p view row sigPubkey sig with
      | none => h
      | some offer => h.await (.validate offer)

/- rebindSnapshot up to its await. -/
def rebindRequest (p : Round R) (row : R) : Rebind :=
  if cfg.engine.snapshotBlock row = cfg.engine.snapshotBlock p.row &&
      cfg.engine.network row = cfg.engine.network p.row then .held
  else if !cfg.engine.resolvesValidators then .refused
  else .resolving (cfg.engine.stakeWeightedActive row)

/- reply is the resolved set, none where the call threw or answered no array. The
   outer none is the refusal, the inner one the binding the round already holds. -/
def rebindSnapshot (rebind : Rebind) (reply : Option Snapshot) : Option (Option Binding) :=
  match rebind with
  | .held => some none
  | .refused => none
  | .resolving weighted =>
    match reply with
    | none => none
    | some raw =>
      if raw.rows.isEmpty then none
      else if weighted && raw.truncated then none
      else
        let binding := bindingOf cfg raw.rows weighted
        if binding.quorum = 0 then none else some (some binding)

/- True when this hub already sent COMMIT for another value; none where it throws. -/
def committedToOtherValue (p : Round R) (canonical : String) (view : ℚ) : Option Bool :=
  (cfg.engine.canonicalMatch p.row view).map (fun own => p.commitSent && own ≠ canonical)

def Round.adopt (o : Offer R) (rebound : Option Binding) (p : Round R) : Round R :=
  { p with
    row := o.row
    canonical := o.canonical
    binding := rebound.getD p.binding
    signatures := .empty
    prepares := .empty
    commits := .empty
    commitSent := false }

def Round.raiseView (view : ℚ) (p : Round R) : Round R :=
  if p.view < view then { p with view } else p

def Round.countLeader (o : Offer R) (p : Round R) : Round R :=
  (p.raiseView o.view).countPrepare o.senderPubkey o.sig

def Round.castOwn (canonical : String) (p : Round R) : Round R :=
  p.countPrepare cfg.pubkey (cfg.sign canonical)

/- The round with the leader's vote and, where this hub has none yet, its own. -/
def Round.countProposal (o : Offer R) (p : Round R) : Round R :=
  if (p.countLeader o).signatures.has cfg.pubkey then p.countLeader o
  else (p.countLeader o).castOwn cfg o.canonical

def countLeaderAndOwnPrepare (h : Hub R) (o : Offer R) : Hub R :=
  match h.rounds[o.rid]? with
  | none => h
  | some p =>
    let counted := h.modify o.rid (Round.countProposal cfg o)
    if (p.countLeader o).signatures.has cfg.pubkey then checkPrepareQuorum cfg counted o.matchId
    else
      checkPrepareQuorum cfg
        ((counted.sign o.matchId (.artifact o.canonical)).emit
          (.broadcast (.prepare o.matchId (some (p.countLeader o).view) cfg.pubkey
            (some (cfg.sign o.canonical))))) o.matchId

/- handlePropose after local validation and the admission bound. -/
def proposalValidated (h : Hub R) (o : Offer R) (ok : Bool) : Hub R :=
  if !ok then h
  else
    match h.rounds[o.rid]? with
    | none => h
    | some p =>
      if o.canonical ≠ p.canonical then
        match committedToOtherValue cfg p o.canonical o.view with
        | some false => h.await (.adopt o (rebindRequest cfg p o.row))
        | _ => h
      else countLeaderAndOwnPrepare cfg h o

/- The live round a resumed function may still act on. -/
def stillPending (h : Hub R) (matchId : String) (rid : ℕ) : Option (Round R) :=
  if matchId ∈ h.finalized then none
  else
    match h.pendingRound matchId with
    | none => none
    | some (held, p) => if held ≠ rid || p.finalized then none else some p

def adoptLeaderRow (h : Hub R) (o : Offer R) (rebound : Option (Option Binding)) :
    Option (Hub R) :=
  match rebound, stillPending h o.matchId o.rid with
  | some rebound, some _ =>
    if rebound.any (fun b => !b.isMember o.senderPubkey) then none
    else some (h.modify o.rid (Round.adopt o rebound))
  | _, _ => none

/- handlePropose after rebindSnapshot. -/
def rowRebound (h : Hub R) (o : Offer R) (rebound : Option (Option Binding)) : Hub R :=
  match adoptLeaderRow h o rebound with
  | none => h
  | some adopted => drainEarlyMessages (countLeaderAndOwnPrepare cfg adopted o) o.matchId

end Votes

section ViewChange

def relayMinFutureS : ℚ := 60

def Round.restamp (t : ℚ) (p : Round R) : Round R :=
  { p with row := cfg.engine.setEffectiveTime p.row t }

/- applyEffectiveTimeMargin: none records a failed restamp. -/
def stampedTime (currentSecond : ℚ) (margin : Option ℚ) : Option ℚ :=
  match margin with
  | none => none
  | some s => if 0 < s then some (currentSecond + s) else none

inductive Restamp where
  | none
  | applied (t : ℚ)
  | failed
  | promised

def restampEffectiveTime (p : Round R) : Restamp :=
  match cfg.engine.effectiveTime p.row with
  | Option.none => .none
  | some t =>
    if relayMinFutureS ≤ t - env.nowSeconds then .none
    else if !cfg.engine.marginDeclared then .none
    else
      match env.margin with
      | .threw => .failed
      | .promise => .promised
      | .value margin =>
        match stampedTime env.nowSeconds margin with
        | Option.none => .failed
        | some t => .applied t

def Round.rebuild (canonical : String) (p : Round R) : Round R :=
  { p with
    canonical
    signatures := .empty
    prepares := .empty
    commits := .empty
    commitSent := false }

def controlOf (tag matchId : String) (view : ℚ) : Payload :=
  .control tag matchId (cfg.engine.numberText view)

def signControl (tag matchId : String) (view : ℚ) : String :=
  cfg.sign ((controlOf cfg tag matchId view).bytes cfg.engine)

/- canonicalMatch throws where it is none, which also ends a replay under way. -/
def reproposeAsLeader (h : Hub R) (rid : ℕ) (view : ℚ) : Hub R :=
  match h.rounds[rid]? with
  | none => h
  | some p =>
    match cfg.engine.canonicalMatch p.row p.view with
    | none => { h with replaying := [] }
    | some canonical =>
      let rebuilt :=
        if canonical ≠ p.canonical then h.modify rid (Round.rebuild canonical) else h
      ((rebuilt.sign p.matchId (controlOf cfg cfg.engine.nvTag p.matchId view)).emit
        (.broadcast (.newView p.matchId (some view) cfg.pubkey
          (some (signControl cfg cfg.engine.nvTag p.matchId view))))).await (.lead rid false)

def maybeAssumeLeadership (h : Hub R) (matchId : String) (view : ℚ) : Hub R :=
  match h.pendingRound matchId with
  | none => h
  | some (rid, p) =>
    if p.finalized then h
    else
      match p.viewChanges.get view with
      | none => h
      | some votes =>
        if !meetsQuorum cfg p.binding votes then h
        else
          let raised := h.modify rid (Round.raiseView view)
          if leaderFor cfg matchId p.binding.validators view ≠ some cfg.pubkey then raised
          else
            match restampEffectiveTime cfg env p with
            | .none => reproposeAsLeader cfg raised rid view
            | .applied t => reproposeAsLeader cfg (raised.modify rid (Round.restamp cfg t)) rid view
            | .failed => raised
            | .promised => raised.await (.margin matchId rid view env.nowSeconds)

def Round.addViewVote (view : ℚ) (key : String) (p : Round R) : Round R :=
  { p with viewChanges := p.viewChanges.set view (((p.viewChanges.get view).getD .empty).add key) }

def Round.nextView (p : Round R) : Round R :=
  ({ p with view := p.view + 1, timer := true } : Round R).addViewVote (p.view + 1) cfg.pubkey

def initiateViewChange (h : Hub R) (matchId : String) : Hub R :=
  match h.pendingRound matchId with
  | none => h
  | some (rid, p) =>
    if p.finalized then h
    else
      let view := p.view + 1
      maybeAssumeLeadership cfg env
        (((h.modify rid (Round.nextView cfg)).sign matchId
            (controlOf cfg cfg.engine.vcTag matchId view)).emit
          (.broadcast (.viewChange matchId (some view) cfg.pubkey
            (some (signControl cfg cfg.engine.vcTag matchId view))))) matchId view

def Hub.finalSyncMessage (h : Hub R) (matchId : String) (fin : FinalizedRow) : Message R :=
  .finalSync matchId (h.rounds[fin.rid]?.map Round.row) fin.signatures (some fin.view)

def handleViewChange (h : Hub R) (m : Message R) (matchId : String) (view : Option ℚ)
    (sigPubkey : String) (sig : Option String) : Hub R :=
  let id := cfg.toLowerCase matchId
  if id = "" then h
  else if id ∈ h.finalized then
    match h.finalizedRows.get id with
    | none => h
    | some fin => h.emit (.broadcast (h.finalSyncMessage id fin))
  else
    match h.pendingRound id with
    | none => bufferEarlyMessage cfg env h id m
    | some (rid, p) =>
      match view with
      | none => h
      | some view =>
        let voter := cfg.toLowerCase sigPubkey
        if !p.binding.isMember voter then h
        else if !verifies cfg ((controlOf cfg cfg.engine.vcTag id view).bytes cfg.engine) sig voter
          then h
        else maybeAssumeLeadership cfg env (h.modify rid (Round.addViewVote view voter)) id view

def Round.setView (view : ℚ) (p : Round R) : Round R := { p with view }

def handleNewView (h : Hub R) (m : Message R) (matchId : String) (view : Option ℚ)
    (sigPubkey : String) (sig : Option String) : Hub R :=
  let id := cfg.toLowerCase matchId
  if id = "" || id ∈ h.finalized then h
  else
    match h.pendingRound id with
    | none => bufferEarlyMessage cfg env h id m
    | some (rid, p) =>
      match view with
      | none => h
      | some view =>
        let announcer := cfg.toLowerCase sigPubkey
        if view ≤ p.view then h
        else if leaderFor cfg id p.binding.validators view ≠ some announcer then h
        else if !verifies cfg ((controlOf cfg cfg.engine.nvTag id view).bytes cfg.engine) sig
            announcer then h
        else
          match p.viewChanges.get view with
          | none => h
          | some votes =>
            if meetsQuorum cfg p.binding votes then h.modify rid (Round.setView view) else h

/- A settled effective-time margin: stamp it, then look again in the next microtask. -/
def marginSettled (h : Hub R) (matchId : String) (rid : ℕ) (view currentSecond : ℚ)
    (margin : Option ℚ) : Hub R :=
  match stampedTime currentSecond margin with
  | none => h.await (.restamped matchId rid view false)
  | some t => (h.modify rid (Round.restamp cfg t)).await (.restamped matchId rid view true)

def restampSettled (h : Hub R) (matchId : String) (rid : ℕ) (view : ℚ) (ok : Bool) : Hub R :=
  if !ok then h
  else
    match h.pendingRound matchId with
    | none => h
    | some (held, p) =>
      if held ≠ rid || p.finalized || p.view ≠ view then h else reproposeAsLeader cfg h rid view

def handleFinalSync (h : Hub R) (matchId : String) (row : Option R)
    (signatures : List (String × String)) (view : Option ℚ) : Hub R :=
  let id := cfg.toLowerCase matchId
  if id = "" || id ∈ h.finalized then h
  else
    match h.pendingRound id, row with
    | some (rid, p), some row =>
      if p.finalized then h
      else if cfg.toLowerCase (cfg.engine.matchId row) ≠ id then h
      else
        match cfg.engine.canonicalMatch row (view.getD 0) with
        | none => h
        | some canonical =>
          h.await (.sync ⟨id, rid, row, view.getD 0, canonical, signatures⟩
            (rebindRequest cfg p row))
    | _, _ => h

def collectVerified (canonical : String) (b : Binding) (verified : OrderedMap String String)
    (offered : String × String) : OrderedMap String String :=
  let pk := cfg.toLowerCase offered.1
  if b.isMember pk && cfg.verify canonical offered.2 pk then verified.set pk offered.2 else verified

/- An entry without a key or a signature never verifies. -/
def verifiedSyncSignatures (canonical : String) (offered : List (String × String)) (b : Binding) :
    Option (OrderedMap String String) :=
  let verified := offered.foldl (collectVerified cfg canonical b) .empty
  let proofOk :=
    if b.weighted then meetsQuorum cfg b verified.keys else max b.quorum 1 ≤ verified.size
  if proofOk then some verified else none

def Round.catchUp (s : Sync R) (b : Binding) (verified : OrderedMap String String) (p : Round R) :
    Round R :=
  { p with
    row := s.row
    canonical := s.canonical
    signatures := verified
    binding := b
    view := s.view }

/- handleFinalSync after rebindSnapshot. -/
def syncRebound (h : Hub R) (s : Sync R) (rebound : Option (Option Binding)) : Hub R :=
  match rebound, stillPending h s.matchId s.rid with
  | some rebound, some p =>
    let b := rebound.getD p.binding
    match verifiedSyncSignatures cfg s.canonical s.signatures b with
    | none => h
    | some verified => finalize cfg (h.modify s.rid (Round.catchUp s b verified)) s.matchId
  | _, _ => h

end ViewChange

section Propose

def openedRound (id : String) (row : R) (canonical : String) (binding : Binding) : Round R :=
  ⟨id, env.now, row, canonical, binding, 0, .empty, .empty, .empty, .empty, false, false, false⟩

def Round.armTimer (p : Round R) : Round R := { p with timer := true }

def propose (h : Hub R) (matchId : String) (row : R) (snapshot : Snapshot) : Hub R :=
  let id := cfg.toLowerCase matchId
  if id ∈ h.finalized then h
  else if h.pending.has id then h
  else
    let weighted := cfg.engine.stakeWeightedActive row
    if weighted && snapshot.truncated then h.emit (.abandoned id)
    else
      match cfg.engine.canonicalMatch row 0 with
      | none => h
      | some canonical =>
        let p := openedRound env id row canonical (bindingOf cfg snapshot.rows weighted)
        if p.binding.quorum = 0 then
          let soleSelf := snapshot.rows.map (fun v => cfg.toLowerCase v.pubkey) = [cfg.pubkey]
          if soleSelf then (h.openRound p).await (.sole id h.rounds.length canonical)
          -- the source registers and deletes the round in one go
          else h.emit (.abandoned id)
        else
          let opened := h.openRound p.armTimer
          if leaderFor cfg id p.binding.validators 0 = some cfg.pubkey then
            opened.await (.lead h.rounds.length true)
          else drainEarlyMessages opened id

/- broadcastPropose after the snapshot persist. -/
def leaderPersisted (h : Hub R) (rid : ℕ) (drains : Bool) : Hub R :=
  match h.rounds[rid]? with
  | none => h
  | some p =>
    let sig := cfg.sign p.canonical
    let led := ((h.modify rid (Round.castOwn cfg p.canonical)).sign p.matchId
      (.artifact p.canonical)).emit
        (.broadcast (.propose p.matchId (some p.view) (some p.row) cfg.pubkey (some sig)))
    if drains then led.await (.drain p.matchId) else led

/- finalizeSoleOperator after the snapshot persist. -/
def solePersisted (h : Hub R) (matchId : String) (rid : ℕ) (canonical : String) : Hub R :=
  finalize cfg ((h.modify rid (Round.collect cfg.pubkey (cfg.sign canonical))).sign matchId
    (.artifact canonical)) matchId

def onRoundTimeout (h : Hub R) (matchId : String) : Hub R :=
  match h.pendingRound matchId with
  | none => h
  | some (_, p) =>
    if !p.timer || p.finalized then h
    else if cfg.roundMaxLifetimeMs < env.now - p.startedAt then
      (h.forget matchId).emit (.abandoned matchId)
    else initiateViewChange cfg env h matchId

/- The cleanup timer of a finalized round. -/
def evictFinalized (h : Hub R) (rid : ℕ) : Hub R :=
  match h.rounds[rid]? with
  | none => h
  | some p => if p.finalized && h.pending.get p.matchId = some rid then h.forget p.matchId else h

def forgetFinalized (h : Hub R) (matchId : String) : Hub R :=
  let id := cfg.toLowerCase matchId
  ({ h with
    finalized := h.finalized.erase id
    finalizedRows := h.finalizedRows.erase id } : Hub R).forget id

end Propose

inductive Event (R : Type) where
  | propose (matchId : String) (row : R) (snapshot : Snapshot)
  | deliver (m : Message R)
  | replay
  | validated (tid : ℕ) (ok : Bool)
  | resolved (tid : ℕ) (reply : Option Snapshot)
  | persisted (tid : ℕ)
  | resumed (tid : ℕ)
  | marginSettled (tid : ℕ) (margin : Option ℚ)
  | roundTimeout (matchId : String)
  | cleanup (rid : ℕ)
  | forgetFinalized (matchId : String)

def handleMessage (h : Hub R) (m : Message R) : Hub R :=
  match m with
  | .propose matchId view row sigPubkey sig =>
    handlePropose cfg env h m matchId view row sigPubkey sig
  | .prepare matchId _ sigPubkey sig => handlePrepare cfg env h m matchId sigPubkey sig
  | .commit matchId _ sigPubkey sig commitSig =>
    handleCommit cfg env h m matchId sigPubkey sig commitSig
  | .viewChange matchId view sigPubkey sig =>
    handleViewChange cfg env h m matchId view sigPubkey sig
  | .newView matchId view sigPubkey sig => handleNewView cfg env h m matchId view sigPubkey sig
  | .finalSync matchId row signatures view => handleFinalSync cfg h matchId row signatures view

def Hub.task (h : Hub R) (tid : ℕ) : Option (Task R) := h.tasks[tid]?.join

/- The await a settled promise resumes; an event of another kind resumes nothing. -/
def resume (h : Hub R) (tid : ℕ) (e : Event R) : Hub R :=
  match h.task tid, e with
  | some (.validate o), .validated _ ok => proposalValidated cfg (h.settle tid) o ok
  | some (.adopt o rebind), .resolved _ reply =>
    rowRebound cfg (h.settle tid) o (rebindSnapshot cfg rebind reply)
  | some (.sync s rebind), .resolved _ reply =>
    syncRebound cfg (h.settle tid) s (rebindSnapshot cfg rebind reply)
  | some (.lead rid drains), .persisted _ => leaderPersisted cfg (h.settle tid) rid drains
  | some (.sole matchId rid canonical), .persisted _ =>
    solePersisted cfg (h.settle tid) matchId rid canonical
  | some (.drain matchId), .resumed _ => drainEarlyMessages (h.settle tid) matchId
  | some (.margin matchId rid view currentSecond), .marginSettled _ margin =>
    marginSettled cfg (h.settle tid) matchId rid view currentSecond margin
  | some (.restamped matchId rid view ok), .resumed _ =>
    restampSettled cfg (h.settle tid) matchId rid view ok
  | _, _ => h

def handleEvent (h : Hub R) (e : Event R) : Hub R :=
  match e with
  | .propose matchId row snapshot => propose cfg env h matchId row snapshot
  | .deliver m => handleMessage cfg env h m
  | .replay => h
  | .validated tid _ => resume cfg h tid e
  | .resolved tid _ => resume cfg h tid e
  | .persisted tid => resume cfg h tid e
  | .resumed tid => resume cfg h tid e
  | .marginSettled tid _ => resume cfg h tid e
  | .roundTimeout matchId => onRoundTimeout cfg env h matchId
  | .cleanup rid => evictFinalized h rid
  | .forgetFinalized matchId => forgetFinalized cfg h matchId

/- The event as it takes effect: while drained messages wait, only the next of them. -/
def due (h : Hub R) (e : Event R) : Option (Event R) :=
  match h.replaying, e with
  | [], .replay => none
  | [], e => some e
  | next :: _, .replay => some (.deliver next)
  | _ :: _, _ => none

def Hub.shift (h : Hub R) : Hub R := { h with replaying := h.replaying.tail }

def step (h : Hub R) (m : Env × Event R) : Hub R :=
  match due h m.2 with
  | none => h
  | some e => handleEvent cfg m.1 h.shift e

end XChainHub.CrossChain
