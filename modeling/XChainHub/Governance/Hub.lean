import XChainHub.Library.GuardedRuns
import XChainHub.Library.SlotHeap
import XChainHub.Governance.Electorate

/-!
The governance engines of a federation on one recorded proposal: takeover_rank.js, tally.js,
vote_inbound.js, result_inbound.js, result_request.js and result_catch_up.js of
validators/governance, with vote() and the timer of governance.js. A handler that awaits holds a
slot; the database statement it awaits runs in the step that fills the slot, and what the
statement read is in the task.
-/
namespace XChainHub.Governance
open ScriptValue
open StakeWeightedQuorum (asciiLower)
open SlotHeap (slotAt)

section Ranks

def takeoverStepMs : ℤ := 6 * 600000

def rankedElectorate (electorate : List Member) (leaderAddr : Option String) : Option (List Member) :=
  match leaderAddr with
  | none => none
  | some leader =>
    if electorate.countP (fun e => e.addr = some leader) ≠ 1 then none
    else
      (electorate.findIdx? (fun e => e.addr = some leader)).map (fun i =>
        electorate.drop i ++ electorate.take i)

def takeoverRank (ranked : Option (List Member)) (addr : String) : Option ℕ :=
  ranked.bind (fun r => r.findIdx? (fun e => e.addr = some addr))

def rankOpensAt (votingEnd : ℤ) (rank : ℕ) (stepMs : ℤ) : ℤ := votingEnd + rank * stepMs

def resultSenderEntitled (ranked : Option (List Member)) (senderAddr : String) (votingEnd now stepMs : ℤ)
    (failoverActive : Bool) : Bool :=
  match takeoverRank ranked senderAddr with
  | none => false
  | some 0 => true
  | some (rank + 1) => failoverActive && rankOpensAt votingEnd (rank + 1) stepMs ≤ now

end Ranks

section State

inductive Status where
  | voting
  | passed
  | failed
  deriving DecidableEq

def Status.text : Status → String
  | .voting => "voting"
  | .passed => "passed"
  | .failed => "failed"

def Choice.text : Choice → String
  | .approve => "approve"
  | .reject => "reject"

/- A vote on the wire, as GOV_VOTE or as an entry of the evidence of a result. -/
structure Evidence where
  voterPubkey : String
  vote : String
  signature : String
  seq : Value
  deriving DecidableEq

/- votes is none where it is no array, and an entry where it is no vote at all. -/
structure ResultData where
  status : String
  approvals : Option ℕ
  rejections : Option ℕ
  totalVotes : Option ℕ
  validatorCount : Option ℕ
  votes : Option (List (Option Evidence))
  catchUp : Bool
  deriving DecidableEq

inductive Message where
  | vote (v : Evidence)
  | result (r : ResultData)
  | resultReq
  deriving DecidableEq

structure Envelope where
  sender : String
  data : Message
  deriving DecidableEq

/- The federation: hubs that run the code, by ι. verify is ed25519's over a payload, a signature
   and a key in hex; leaderRound reads the first four bytes of the proposal id's digest. -/
structure Config (ι : Type) where
  proposalId : String
  validatorSet : List Member
  leaderRound : ℕ
  tallyInterval : ℤ
  column : VoteColumn
  verify : String → String → String → Bool
  addr : ι → String
  pubkey : ι → Option String
  sign : ι → String → String

/- What a hub reads off its clock, its database's clock, its BTC tip and its peer manager. -/
structure Env where
  now : ℤ
  dbNow : ℤ
  failover : Bool
  registry : Option (List String)
  signerSet : Bool
  connected : Bool

structure Row where
  votingEnd : ℤ
  validatorSnapshot : Value
  status : Status

inductive Trigger where
  | result
  | catchUp (r : ResultData)

/- rows are what findGovernanceVotes read; heard, which no handler reads, is what was in the vote
   table then. -/
inductive Task where
  | voteFound (choice : Choice) (inVoting : Bool)
  | voteSeq (choice : Choice) (prior : ℕ)
  | voteStored (b : Ballot)
  | ballotFound (b : Ballot) (inVoting : Bool)
  | ballotAdmitted (b : Ballot)
  | resultFound (sender : String) (r : ResultData) (failover : Bool)
  | catchUpFound (r : ResultData)
  | ingesting (trigger : Trigger) (rest : List (Option Evidence))
  | retallied (trigger : Trigger) (rows : List VoteRow) (heard : List Ballot)
  | caughtUp
  | expired
  | tallied (rows : List VoteRow) (heard : List Ballot)
  | missing (found : Bool)
  | asked (sender : String) (status : Status)
  | answering (sender : String) (status : Status) (rows : List VoteRow)

/- heard lists the votes that reached the table, and decidedOn those behind the status. -/
structure Peer where
  row : Row
  votes : VoteTable
  resultRequest : Option ℤ
  tasks : List (Option Task)
  heard : List Ballot
  decidedOn : Option (List Ballot)

/- signed lists every signature made, as the lower-cased key and the payload. -/
structure World (ι : Type) where
  peers : ι → Peer
  signed : List (String × String)
  sent : List Envelope

def Peer.await (p : Peer) (t : Task) : Peer := { p with tasks := p.tasks ++ [some t] }

def Peer.next (p : Peer) (n : ℕ) (t : Task) : Peer := { p with tasks := p.tasks.set n (some t) }

def Peer.finish (p : Peer) (n : ℕ) : Peer := { p with tasks := p.tasks.set n none }

/- A signature never leaves a hub without its message, so both are listed together. -/
structure Outcome where
  peer : Peer
  signed : List (String × String)
  sent : List Message

def Peer.silent (p : Peer) : Outcome := ⟨p, [], []⟩

end State

section Gates
variable {ι : Type} (cfg : Config ι) (env : Env)

def isKnownSender (sender : String) : Bool :=
  match env.registry with
  | none => false
  | some [] => !env.signerSet
  | some addrs => addrs.contains sender

def getProposalLeader (validators : List Member) : Option Member :=
  validators[cfg.leaderRound % validators.length]?

def isTallyLeader (i : ι) : Bool :=
  cfg.validatorSet.length = 0 ||
    (getProposalLeader cfg cfg.validatorSet).any (fun leader => leader.addr = some (cfg.addr i))

def isProposalTallySenderEntitled (row : Row) (senderAddr : String) : Bool :=
  match parseSnapshot row.validatorSnapshot with
  | none => false
  | some electorate =>
    match getProposalLeader cfg electorate.members with
    | none => false
    | some leader =>
      resultSenderEntitled (rankedElectorate electorate.members leader.addr) senderAddr row.votingEnd
        env.now takeoverStepMs env.failover

def canTallyProposal (i : ι) (row : Row) : Bool :=
  if env.failover then isProposalTallySenderEntitled cfg env row (cfg.addr i) else isTallyLeader cfg i

def resultComesFromTallyLeader (sender : String) : Bool :=
  isKnownSender env sender &&
    (getProposalLeader cfg cfg.validatorSet).any (fun leader => leader.addr = some sender)

def voteIsAuthentic (v : Evidence) : Bool :=
  cfg.validatorSet.any (fun m => asciiLower m.pubkey = asciiLower v.voterPubkey) &&
    cfg.verify (voteSigningPayload cfg.proposalId v.vote v.voterPubkey v.seq) v.signature v.voterPubkey

def voteCountsOnThisProposal (row : Row) (inVoting : Bool) (voterPubkey : String) : Bool :=
  inVoting && !(row.votingEnd < env.now) &&
    (parseSnapshot row.validatorSnapshot).all (fun e => asciiLower voterPubkey ∈ e.keys)

def Evidence.ballot (v : Evidence) : Ballot :=
  ⟨v.voterPubkey, v.vote, v.signature, normalizeVoteSeq v.seq⟩

/- The vote that one entry of the evidence contributes. -/
def ingestible (electorate : Electorate) (v : Evidence) : Bool :=
  (v.vote = "approve" || v.vote = "reject") && asciiLower v.voterPubkey ∈ electorate.keys &&
    normalizeVoteSeq v.seq ≠ 0 &&
    cfg.verify (voteSigningPayload cfg.proposalId v.vote v.voterPubkey v.seq) v.signature v.voterPubkey

/- A votes array that is missing or oversized is skipped. -/
def evidenceOf (votes : Option (List (Option Evidence))) : List (Option Evidence) :=
  match votes with
  | none => []
  | some vs => if govSnapshotMaxValidators < vs.length then [] else vs

def statusOf (approved : Bool) : Status := if approved then .passed else .failed

def voteEvidence (rows : List VoteRow) : List (Option Evidence) :=
  rows.map (fun v => some ⟨v.voterPubkey, v.vote.text, v.signature,
    .number (.ofNat (normalizeVoteSeq (.number (.ofNat v.voteSeq))))⟩)

def resultData (status : Status) (tally : Tally) (rows : List VoteRow) (catchUp : Bool) : ResultData :=
  ⟨status.text, some tally.approvals, some tally.rejections, some tally.totalVotes,
    some tally.validatorCount, some (voteEvidence rows), catchUp⟩

def catchUpMatches (r : ResultData) (tally : Tally) : Bool :=
  (statusOf tally.approved).text = r.status && r.approvals = some tally.approvals &&
    r.rejections = some tally.rejections && r.totalVotes = some tally.totalVotes &&
    r.validatorCount = some tally.validatorCount

end Gates

section Handlers
variable {ι : Type} (cfg : Config ι) (i : ι) (env : Env)

def upsertVote (p : Peer) (b : Ballot) : Peer :=
  { p with
    votes := setGovernanceVote cfg.column p.votes b
    heard := if (cfg.column.value b.vote).isSome then p.heard ++ [b] else p.heard }

/- Only a row in voting changes. -/
def updateGovernanceProposal (p : Peer) (status : Status) (heard : List Ballot) : Peer :=
  if p.row.status = .voting then
    { p with row := { p.row with status := status }, decidedOn := some heard }
  else p

def VoteTable.rows (votes : VoteTable) : List VoteRow := votes.entries.map Prod.snd

def startVote (p : Peer) (choice : Choice) : Peer :=
  match cfg.pubkey i with
  | none => p
  | some pubkey =>
    if cfg.validatorSet.any (fun m => m.pubkey = pubkey) then
      p.await (.voteFound choice (p.row.status = .voting))
    else p

def castVote (p : Peer) (n : ℕ) (choice : Choice) (prior : ℕ) : Outcome :=
  match cfg.pubkey i with
  | none => (p.finish n).silent
  | some pubkey =>
    let seq := (max env.now (prior + 1)).toNat
    let payload := voteSigningPayload cfg.proposalId choice.text pubkey (.number (.ofNat seq))
    let b : Ballot := ⟨pubkey, choice.text, cfg.sign i payload, seq⟩
    ⟨(upsertVote cfg p b).next n (.voteStored b), [(asciiLower pubkey, payload)], []⟩

def handleVote (p : Peer) (v : Evidence) : Peer :=
  if v.vote = "" ∨ v.voterPubkey = "" ∨ normalizeVoteSeq v.seq = 0 then p
  else if voteIsAuthentic cfg v then p.await (.ballotFound v.ballot (p.row.status = .voting))
  else p

/- The gate of handleResult before its first await. -/
def resultAdmitted (sender : String) : Bool :=
  if env.failover then isKnownSender env sender else resultComesFromTallyLeader cfg env sender

def handleResult (p : Peer) (sender : String) (r : ResultData) : Peer :=
  if r.status ≠ "" && resultAdmitted cfg env sender then
    p.await (.resultFound sender r env.failover)
  else p

def handleCatchUpResult (p : Peer) (sender : String) (r : ResultData) : Peer :=
  if (r.status = "passed" || r.status = "failed") && p.resultRequest.isSome && isKnownSender env sender &&
      r.votes.any (fun vs => vs.length ≤ govSnapshotMaxValidators) then
    p.await (.catchUpFound r)
  else p

def handleResultRequest (p : Peer) (sender : String) : Peer :=
  if isKnownSender env sender then p.await (.asked sender p.row.status) else p

def handleMessage (p : Peer) (m : Envelope) : Peer :=
  match m.data with
  | .vote v => handleVote cfg p v
  | .result r =>
    if r.catchUp then handleCatchUpResult env p m.sender r else handleResult cfg env p m.sender r
  | .resultReq => handleResultRequest env p m.sender

/- A row without a snapshot takes the wire's status instead; no such row is in this model. -/
def openResult (p : Peer) (n : ℕ) (sender : String) (r : ResultData) (failover : Bool) : Peer :=
  if env.now < p.row.votingEnd then p.finish n
  else if failover && !isProposalTallySenderEntitled cfg env p.row sender then p.finish n
  else if (parseSnapshot p.row.validatorSnapshot).isSome then
    p.next n (.ingesting .result (evidenceOf r.votes))
  else p.finish n

def openCatchUp (p : Peer) (n : ℕ) (r : ResultData) : Peer :=
  if env.now < p.row.votingEnd || (parseSnapshot p.row.validatorSnapshot).isNone then p.finish n
  else p.next n (.ingesting (.catchUp r) (evidenceOf r.votes))

def ingestVote (p : Peer) (v : Option Evidence) : Peer :=
  match v, parseSnapshot p.row.validatorSnapshot with
  | some v, some e => if ingestible cfg e v then upsertVote cfg p v.ballot else p
  | _, _ => p

def retally (p : Peer) (rows : List VoteRow) : Tally :=
  computeTally cfg.validatorSet rows (parseSnapshot p.row.validatorSnapshot)

def applyRetally (p : Peer) (n : ℕ) (trigger : Trigger) (rows : List VoteRow) (heard : List Ballot) :
    Peer :=
  let tally := retally cfg p rows
  match trigger with
  | .result => (updateGovernanceProposal p (statusOf tally.approved) heard).finish n
  | .catchUp r =>
    if catchUpMatches r tally then
      (updateGovernanceProposal p (statusOf tally.approved) heard).next n .caughtUp
    else p.finish n

/- The result goes out only where the status changed. -/
def tallyProposal (p : Peer) (n : ℕ) (rows : List VoteRow) (heard : List Ballot) : Outcome :=
  let tally := retally cfg p rows
  let status := statusOf tally.approved
  if p.row.status = .voting then
    ⟨(updateGovernanceProposal p status heard).finish n, [], [.result (resultData status tally rows false)]⟩
  else (p.finish n).silent

def requestMissingResults (p : Peer) (n : ℕ) (found : Bool) : Outcome :=
  let pruned := if found then p.resultRequest else none
  if found && p.row.votingEnd + cfg.tallyInterval ≤ env.now &&
      pruned.all (fun last => !(env.now - last < cfg.tallyInterval)) && env.connected then
    ⟨{ p with resultRequest := some env.now }.finish n, [], [.resultReq]⟩
  else { p with resultRequest := pruned }.finish n |>.silent

def answerRequest (p : Peer) (n : ℕ) (status : Status) (rows : List VoteRow) : Outcome :=
  let tally := retally cfg p rows
  if statusOf tally.approved = status then
    ⟨p.finish n, [], [.result (resultData status tally rows true)]⟩
  else (p.finish n).silent

def resume (p : Peer) (n : ℕ) : Task → Outcome
  | .voteFound choice inVoting =>
    if voteCountsOnThisProposal env p.row inVoting ((cfg.pubkey i).getD "") then
      (p.next n (.voteSeq choice (((p.votes.get (asciiLower ((cfg.pubkey i).getD ""))).map
        (fun row => normalizeVoteSeq (.number (.ofNat row.voteSeq)))).getD 0))).silent
    else (p.finish n).silent
  | .voteSeq choice prior => castVote cfg i env p n choice prior
  | .voteStored b =>
    ⟨p.finish n, [], [.vote ⟨b.voterPubkey, b.vote, b.signature, .number (.ofNat b.seq)⟩]⟩
  | .ballotFound b inVoting =>
    if voteCountsOnThisProposal env p.row inVoting b.voterPubkey then
      (p.next n (.ballotAdmitted b)).silent
    else (p.finish n).silent
  | .ballotAdmitted b => ((upsertVote cfg p b).finish n).silent
  | .resultFound sender r failover => (openResult cfg env p n sender r failover).silent
  | .catchUpFound r => (openCatchUp env p n r).silent
  | .ingesting trigger [] => (p.next n (.retallied trigger (VoteTable.rows p.votes) p.heard)).silent
  | .ingesting trigger (v :: rest) => ((ingestVote cfg p v).next n (.ingesting trigger rest)).silent
  | .retallied trigger rows heard => (applyRetally cfg p n trigger rows heard).silent
  | .caughtUp => ({ p with resultRequest := none }.finish n).silent
  | .expired =>
    if canTallyProposal cfg env i p.row then
      (p.next n (.tallied (VoteTable.rows p.votes) p.heard)).silent
    else (p.finish n).silent
  | .tallied rows heard => tallyProposal cfg p n rows heard
  | .missing found => requestMissingResults cfg env p n found
  | .asked sender status =>
    if (parseSnapshot p.row.validatorSnapshot).isSome ∧ status ≠ .voting then
      (p.next n (.answering sender status (VoteTable.rows p.votes))).silent
    else (p.finish n).silent
  | .answering _ status rows => answerRequest cfg p n status rows

/- A failed statement ends its handler, but for an entry of the evidence, which is skipped. -/
def failStatement (p : Peer) (n : ℕ) : Task → Peer
  | .ingesting trigger (_ :: rest) => p.next n (.ingesting trigger rest)
  | .voteStored b => p.next n (.voteStored b)
  | .caughtUp => p.next n .caughtUp
  | _ => p.finish n

inductive Act where
  | vote (choice : Choice)
  | deliver (m : Envelope)
  | checkExpired
  | requestMissing
  | resume (n : ℕ)
  | fail (n : ℕ)
  | restart

/- findGovernanceProposalsByStatusAndVotingEnd. -/
def overdue (p : Peer) : Bool := p.row.status = .voting && p.row.votingEnd ≤ env.dbNow

def act (p : Peer) : Act → Outcome
  | .vote choice => (startVote cfg i p choice).silent
  | .deliver m => (handleMessage cfg env p m).silent
  | .checkExpired => (if overdue env p then p.await .expired else p).silent
  | .requestMissing => (p.await (.missing (overdue env p))).silent
  | .resume n =>
    match slotAt p.tasks n with
    | none => p.silent
    | some t => resume cfg i env p n t
  | .fail n =>
    match slotAt p.tasks n with
    | none => p.silent
    | some t => (failStatement p n t).silent
  | .restart => { p with tasks := [], resultRequest := none }.silent

end Handlers

section Federation
variable {ι : Type} [DecidableEq ι] (cfg : Config ι)

inductive Event (ι : Type) where
  | sign (key payload : String)
  | act (i : ι) (env : Env) (a : Act)

def step (w : World ι) : Event ι → World ι
  | .sign key payload => { w with signed := (key, payload) :: w.signed }
  | .act i env a =>
    let o := act cfg i env (w.peers i) a
    { peers := Function.update w.peers i o.peer
      signed := o.signed ++ w.signed
      sent := o.sent.map (Envelope.mk (cfg.addr i)) ++ w.sent }

def Message.evidence : Message → List Evidence
  | .vote v => [v]
  | .result r => (r.votes.getD []).filterMap id
  | .resultReq => []

/- A signature that verifies was made by its key. -/
def Genuine (signed : List (String × String)) (v : Evidence) : Prop :=
  cfg.verify (voteSigningPayload cfg.proposalId v.vote v.voterPubkey v.seq) v.signature v.voterPubkey = true →
    (asciiLower v.voterPubkey, voteSigningPayload cfg.proposalId v.vote v.voterPubkey v.seq) ∈ signed

/- Nobody signs or sends in the name of a hub of the federation; everyone else does as they
   please, and the network loses, repeats and reorders. -/
def Authentic (w : World ι) : Event ι → Prop
  | .sign key _ => ∀ i, ∀ pubkey ∈ cfg.pubkey i, key ≠ asciiLower pubkey
  | .act _ _ (.deliver m) =>
    (∀ v ∈ m.data.evidence, Genuine cfg w.signed v) ∧ ∀ j, m.sender = cfg.addr j → m ∈ w.sent
  | .act _ _ _ => True

end Federation
end XChainHub.Governance
