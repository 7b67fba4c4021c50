import XChainHub.Anchor.CheckpointEngine.Finalize
import XChainHub.Library.BoundedCommitments
import XChainHub.Library.GuardedRuns

/-!
Where a checkpoint signature leaves a hub: runRound and claimSeqSignature of round.js,
handleSignReq of sign.js and the cadence rule of cadence.js. What the indexer, the database and
the capability snapshot answer comes with the step that uses it.
-/
namespace XChainHub.Anchor.CheckpointEngine
open NumberText ScriptValue BoundedCommitments DelimitedText

section Records

structure Settings where
  js : Builtins
  gates : Gates
  verify : String → String → String → Bool
  network : String
  identity : Option String
  intervalBlocks : ℕ
  cosignToleranceBlocks : ℕ
  roundTimeoutMs : ℕ

/- getblockhashes of an indexer, with a missing text read as empty. -/
structure BlockHashes where
  network : String
  blockIndex : Number
  blockHash : String
  ledgerHash : String
  actionsHash : String
  contractHash : String
  stateRoot : Option String
  stateRootVersion : Option Number
  blockMerkleRoot : Option String
  blockMerkleVersion : Option Number

def checkpointFromBlockHashes (js : Builtins) (chain network : String) (bh : BlockHashes)
    (seq snapshotBlock : Number) (supersedesFrom : Option Number) (rulesDigest : Value) : Checkpoint :=
  { chain
    network
    blockIndex := bh.blockIndex
    blockHash := js.toLowerCase bh.blockHash
    ledgerHash := js.toLowerCase bh.ledgerHash
    actionsHash := js.toLowerCase bh.actionsHash
    contractHash := js.toLowerCase bh.contractHash
    checkpointSeq := seq
    snapshotBlock
    stateRoot := bh.stateRoot.map js.toLowerCase
    stateRootVersion := bh.stateRootVersion
    blockMerkleRoot := bh.blockMerkleRoot.map js.toLowerCase
    blockMerkleVersion := bh.blockMerkleVersion
    supersedesFrom
    rulesDigest }

/- A checkpoint with its signing string; its sequence is the one its snapshot block gives. -/
structure Proposal where
  cp : Checkpoint
  canonical : String
  snapshot : ℚ
  block : cp.snapshotBlock.rational = some snapshot
  seq : cp.checkpointSeq = deriveCheckpointSeq cp.snapshotBlock

theorem strict_equals_eq {a b : Number} (same : strictEquals a b = true) : a = b := by
  simp only [strictEquals, Bool.and_eq_true, decide_eq_true_eq] at same
  exact same.2

def Proposal.of (cp : Checkpoint) (canonical : String) : Option Proposal :=
  match block : cp.snapshotBlock.rational with
  | none => none
  | some snapshot =>
    if seq : strictEquals cp.checkpointSeq (deriveCheckpointSeq cp.snapshotBlock) = true then
      some ⟨cp, canonical, snapshot, block, strict_equals_eq seq⟩
    else none

structure Signed where
  chain : String
  network : String
  seq : Number
  canonical : String
  deriving DecidableEq

def seqKey (chain network : String) (seq : Number) : String :=
  chain ++ "|" ++ network ++ "|" ++ seq.text

def CHECKPOINT_SIGNED_SEQ_MEMORY : ℕ := 512

structure Engine where
  now : ℕ
  signedAtSeq : OrderedMap String String
  seqDoubleSignRefusals : ℕ
  lastCheckpointBtcBlock : Option ℚ
  attemptedCheckpointBtcBlock : Option ℚ
  roundSignatures : OrderedMap ℚ ℕ
  pending : OrderedMap String ℚ
  cosigns : List (Proposal × Bool)
  signatures : List Signed

end Records

section Cadence
variable (cfg : Settings)

def finalizedConflict (s : Engine) (snap : ℚ) : Bool :=
  s.lastCheckpointBtcBlock.any fun last => snap ≠ last && snap < last + cfg.intervalBlocks

/- A signature stops counting once it expires or the latch reaches its snapshot. -/
def spent (s : Engine) (held : ℚ × ℕ) : Bool :=
  held.2 ≤ s.now || s.lastCheckpointBtcBlock.any (held.1 ≤ ·)

def clashes (snap : ℚ) (held : ℚ × ℕ) : Bool :=
  held.1 ≠ snap && |snap - held.1| < cfg.intervalBlocks

/- The loop over the held signatures, which deletes the spent ones it meets before a clash. -/
def sweep (s : Engine) (snap : ℚ) : List (ℚ × ℕ) → List (ℚ × ℕ) × Option ℚ
  | [] => ([], none)
  | held :: rest =>
    if spent s held then sweep s snap rest
    else if clashes cfg snap held then (held :: rest, some held.1)
    else ((held :: (sweep s snap rest).1), (sweep s snap rest).2)

theorem sweep_sublist (s : Engine) (snap : ℚ) (held : List (ℚ × ℕ)) :
    (sweep cfg s snap held).1.Sublist held := by
  induction held with
  | nil => exact List.Sublist.refl _
  | cons h rest ih =>
    simp only [sweep]
    split
    · exact ih.cons h
    · split
      · exact List.Sublist.refl _
      · exact ih.cons_cons h

def signedRoundConflict (s : Engine) (snap : ℚ) : Engine × Option ℚ :=
  ({ s with
      roundSignatures :=
        ⟨(sweep cfg s snap s.roundSignatures.entries).1,
          s.roundSignatures.nodup.sublist ((sweep_sublist cfg s snap _).map Prod.fst)⟩ },
    (sweep cfg s snap s.roundSignatures.entries).2)

def cadenceConflict (s : Engine) (snap : ℚ) : Engine × Bool :=
  if finalizedConflict cfg s snap then (s, true)
  else ((signedRoundConflict cfg s snap).1, (signedRoundConflict cfg s snap).2.isSome)

def dropOwnAttempt (s : Engine) (attempt : ℚ) : Engine :=
  { s with
    pending := s.pending.filter fun p => p.2 ≠ attempt
    roundSignatures := s.roundSignatures.erase attempt
    attemptedCheckpointBtcBlock := none }

def reached (s : Engine) (attempt : ℚ) : Bool := s.lastCheckpointBtcBlock.any (attempt ≤ ·)

def supersedeOwnAttempt (s : Engine) (btcBlock : ℚ) : Engine :=
  match s.attemptedCheckpointBtcBlock with
  | none => s
  | some attempt => if btcBlock > attempt ∧ ¬ reached s attempt then dropOwnAttempt s attempt else s

def yieldToLowerRound (s : Engine) (snap : ℚ) : Engine :=
  match s.attemptedCheckpointBtcBlock with
  | none => s
  | some attempt =>
    if snap < attempt ∧ attempt - snap < cfg.intervalBlocks ∧ ¬ reached s attempt ∧
        finalizedConflict cfg s snap = false then
      dropOwnAttempt s attempt
    else s

def claimSeqSignature (s : Engine) (p : Proposal) : Engine × Bool :=
  let key := seqKey p.cp.chain p.cp.network p.cp.checkpointSeq
  let (held, granted) := claim CHECKPOINT_SIGNED_SEQ_MEMORY s.signedAtSeq key p.canonical
  ({ s with
      signedAtSeq := held
      seqDoubleSignRefusals := if granted then s.seqDoubleSignRefusals else s.seqDoubleSignRefusals + 1 },
    granted)

def noteRoundSignature (s : Engine) (snap : ℚ) : Engine :=
  { s with roundSignatures := s.roundSignatures.set snap (s.now + cfg.roundTimeoutMs) }

/- The last checks of a leader and of a co-signer, and the signature. -/
def signRound (s : Engine) (p : Proposal) : Engine × Bool :=
  match cadenceConflict cfg s p.snapshot with
  | (s, true) => (s, false)
  | (s, false) =>
    match claimSeqSignature s p with
    | (s, false) => (s, false)
    | (s, true) =>
      let signed : Signed := ⟨p.cp.chain, p.cp.network, p.cp.checkpointSeq, p.canonical⟩
      ({ noteRoundSignature cfg s p.snapshot with signatures := s.signatures ++ [signed] }, true)

end Cadence

section Rounds
variable (cfg : Settings)

/- A call of runRound with what its reads give: the target block, the supersession fields and
   whether the proposal is declined. retryBlock is the block of the round that is led again. -/
structure RoundCall where
  chain : String
  snapshotBlock : ℕ
  validators : List String
  retryBlock : Option Number
  block : BlockHashes
  supersede : Option (Number × String)
  declined : Bool
  weighted : Bool

def checkpointForRound (call : RoundCall) : Checkpoint :=
  checkpointFromBlockHashes cfg.js call.chain call.block.network call.block
    (deriveCheckpointSeq (Number.ofNat call.snapshotBlock)) (Number.ofNat call.snapshotBlock)
    (call.supersede.map Prod.fst) (Value.ofOption .text (call.supersede.map Prod.snd))

/- runRound up to the rule of the interval; a throw and a return leave nothing behind. -/
def proposeRound (s : Engine) (call : RoundCall) : Option Proposal :=
  let cp := checkpointForRound cfg call
  if call.retryBlock.any (fun block => !strictEquals call.block.blockIndex block) ∨
      call.block.network = "" ∨ supersedeRefused cfg.gates cp = true ∨ call.declined = true ∨
      isRootless cfg.gates cp = true then none
  else
    match canonicalCheckpoint cfg.js cfg.gates cp with
    | none => none
    | some canonical =>
      if s.pending.has (checkpointRoundId cp) = true ∨ cfg.identity = none ∨
          networkAccepted cfg.network cp = false then none
      else some ⟨cp, canonical, call.snapshotBlock, rational_of_nat _, rfl⟩

def isSoleSelfFederation (validators : List String) : Bool :=
  (validators.map cfg.js.toLowerCase).dedup = cfg.identity.toList

def runRound (s : Engine) (call : RoundCall) : Engine :=
  match proposeRound cfg s call with
  | none => s
  | some p =>
    match signRound cfg s p with
    | (s, false) => s
    | (s, true) =>
      if call.validators.length ≤ 1 ∨ (call.weighted && isSoleSelfFederation cfg call.validators) = true then s
      else { s with pending := s.pending.set (checkpointRoundId p.cp) p.snapshot }

end Rounds

section CoSigns
variable (cfg : Settings)

structure SignReq where
  checkpoint : Value
  sender : String
  sig : String
  tip : Option ℕ
  validators : List String

def followsCadenceLeader (validators : List String) (sender myPubkey : String) (cp : Checkpoint) : Bool :=
  let pubkeys := (validators.map cfg.js.toLowerCase).dedup.insertionSort (· ≤ ·)
  myPubkey ∈ pubkeys &&
    (cp.snapshotBlock.natural.bind fun n => pubkeys[n % pubkeys.length]?) = some sender

/- handleSignReq up to the first state it touches; a snapshot block that is not finite is out
   of tolerance or unequal to its sequence. -/
def receiveSignReq (req : SignReq) : Option (Proposal × ℕ) := do
  let cp ← normalizeCheckpoint cfg.js req.checkpoint
  let myPubkey ← cfg.identity
  let sender := cfg.js.toLowerCase req.sender
  guard (sender ≠ myPubkey)
  guard (networkAccepted cfg.network cp = true)
  let myBtc ← req.tip
  let snapshot ← cp.snapshotBlock.rational
  guard (|(myBtc : ℚ) - snapshot| ≤ cfg.cosignToleranceBlocks)
  guard (followsCadenceLeader cfg req.validators sender myPubkey cp = true)
  let canonical ← canonicalCheckpoint cfg.js cfg.gates cp
  guard (cfg.verify canonical req.sig sender = true)
  let p ← Proposal.of cp canonical
  return (p, myBtc)

def handleSignReq (s : Engine) (req : SignReq) : Engine :=
  match receiveSignReq cfg req with
  | none => s
  | some (p, myBtc) =>
    let s := supersedeOwnAttempt s myBtc
    if finalizedConflict cfg s p.snapshot then s else { s with cosigns := s.cosigns ++ [(p, false)] }

/- The replay guard, with the highest sequence the database has seated. -/
def replayGuard (s : Engine) (i : ℕ) (maxSeq : Option ℕ) : Engine :=
  match s.cosigns[i]? with
  | some (p, false) =>
    if maxSeq.any fun seated => p.snapshot ≤ seated then { s with cosigns := s.cosigns.eraseIdx i }
    else { s with cosigns := s.cosigns.set i (p, true) }
  | _ => s

def confirms (p : Proposal) (bh : BlockHashes) : Bool :=
  canonicalCheckpoint cfg.js cfg.gates (checkpointFromBlockHashes cfg.js p.cp.chain bh.network bh
    p.cp.checkpointSeq p.cp.snapshotBlock p.cp.supersedesFrom p.cp.rulesDigest) = some p.canonical &&
    !isRootless cfg.gates p.cp

def coSignAgainstOwnBlock (s : Engine) (p : Proposal) (bh : BlockHashes) : Engine :=
  if confirms cfg p bh then (signRound cfg (yieldToLowerRound cfg s p.snapshot) p).1 else s

def confirmRead (s : Engine) (i : ℕ) (bh : BlockHashes) : Engine :=
  match s.cosigns[i]? with
  | some (p, true) => coSignAgainstOwnBlock cfg { s with cosigns := s.cosigns.eraseIdx i } p bh
  | _ => s

end CoSigns

section Steps
variable (cfg : Settings)

/- closed is a round of the leader's that times out or meets its quorum, and abandon a co-sign
   whose read fails or whose answer the replay rules decline. -/
inductive Event where
  | clock (now : ℕ)
  | tip (btcBlock : ℕ)
  | lead (btcBlock : ℕ)
  | round (call : RoundCall)
  | closed (id : String)
  | signReq (req : SignReq)
  | maxSeq (i : ℕ) (seated : Option ℕ)
  | abandon (i : ℕ)
  | ownBlock (i : ℕ) (bh : BlockHashes)
  | finalized (snapshotBlock : ℚ)

def advanceLatch (s : Engine) (latch : ℚ) : Engine :=
  if s.lastCheckpointBtcBlock.all (· < latch) then { s with lastCheckpointBtcBlock := some latch } else s

def step (s : Engine) : Event → Engine
  | .clock now => { s with now }
  | .tip btcBlock => (signedRoundConflict cfg (supersedeOwnAttempt s btcBlock) btcBlock).1
  | .lead btcBlock => { s with attemptedCheckpointBtcBlock := some (btcBlock : ℚ) }
  | .round call => runRound cfg s call
  | .closed id => { s with pending := s.pending.erase id }
  | .signReq req => handleSignReq cfg s req
  | .maxSeq i seated => replayGuard s i seated
  | .abandon i => { s with cosigns := s.cosigns.eraseIdx i }
  | .ownBlock i bh => confirmRead cfg s i bh
  | .finalized snapshotBlock => advanceLatch s snapshotBlock

abbrev run : Engine → List Event → Engine := GuardedRuns.run (step cfg)

/- A started engine, with the latch that loadLastCheckpointLatch restores. -/
def booted (now : ℕ) (latch : Option ℚ) : Engine :=
  ⟨now, .empty, 0, latch, none, .empty, .empty, [], []⟩

end Steps
end XChainHub.Anchor.CheckpointEngine
