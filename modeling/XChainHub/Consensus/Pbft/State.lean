import XChainHub.Library.OrderedSet
import XChainHub.Lib.BftQuorum
import XChainHub.Consensus.StakeWeightedQuorum

/-!
Data of one hub's config-PBFT engine: consensus/pbft.js and its parts under
consensus/pbft/. Numbers on the wire are exact rationals, keys and addresses are
text, a digest is the value of an arbitrary digest function. A proposal record
lives in a heap, as timers and promises hold on to it after it leaves the map.
-/
namespace XChainHub.Pbft
open BftQuorum

abbrev Snapshot := CapabilitySnapshot StakeWeightedQuorum.Row

/- What equivVote signs: the header slot and `blockHeight|digest`. -/
structure EquivVote where
  seq : ℚ
  view : ℚ
  blockHeight : Option ℚ
  digest : String
  deriving DecidableEq

/- A field is none where the source's check reads it as absent or of another type. -/
inductive Message (Config : Type) where
  | prePrepare (seq view : Option ℚ) (configDigest : Option String) (config : Option Config)
      (btcBlockHeight : Option ℚ)
  | prepare (seq : Option ℚ) (configDigest : Option String)
  | commit (seq : Option ℚ) (configDigest : Option String)
  | viewChange (view seq : Option ℚ)
  | newView (view seq : Option ℚ)
  deriving DecidableEq

/- sigPubkey is the key transport verified the envelope with. -/
structure Envelope (Config : Type) where
  sender : String
  sigPubkey : Option String
  data : Message Config
  deriving DecidableEq

structure Validator where
  addr : String
  pubkey : Option String

/- Constants of one hub: configuration, identity and the activation tables. -/
structure Params (Config : Type) where
  validatorAddr : String
  identity : Option String
  minValidators : ℕ
  seedNodes : ℕ
  snapshotToleranceBlocks : ℚ
  timeout : ℚ
  capabilitySnapshot : Bool
  digest : Config → String
  toLowerCase : String → String
  federatedHubActive : Option ℚ → Bool
  stakeWeightedActive : ℚ → Bool
  equivHeaderActive : Option ℚ → Bool

/- What the hub reads off its peer manager and clock in one event. -/
structure Env where
  validatorPubkeys : Option (List (String × String))
  effectiveSignerSet : Option (List String)
  validatorSet : List Validator
  openPeers : ℕ
  now : ℚ

inductive ApplyStage where
  | idle
  | configInFlight
  | seqInFlight
  deriving DecidableEq

/- seq is the map key its closures captured; leader records carry resolve, reject
   and the proposal timer, the others the follower expiry. -/
structure Proposal (Config : Type) where
  seq : ℚ
  leader : Bool
  config : Config
  digest : String
  view : ℚ
  prepares : OrderedSet String
  commits : OrderedSet String
  preparePubkeys : OrderedSet String
  commitPubkeys : OrderedSet String
  resolved : Bool
  applied : Bool
  commitSent : Bool
  applying : Bool
  chain : ApplyStage
  quorum : ℕ
  weighted : Bool
  validators : StakeWeightedQuorum.Snapshot
  memberPubkeys : Option (OrderedSet String)
  btcBlockHeight : Option ℚ

structure ViewChangeContext where
  quorum : ℕ
  weighted : Bool
  validators : StakeWeightedQuorum.Snapshot
  memberPubkeys : Option (OrderedSet String)

/- The two early-vote maps share their keys and their order. -/
structure EarlyBucket (Config : Type) where
  seq : ℚ
  expiresAt : ℚ
  votes : List (Envelope Config)

/- A handler parked at an await, with what it holds on to. -/
inductive Task (Config : Type) where
  | prePrepare (envelope : Envelope Config) (seq view : ℚ) (configDigest : String)
      (config : Config) (btcBlockHeight : Option ℚ) (tipBound : Bool)
  | propose (config : Config)

inductive Output (Config : Type) where
  | broadcast (data : Message Config) (equiv : Option EquivVote)
  | applied (seq : ℚ) (digest : String)
  | appliedDirect (digest : String)
  | settled (seq : ℚ) (ok : Bool)
  deriving DecidableEq

structure Hub (Config : Type) where
  seq : ℚ
  view : ℚ
  lastAppliedSeq : ℚ
  proposals : List (Proposal Config)
  pendingProposals : AList (fun _ : ℚ => ℕ)
  pendingViewChanges : AList (fun _ : ℚ => OrderedSet String)
  pendingViewChangePubkeys : AList (fun _ : ℚ => OrderedSet String)
  viewChangeQuorums : AList (fun _ : ℚ => ViewChangeContext)
  earlyVotes : List (EarlyBucket Config)
  replayingSeq : Option ℚ
  tasks : List (Option (Task Config))
  trace : List (Output Config)

variable {Config : Type}

/- A started hub whose persisted sequence is seq. -/
def Hub.started (seq : ℚ) : Hub Config :=
  ⟨seq, 0, seq, [], ∅, ∅, ∅, ∅, [], none, [], []⟩

def Hub.emit (h : Hub Config) (o : Output Config) : Hub Config :=
  { h with trace := h.trace ++ [o] }

def Hub.modify (h : Hub Config) (pid : ℕ) (f : Proposal Config → Proposal Config) : Hub Config :=
  { h with proposals := h.proposals.modify pid f }

def Hub.forget (h : Hub Config) (seq : ℚ) : Hub Config :=
  { h with pendingProposals := h.pendingProposals.erase seq }

/- pendingProposals.set: the new record replaces whatever the map held at its seq. -/
def Hub.openRecord (h : Hub Config) (p : Proposal Config) : Hub Config :=
  { h with
    proposals := h.proposals ++ [p]
    pendingProposals := h.pendingProposals.insert p.seq h.proposals.length }

def Hub.pending (h : Hub Config) (seq : ℚ) : Option (ℕ × Proposal Config) :=
  (h.pendingProposals.lookup seq).bind (fun pid => h.proposals[pid]?.map (fun p => (pid, p)))

end XChainHub.Pbft
