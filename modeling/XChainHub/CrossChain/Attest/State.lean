import XChainHub.Library.OrderedMap
import XChainHub.Library.SlotHeap
import XChainHub.Lib.BftQuorum

/-!
Data of one hub's CrossChainEngine: cross_chain/engine.js and its parts under
cross_chain/attest/. A round lives in a heap, as timers and stores hold on to it after it
leaves the pending map. Confirmations are whatever value a proposal carries.
-/
namespace XChainHub.CrossChain.Attest
open BftQuorum

variable {C : Type}

def snapshotBlockTolerance : ℕ := 144

/- sourceActionIndex is parseInt of the field and btcBlockHeight its Number(), none where
   that is no integer. -/
structure Proposal (C : Type) where
  attestationId : String
  sourceChain : String
  sourceActionIndex : Option ℤ
  destChain : String
  confirmations : C
  digest : String
  btcBlockHeight : Option ℤ
  deriving DecidableEq

inductive Message (C : Type) where
  | propose (p : Proposal C)
  | prepare (attestationId digest : String)
  | commit (attestationId digest : String)
  deriving DecidableEq

/- Constants of one hub. pubkey is its signing key in lower case; parseInt is none on NaN; the
   digest is the sha256 of the pair as JSON, taken as free of collisions. -/
structure Params (C : Type) where
  pubkey : String
  toLowerCase : String → String
  allowedChains : List String
  confirmations : String → C
  parseInt : String → Option ℤ
  digest : String → C → String
  digest_inj : ∀ a b c d, digest a b = digest c d → a = c ∧ b = d
  finalizedMax : ℕ

abbrev Snapshot := CapabilitySnapshot String

/- led tells a round opened by requestAttestation from one opened by a PROPOSE. -/
structure Round (C : Type) where
  attestationId : String
  confirmations : C
  digest : String
  quorum : ℕ
  memberPubkeys : Option (OrderedSet String)
  prepares : OrderedSet String
  commits : OrderedSet String
  finalized : Bool
  quorate : Bool
  commitSent : Bool
  timer : Bool
  led : Bool

/- requestAttestation at its awaits: the tip, the quorum's snapshot, the members' snapshot, and
   on a single node the snapshot again and the store. -/
inductive Requesting where
  | height
  | quorum (height : Option ℤ)
  | members (height : Option ℤ) (quorum : ℕ)
  | sole (height : Option ℤ)
  | storing
  deriving DecidableEq

/- handlePropose at its awaits. -/
inductive Proposing where
  | verify
  | bound
  | quorum
  | members (quorum : ℕ)
  deriving DecidableEq

inductive Task (C : Type) where
  | request (sourceChain : String) (index : ℤ) (destChain : String) (stage : Requesting)
  | propose (sigPubkey : Option String) (p : Proposal C) (stage : Proposing)
  | store (rid : ℕ)
  deriving DecidableEq

/- What a hub did, newest first: the rounds it opened on a local request, the source actions
   its own indexer confirmed, and what it broadcast. -/
inductive Entry (C : Type) where
  | requested (attestationId : String)
  | verified (sourceChain : String) (index : ℤ)
  | sent (m : Message C)
  deriving DecidableEq

inductive Stored (C : Type) where
  | round (rid : ℕ)
  | sole (attestationId : String) (confirmations : C)
  deriving DecidableEq

/- log and stored are history; so are the rounds that left the pending map. -/
structure Hub (C : Type) where
  rounds : List (Round C)
  pending : OrderedMap String ℕ
  finalized : List String
  tasks : List (Option (Task C))
  log : List (Entry C)
  stored : List (Stored C)

/- What became of a store: the row is written, or not, or written and reported lost. -/
inductive StoreReply where
  | done
  | lost
  | left
  deriving DecidableEq

/- What a resumed call reads: the tip, the indexer's word on the source action, the snapshot,
   whether the hub is federated, and the fate of a store. -/
structure Reply where
  tip : Option ℤ
  verified : Bool
  snapshot : Option Snapshot
  federated : Bool
  stored : StoreReply

section Texts
variable (cfg : Params C)

def attestationId (sourceChain : String) (index : ℤ) (destChain : String) : String :=
  sourceChain ++ ":" ++ toString index ++ ":" ++ destChain

def isTicker (cs : List Char) : Bool := 2 ≤ cs.length && cs.length ≤ 6 && cs.all Char.isUpper

/- The parts of a canonical id: its chains and its source action. -/
def idParts (id : String) : Option (String × ℤ × String) :=
  match id.toList.splitOn ':' with
  | [source, index, dest] =>
    if isTicker source && isTicker dest && !index.isEmpty && index.all Char.isDigit then
      (cfg.parseInt (String.ofList index)).map
        (fun i => (String.ofList source, i, String.ofList dest))
    else none
  | _ => none

/- The checks of a PROPOSE on its own fields. -/
def wellFormed (p : Proposal C) : Bool :=
  match idParts cfg p.attestationId with
  | none => false
  | some (source, index, dest) =>
    p.digest ≠ "" && cfg.digest p.attestationId p.confirmations = p.digest &&
      p.sourceChain = source && p.destChain = dest && p.sourceActionIndex = some index

def memberPubkeySet (s : Option Snapshot) : Option (OrderedSet String) :=
  let keys := ((s.bind CapabilitySnapshot.validators).getD []).filter (· ≠ "")
  if keys.isEmpty then none else some (OrderedSet.ofList (keys.map cfg.toLowerCase))

end Texts

/- resolveQuorum; none where it throws. The live quorum of an unfederated hub is zero. -/
def resolveQuorum (s : Option Snapshot) (federated : Bool) : Option ℕ :=
  match s with
  | some s => some (getQuorum (some s))
  | none => if federated then none else some 0

def proposeHeightBounded (height tip : Option ℤ) : Bool :=
  match height, tip with
  | some height, some tip => 0 < height && |tip - height| ≤ snapshotBlockTolerance
  | _, _ => false

def Round.counted (r : Round C) (votes : OrderedSet String) : List String :=
  match r.memberPubkeys with
  | none => votes.items
  | some members => votes.items.filter (· ∈ members)

def Hub.started : Hub C := ⟨[], .empty, [], [], [], []⟩

def Hub.round (h : Hub C) (rid : ℕ) : Option (Round C) := h.rounds[rid]?

def Hub.modify (h : Hub C) (rid : ℕ) (f : Round C → Round C) : Hub C :=
  { h with rounds := h.rounds.modify rid f }

def Hub.note (h : Hub C) (e : Entry C) : Hub C := { h with log := e :: h.log }

def Hub.await (h : Hub C) (t : Task C) : Hub C := { h with tasks := h.tasks ++ [some t] }

def Hub.next (h : Hub C) (n : ℕ) (t : Task C) : Hub C := { h with tasks := h.tasks.set n (some t) }

def Hub.finish (h : Hub C) (n : ℕ) : Hub C := { h with tasks := h.tasks.set n none }

def Hub.openRound (h : Hub C) (r : Round C) : Hub C :=
  { h with rounds := h.rounds ++ [r], pending := h.pending.set r.attestationId h.rounds.length }

def Hub.pendingRound (h : Hub C) (id : String) : Option (ℕ × Round C) :=
  (h.pending.get id).bind (fun rid => (h.round rid).map (fun r => (rid, r)))

def Hub.forget (h : Hub C) (id : String) : Hub C := { h with pending := h.pending.erase id }

/- The round's timer drops it only while it is the one under its id. -/
def Hub.evict (h : Hub C) (id : String) (rid : ℕ) : Hub C :=
  if h.pending.get id = some rid then h.forget id else h

end XChainHub.CrossChain.Attest
