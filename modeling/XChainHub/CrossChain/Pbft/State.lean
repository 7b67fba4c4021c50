import XChainHub.Library.OrderedMap
import XChainHub.Lib.BftQuorum
import XChainHub.Consensus.StakeWeightedQuorum
import XChainHub.CrossChain.Engine

/-!
Data of one hub's CrossChainDexConsensus: cross_chain/dex_consensus.js and its
parts under cross_chain/pbft/. The hub holds an identity and a peer manager. A
round lives in a heap, as tasks and finalizedRows hold on to it after it leaves
the pending map. Views on the wire are rationals, none where Number() of the
field is not finite.
-/
namespace XChainHub.CrossChain
open StakeWeightedQuorum (Row Snapshot)

inductive Message (R : Type) where
  | propose (matchId : String) (view : Option ℚ) (row : Option R) (sigPubkey : String)
      (sig : Option String)
  | prepare (matchId : String) (view : Option ℚ) (sigPubkey : String) (sig : Option String)
  | commit (matchId : String) (view : Option ℚ) (sigPubkey : String) (sig commitSig : Option String)
  | viewChange (matchId : String) (view : Option ℚ) (sigPubkey : String) (sig : Option String)
  | newView (matchId : String) (view : Option ℚ) (sigPubkey : String) (sig : Option String)
  | finalSync (matchId : String) (row : Option R) (signatures : List (String × String))
      (view : Option ℚ)
  deriving DecidableEq

/- Constants of one hub. pubkey is the lower-cased key of its identity and wireSize
   the length of a message as JSON; verify of an absent signature is false. -/
structure Params (R : Type) where
  engine : Engine R
  toLowerCase : String → String
  lower_idem : ∀ s, toLowerCase (toLowerCase s) = toLowerCase s
  pubkey : String
  pubkey_lower : toLowerCase pubkey = pubkey
  sign : String → String
  verify : String → String → String → Bool
  sign_verifies : ∀ payload, verify payload (sign payload) pubkey = true
  finalizedMax : ℕ
  earlyMessageMaxDistinctIds : ℕ
  earlyMessageMaxBytes : ℕ
  wireSize : Message R → ℕ
  roundMaxLifetimeMs : ℚ

/- What effectiveTimeMarginS answers: a throw, a value (none where it is missing or
   not a finite number), or a promise. -/
inductive MarginReply where
  | threw
  | value (seconds : Option ℚ)
  | promise

/- What the hub reads off its clocks and its engine in one event. -/
structure Env where
  now : ℚ
  nowSeconds : ℚ
  margin : MarginReply

/- The membership a round counts votes against. -/
structure Binding where
  validators : List Row
  quorum : ℕ
  weighted : Bool
  deriving DecidableEq

structure Round (R : Type) where
  matchId : String
  startedAt : ℚ
  row : R
  canonical : String
  binding : Binding
  view : ℚ
  prepares : OrderedSet String
  commits : OrderedSet String
  signatures : OrderedMap String String
  viewChanges : OrderedMap ℚ (OrderedSet String)
  finalized : Bool
  commitSent : Bool
  timer : Bool

/- The row of a finalized payload is the row object of the round it came from. -/
structure FinalizedRow where
  rid : ℕ
  signatures : List (String × String)
  view : ℚ

/- The two early-message maps share their keys and their order. -/
structure EarlyBucket (R : Type) where
  matchId : String
  expiresAt : ℚ
  messages : List (Message R)

/- A leader's row that passed the synchronous checks of leaderProposal. -/
structure Offer (R : Type) where
  matchId : String
  rid : ℕ
  senderPubkey : String
  view : ℚ
  row : R
  canonical : String
  sig : String

/- A FINAL_SYNC proof between its synchronous checks and the rebind it awaits. -/
structure Sync (R : Type) where
  matchId : String
  rid : ℕ
  row : R
  view : ℚ
  canonical : String
  signatures : List (String × String)

/- How far rebindSnapshot got before its await. -/
inductive Rebind where
  | held
  | refused
  | resolving (weighted : Bool)

/- A function parked at an await, with what it holds on to. -/
inductive Task (R : Type) where
  | validate (offer : Offer R)
  | adopt (offer : Offer R) (rebind : Rebind)
  | sync (proof : Sync R) (rebind : Rebind)
  | lead (rid : ℕ) (drains : Bool)
  | sole (matchId : String) (rid : ℕ) (canonical : String)
  | drain (matchId : String)
  | margin (matchId : String) (rid : ℕ) (view currentSecond : ℚ)
  | restamped (matchId : String) (rid : ℕ) (view : ℚ) (ok : Bool)

/- match:finalized as emitted, with the membership its round was bound to. -/
structure Finalized (R : Type) where
  matchId : String
  row : R
  signatures : List (String × String)
  view : ℚ
  binding : Binding
  deriving DecidableEq

/- signed records a call of identity.sign made for the round matchId. -/
inductive Output (R : Type) where
  | signed (matchId : String) (payload : Payload)
  | broadcast (message : Message R)
  | finalized (event : Finalized R)
  | abandoned (matchId : String)
  deriving DecidableEq

structure Hub (R : Type) where
  rounds : List (Round R)
  pending : OrderedMap String ℕ
  finalized : List String
  finalizedRows : OrderedMap String FinalizedRow
  earlyMessages : List (EarlyBucket R)
  replaying : List (Message R)
  tasks : List (Option (Task R))
  trace : List (Output R)

variable {R : Type}

def Hub.started : Hub R := ⟨[], .empty, [], .empty, [], [], [], []⟩

def Hub.emit (h : Hub R) (o : Output R) : Hub R := { h with trace := h.trace ++ [o] }

def Hub.modify (h : Hub R) (rid : ℕ) (f : Round R → Round R) : Hub R :=
  { h with rounds := h.rounds.modify rid f }

def Hub.await (h : Hub R) (t : Task R) : Hub R := { h with tasks := h.tasks ++ [some t] }

def Hub.settle (h : Hub R) (tid : ℕ) : Hub R := { h with tasks := h.tasks.set tid none }

def Hub.forget (h : Hub R) (matchId : String) : Hub R :=
  { h with pending := h.pending.erase matchId }

def Hub.openRound (h : Hub R) (p : Round R) : Hub R :=
  { h with
    rounds := h.rounds ++ [p]
    pending := h.pending.set p.matchId h.rounds.length }

def Hub.pendingRound (h : Hub R) (matchId : String) : Option (ℕ × Round R) :=
  (h.pending.get matchId).bind (fun rid => h.rounds[rid]?.map (fun p => (rid, p)))

end XChainHub.CrossChain
