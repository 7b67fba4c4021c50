import XChainHub.Library.HexText
import XChainHub.Library.OrderedMap
import XChainHub.Library.PaidLog
import XChainHub.Library.TornLog
import XChainHub.Lib.IdempotentBroadcast
import XChainHub.Consensus.EquivocationHeader

/-!
Data of one hub's full-node challenge rounds: consensus/full_node_challenge_round.js and
its parts. Heights are block numbers; pubkeys and digests are text in lower case.
-/
namespace XChainHub.FullNodeChallengeRound
open PaidLog TornLog EquivocationHeader

inductive Phase where
  | intent
  | sent
  | ambiguous
  | failed
  deriving DecidableEq

/- A line of the spend log, as loadSpendLog reads it back. -/
structure Record where
  phase : Phase
  epoch : ℕ
  deriving DecidableEq

/- An append reports success, or failure, or the process dies in it; the last two leave
   what they leave of the line. -/
inductive Append where
  | written
  | refused (left : Left)
  | died (left : Left)
  deriving DecidableEq

/- made tells two round objects of one epoch apart. -/
structure Round where
  made : ℕ
  challengeId : String
  eligible : OrderedSet String
  claimants : OrderedSet String
  answers : OrderedMap String String
  sigs : OrderedMap String String
  passList : Option (List String)
  myAnswer : Option String
  finalized : Bool
  closed : Bool
  leadRank : ℕ

structure Params where
  network : String
  pubkey : Option String
  coinRpc : Bool
  genesis : List String
  interval : ℕ
  confirmDepth : ℕ
  acceptWindow : ℕ
  closeDepth : ℕ
  equivActivation : String → Option ℤ
  sha256 : String → String
  toLowerCase : String → String
  sign : String → String
  verify : String → String → String → Bool

/- What a turn of maybeFinalize reads around it: the wiring of the hooks, the spend guard's
   check and its reservation, and the fate of the intent's append. -/
structure Gate where
  chainMismatch : Bool
  check : Bool
  reserve : Bool
  append : Append
  deriving DecidableEq

/- A call of broadcastVerdict that has not settled. -/
structure Send where
  epoch : ℕ
  made : ℕ
  deriving DecidableEq

/- onSignReq at its await, with the list in lower case. -/
structure Request where
  epoch : ℕ
  made : ℕ
  pass : List String
  deriving DecidableEq

/- The tick in flight: at the tip, at the reads of runEpoch, or at its own answer. -/
inductive Ticking where
  | tip
  | resolving (epoch : ℕ)
  | answering (epoch made : ℕ) (amClaimant : Bool)
  deriving DecidableEq

/- log is history: every call of broadcastVerdict and its end, newest first. made counts the
   round objects. -/
structure Hub where
  rounds : OrderedMap ℕ Round
  committedEpochs : OrderedSet ℕ
  ticking : Option Ticking
  requests : List (Option Request)
  sends : List (Option Send)
  spendLog : TornLog.Log Record
  made : ℕ
  log : List (Mark ℕ)

/- What is left of a turn when the process dies in it. -/
abbrev Turn := Except Hub

structure AnswerMessage where
  epoch : ℕ
  challengeId : String
  answerDigest : String
  sigPubkey : String
  sig : String

structure SignReqMessage where
  epoch : ℕ
  challengeId : String
  passList : List String
  sigPubkey : String

structure SignMessage where
  epoch : ℕ
  challengeId : String
  sigPubkey : String
  sig : String

section Texts
variable (cfg : Params)

def challengeId (epoch : ℕ) (seed : String) (target : ℕ) : String :=
  cfg.sha256 (cfg.network ++ ":" ++ toString epoch ++ ":" ++ seed ++ ":" ++ toString target)

def answerCanonical (challengeId answerDigest : String) : String :=
  "XNODEANS|" ++ challengeId ++ "|" ++ answerDigest

def answerDigest (challengeId pubkey answer : String) : String :=
  cfg.sha256 ("XNODEANSV1|" ++ challengeId ++ "|" ++ cfg.toLowerCase pubkey ++ "|" ++ answer)

def sortedPass (pass : List String) : List String := pass.insertionSort (· ≤ ·)

def verdictCanonical (challengeId : String) (epoch : ℕ) (sortedPassList : List String) : String :=
  let raw := challengeId ++ "|" ++ toString epoch ++ "|" ++ ",".intercalate sortedPassList
  if isEquivHeaderActive cfg.equivActivation (some epoch) cfg.network then
    buildEquivCanonical "NODEPROOF" challengeId "0" raw
  else raw

def isHex64 (s : String) : Bool := s.toList.length = 64 && s.toList.all HexText.isLowerHex

/- The set of a reply's pubkeys, with the genesis verifiers before them. -/
def pubkeySet (genesis listed : List String) : OrderedSet String :=
  OrderedSet.ofList (genesis ++ (listed.map cfg.toLowerCase).filter isHex64)

end Texts

section Leaders
variable (cfg : Params)

def ranked (st : Round) : List String :=
  ((st.eligible.items.map (fun pk => (pk, cfg.sha256 (st.challengeId ++ pk)))).insertionSort
    (fun a b => a.2 ≤ b.2)).map Prod.fst

def unlockedRank (st : Round) : ℕ := min st.leadRank ((ranked cfg st).length - 1)

def electedLeader (st : Round) : Option String := (ranked cfg st)[unlockedRank cfg st]?

def isLeader (st : Round) : Option String → Bool
  | none => false
  | some me => me ∈ st.eligible ∧ (ranked cfg st).findIdx? (· = me) = some (unlockedRank cfg st)

def verdictQuorum (st : Round) : ℕ := 2 * st.eligible.size / 3 + 1

end Leaders

section Spend

inductive Outcome where
  | sent
  | failed
  | intent
  deriving DecidableEq

/- 'sent' is terminal; below it the last record wins. -/
def foldRecord (outcome : OrderedMap ℕ Outcome) (rec : Record) : OrderedMap ℕ Outcome :=
  match rec.phase with
  | .sent | .ambiguous => outcome.set rec.epoch .sent
  | .failed => if outcome.get rec.epoch = some .sent then outcome else outcome.set rec.epoch .failed
  | .intent => if outcome.get rec.epoch = some .sent then outcome else outcome.set rec.epoch .intent

def spent : Outcome → Bool
  | .failed => false
  | _ => true

/- The epochs whose fee the log says was or may have been paid. -/
def loadSpendLog (log : TornLog.Log Record) : OrderedSet ℕ :=
  OrderedSet.ofList
    (((log.records.foldl foldRecord OrderedMap.empty).entries.filter (fun e => spent e.2)).map
      Prod.fst)

def recordSpend (h : Hub) (rec : Record) : Append → Turn (Hub × Bool)
  | .written => .ok ({ h with spendLog := h.spendLog.put rec .whole }, true)
  | .refused left => .ok ({ h with spendLog := h.spendLog.put rec left }, false)
  | .died left => .error { h with spendLog := h.spendLog.put rec left }

end Spend

/- A write to a round object reaches the map while that object is in it. -/
def Hub.alter (h : Hub) (epoch made : ℕ) (f : Round → Round) : Hub :=
  match h.rounds.get epoch with
  | none => h
  | some st => if st.made = made then { h with rounds := h.rounds.set epoch (f st) } else h

def Hub.started (spendLog : TornLog.Log Record) (made : ℕ) (log : List (Mark ℕ)) : Hub where
  rounds := OrderedMap.empty
  committedEpochs := loadSpendLog spendLog
  ticking := none
  requests := []
  sends := []
  spendLog := spendLog
  made := made
  log := log

def inFlight (h : Hub) : List ℕ := (occupied h.sends).map Send.epoch

/- The process dies: the sends it awaited are cut off, and a new one loads the log. -/
def restart (h : Hub) : Hub :=
  Hub.started h.spendLog h.made ((inFlight h).map Mark.paid ++ h.log)

end XChainHub.FullNodeChallengeRound
