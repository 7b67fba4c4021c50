import XChainHub.Consensus.StakeWeightedQuorum
import XChainHub.Lib.BftQuorum
import XChainHub.Library.GuardedRuns
import XChainHub.Library.OrderedMap
import XChainHub.Library.SlotHeap

/-!
The signing rounds of consensus/retraction.js and its parts submit.js and cosign.js on one
hub. The id of a round is the hash of its canonical text, so a round is named here by what
that text spells. A deferral sits in the pending map under an id that no hash equals, and is
kept in a map of its own. Timers are flags; stop() and the co-signing of others are left out.
-/
namespace XChainHub.RetractionConsensus
open BftQuorum GuardedRuns SlotHeap StakeWeightedQuorum

structure Deletion where
  table : String
  sourceChain : String
  fromActionIndex : ℕ
  toActionIndex : Option ℕ
  retractionGeneration : Option ℕ
  deriving DecidableEq

structure IntentKey where
  table : String
  sourceChain : String
  fromActionIndex : ℕ
  toActionIndex : Option ℕ
  deriving DecidableEq

/- The identity of an intent leaves the generation out. -/
def Deletion.intentKey (d : Deletion) : IntentKey :=
  ⟨d.table, d.sourceChain, d.fromActionIndex, d.toActionIndex⟩

/- A deletion with its snapshot_block: what canonicalRetraction spells. -/
structure Signed where
  deletion : Deletion
  snapshotBlock : ℕ
  deriving DecidableEq

abbrev Signatures := List (String × String)

/- signed is the snapshot_block and the retraction_signatures, none on an unsigned broadcast. -/
structure Streamed where
  deletion : Deletion
  signed : Option (ℕ × Signatures)
  deriving DecidableEq

structure PendingRound where
  quorum : ℕ
  weighted : Bool
  validators : Snapshot
  signatures : OrderedMap String String

/- serial tells one deferral object from a later one under the same key. -/
structure Deferral where
  deletion : Deletion
  serial : ℕ
  armed : Bool
  deriving DecidableEq

/- Who runs submitQuorumRetraction: submitLocal, entered when so many deletions were streamed,
   or the timer of a deferral. -/
inductive Origin where
  | submitted (since : ℕ)
  | retry (serial : ℕ)
  deriving DecidableEq

inductive Stage where
  | block
  | validators (snapshotBlock : ℕ)
  deriving DecidableEq

/- The calls at their awaits. caller is the submission that waits for a finalize. -/
inductive Task where
  | submit (d : Deletion) (origin : Origin) (stage : Stage)
  | adopt (s : Signed) (signatures : Signatures)
  | finalize (s : Signed) (sigs : Signatures) (caller : Option ℕ)
  deriving DecidableEq

/- owed is history: the submissions that returned, each with what was streamed when it
   entered. -/
structure Hub where
  rounds : OrderedMap Signed PendingRound
  deferrals : OrderedMap IntentKey Deferral
  serials : ℕ
  finalized : OrderedSet Signed
  tasks : List (Option Task)
  streamed : List Streamed
  owed : List (Deletion × ℕ)

def Hub.initial : Hub := ⟨OrderedMap.empty, OrderedMap.empty, 0, OrderedSet.empty, [], [], []⟩

/- ready is an identity, a peer manager and a capability snapshot all present; sign and verify
   are over the canonical text. -/
structure Params where
  ready : Bool
  pubkey : String
  toLowerCase : String → String
  sign : Signed → String
  verify : Signed → String → String → Bool
  gateActive : ℕ → Bool
  stakeWeighted : ℕ → Bool

inductive Answer (A : Type) where
  | threw
  | value (a : A)

inductive Event where
  | submit (d : Deletion)
  | block (n : ℕ) (answer : Answer (Option ℕ))
  | validators (n : ℕ) (answer : Answer Snapshot)
  | retryTimer (key : IntentKey)
  | sign (s : Signed) (sigPubkey sig : String)
  | roundTimeout (s : Signed)
  | finalizedMessage (s : Signed) (signatures : Signatures)
  | adoptValidators (n : ℕ) (answer : Answer Snapshot)
  | persisted (n : ℕ) (answer : Answer ℕ)

def quorumClassTables : List String :=
  ["cross_chain_calls", "cross_chain_matches", "bridge_transfers"]

def finalizedMax : ℕ := 512

/- The finalized ring: the oldest id goes once the cap is passed. -/
def rememberFinalized (finalized : OrderedSet Signed) (s : Signed) : OrderedSet Signed :=
  let added := finalized.add s
  match added.items with
  | [] => added
  | first :: _ => if finalizedMax < added.size then added.erase first else added

def Hub.settle (h : Hub) (n : ℕ) : Hub := { h with tasks := h.tasks.set n none }

def Hub.broadcastUnsigned (h : Hub) (d : Deletion) : Hub :=
  { h with streamed := h.streamed ++ [⟨d, none⟩] }

/- submitLocal returns: from here on its deletion is owed. A retry has no caller. -/
def Hub.returned (h : Hub) (d : Deletion) : Origin → Hub
  | .submitted since => { h with owed := h.owed ++ [(d, since)] }
  | .retry _ => h

def Hub.scheduleDeferredRetry (h : Hub) (key : IntentKey) (serial : ℕ) : Hub :=
  match h.deferrals.get key with
  | none => h
  | some state =>
    if state.serial = serial then
      { h with deferrals := h.deferrals.set key { state with armed := true } }
    else h

/- A submission over a standing deferral hands it the newer event and leaves its timer alone. -/
def Hub.deferSigningRound (h : Hub) (d : Deletion) : Origin → Hub
  | .retry serial => h.scheduleDeferredRetry d.intentKey serial
  | .submitted _ =>
    match h.deferrals.get d.intentKey with
    | some existing =>
      { h with deferrals := h.deferrals.set d.intentKey { existing with deletion := d } }
    | none =>
      { h with
        deferrals := h.deferrals.set d.intentKey ⟨d, h.serials, true⟩
        serials := h.serials + 1 }

/- Whether clearDeferral, called from origin, removes this deferral of its key. -/
def Origin.clears : Origin → Deferral → Bool
  | .submitted _, _ => true
  | .retry serial, state => state.serial = serial

def Hub.clearDeferral (h : Hub) (d : Deletion) (origin : Origin) : Hub :=
  match h.deferrals.get d.intentKey with
  | none => h
  | some state =>
    if origin.clears state then { h with deferrals := h.deferrals.erase d.intentKey } else h

/- finalize up to its await: the id is remembered before the capability rows are persisted. -/
def Hub.finalize (h : Hub) (s : Signed) (sigs : Signatures) (caller : Option ℕ) : Hub :=
  { h with
    finalized := rememberFinalized h.finalized s
    tasks := h.tasks ++ [some (.finalize s sigs caller)] }

section Handlers
variable (cfg : Params)

def normalizeRows (snap : Snapshot) : Snapshot :=
  ⟨snap.rows.map (fun v => ⟨cfg.toLowerCase v.pubkey, some (v.source.getD ""),
    some (v.weight.getD "0")⟩), snap.truncated⟩

def quorumMet (round : PendingRound) : Bool :=
  if round.weighted then
    meetsStakeThreshold cfg.toLowerCase round.validators round.signatures.keys.items
  else decide (round.quorum ≤ round.signatures.size)

def checkQuorum (s : Signed) (h : Hub) : Hub :=
  match h.rounds.get s with
  | none => h
  | some round =>
    if quorumMet cfg round then
      Hub.finalize { h with rounds := h.rounds.erase s } s round.signatures.entries none
    else h

def openSigningRound (s : Signed) (snap : Snapshot) (h : Hub) : Hub :=
  { h with
    rounds := h.rounds.set s
      ⟨bftQuorumOrSingle snap.rows.length 1, cfg.stakeWeighted s.snapshotBlock,
        normalizeRows cfg snap, OrderedMap.empty.set cfg.pubkey (cfg.sign s)⟩ }

def submitLocal (d : Deletion) (h : Hub) : Hub :=
  let origin := Origin.submitted h.streamed.length
  if d.table ∉ quorumClassTables || !cfg.ready then (h.broadcastUnsigned d).returned d origin
  else { h with tasks := h.tasks ++ [some (.submit d origin .block)] }

/- A throw out of submitQuorumRetraction: submitLocal throws on, a retry arms its timer again. -/
def submitThrew (d : Deletion) (h : Hub) : Origin → Hub
  | .submitted _ => h
  | .retry serial => h.scheduleDeferredRetry d.intentKey serial

def blockResolved (n : ℕ) (d : Deletion) (origin : Origin) (answer : Option ℕ) (h : Hub) : Hub :=
  match answer with
  | none => ((h.settle n).deferSigningRound d origin).returned d origin
  | some snapshotBlock =>
    if cfg.gateActive snapshotBlock then
      { h with tasks := h.tasks.set n (some (.submit d origin (.validators snapshotBlock))) }
    else (((h.settle n).clearDeferral d origin).broadcastUnsigned d).returned d origin

/- A single row finalizes at once, and submitLocal waits for that; more open a round. -/
def validatorsResolved (n : ℕ) (s : Signed) (origin : Origin) (snap : Snapshot) (h : Hub) : Hub :=
  let d := s.deletion
  if snap.rows = [] then ((h.settle n).deferSigningRound d origin).returned d origin
  else
    let h := (h.settle n).clearDeferral d origin
    if h.rounds.has s || s ∈ h.finalized then h.returned d origin
    else if snap.rows.length ≤ 1 then
      h.finalize s [(cfg.pubkey, cfg.sign s)]
        (match origin with
        | .submitted since => some since
        | .retry _ => none)
    else (checkQuorum cfg s (openSigningRound cfg s snap h)).returned d origin

def retryTimer (key : IntentKey) (h : Hub) : Hub :=
  match h.deferrals.get key with
  | none => h
  | some state =>
    if state.armed then
      { h with
        deferrals := h.deferrals.set key { state with armed := false }
        tasks := h.tasks ++ [some (.submit state.deletion (.retry state.serial) .block)] }
    else h

def handleSign (s : Signed) (sigPubkey sig : String) (h : Hub) : Hub :=
  match h.rounds.get s with
  | none => h
  | some round =>
    let pubkey := cfg.toLowerCase sigPubkey
    if round.validators.rows.any (fun v => v.pubkey = pubkey) && cfg.verify s sig pubkey then
      checkQuorum cfg s
        { h with
          rounds := h.rounds.set s
            { round with signatures := round.signatures.set pubkey sig } }
    else h

def roundTimeout (s : Signed) (h : Hub) : Hub :=
  match h.rounds.get s with
  | none => h
  | some _ => Hub.broadcastUnsigned { h with rounds := h.rounds.erase s } s.deletion

/- normalizeRetraction, on a message whose numbers are whole and not negative. -/
def wellFormed (d : Deletion) : Bool :=
  d.table ∈ quorumClassTables && d.sourceChain ≠ "" &&
    d.toActionIndex.all (fun last => d.fromActionIndex ≤ last)

def handleFinalized (s : Signed) (signatures : Signatures) (h : Hub) : Hub :=
  if wellFormed s.deletion && cfg.gateActive s.snapshotBlock && s ∉ h.finalized then
    { h with tasks := h.tasks ++ [some (.adopt s signatures)] }
  else h

/- The first verified signature of each member, in the order of the message. -/
def verifiedSignatures (s : Signed) (pubkeys : OrderedSet String) :
    Signatures → List String → Signatures
  | [], _ => []
  | (signer, sig) :: rest, seen =>
    let pk := cfg.toLowerCase signer
    if pk = "" || pk ∈ seen || pk ∉ pubkeys || !cfg.verify s sig pk then
      verifiedSignatures s pubkeys rest seen
    else (pk, sig) :: verifiedSignatures s pubkeys rest (pk :: seen)

def adoptionMet (s : Signed) (snap : Snapshot) (pubkeys : OrderedSet String)
    (sigs : Signatures) : Bool :=
  if cfg.stakeWeighted s.snapshotBlock then
    meetsStakeThreshold cfg.toLowerCase (normalizeRows cfg snap) (sigs.map Prod.fst)
  else decide (bftQuorumOrSingle pubkeys.size 1 ≤ sigs.length)

def adoptResolved (n : ℕ) (s : Signed) (signatures : Signatures) (snap : Snapshot) (h : Hub) :
    Hub :=
  let pubkeys := OrderedSet.ofList (snap.rows.map (fun v => cfg.toLowerCase v.pubkey))
  let sigs := verifiedSignatures cfg s pubkeys signatures []
  if adoptionMet cfg s snap pubkeys sigs then (h.settle n).finalize s sigs none else h.settle n

/- The caller of a finalize returns whether the stream was refused or not. -/
def Hub.finalizeReturned (h : Hub) (d : Deletion) : Option ℕ → Hub
  | some since => h.returned d (.submitted since)
  | none => h

/- A persist that throws or writes no row streams nothing and releases the id. -/
def persistResolved (n : ℕ) (s : Signed) (sigs : Signatures) (caller : Option ℕ)
    (answer : Answer ℕ) (h : Hub) : Hub :=
  match answer with
  | .value (_ + 1) =>
    Hub.finalizeReturned { h.settle n with
      streamed := h.streamed ++ [⟨s.deletion, some (s.snapshotBlock, sigs)⟩] } s.deletion caller
  | _ => Hub.finalizeReturned { h.settle n with finalized := h.finalized.erase s } s.deletion caller

def step (h : Hub) : Event → Hub
  | .submit d => submitLocal cfg d h
  | .block n answer =>
    match slotAt h.tasks n with
    | some (.submit d origin .block) =>
      match answer with
      | .threw => submitThrew d (h.settle n) origin
      | .value block => blockResolved cfg n d origin block h
    | _ => h
  | .validators n answer =>
    match slotAt h.tasks n with
    | some (.submit d origin (.validators snapshotBlock)) =>
      match answer with
      | .threw => submitThrew d (h.settle n) origin
      | .value snap => validatorsResolved cfg n ⟨d, snapshotBlock⟩ origin snap h
    | _ => h
  | .retryTimer key => retryTimer key h
  | .sign s sigPubkey sig => handleSign cfg s sigPubkey sig h
  | .roundTimeout s => roundTimeout s h
  | .finalizedMessage s signatures => handleFinalized cfg s signatures h
  | .adoptValidators n answer =>
    match slotAt h.tasks n with
    | some (.adopt s signatures) =>
      match answer with
      | .threw => h.settle n
      | .value snap => adoptResolved cfg n s signatures snap h
    | _ => h
  | .persisted n answer =>
    match slotAt h.tasks n with
    | some (.finalize s sigs caller) => persistResolved n s sigs caller answer h
    | _ => h

end Handlers
end XChainHub.RetractionConsensus
