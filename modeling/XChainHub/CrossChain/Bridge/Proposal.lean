import XChainHub.Lib.Bcmath
import XChainHub.Lib.CanonicalInt
import XChainHub.Library.OrderedMap
import XChainHub.CrossChain.Bridge.Legs

/-!
How a pending source leg becomes a proposed row: maybeFinalizeTransfer of
cross_chain/bridge/transfer_poll.js with the stamps of proof_ready_snapshot.js.
-/
namespace XChainHub.CrossChain.Bridge
open CanonicalInt Bcmath DecimalText

/- The resolved activation height of a network and a coin, none where it is not pinned. -/
abbrev Gate := String → Coin → Option ℤ

structure Config extends Params where
  confirmations : Coin → Option ℚ
  bridge : Gate
  token : Gate
  proofReady : Gate
  anchorProofReady : Gate

def gateActive (gate : Gate) (network : String) (coin : Coin) (block : ℤ) : Bool :=
  (gate network coin).any (· ≤ block)

/- An entry of getpendingbridgetransfers. A number that does not parse is none, and a missing
   text is empty; destChain is none for any other name. -/
structure PendingLeg where
  kind : String
  srcActionIndex : Option ℚ
  srcAddress : String
  destChain : Option Coin
  destAddress : String
  tick : String
  decimals : Option ℚ
  amount : String
  blockIndex : Option ℤ
  minDepth : Option ℚ
  pushGeneration : ℤ
  deriving DecidableEq

/- An action is listed once. -/
structure Page where
  network : String
  latest : ℤ
  transfers : List PendingLeg
  once : transfers.Pairwise (fun a b => a.srcActionIndex ≠ b.srcActionIndex)

structure Checkpoint where
  chain : Coin
  network : String
  blockIndex : SafeNat
  checkpointSeq : ℕ
  snapshotBlock : SafeNat
  deriving DecidableEq

/- What the hubs of a federation share: the indexers' pages and the finalized checkpoints. -/
structure View where
  page : Coin → Page
  checkpoints : List Checkpoint

abbrev LegKey := String × Coin × ℤ

/- The open rounds and the non-retracted records of one hub. -/
structure Guards where
  inflight : OrderedSet String
  inflightSourceLegs : OrderedSet LegKey
  inflightTransferLeg : OrderedMap String LegKey
  persisted : List (LegKey × String)

/- A clock stands far enough below the safe integers for any margin. -/
abbrev Clock := { n : ℕ // n + 3600 ≤ maxSafeInteger }

structure Hub where
  tip : Option SafeNat
  now : Clock
  guards : Guards

/- A transfer row as a peer sees it; srcChain and destChain are none for any other name. -/
structure Row where
  transferId : String
  snapshotId : String
  snapshotBlock : Scalar
  network : String
  srcChain : Option Coin
  srcActionIndex : Scalar
  srcAddress : String
  destChain : Option Coin
  destAddress : String
  tick : String
  decimals : Scalar
  amount : String
  effectiveTime : Scalar
  pushGeneration : ℤ
  deriving DecidableEq

section Stamps
variable (cfg : Config) (view : View)

/- ORDER BY block_index ASC, checkpoint_seq DESC LIMIT 1. -/
def firstOf (a b : Checkpoint) : Checkpoint :=
  if b.blockIndex < a.blockIndex ∨ b.blockIndex = a.blockIndex ∧ a.checkpointSeq < b.checkpointSeq then b
  else a

def getFirstStateCheckpointAtOrAbove (chain : Coin) (network : String) (block : ℤ) :
    Option Checkpoint :=
  match view.checkpoints.filter (fun c =>
      c.chain = chain && c.network = network && block ≤ (c.blockIndex.val : ℤ)) with
  | [] => none
  | c :: rest => some (rest.foldl firstOf c)

def proofReadyActive (network : String) (srcChain : Coin) (legBlock : ℤ) : Bool :=
  srcChain = .btc && gateActive cfg.proofReady network .btc legBlock

def proofReadySnapshot (network : String) (legBlock : ℤ) : Option SafeNat :=
  (getFirstStateCheckpointAtOrAbove view .btc network legBlock).map Checkpoint.blockIndex

def escrowProvenLeg (tick : String) : Bool :=
  tick ≠ "" && tick.toUpper ≠ "XCHAIN" && !tick.toList.contains '.'

def anchorProofReadyActive (network : String) (srcChain : Coin) (tick : String) (legBlock : ℤ) : Bool :=
  srcChain ≠ .btc && escrowProvenLeg tick && gateActive cfg.anchorProofReady network srcChain legBlock

def anchorProofReadySnapshot (network : String) (srcChain : Coin) (legBlock : ℤ) : Option SafeNat :=
  (getFirstStateCheckpointAtOrAbove view srcChain network legBlock).bind (fun c =>
    if c.snapshotBlock.val < 1 then none
    else some ⟨c.snapshotBlock.val - 1, Nat.le_trans (Nat.sub_le ..) c.snapshotBlock.property⟩)

/- The checkpoint stamp of a leg, if its stamp is one: held while there is no checkpoint. -/
def checkpointStamp (network : String) (coin : Coin) (tick : String) (legBlock : ℤ) :
    Option (Option SafeNat) :=
  if anchorProofReadyActive cfg network coin tick legBlock then
    some (anchorProofReadySnapshot view network coin legBlock)
  else if proofReadyActive cfg network coin legBlock then some (proofReadySnapshot view network legBlock)
  else none

def stampSnapshotBlock (network : String) (coin : Coin) (tip : SafeNat) (tick : String) (legBlock : ℤ) :
    Option SafeNat :=
  match checkpointStamp cfg view network coin tick legBlock with
  | none => some tip
  | some stamp => stamp.filter (fun s => tick = "XCHAIN" || gateActive cfg.token cfg.network .btc s.val)

/- The floor is read for a BTC leg only. -/
def snapshotCoversLeg (srcChain : Coin) (snapshotBlock : ℚ) (legBlock : ℤ) : Bool :=
  srcChain ≠ .btc || (legBlock : ℚ) ≤ snapshotBlock

end Stamps

section Proposals
variable (cfg : Config) (view : View)

def positiveOr (fallback : ℚ) (v : Option ℚ) : ℚ := (v.filter (0 < ·)).getD fallback

def effectiveDepth (coin : Coin) (minDepth : Option ℚ) : ℚ :=
  let platform := positiveOr 1 (cfg.confirmations coin)
  max platform (positiveOr platform minDepth)

def deepEnough (coin : Coin) (latest block : ℤ) (minDepth : Option ℚ) : Bool :=
  effectiveDepth cfg coin minDepth ≤ (latest - block + 1 : ℤ)

def nominalBlockIntervalS : Coin → ℕ
  | .btc => 600
  | .ltc => 150
  | .doge => 60

def relayMarginMaxS : ℕ := 3000

def relayMarginFloorS (gatingChain : Coin) : ℕ := min (4 * nominalBlockIntervalS gatingChain) relayMarginMaxS

def dropTrailing (p : Char → Bool) (cs : List Char) : List Char := (cs.reverse.dropWhile p).reverse

/- /^0+(?=\d)/ -/
def dropLeadingZeros : List Char → List Char
  | '0' :: c :: rest => if c.isDigit then dropLeadingZeros (c :: rest) else '0' :: c :: rest
  | cs => cs

def normalizeAmount (v : String) : List Char :=
  match trim v.toList with
  | [] => []
  | s =>
    let neg := s.head? = some '-'
    let s := if neg then s.tail else s
    let out :=
      if s.contains '.' then
        let cut := dropTrailing (· = '0') s
        if cut.getLast? = some '.' then cut.dropLast else cut
      else s
    let out := dropLeadingZeros out
    if neg && out ≠ ['0'] then '-' :: out else out

def amountPositive (amount : String) : Bool := 0 < bcnum (String.ofList (normalizeAmount amount))

def isInteger (q : ℚ) : Bool := q.den = 1

def legKey (network : String) (coin : Coin) (index : ℚ) : LegKey := (network, coin, index.num)

/- admitTransferLeg: every reason but the guards for not proposing a leg this tick. -/
def legAdmitted (coin : Coin) (latest : ℤ) (tip : SafeNat) (t : PendingLeg) (block : ℤ) : Bool :=
  (t.kind = "lock" || t.kind = "burn") && t.destChain.any (· ≠ coin) && t.tick ≠ "" &&
    (t.tick = "XCHAIN" || gateActive cfg.token cfg.network .btc tip.val) &&
    gateActive cfg.bridge cfg.network coin block &&
    t.srcActionIndex.any (fun index => isInteger index && 0 < index) &&
    deepEnough cfg coin latest block t.minDepth

def proposedId (network : String) (coin : Coin) (t : PendingLeg) : String :=
  deriveTransferId cfg.toParams network
    ⟨coin, (t.srcActionIndex.getD 0).num, t.destChain.getD coin, t.destAddress⟩

/- No round and no record of the leg at this hub. -/
def legFree (guards : Guards) (network : String) (coin : Coin) (t : PendingLeg) : Bool :=
  let key := legKey network coin (t.srcActionIndex.getD 0)
  proposedId cfg network coin t ∉ guards.inflight && key ∉ guards.inflightSourceLegs &&
    !guards.persisted.any (fun r => r.1 = key)

def fieldsUsable (t : PendingLeg) : Bool :=
  t.decimals.any (fun d => isInteger d && 0 ≤ d && d ≤ 18) && t.srcAddress ≠ "" && t.destAddress ≠ "" &&
    amountPositive t.amount

def numberOr (v : Option ℚ) : Scalar := v.elim .null .number

def transferRow (hub : Hub) (network : String) (coin : Coin) (snapshotBlock : SafeNat) (t : PendingLeg) :
    Row where
  transferId := proposedId cfg network coin t
  snapshotId := ""
  snapshotBlock := .number snapshotBlock.val
  network := network
  srcChain := some coin
  srcActionIndex := numberOr t.srcActionIndex
  srcAddress := t.srcAddress
  destChain := t.destChain
  destAddress := t.destAddress
  tick := t.tick
  decimals := numberOr t.decimals
  amount := t.amount
  effectiveTime := .number ((hub.now.val + relayMarginFloorS (t.destChain.getD coin) : ℕ) : ℚ)
  pushGeneration := t.pushGeneration

/- The row that is proposed for a leg, none while it is held; admission is stampAdmission's
   answer. -/
def maybeFinalizeTransfer (hub : Hub) (coin : Coin) (network : String) (latest : ℤ) (tip : SafeNat)
    (admission : Bool) (t : PendingLeg) : Option Row :=
  match t.blockIndex with
  | none => none
  | some block =>
    if legAdmitted cfg coin latest tip t block && legFree cfg hub.guards network coin t then
      match stampSnapshotBlock cfg view network coin tip t.tick block with
      | none => none
      | some stamp =>
        if snapshotCoversLeg coin stamp.val block && fieldsUsable t && admission then
          some (transferRow cfg hub network coin stamp t)
        else none
    else none

/- poll and pollPendingTransfers on one leg of a page. -/
def pollLeg (hub : Hub) (coin : Coin) (admission : Bool) (t : PendingLeg) : Option Row :=
  match hub.tip with
  | none => none
  | some tip =>
    if gateActive cfg.bridge cfg.network .btc tip.val && (view.page coin).network ≠ "" then
      maybeFinalizeTransfer cfg view hub coin (view.page coin).network (view.page coin).latest tip
        admission t
    else none

end Proposals
end XChainHub.CrossChain.Bridge
