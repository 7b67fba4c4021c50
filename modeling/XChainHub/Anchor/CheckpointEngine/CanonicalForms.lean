import XChainHub.Library.ScriptValue
import XChainHub.Consensus.EquivocationHeader

/-!
The checkpoint signing string of anchor/checkpoint_engine/canonical_forms.js and
supersede_suffix.js, with the gate predicate of consensus/gate_registry/core.js.
A function that throws returns none.
-/
namespace XChainHub.Anchor.CheckpointEngine
open NumberText ScriptValue HexText EquivocationHeader

/- A threshold table by network or coin:network key; an unpinned entry is none. -/
abbrev GateTable := String → Option (Option ℤ)

def resolveThreshold (table : GateTable) (network : String) (coin : Option String) : Option ℤ :=
  match coin with
  | some c => (table (c ++ ":" ++ network)).getD ((table network).join)
  | none => (table network).join

def activeAt (table : GateTable) (network : String) (coin : Option String) (height : Number) :
    Bool :=
  match height.parseInt, resolveThreshold table network coin with
  | some clock, some threshold => threshold ≤ clock
  | _, _ => false

structure Gates where
  commitment : GateTable
  supersede : GateTable
  equivHeader : String → Option ℤ

/- The committed rows of the gate registry that a checkpoint is judged by. -/
def registryGates : Gates where
  commitment
    | "mainnet" => some (some 961000)
    | "testnet" => some (some 146000)
    | "regtest" => some (some 0)
    | _ => none
  supersede
    | "mainnet" => some none
    | "BTC:testnet" => some (some 158557)
    | "LTC:testnet" => some (some 4949697)
    | "DOGE:testnet" => some (some 68035864)
    | "testnet" => some (some 9999999999)
    | "regtest" => some (some 0)
    | _ => none
  equivHeader
    | "mainnet" => some 961000
    | "testnet" => some 0
    | "regtest" => some 0
    | _ => none

/- A normalized record; a null field is none. rules_digest keeps what the wire put there. -/
structure Checkpoint where
  chain : String
  network : String
  blockIndex : Number
  blockHash : String
  ledgerHash : String
  actionsHash : String
  contractHash : String
  checkpointSeq : Number
  snapshotBlock : Number
  stateRoot : Option String
  stateRootVersion : Option Number
  blockMerkleRoot : Option String
  blockMerkleVersion : Option Number
  supersedesFrom : Option Number
  rulesDigest : Value

def rawFields (cp : Checkpoint) : List String :=
  ["XCHECKPOINT", cp.chain, cp.network, cp.blockIndex.text, cp.blockHash, cp.ledgerHash,
    cp.actionsHash, cp.contractHash, cp.checkpointSeq.text, cp.snapshotBlock.text]

def rawCanonicalCheckpoint (cp : Checkpoint) : String := String.intercalate "|" (rawFields cp)

def isCheckpointCommitmentActive (gates : Gates) (cp : Checkpoint) : Bool :=
  activeAt gates.commitment cp.network none cp.snapshotBlock

section Suffixes
variable (js : Builtins) (gates : Gates)

def checkpointRootSuffix (cp : Checkpoint) : String :=
  if isCheckpointCommitmentActive gates cp then
    match cp.stateRoot, cp.stateRootVersion, cp.blockMerkleRoot, cp.blockMerkleVersion with
    | some stateRoot, some stateVersion, some merkleRoot, some merkleVersion =>
      "|" ++ String.intercalate "|" [js.toLowerCase stateRoot, stateVersion.text,
        js.toLowerCase merkleRoot, merkleVersion.text]
    | _, _, _, _ => ""
  else ""

def isCheckpointSupersedeActive (cp : Checkpoint) : Bool :=
  activeAt gates.supersede cp.network (some "BTC") cp.snapshotBlock

def hasSupersedeFields (cp : Checkpoint) : Bool :=
  cp.supersedesFrom.isSome || !cp.rulesDigest.isNullish

def isHex64 (s : String) : Bool := s.toList.length = 64 && s.toList.all isHexDigit

def maxSafeInteger : ℕ := 2 ^ 53 - 1

/- Number.isSafeInteger of a number that is not negative. -/
def isSafeNatural (n : Number) : Bool :=
  match n.natural with
  | some m => m ≤ maxSafeInteger
  | none => false

def supersedeSuffix (cp : Checkpoint) : Option String :=
  match cp.supersedesFrom, cp.rulesDigest with
  | none, digest => if digest.isNullish then some "" else none
  | some source, .text digest =>
    if isSafeNatural source && isHex64 digest then
      some ("|SUPERSEDE|" ++ source.text ++ "|" ++ js.toLowerCase digest)
    else none
  | some _, _ => none

def checkpointSupersedeSuffix (cp : Checkpoint) : Option String :=
  if isCheckpointSupersedeActive gates cp then supersedeSuffix js cp
  else if hasSupersedeFields cp then none
  else some ""

def checkpointTag : String := "XCHECKPOINT"

def checkpointRoundId (cp : Checkpoint) : String :=
  cp.chain ++ "|" ++ cp.network ++ "|" ++ cp.blockIndex.text ++ "|" ++ cp.checkpointSeq.text

def canonicalCheckpoint (cp : Checkpoint) : Option String :=
  match checkpointSupersedeSuffix js gates cp with
  | none => none
  | some supersede =>
    let raw := rawCanonicalCheckpoint cp ++ checkpointRootSuffix js gates cp ++ supersede
    if isEquivHeaderActive gates.equivHeader cp.snapshotBlock.parseInt cp.network then
      some (buildEquivCanonical checkpointTag (checkpointRoundId cp) "0" raw)
    else some raw

end Suffixes

def deriveCheckpointSeq (snapshotBlock : Number) : Number := snapshotBlock

def emptyOrNull (s : Option String) : Bool := s.getD "" = ""

def isRootless (gates : Gates) (cp : Checkpoint) : Bool :=
  isCheckpointCommitmentActive gates cp &&
    (emptyOrNull cp.stateRoot || emptyOrNull cp.blockMerkleRoot ||
      cp.stateRootVersion.isNone || cp.blockMerkleVersion.isNone)

end XChainHub.Anchor.CheckpointEngine
