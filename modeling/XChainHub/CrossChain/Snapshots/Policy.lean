import XChainHub.CrossChain.ListShare.Chain
import XChainHub.CrossChain.Snapshots.Canonical
import XChainHub.CrossChain.Snapshots.Hub

/-!
Policy snapshots of bridged tokens: policy_hash.js, policy_column.js, list_ref.js, policy_poll.js
and the policy half of validate.js under cross_chain/bridge, as an engine over policy_snapshots.
-/
namespace XChainHub.CrossChain.Policy
open EquivocationHeader MirrorAdmissionGate DelimitedText ScriptValue JsonText CanonicalInt HexText
open Dex (Gates)
open ListShare (Sha256 allowedChains isCanonicalOrder)
open Snapshots (Form Channel Rail)

section Sides

def xpolicyMaxMembers : ℕ := 10000

/- One side of a policy: no list, a list of members, or a reference to a shared list. -/
inductive Side where
  | absent
  | members (ms : List String)
  | ref (list : String)
  deriving DecidableEq

/- An answer of gettokenpolicy. -/
structure Answer where
  allowList : Value
  blockList : Value
  allowListRef : Value
  blockListRef : Value
  sleeping : Bool
  policyHash : String

structure Shaped where
  allow : Side
  block : Side
  sleeping : Bool
  oversized : Bool

/- parseListRef as a test: ^([A-Z]+):([1-9][0-9]{0,14})$ of an allowed chain. -/
def isListRef (s : String) : Bool :=
  match s.toList.splitOn ':' with
  | [chain, digit :: digits] =>
    chain ≠ [] && chain.all Char.isUpper && digit.isDigit && digit ≠ '0' &&
      digits.all Char.isDigit && digits.length ≤ 14 && String.ofList chain ∈ allowedChains
  | _ => false

/- A side as the indexer answers it, none where it is unusable. -/
def shapeSide (refsAllowed : Bool) (members ref : Value) : Option Side :=
  match if ref.isNullish then members else ref with
  | .array items => some (.members (items.map Value.asText))
  | .undefined => some .absent
  | .null => some .absent
  | .text s => if isListRef s && refsAllowed then some (.ref s) else none
  | _ => none

def Side.ordered : Side → Bool
  | .members ms => isCanonicalOrder ms
  | _ => true

def Side.oversized : Side → Bool
  | .members ms => xpolicyMaxMembers < ms.length
  | _ => false

def shapePolicy (refsAllowed : Bool) (policy : Answer) : Option Shaped :=
  match shapeSide refsAllowed policy.allowList policy.allowListRef,
      shapeSide refsAllowed policy.blockList policy.blockListRef with
  | some allow, some block =>
    if allow.ordered && block.ordered then
      some ⟨allow, block, policy.sleeping, allow.oversized || block.oversized⟩
    else none
  | _, _ => none

def Side.hashPart (label : String) : Side → List String
  | .ref list => [label, "REF", list]
  | .absent => [label, "-"]
  | .members ms => label :: toString ms.length :: ms

def policyHashText (allow block : Side) (sleeping : Bool) : String :=
  String.intercalate "|" (allow.hashPart "ALLOW" ++ block.hashPart "BLOCK" ++
    ["SLEEP", if sleeping then "1" else "0"])

def policyHash (sha256 : Sha256) (allow block : Side) (sleeping : Bool) : String :=
  (sha256 (policyHashText allow block sleeping)).val

/- none where the source answers undefined. -/
def parsePolicyColumn (raw : Option String) (refsAllowed : Bool) : Option Side :=
  match raw with
  | none => some .absent
  | some text =>
    match parse text with
    | some (.array items) => some (.members (items.map Value.asText))
    | some (.text s) => if refsAllowed && isListRef s then some (.ref s) else none
    | _ => none

def policyColumnText : Side → Option String
  | .absent => none
  | .members ms => some (stringify (.array (ms.map Value.text)))
  | .ref list => some (stringify (.text list))

def referenceColumn (raw : Option String) : Bool :=
  (raw.bind parse).any Value.isText

end Sides

section Rows

/- A column that holds a number is a natural number, effective_time the text of its number. -/
@[ext] structure Row where
  snapshotId : String
  plainId : Plain snapshotId
  snapshotBlock : ℕ
  originChain : String
  tick : String
  policySeq : ℕ
  originBlock : ℕ
  policyHash : String
  allowList : Option String
  blockList : Option String
  sleeping : Bool
  effectiveTime : String
  network : String
  admitColumns : AdmitColumns
  admitBlocks : Option AdmissionMap

instance : DecidableEq Row := fun _ _ => decidable_of_iff _ Row.ext_iff.symm

/- The hub's gates by the height they are asked at; collate is the collation of the table. -/
structure Config where
  gates : Gates
  sha256 : Sha256
  network : String
  bridgeActive : ℕ → Bool
  policyActive : ℕ → Bool
  listShareActive : ℕ → Bool
  toLowerCase : String → String
  collate : String → String

def Row.admissionField (g : Gates) (r : Row) : Option String :=
  (rowAdmitBlocks r.admitColumns r.admitBlocks).bind
    (admissionCanonicalField (g.admissionEra r.network (toString r.snapshotBlock)))

/- The policy half of canonicalMatch on the channel of policyConsensus. -/
def channel (g : Gates) : Channel Row where
  tag := "XPOLICY"
  snapshotId := Row.snapshotId
  snapshotBlock := fun r => toString r.snapshotBlock
  network := Row.network
  columns := fun r => [toString r.snapshotBlock, r.originChain, r.tick, toString r.policySeq,
    toString r.originBlock, r.policyHash, r.effectiveTime, r.network]
  tail := Row.admissionField g
  plainTag := by decide
  apart := by decide
  plainId := Row.plainId
  commitType := "XPOLICY_SNAPSHOT_COMMIT"
  vcTag := "XPOLICYVC"
  nvTag := "XPOLICYNV"
  stakeWeightedActive := fun r => g.stakeWeightedActive (toString r.snapshotBlock) r.network
  effectiveTime := fun r => (Scalar.text r.effectiveTime).toNumber
  setEffectiveTime := fun r t => { r with effectiveTime := g.numberText t }
  marginDeclared := true
  resolvesValidators := true
  stamp_keeps_id := fun _ _ => rfl
  plainTypes := by decide
  typesApart := by decide

/- Equality under uq_policy_seq and under the unique snapshot_id. -/
def sameToken (cfg : Config) (a b : Row) : Bool :=
  cfg.collate a.network = cfg.collate b.network &&
    cfg.collate a.originChain = cfg.collate b.originChain && cfg.collate a.tick = cfg.collate b.tick

def sameSeq (cfg : Config) (a b : Row) : Bool := sameToken cfg a b && a.policySeq = b.policySeq

def clashes (cfg : Config) (a b : Row) : Bool :=
  sameSeq cfg a b || cfg.collate a.snapshotId = cfg.collate b.snapshotId

def deriveSnapshotId (sha256 : Sha256) (network originChain tick : String)
    (policySeq snapshotBlock : ℕ) : { digest : String // LowerHex 64 digest } :=
  sha256 (network ++ "|" ++ originChain ++ ":" ++ tick ++ "|" ++ toString policySeq ++ "|" ++
    toString snapshotBlock)

end Rows

section Poll
variable (cfg : Config)

/- What one poll of a token reads: the origin block and the answer are none where the read
   fails, the admission heights where no fresh tip is known; effectiveTime is stamped from
   the clock and the margin. -/
structure Poll where
  originChain : String
  tick : String
  snapshotBlock : ℕ
  originBlock : Option ℕ
  answer : Option Answer
  effectiveTime : String
  admission : Option AdmitColumns

def readSignablePolicy (poll : Poll) : Option (ℕ × Shaped × String) :=
  match poll.originBlock, poll.answer with
  | some originBlock, some policy =>
    match shapePolicy (cfg.listShareActive poll.snapshotBlock) policy with
    | none => none
    | some shaped =>
      let hash := policyHash cfg.sha256 shaped.allow shaped.block shaped.sleeping
      if shaped.oversized || cfg.toLowerCase policy.policyHash ≠ hash then none
      else some (originBlock, shaped, hash)
  | _, _ => none

def buildRow (poll : Poll) (policySeq originBlock : ℕ) (shaped : Shaped) (hash : String)
    (admission : AdmitColumns) : Row :=
  let id := deriveSnapshotId cfg.sha256 cfg.network poll.originChain poll.tick policySeq
    poll.snapshotBlock
  { snapshotId := id.val
    plainId := id.property.plain
    snapshotBlock := poll.snapshotBlock
    originChain := poll.originChain
    tick := poll.tick
    policySeq
    originBlock
    policyHash := hash
    allowList := policyColumnText shaped.allow
    blockList := policyColumnText shaped.block
    sleeping := shaped.sleeping
    effectiveTime := poll.effectiveTime
    network := cfg.network
    admitColumns := admission
    admitBlocks := none }

def getLatestPolicySeq (table : List Row) (row : Row) : ℕ :=
  (table.filter (sameToken cfg row)).foldl (fun n r => max n r.policySeq) 0

def getPolicySnapshotAtSeq (table : List Row) (row : Row) : Option Row :=
  table.find? (sameSeq cfg row)

/- The row to propose; the round id takes in the snapshot block. -/
def maybeSnapshotPolicy (table : List Row) (poll : Poll) : Option Row :=
  match readSignablePolicy cfg poll, poll.admission with
  | some (originBlock, shaped, hash), some admission =>
    let version := fun seq => buildRow cfg poll seq originBlock shaped hash admission
    let lastSeq := getLatestPolicySeq cfg table (version 0)
    let held := getPolicySnapshotAtSeq cfg table (version lastSeq)
    if 0 < lastSeq && held.any (fun r => cfg.toLowerCase r.policyHash = hash) then none
    else some (version (lastSeq + 1))
  | _, _ => none

end Poll

section Follower
variable (cfg : Config)

def snapshotBlockTolerance : ℕ := 144

/- What a validation reads beside the table. -/
structure Read where
  nowSeconds : ℚ
  ownBlock : Option ℕ
  answer : Option Answer

def inWindow (row : Row) (read : Read) : Bool :=
  (Scalar.text row.effectiveTime).toNumber.any (fun t =>
    t - read.nowSeconds ≤ 3600 && relayMinFutureS ≤ t - read.nowSeconds)

def nearTip (row : Row) (read : Read) : Bool :=
  read.ownBlock.all (fun mine =>
    row.snapshotBlock ≤ mine + snapshotBlockTolerance && mine ≤ row.snapshotBlock + snapshotBlockTolerance)

/- Columns are read without references first, and again with the gate where one is there. -/
def parseColumns (row : Row) : Option (Side × Side) :=
  match parsePolicyColumn row.allowList false, parsePolicyColumn row.blockList false with
  | some allow, some block => some (allow, block)
  | _, _ =>
    if referenceColumn row.allowList || referenceColumn row.blockList then
      let refsAllowed := cfg.listShareActive row.snapshotBlock
      match parsePolicyColumn row.allowList refsAllowed, parsePolicyColumn row.blockList refsAllowed with
      | some allow, some block => some (allow, block)
      | _, _ => none
    else none

def rowShapeOk (row : Row) : Bool :=
  [row.snapshotBlock, row.policySeq, row.originBlock].all (fun n => isCanonicalInt (.number n)) &&
    isCanonicalInt (.text row.effectiveTime) && row.originChain ∈ allowedChains &&
    row.network = cfg.network && 1 ≤ row.policySeq && LowerHex 64 (cfg.toLowerCase row.policyHash)

/- Never a second content at a seq that the table holds. -/
def heldAgrees (table : List Row) (row : Row) : Bool :=
  (getPolicySnapshotAtSeq cfg table row).all (fun held =>
    cfg.toLowerCase held.policyHash = cfg.toLowerCase row.policyHash)

/- The own read at the row's origin block has the row's hash. -/
def ownReadAgrees (row : Row) (read : Read) : Bool :=
  (read.answer.bind (shapePolicy (cfg.listShareActive row.snapshotBlock))).any (fun shaped =>
    !shaped.oversized &&
      policyHash cfg.sha256 shaped.allow shaped.block shaped.sleeping = cfg.toLowerCase row.policyHash)

/- The transport sides hash to the row's hash. -/
def sidesAgree (row : Row) : Bool :=
  (parseColumns cfg row).any (fun sides => sides.1.ordered && sides.2.ordered &&
    policyHash cfg.sha256 sides.1 sides.2 row.sleeping = cfg.toLowerCase row.policyHash)

def derivedIdMatches (row : Row) : Bool :=
  cfg.toLowerCase (deriveSnapshotId cfg.sha256 row.network row.originChain row.tick row.policySeq
    row.snapshotBlock).val = cfg.toLowerCase row.snapshotId

def validatePolicy (table : List Row) (read : Read) (row : Row) : Bool :=
  cfg.policyActive row.snapshotBlock && rowShapeOk cfg row && heldAgrees cfg table row &&
    ownReadAgrees cfg row read && sidesAgree cfg row && derivedIdMatches cfg row

def validateProposedMatch (table : List Row) (read : Read) (row : Row) : Bool :=
  inWindow row read && nearTip row read && cfg.bridgeActive row.snapshotBlock &&
    validatePolicy cfg table read row

end Follower

section Reads
variable (cfg : Config)

def version (r : Row) : List String := [r.network, r.originChain, r.tick, toString r.policySeq]

/- No signed column holds the delimiter. -/
def tabular (r : Row) : Bool :=
  [r.originChain, r.tick, r.policyHash, r.effectiveTime, r.network].all (fun s => '|' ∉ s.toList)

/- The version that a signed content names and the hash it gives. -/
def shows (content : String) : Option (List String × String) :=
  match barCells content with
  | _ :: _ :: _ :: chain :: tick :: seq :: _ :: hash :: _ :: network :: _ =>
    some ([network, chain, tick, seq].map String.ofList, String.ofList hash)
  | _ => none

theorem canonical_shows (g : Gates) {r : Row} {view : ℚ} {c : String} (clean : tabular r = true)
    (built : (channel g).canonical g r view = some c) :
    shows (contentOf c) = some (version r, r.policyHash) := by
  obtain ⟨tail, appended, content⟩ := Option.map_eq_some_iff.mp (Snapshots.canonical_content built)
  have plain : ∀ f ∈ (channel g).columns r, Plain f := by
    simp only [tabular, List.all_cons, List.all_nil, Bool.and_true, Bool.and_eq_true,
      decide_eq_true_eq] at clean
    obtain ⟨chain, tick, hash, time, network⟩ := clean
    intro f member
    simp only [channel, List.mem_cons, List.not_mem_nil, or_false] at member
    rcases member with rfl | rfl | rfl | rfl | rfl | rfl | rfl | rfl
    · exact Snapshots.natural_plain _
    · exact chain
    · exact tick
    · exact Snapshots.natural_plain _
    · exact Snapshots.natural_plain _
    · exact hash
    · exact time
    · exact network
  obtain ⟨found, -, field⟩ := Option.bind_eq_some_iff.mp appended
  obtain ⟨more, cells⟩ := Snapshots.raw_cells plain (List.cons_ne_nil _ _)
    (Snapshots.admission_field_ends field)
  rw [shows, ← content, cells]
  simp only [channel, version, List.map_cons, List.map_nil, List.cons_append, String.ofList_toList]

def reading : Reading (List String) String ((channel cfg.gates).engine cfg.gates) where
  version := version
  digest := Row.policyHash
  tabular := tabular
  shows := shows
  stamp_keeps := fun _ _ => ⟨rfl, rfl⟩
  canonical_shows := fun _ _ _ clean built => canonical_shows cfg.gates clean built

/- The engine over policy_snapshots. -/
def rail : Rail Row Poll Read (List String) String where
  engine := (channel cfg.gates).engine cfg.gates
  reading := reading cfg
  snapshotId := Row.snapshotId
  clashes := clashes cfg
  maybeSnapshot := maybeSnapshotPolicy cfg
  validateProposedMatch := validateProposedMatch cfg

end Reads
end XChainHub.CrossChain.Policy
