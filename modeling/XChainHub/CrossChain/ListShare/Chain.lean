import XChainHub.CrossChain.ListShare.Canonical

/-!
The rows of a shared list's version chain, how the next one is planned, and what a follower
checks of it: chain.js, version_plan.js, row_build.js, row_checks.js and held_checks.js of
cross_chain/list.
-/
namespace XChainHub.ListShare
open HexText ScriptValue CanonicalInt

section Rows

def allowedChains : List String := ["BTC", "LTC", "DOGE"]

def listShareMaxMembers : ℕ := 10000

/- One shared list. -/
structure ListRef where
  network : String
  homeChain : { chain : String // chain ∈ allowedChains }
  homeListIndex : SafeNat

/- What an origin block is: a confirmed height of the home chain. -/
abbrev OriginBlock := { n : ℕ // 0 < n ∧ n ≤ maxSafeInteger }

inductive Kind where
  | full
  | delta
  deriving DecidableEq

/- The columns added and removed hold JSON; the id and the admission columns are not read here. -/
structure Row where
  snapshotBlock : ℕ
  network : String
  homeChain : String
  homeListIndex : ℕ
  listType : ℕ
  seq : ℕ
  kind : Kind
  added : String
  removed : String
  membersHash : String
  originBlock : ℕ
  name : Option String
  description : Option String
  metaHash : Option String
  deriving DecidableEq

/- A row with its arrays parsed. -/
structure ChainRow where
  seq : ℕ
  kind : Kind
  added : List String
  removed : List String
  membersHash : String

def normalizeHeldRow (row : Row) : Option ChainRow :=
  match parseMembers row.added, parseMembers row.removed with
  | some added, some removed => some ⟨row.seq, row.kind, added, removed, row.membersHash⟩
  | _, _ => none

def normalizeHeldRows (rows : List Row) : Option (List ChainRow) := rows.mapM normalizeHeldRow

end Rows

section Fold
variable (sha256 : Sha256)

/- The members after a row, from how many rows came before and the members they left. -/
def foldMembers (i : ℕ) (members : List String) (row : ChainRow) : Option (List String) :=
  if i = 0 then
    if row.kind = .full && isCanonicalOrder row.added && row.removed.isEmpty then some row.added
    else none
  else if row.kind = .delta then applyListDelta members row.added row.removed
  else none

def foldRow (folded : Option (ℕ × List String)) (row : ChainRow) : Option (ℕ × List String) :=
  folded.bind (fun f =>
    if row.seq ≠ f.1 + 1 then none
    else (foldMembers f.1 f.2 row).bind (fun members =>
      if listMembersHash sha256 members = row.membersHash then some (f.1 + 1, members) else none))

def foldListChain (rows : List ChainRow) : Option (List String) :=
  if rows = [] then none else (rows.foldl (foldRow sha256) (some (0, []))).map Prod.snd

end Fold

section Plan
variable (sha256 : Sha256)

/- An indexer's answer about one list at one block. -/
structure Read where
  type : ℕ
  members : List String
  hash : String
  name : Option String
  description : Option String
  metaHash : Option String
  deriving DecidableEq

structure Version where
  listType : ℕ
  seq : ℕ
  kind : Kind
  added : List String
  removed : List String
  membersHash : String
  originBlock : ℕ
  name : Option String
  description : Option String
  metaHash : Option String

inductive Refusal where
  | type
  | order
  | hash
  | metaText
  | listType
  | fold
  | originBlock
  deriving DecidableEq

inductive Plan where
  | refuse (reason : Refusal)
  | decline
  | unchanged
  | version (v : Version)

/- The chain held so far: its length, its last row and the fold of it. -/
structure Held where
  lastSeq : ℕ
  latest : Option Row
  fold : Option (List String)

def makeVersion (read : Read) (originBlock : OriginBlock) (seq : ℕ) (kind : Kind)
    (added removed : List String) (metaActive : Bool) : Version :=
  ⟨read.type, seq, kind, added, removed, read.hash, originBlock.val,
    if metaActive then read.name else none, if metaActive then read.description else none,
    if metaActive then read.metaHash else none⟩

def hasValidListMeta (read : Read) : Bool :=
  isValidListMetaField read.name 64 && isValidListMetaField read.description 512 &&
    read.metaHash.isSome

def planDelta (read : Read) (originBlock : OriginBlock) (lastSeq : ℕ) (latest : Row)
    (fold : Option (List String)) (metaActive : Bool) : Plan :=
  if latest.listType ≠ read.type then .refuse .listType
  else if read.hash = latest.membersHash ∧
      (metaActive = false ∨ read.metaHash = some (latest.metaHash.getD "")) then .unchanged
  else
    match fold with
    | none => .refuse .fold
    | some folded =>
      if listMembersHash sha256 folded ≠ latest.membersHash then .refuse .fold
      else if originBlock.val ≤ latest.originBlock then .refuse .originBlock
      else .version (makeVersion read originBlock (lastSeq + 1) .delta
        (listDelta folded read.members).1 (listDelta folded read.members).2 metaActive)

def planListVersion (read : Read) (originBlock : OriginBlock) (held : Held) (metaActive : Bool) : Plan :=
  if read.type ≠ 1 ∧ read.type ≠ 2 then .refuse .type
  else if isCanonicalOrder read.members = false then .refuse .order
  else if listMembersHash sha256 read.members ≠ read.hash then .refuse .hash
  else if metaActive = true ∧ hasValidListMeta read = false then .refuse .metaText
  else if metaActive = true ∧ read.metaHash ≠ some (listMetaHash sha256 read.name read.description) then
    .refuse .metaText
  else if listShareMaxMembers < read.members.length then .decline
  else if held.lastSeq = 0 then
    .version (makeVersion read originBlock 1 .full read.members [] metaActive)
  else
    match held.latest with
    | none => .refuse .fold
    | some latest => planDelta sha256 read originBlock held.lastSeq latest held.fold metaActive

def buildListSnapshotRow (list : ListRef) (v : Version) (snapshotBlock : SafeNat) : Row :=
  ⟨snapshotBlock.val, list.network, list.homeChain.val, list.homeListIndex.val, v.listType, v.seq,
    v.kind, membersText v.added, membersText v.removed, v.membersHash, v.originBlock, v.name,
    v.description, v.metaHash⟩

end Plan

section Checks

def listRowShapeOk (row : Row) (network : String) : Bool :=
  [row.snapshotBlock, row.homeListIndex, row.listType, row.seq, row.originBlock].all
      (fun n => isCanonicalInt (.number n)) &&
    row.network = network && row.homeChain ∈ allowedChains &&
    (row.listType = 1 || row.listType = 2) && 1 ≤ row.seq &&
    row.kind = (if row.seq = 1 then .full else .delta) && LowerHex 64 row.membersHash &&
    row.metaHash.all (fun hash => hash = "" || LowerHex 64 hash)

def listTransportOk (row : Row) (readMembers : List String) (prevMembers : Option (List String)) : Bool :=
  match parseMembers row.added, parseMembers row.removed with
  | some added, some removed =>
    isCanonicalOrder added && isCanonicalOrder removed &&
      if row.seq = 1 then added = readMembers && removed.isEmpty
      else 2 ≤ row.seq && prevMembers.any (fun prev =>
        added = (listDelta prev readMembers).1 && removed = (listDelta prev readMembers).2)
  | _, _ => false

inductive Verdict where
  | pass
  | refuse
  | abstain
  deriving DecidableEq

/- What the follower holds at the row's own sequence number. -/
structure HeldAtSeq where
  sameId : Bool
  membersHash : String
  metaHash : Option String

def heldRowVerdict (row : Row) (heldAtSeq : Option HeldAtSeq) (latestHeldSeq : ℕ)
    (prevOriginBlock : Option ℕ) : Verdict :=
  if row.seq < 1 then .refuse
  else
    match heldAtSeq with
    | some held =>
      if held.sameId && held.membersHash = row.membersHash &&
          held.metaHash.getD "" = row.metaHash.getD "" then .pass
      else .refuse
    | none =>
      if row.seq ≤ latestHeldSeq then .refuse
      else if latestHeldSeq + 1 < row.seq then .abstain
      else if row.seq = 1 then .pass
      else
        match prevOriginBlock with
        | none => .abstain
        | some prev => if prev < row.originBlock then .pass else .refuse

end Checks

section Run
variable (sha256 : Sha256) (list : ListRef)

/- One poll of the list. -/
structure Poll where
  read : Read
  originBlock : OriginBlock
  snapshotBlock : SafeNat
  metaActive : Bool

def heldListState (chain : List Row) : Held :=
  ⟨chain.length, chain.getLast?, (normalizeHeldRows chain).bind (foldListChain sha256)⟩

/- Each row with the read that it was planned from. -/
def maybeSnapshotList (accepted : List (Row × Read)) (poll : Poll) : List (Row × Read) :=
  match planListVersion sha256 poll.read poll.originBlock
      (heldListState sha256 (accepted.map Prod.fst)) poll.metaActive with
  | .version v => accepted ++ [(buildListSnapshotRow list v poll.snapshotBlock, poll.read)]
  | _ => accepted

def acceptedRows (polls : List Poll) : List (Row × Read) :=
  polls.foldl (maybeSnapshotList sha256 list) []

end Run
end XChainHub.ListShare
