import XChainHub.CrossChain.ListShare.Chain
import XChainHub.CrossChain.Snapshots.Canonical
import XChainHub.CrossChain.Snapshots.Hub

/-!
Shared-list snapshots: listSnapshotCanonical and the id of cross_chain/list, its poll.js,
validate.js and read_checks.js, as an engine over list_snapshots.
-/
namespace XChainHub.ListShare
open CrossChain (Reading)
open CrossChain.Dex (Gates)
open CrossChain.Snapshots (Form Channel Rail natural_plain admission_field_ends)
open EquivocationHeader MirrorAdmissionGate DelimitedText CanonicalInt HexText

section Rows

/- A row of list_snapshots. -/
@[ext] structure Snapshot extends Row where
  snapshotId : String
  plainId : Plain snapshotId
  admitColumns : AdmitColumns
  admitBlocks : Option AdmissionMap

instance : DecidableEq Snapshot := fun _ _ => decidable_of_iff _ Snapshot.ext_iff.symm

/- listMeta is the list-meta gate of a network at a height, collate the collation of the
   table; the hub's own gates go by the height. -/
structure Config where
  gates : Gates
  sha256 : Sha256
  network : String
  producer : ℕ → Bool
  listMeta : String → String → Bool
  confirmations : String → Option ℕ
  collate : String → String

def Kind.text : Kind → String
  | .full => "full"
  | .delta => "delta"

def Snapshot.metaText (r : Snapshot) : String := r.metaHash.getD ""

def Snapshot.metaField (cfg : Config) (r : Snapshot) : String :=
  if cfg.listMeta r.network (toString r.snapshotBlock) then "|" ++ r.metaText else ""

/- A row without an admission map throws. -/
def Snapshot.tail (cfg : Config) (r : Snapshot) : Option String :=
  ((rowAdmitBlocks r.admitColumns r.admitBlocks).join.bind (fun map =>
    admissionCanonicalField (cfg.gates.admissionEra r.network (toString r.snapshotBlock)) (some map))).map
      (fun field => field ++ r.metaField cfg)

/- listSnapshotCanonical on the channel of listConsensus. -/
def channel (cfg : Config) : Channel Snapshot where
  tag := "XLISTSHARE"
  snapshotId := Snapshot.snapshotId
  snapshotBlock := fun r => toString r.snapshotBlock
  network := fun r => r.network
  columns := fun r => [toString r.snapshotBlock, r.homeChain, toString r.homeListIndex,
    toString r.listType, toString r.seq, r.kind.text, toString r.originBlock, r.membersHash, r.network]
  tail := Snapshot.tail cfg
  plainTag := by decide
  apart := by decide
  plainId := Snapshot.plainId
  commitType := "XLISTSHARE_SNAPSHOT_COMMIT"
  vcTag := "XLISTSHAREVC"
  nvTag := "XLISTSHARENV"
  stakeWeightedActive := fun r => cfg.gates.stakeWeightedActive (toString r.snapshotBlock) r.network
  effectiveTime := fun _ => none
  setEffectiveTime := fun r _ => r
  marginDeclared := false
  resolvesValidators := true
  stamp_keeps_id := fun _ _ => rfl
  plainTypes := by decide
  typesApart := by decide

def deriveListSnapshotId (sha256 : Sha256) (network homeChain : String)
    (homeListIndex seq snapshotBlock : ℕ) : { digest : String // LowerHex 64 digest } :=
  sha256 (String.intercalate "|" ["XLISTSHARE", network, homeChain ++ ":" ++ toString homeListIndex,
    toString seq, toString snapshotBlock])

/- Equality under uq_list_snapshot_seq and under the unique snapshot_id. -/
def sameList (cfg : Config) (a b : Row) : Bool :=
  cfg.collate a.network = cfg.collate b.network && cfg.collate a.homeChain = cfg.collate b.homeChain &&
    a.homeListIndex = b.homeListIndex

def clashes (cfg : Config) (a b : Snapshot) : Bool :=
  sameList cfg a.toRow b.toRow && a.seq = b.seq || cfg.collate a.snapshotId = cfg.collate b.snapshotId

end Rows

section Poll
variable (cfg : Config)

/- What one poll of a list reads: the list is none where its read fails, the admission
   heights where no fresh tip is known. -/
structure SharePoll where
  list : ListRef
  originBlock : OriginBlock
  snapshotBlock : SafeNat
  read : Option Read
  admission : Option AdmitColumns

def listRows (table : List Snapshot) (row : Row) : List Snapshot :=
  table.filter (fun held => sameList cfg row held.toRow)

def getLatestListSeq (table : List Snapshot) (row : Row) : ℕ :=
  (listRows cfg table row).foldl (fun n r => max n r.seq) 0

/- The rows of a list up to a seq, ORDER BY seq ASC. -/
def findListSnapshotChain (table : List Snapshot) (row : Row) (uptoSeq : ℕ) : List Snapshot :=
  ((listRows cfg table row).filter (fun r => r.seq ≤ uptoSeq)).mergeSort (fun a b => a.seq ≤ b.seq)

/- none where the held chain cannot be read. -/
def heldShareState (table : List Snapshot) (row : Row) (lastSeq : ℕ) : Option Held :=
  if lastSeq = 0 then some ⟨0, none, none⟩
  else
    let rows := (findListSnapshotChain cfg table row lastSeq).map Snapshot.toRow
    match normalizeHeldRows rows, rows.find? (fun r => r.seq = lastSeq) with
    | some chain, some latest => some ⟨lastSeq, some latest, foldListChain cfg.sha256 chain⟩
    | _, _ => none

def shareSnapshot (row : Row) (admission : AdmitColumns) : Snapshot :=
  let id := deriveListSnapshotId cfg.sha256 row.network row.homeChain row.homeListIndex row.seq
    row.snapshotBlock
  { row with
    snapshotId := id.val
    plainId := id.property.plain
    admitColumns := admission
    admitBlocks := none }

def emptyRow (list : ListRef) : Row :=
  ⟨0, list.network, list.homeChain.val, list.homeListIndex.val, 0, 0, .full, "", "", "", 0, none, none,
    none⟩

/- The row to propose; the round id takes in the snapshot block. -/
def maybeShareList (table : List Snapshot) (poll : SharePoll) : Option Snapshot :=
  let block := toString poll.snapshotBlock.val
  let list := { poll.list with network := cfg.network }
  if !cfg.producer poll.snapshotBlock.val || !cfg.gates.admissionEra cfg.network block then none
  else
    match poll.read with
    | none => none
    | some read =>
      match heldShareState cfg table (emptyRow list) (getLatestListSeq cfg table (emptyRow list)) with
      | none => none
      | some held =>
        match planListVersion cfg.sha256 read poll.originBlock held (cfg.listMeta cfg.network block) with
        | .version v =>
          poll.admission.map (shareSnapshot cfg (buildListSnapshotRow list v poll.snapshotBlock))
        | _ => none

end Poll

section Follower
variable (cfg : Config)

def snapshotBlockTolerance : ℕ := 144

/- An entry of getsharedlists. -/
structure SharedEntry where
  rootIndex : ℕ
  shareBlock : ℕ

/- What a validation reads beside the table; each is none where its read fails. -/
structure ShareRead where
  ownBlock : Option ℕ
  sharedLists : Option (List SharedEntry)
  homeTip : Option ℕ
  read : Option Read

def snapshotGuardsHold (row : Snapshot) (own : ShareRead) : Bool :=
  own.ownBlock.any (fun mine => row.snapshotBlock ≤ mine + snapshotBlockTolerance &&
      mine ≤ row.snapshotBlock + snapshotBlockTolerance) &&
    cfg.producer row.snapshotBlock &&
    cfg.gates.admissionEra cfg.network (toString row.snapshotBlock)

structure HeldState where
  previousMembers : Option (List String)
  heldListType : Option ℕ

def heldRow (table : List Snapshot) (row : Snapshot) : Option Snapshot :=
  table.find? (fun held => sameList cfg row.toRow held.toRow && held.seq = row.seq)

/- readHeldState: what the table lets pass of the row's own seq and of the chain before it. -/
def readHeldState (table : List Snapshot) (row : Snapshot) : Option HeldState :=
  let atSeq := heldRow cfg table row
  let before := if 1 < row.seq then findListSnapshotChain cfg table row.toRow (row.seq - 1) else []
  match normalizeHeldRows (before.map Snapshot.toRow) with
  | none => none
  | some chain =>
    let previous := before.getLast?
    let verdict := heldRowVerdict row.toRow
      (atSeq.map (fun held => ⟨held.snapshotId = row.snapshotId, held.membersHash, held.metaHash⟩))
      (getLatestListSeq cfg table row.toRow)
      ((previous.filter (fun p => p.seq + 1 = row.seq)).map (fun p => p.originBlock))
    let members := foldListChain cfg.sha256 chain
    if verdict ≠ .pass then none
    else if 1 < row.seq && (chain.length + 1 ≠ row.seq || members.isNone) then none
    else some ⟨if 1 < row.seq then members else none,
      (atSeq.map (fun held => held.listType)).or (previous.map (fun p => p.listType))⟩

def metaMatches (row : Snapshot) (read : Read) (metaActive : Bool) : Bool :=
  if metaActive then
    row.metaHash.isSome && read.metaHash = row.metaHash && read.name = row.name &&
      read.description = row.description
  else row.name.isNone && row.description.isNone && row.metaHash.isNone

def ownReadVerdict (row : Snapshot) (own : ShareRead) (heldListType : Option ℕ)
    (metaActive : Bool) : Verdict :=
  match own.sharedLists, own.homeTip, cfg.confirmations row.homeChain, own.read with
  | some shared, some homeTip, some confirmations, some read =>
    if !shared.any (fun entry =>
        entry.rootIndex = row.homeListIndex && entry.shareBlock ≤ row.originBlock) then .refuse
    else if homeTip < row.originBlock + confirmations then .refuse
    else if read.type ≠ row.listType || heldListType.any (· ≠ read.type) then .refuse
    else if !isCanonicalOrder read.members || listShareMaxMembers < read.members.length ||
        listMembersHash cfg.sha256 read.members ≠ row.membersHash then .refuse
    else if metaMatches row read metaActive then .pass
    else .refuse
  | _, _, _, _ => .abstain

def ownReadsPass (row : Snapshot) (own : ShareRead) (held : HeldState) : Bool :=
  ownReadVerdict cfg row own held.heldListType
      (cfg.listMeta cfg.network (toString row.snapshotBlock)) = .pass &&
    own.read.any (fun read => listTransportOk row.toRow read.members held.previousMembers)

def validateProposedMatch (table : List Snapshot) (own : ShareRead) (row : Snapshot) : Bool :=
  listRowShapeOk row.toRow cfg.network && snapshotGuardsHold cfg row own &&
    row.snapshotId = (deriveListSnapshotId cfg.sha256 row.network row.homeChain row.homeListIndex
      row.seq row.snapshotBlock).val &&
    (readHeldState cfg table row).any (ownReadsPass cfg row own)

end Follower

section Reads
variable (cfg : Config)

def version (r : Snapshot) : List String :=
  [r.network, r.homeChain, toString r.homeListIndex, toString r.seq]

def digest (r : Snapshot) : String × String := (r.membersHash, r.metaText)

/- No signed column holds the delimiter, and a meta hash stands only where it is signed. -/
def tabular (r : Snapshot) : Bool :=
  [r.homeChain, r.membersHash, r.network, r.metaText].all (fun s => '|' ∉ s.toList) &&
    (cfg.listMeta r.network (toString r.snapshotBlock) || r.metaText = "")

/- The version that a signed content names and the hashes it gives. -/
def shows (content : String) : Option (List String × (String × String)) :=
  match barCells content with
  | _ :: _ :: block :: chain :: index :: _ :: seq :: _ :: _ :: members :: network :: rest =>
    some ([network, chain, index, seq].map String.ofList, (String.ofList members,
      if cfg.listMeta (String.ofList network) (String.ofList block) then
        String.ofList (rest.getLast?.getD []) else ""))
  | _ => none

theorem plain_columns {r : Snapshot} (clean : tabular cfg r = true) :
    (∀ f ∈ (channel cfg).columns r, Plain f) ∧ Plain r.metaText ∧
      (cfg.listMeta r.network (toString r.snapshotBlock) = true ∨ r.metaText = "") := by
  simp only [tabular, List.all_cons, List.all_nil, Bool.and_true, Bool.and_eq_true, Bool.or_eq_true,
    decide_eq_true_eq] at clean
  obtain ⟨⟨chain, members, network, metaPlain⟩, signed⟩ := clean
  refine ⟨?_, metaPlain, signed⟩
  intro f member
  simp only [channel, List.mem_cons, List.not_mem_nil, or_false] at member
  rcases member with rfl | rfl | rfl | rfl | rfl | rfl | rfl | rfl | rfl
  · exact natural_plain _
  · exact chain
  · exact natural_plain _
  · exact natural_plain _
  · exact natural_plain _
  · cases r.kind <;> decide
  · exact natural_plain _
  · exact members
  · exact network

theorem canonical_shows {r : Snapshot} {view : ℚ} {c : String} (clean : tabular cfg r = true)
    (built : (channel cfg).canonical cfg.gates r view = some c) :
    shows cfg (contentOf c) = some (version r, digest r) := by
  obtain ⟨tail, appended, content⟩ :=
    Option.map_eq_some_iff.mp (CrossChain.Snapshots.canonical_content built)
  obtain ⟨plain, metaPlain, signed⟩ := plain_columns cfg clean
  obtain ⟨field, found, rfl⟩ := Option.map_eq_some_iff.mp appended
  obtain ⟨map, -, spelled⟩ := Option.bind_eq_some_iff.mp found
  obtain ⟨more, cells⟩ := CrossChain.Snapshots.raw_cells plain (List.cons_ne_nil _ _)
    (admission_field_ends spelled)
  cases active : cfg.listMeta r.network (toString r.snapshotBlock) with
  | true =>
    have last : barCells (contentOf c) = barCells ((channel cfg).tag ++ "|" ++
        (channel cfg).snapshotId r ++ "|" ++ String.intercalate "|" ((channel cfg).columns r) ++ field) ++
          [r.metaText.toList] := by
      rw [← bar_cells_plain metaPlain, ← bar_cells_append, ← content]
      simp only [Snapshot.metaField, active, if_true, String.append_assoc]
    rw [shows, last, cells]
    simp only [channel, version, digest, List.map_cons, List.map_nil, List.cons_append, List.nil_append,
      String.ofList_toList, active, if_true, List.getLast?_append, List.getLast?_singleton,
      Option.some_or, Option.getD_some]
  | false =>
    have none_signed : r.metaText = "" := by
      rcases signed with gate | empty
      · exact absurd (gate.symm.trans active) (by simp)
      · exact empty
    have same : contentOf c = (channel cfg).tag ++ "|" ++ (channel cfg).snapshotId r ++ "|" ++
        String.intercalate "|" ((channel cfg).columns r) ++ field := by
      rw [← content, Snapshot.metaField, active]
      simp
    rw [shows, same, cells]
    simp only [channel, version, digest, List.map_cons, List.map_nil, List.cons_append, List.nil_append,
      String.ofList_toList, active, none_signed]
    simp

def reading : Reading (List String) (String × String) ((channel cfg).engine cfg.gates) where
  version := version
  digest := digest
  tabular := tabular cfg
  shows := shows cfg
  stamp_keeps := fun _ _ => ⟨rfl, rfl⟩
  canonical_shows := fun _ _ _ clean built => canonical_shows cfg clean built

/- The engine over list_snapshots. -/
def rail : Rail Snapshot SharePoll ShareRead (List String) (String × String) where
  engine := (channel cfg).engine cfg.gates
  reading := reading cfg
  snapshotId := Snapshot.snapshotId
  clashes := clashes cfg
  maybeSnapshot := maybeShareList cfg
  validateProposedMatch := validateProposedMatch cfg

end Reads
end XChainHub.ListShare
