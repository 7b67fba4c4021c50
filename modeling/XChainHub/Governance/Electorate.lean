import Mathlib.Data.Char
import XChainHub.Consensus.StakeWeightedQuorum
import XChainHub.Library.JsonText
import XChainHub.Library.LatestWins
import XChainHub.Library.OrderedMap

/-!
Who votes on a proposal and how the votes are counted: governance/electorate.js, the vote
signing of governance/rules.js and the vote table of db/governance.js.
-/
namespace XChainHub.Governance
open ScriptValue
open StakeWeightedQuorum (asciiLower)

def govSnapshotMaxValidators : ℕ := 1000

def govSnapshotMaxBytes : ℕ := 262144

section Snapshot

/- An entry of a validator set; the address is none where it is no text. -/
structure Member where
  pubkey : String
  addr : Option String
  deriving DecidableEq

/- The locked electorate of a proposal: no key stands twice. -/
structure Electorate where
  members : List Member
  distinct : (members.map Member.pubkey).Nodup

def Electorate.keys (e : Electorate) : List String := e.members.map Member.pubkey

/- Keys are hexadecimal where they verify anything. -/
def readMember (e : Value) : Option Member :=
  match e.field "pubkey" with
  | .text pubkey => if pubkey = "" then none else some ⟨asciiLower pubkey, (e.field "addr").textOf⟩
  | _ => none

def collectMembers (seen : List String) : List Value → Option (List Member)
  | [] => some []
  | e :: rest =>
    match readMember e with
    | none => none
    | some m => if m.pubkey ∈ seen then none else (collectMembers (m.pubkey :: seen) rest).map (m :: ·)

theorem collected_distinct {seen : List String} {items : List Value} {ms : List Member}
    (collected : collectMembers seen items = some ms) :
    (ms.map Member.pubkey).Nodup ∧ ∀ m ∈ ms, m.pubkey ∉ seen := by
  induction items generalizing seen ms with
  | nil =>
    rw [collectMembers, Option.some.injEq] at collected
    subst collected
    exact ⟨List.nodup_nil, fun m member => absurd member List.not_mem_nil⟩
  | cons e rest ih =>
    rw [collectMembers] at collected
    split at collected
    · exact absurd collected (by simp)
    · rename_i m _
      split at collected
      · exact absurd collected (by simp)
      · rename_i fresh
        obtain ⟨more, tail, same⟩ := Option.map_eq_some_iff.mp collected
        obtain ⟨apart, outside⟩ := ih tail
        subst same
        refine ⟨?_, ?_⟩
        · rw [List.map_cons, List.nodup_cons]
          refine ⟨?_, apart⟩
          intro again
          obtain ⟨other, member, same⟩ := List.mem_map.mp again
          exact outside other member (same ▸ List.mem_cons_self)
        · intro other member
          rcases List.mem_cons.mp member with same | deeper
          · exact same ▸ fresh
          · exact fun inside => outside other deeper (List.mem_cons_of_mem _ inside)

def byPubkey (a b : Member) : Prop := a.pubkey.toList ≤ b.pubkey.toList

instance : DecidableRel byPubkey := fun a b => inferInstanceAs (Decidable (a.pubkey.toList ≤ b.pubkey.toList))

/- The array of a snapshot, from the column's text or as it came. -/
def snapshotArray : Value → Option (List Value)
  | .text s =>
    if govSnapshotMaxBytes < s.length then none
    else
      match JsonText.parse s with
      | some (.array items) => some items
      | _ => none
  | .array items => some items
  | _ => none

def parseSnapshot (raw : Value) : Option Electorate :=
  match snapshotArray raw with
  | none => none
  | some items =>
    if items.length = 0 ∨ govSnapshotMaxValidators < items.length then none
    else
      match collected : collectMembers [] items with
      | none => none
      | some ms => some ⟨ms.insertionSort byPubkey,
          (((List.perm_insertionSort byPubkey ms).map Member.pubkey).nodup_iff).mpr
            (collected_distinct collected).1⟩

end Snapshot

section Votes

inductive Choice where
  | approve
  | reject
  deriving DecidableEq

/- 0 stands for a seq that is not usable. -/
def normalizeVoteSeq (seq : Value) : ℕ := seq.safeNatural.getD 0

def voteSigningPayload (proposalId vote voterPubkey : String) (seq : Value) : String :=
  JsonText.stringify (.object [("proposalId", .text proposalId), ("vote", .text vote),
    ("voter", .text voterPubkey), ("seq", .number (.ofNat (normalizeVoteSeq seq)))])

/- A vote as it is handed to the vote table. -/
structure Ballot where
  voterPubkey : String
  vote : String
  signature : String
  seq : ℕ
  deriving DecidableEq

def Ballot.key (b : Ballot) : String := asciiLower b.voterPubkey

structure VoteRow where
  voterPubkey : String
  vote : Choice
  signature : String
  voteSeq : ℕ
  deriving DecidableEq

/- The ENUM column: the value a text is stored as, none where the statement fails. -/
structure VoteColumn where
  value : String → Option Choice
  approve : value "approve" = some .approve
  reject : value "reject" = some .reject

/- The unique key of the table compares voters without regard to case, so a row keeps the
   spelling it was inserted with. -/
abbrev VoteTable := OrderedMap String VoteRow

def upsertRow (held : Option VoteRow) (b : Ballot) (choice : Choice) : VoteRow :=
  match held with
  | none => ⟨b.voterPubkey, choice, b.signature, b.seq⟩
  | some row =>
    if row.voteSeq < b.seq then { row with vote := choice, signature := b.signature, voteSeq := b.seq }
    else row

def setGovernanceVote (column : VoteColumn) (votes : VoteTable) (b : Ballot) : VoteTable :=
  match column.value b.vote with
  | none => votes
  | some choice => votes.set b.key (upsertRow (votes.get b.key) b choice)

end Votes

section Tallying

structure Tally where
  approvals : ℕ
  rejections : ℕ
  totalVotes : ℕ
  validatorCount : ℕ
  quorumMet : Bool
  approved : Bool
  deriving DecidableEq

def countedVotes (validatorSet : List Member) (votes : List VoteRow) (electorate : Option Electorate) :
    List VoteRow :=
  match electorate with
  | some e => votes.filter (fun v => asciiLower v.voterPubkey ∈ e.keys)
  | none =>
    if validatorSet.length = 0 then votes
    else votes.filter (fun v =>
      asciiLower v.voterPubkey ∈ validatorSet.map (fun m => asciiLower m.pubkey))

/- Math.ceil(n * 2 / 3). -/
def approvalBar (validatorCount : ℕ) : ℕ := (validatorCount * 2 + 2) / 3

def computeTally (validatorSet : List Member) (votes : List VoteRow) (electorate : Option Electorate) :
    Tally :=
  let counted := countedVotes validatorSet votes electorate
  let approvals := (counted.filter (fun v => v.vote = .approve)).length
  let validatorCount := (electorate.map (fun e => e.members.length)).getD (max validatorSet.length 1)
  let quorumMet : Bool := (validatorCount + 1) / 2 ≤ counted.length
  { approvals
    rejections := (counted.filter (fun v => v.vote = .reject)).length
    totalVotes := counted.length
    validatorCount
    quorumMet
    approved := quorumMet && approvalBar validatorCount ≤ approvals }

/-- The approval bar lies above the participation bar, so it alone decides. -/
theorem approved_iff (validatorSet : List Member) (votes : List VoteRow) (e : Electorate) :
    (computeTally validatorSet votes (some e)).approved = true ↔
      approvalBar e.members.length ≤ (computeTally validatorSet votes (some e)).approvals := by
  have fewer : (computeTally validatorSet votes (some e)).approvals ≤
      (computeTally validatorSet votes (some e)).totalVotes :=
    List.length_filter_le _ _
  have bars : (e.members.length + 1) / 2 ≤ approvalBar e.members.length := by
    unfold approvalBar
    omega
  simp only [computeTally, Option.map_some, Option.getD_some, Bool.and_eq_true, decide_eq_true_eq]
    at fewer ⊢
  constructor
  · exact fun both => both.2
  · exact fun bar => ⟨Nat.le_trans bars (Nat.le_trans bar fewer), bar⟩

end Tallying
end XChainHub.Governance
