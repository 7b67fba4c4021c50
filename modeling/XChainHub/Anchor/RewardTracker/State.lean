import Mathlib.Data.List.Sort
import Mathlib.Data.String.Basic
import XChainHub.Lib.Bcmath
import XChainHub.Library.ChainedLock
import XChainHub.Library.HexText

/-!
Anchor rewards of anchor/reward_tracker.js: calls for one anchor are chained behind an
in-process lock, and each reads the rows of its anchor and then writes or leaves them.
An amount is its number; heights and rounds are whole numbers.
-/
namespace XChainHub.Anchor.RewardTracker
open Bcmath ChainedLock DecimalRounding HexText

section Amounts

/- The operator's knob and the hub's network. -/
structure Settings where
  anchorReward : String
  network : String

structure Call where
  rewardType : String
  roundNumber : ℕ
  pubkey : String
  blockIndex : ℤ
  rewardNetwork : Option String
  deriving DecidableEq

def ANCHOR_REWARD_ACTIVATION : String → Option ℤ
  | "mainnet" => some 961000
  | "testnet" => some 0
  | "regtest" => some 0
  | _ => none

def ARCHIVE_REWARD_ACTIVATION : String → Option ℤ
  | "mainnet" => some 963000
  | "testnet" => some 0
  | "regtest" => some 0
  | _ => none

def ANCHOR_REWARD_AMOUNT : ℚ := 10
def ARCHIVE_REWARD_AMOUNT : ℚ := 10
def ARCHIVE_REWARD_TYPE : String := "anchor_archive"

def isRewardActive (activation : String → Option ℤ) (snapshotBlock : ℤ) (network : String) : Bool :=
  match activation network with
  | none => false
  | some threshold => threshold ≤ snapshotBlock

def legacyAnchorRewardAmount (knob : String) : ℚ := fixed 8 (bcnum knob)

def resolveAnchorRewardAmount (s : Settings) (c : Call) : ℚ :=
  let network := c.rewardNetwork.getD s.network
  let isDerivedChain := c.rewardType ∈ ["anchor_BTC", "anchor_LTC", "anchor_DOGE"] ∧
    isRewardActive ANCHOR_REWARD_ACTIVATION c.blockIndex network = true
  let isDerivedBundle := c.rewardType = "anchor_bundle" ∧
    isRewardActive ANCHOR_REWARD_ACTIVATION c.blockIndex network = true
  let isDerivedArchive := c.rewardType = ARCHIVE_REWARD_TYPE ∧
    isRewardActive ARCHIVE_REWARD_ACTIVATION c.blockIndex network = true
  if isDerivedChain ∨ isDerivedBundle then ANCHOR_REWARD_AMOUNT
  else if isDerivedArchive then ARCHIVE_REWARD_AMOUNT
  else legacyAnchorRewardAmount s.anchorReward

end Amounts

section Rows

structure RewardKey where
  roundNumber : ℕ
  rewardType : String
  roundQualifier : ℤ
  deriving DecidableEq

/- A row of validator_rewards. -/
structure Row where
  anchor : RewardKey
  pubkey : String
  amount : ℚ
  blockIndex : ℤ
  batchSeq : Option ℕ
  deriving DecidableEq

def rewardRoundQualifier (rewardType : String) (snapshotBlock : ℤ) : ℤ :=
  if rewardType ≠ ARCHIVE_REWARD_TYPE then 0 else max snapshotBlock 0

def Call.anchor (c : Call) : RewardKey :=
  ⟨c.roundNumber, c.rewardType, rewardRoundQualifier c.rewardType c.blockIndex⟩

def lower (s : String) : String := String.ofList (s.toList.map Char.toLower)

def validKey (pubkey : String) : Bool :=
  pubkey.toList.length = 64 && pubkey.toList.all isHexDigit

def lockKey (c : Call) : String := c.rewardType ++ "|" ++ toString c.roundNumber

def newRow (s : Settings) (c : Call) : Row :=
  ⟨c.anchor, lower c.pubkey, resolveAnchorRewardAmount s c, c.blockIndex, none⟩

def rowsFor (a : RewardKey) (table : List Row) : List Row := table.filter fun r => r.anchor = a

/- INSERT IGNORE under the table's unique key. -/
def insertIgnore (table : List Row) (row : Row) : List Row :=
  if table.any fun r => r.anchor = row.anchor && lower r.pubkey = lower row.pubkey then table
  else table ++ [row]

def deleteUnarchived (table : List Row) (a : RewardKey) : List Row :=
  table.filter fun r => r.anchor ≠ a || r.batchSeq.isSome

def minIncumbent (existing : List Row) : String :=
  ((existing.map fun r : Row => lower r.pubkey).insertionSort (· ≤ ·)).headD ""

/- What the rest of the locked body does once it has read the rows of the anchor. -/
def afterRead (s : Settings) (c : Call) (existing table : List Row) : List Row :=
  if existing.any fun r => lower r.pubkey = lower c.pubkey then table
  else if existing = [] then insertIgnore table (newRow s c)
  else if existing.any fun r => r.batchSeq.isSome then table
  else if minIncumbent existing ≤ lower c.pubkey then table
  else insertIgnore (deleteUnarchived table c.anchor) (newRow s c)

end Rows

section Steps

inductive Stage where
  | idle
  | found (existing : List Row)
  | done
  | threw
  deriving DecidableEq

structure Job where
  call : Call
  stage : Stage

structure State where
  lock : Lock String Job
  table : List Row

/- The database answers a statement or fails it; a failed transaction changes nothing. -/
inductive Event where
  | call (c : Call)
  | start (i : ℕ)
  | read (i : ℕ) (answered : Bool)
  | write (i : ℕ) (answered : Bool)
  | settle (i : ℕ)
  | release (i : ℕ)

def staged (t : Ticket String Job) (stage : Stage) : Ticket String Job :=
  { t with load := { t.load with stage } }

def recordAnchorReward (st : State) (c : Call) : State :=
  if validKey c.pubkey then { st with lock := enter st.lock (lockKey c) ⟨c, .idle⟩ } else st

/- The body up to its SELECT: an amount that is not positive ends it. -/
def readRows (s : Settings) (st : State) (i : ℕ) (answered : Bool) : State :=
  match st.lock.tickets[i]? with
  | none => st
  | some t =>
    if t.phase = .inside ∧ t.load.stage = .idle then
      let stage :=
        if resolveAnchorRewardAmount s t.load.call ≤ 0 then .done
        else if answered then .found (rowsFor t.load.call.anchor st.table)
        else .threw
      { st with lock := put st.lock i (staged t stage) }
    else st

def writeRows (s : Settings) (st : State) (i : ℕ) (answered : Bool) : State :=
  match st.lock.tickets[i]? with
  | none => st
  | some t =>
    match t.phase, t.load.stage with
    | .inside, .found existing =>
      if answered then
        { lock := put st.lock i (staged t .done)
          table := afterRead s t.load.call existing st.table }
      else { st with lock := put st.lock i (staged t .threw) }
    | _, _ => st

def settleCall (st : State) (i : ℕ) : State :=
  match st.lock.tickets[i]? with
  | none => st
  | some t =>
    if t.phase = .inside ∧ (t.load.stage = .done ∨ t.load.stage = .threw) then
      { st with lock := put st.lock i { t with phase := .settled } }
    else st

def step (s : Settings) (st : State) : Event → State
  | .call c => recordAnchorReward st c
  | .start i => { st with lock := ChainedLock.start st.lock i }
  | .read i answered => readRows s st i answered
  | .write i answered => writeRows s st i answered
  | .settle i => settleCall st i
  | .release i => { st with lock := release st.lock i }

def run (s : Settings) (st : State) (es : List Event) : State := es.foldl (step s) st

def opened (table : List Row) : State := { lock := ChainedLock.empty, table }

end Steps

section Tables
variable {s : Settings} {a b : RewardKey} {c : Call} {row : Row} {table existing : List Row}

theorem rows_for_insert (table : List Row) (row : Row) :
    rowsFor row.anchor (insertIgnore table row) = insertIgnore (rowsFor row.anchor table) row := by
  have same : (table.any fun r => r.anchor = row.anchor && lower r.pubkey = lower row.pubkey) =
      (rowsFor row.anchor table).any fun r =>
        r.anchor = row.anchor && lower r.pubkey = lower row.pubkey := by
    rw [Bool.eq_iff_iff]
    simp only [List.any_eq_true, rowsFor, List.mem_filter, Bool.and_eq_true, decide_eq_true_eq]
    constructor
    · rintro ⟨r, member, anchor, key⟩
      exact ⟨r, ⟨member, anchor⟩, anchor, key⟩
    · rintro ⟨r, ⟨member, _⟩, anchor, key⟩
      exact ⟨r, member, anchor, key⟩
  unfold insertIgnore
  rw [same]
  split
  · rfl
  · simp [rowsFor]

theorem rows_for_insert_other (table : List Row) (other : row.anchor ≠ b) :
    rowsFor b (insertIgnore table row) = rowsFor b table := by
  unfold insertIgnore
  split
  · rfl
  · simp [rowsFor, other]

theorem rows_for_delete (table : List Row) (a : RewardKey) :
    rowsFor a (deleteUnarchived table a) = deleteUnarchived (rowsFor a table) a := by
  rw [rowsFor, rowsFor, deleteUnarchived, deleteUnarchived, List.filter_comm]

theorem rows_for_delete_other (table : List Row) (other : a ≠ b) :
    rowsFor b (deleteUnarchived table a) = rowsFor b table := by
  rw [rowsFor, rowsFor, deleteUnarchived, List.filter_filter]
  apply List.filter_congr
  intro r _
  by_cases here : r.anchor = b
  · simp [here, other.symm]
  · simp [here]

/-- The body works on the rows of its anchor alone. -/
theorem rows_for_after_read (s : Settings) (c : Call) (existing table : List Row) :
    rowsFor c.anchor (afterRead s c existing table) =
      afterRead s c existing (rowsFor c.anchor table) := by
  unfold afterRead
  split
  · rfl
  · split
    · exact rows_for_insert table (newRow s c)
    · split
      · rfl
      · split
        · rfl
        · have inserted := rows_for_insert (deleteUnarchived table c.anchor) (newRow s c)
          have deleted := rows_for_delete table c.anchor
          exact inserted.trans (congrArg (insertIgnore · (newRow s c)) deleted)

theorem rows_for_after_read_other (other : c.anchor ≠ b) :
    rowsFor b (afterRead s c existing table) = rowsFor b table := by
  have inserted (table : List Row) : rowsFor b (insertIgnore table (newRow s c)) = rowsFor b table :=
    rows_for_insert_other table other
  unfold afterRead
  split
  · rfl
  · split
    · exact inserted table
    · split
      · rfl
      · split
        · rfl
        · rw [inserted, rows_for_delete_other table other]

end Tables
end XChainHub.Anchor.RewardTracker
