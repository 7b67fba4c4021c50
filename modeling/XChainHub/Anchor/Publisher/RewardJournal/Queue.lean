import XChainHub.Library.OrderedMap
import XChainHub.Library.SlotHeap

/-!
The queue of pending reward attestations and its journal: anchor/publisher/reward_defer.js
and reward_journal/journal.js. A database call is issued, run by the database and settled
at three moments, with the other calls in between.
-/
namespace XChainHub.Anchor.Publisher.RewardJournal
open SlotHeap

structure Sig where
  pubkey : String
  sig : String
  deriving DecidableEq

/- JOURNAL_FIELDS. Heights and references are whole numbers; federate may be unset. -/
structure Entry where
  chain : String
  network : String
  blockIndex : ℕ
  checkpointSeq : ℕ
  txid : String
  anchorVersion : ℕ
  rewardType : String
  roundReference : ℕ
  snapshotBlock : ℕ
  publisher : String
  attestSigs : List Sig
  federate : Option Bool
  at' : ℤ
  deriving DecidableEq

/- The value of a journal row, as JSON.parse reads it back. -/
structure Saved where
  key : String
  entry : Entry
  deriving DecidableEq

abbrev Queue := OrderedMap String Entry

/- The consensus_state rows under the prefix, by key_name. -/
abbrev Journal := OrderedMap String Saved

structure Params where
  rewardDeriveActive : ℕ → String → Bool
  announceQueueMax : ℕ
  queue_max_pos : 0 < announceQueueMax
  announceRetryTtlMs : ℤ
  sha256 : String → String

/- A call to the database; done once the database has run it. A delete goes out when the
   write it waits for has settled. rows is none until the SELECT has run. -/
inductive Call where
  | write (key : String) (entry : Entry) (done : Bool)
  | delete (key : String) (after : Option ℕ) (done : Bool)
  | read (rows : Option (List (String × Saved)))

/- runRewardAttestDrain, at its restore or at an entry of its copy of the queue. -/
inductive Drain where
  | restoring (call : ℕ)
  | visiting (todo : List (String × Entry)) (awaits : Option ℕ)

/- writes is _rewardJournalWrites, the call of each key's last write. -/
structure Hub where
  queue : Queue
  journal : Journal
  writes : OrderedMap String ℕ
  calls : List (Option Call)
  restored : Bool
  drain : Option Drain

/- A process whose start() has asked for the journal. -/
def Hub.boot (journal : Journal) : Hub :=
  ⟨OrderedMap.empty, journal, OrderedMap.empty, [some (.read none)], false, none⟩

def Hub.issue (h : Hub) (c : Call) : Hub := { h with calls := h.calls ++ [some c] }

section Keys
variable (cfg : Params)

def Entry.key (e : Entry) : String :=
  "|".intercalate [e.rewardType, toString e.roundReference, toString e.snapshotBlock, e.publisher, e.txid]

def rewardJournalPrefix : String := "xancreward_pending:"

def rewardJournalDigestChars : ℕ := 44

def journalKey (key : String) : String :=
  rewardJournalPrefix ++ String.ofList ((cfg.sha256 key).toList.take rewardJournalDigestChars)

/- The fields that both the deferral and the restore ask for. -/
def Entry.whole (e : Entry) : Bool := e.txid ≠ "" && e.publisher ≠ "" && e.attestSigs ≠ []

def parseJournalRow (row : String × Saved) : Option (String × Entry) :=
  if journalKey cfg row.2.key ≠ row.1 then none
  else if row.2.entry.whole then some (row.2.key, row.2.entry)
  else none

end Keys

section Queueing
variable (cfg : Params)

/- The queue lets the key go at once; its row goes after the row's own write. -/
def dropDeferredRewardAttest (h : Hub) (key : String) : Hub :=
  { h with queue := h.queue.erase key, writes := h.writes.erase key }.issue
    (.delete key (h.writes.get key) false)

def persistDeferredRewardAttest (h : Hub) (key : String) (e : Entry) : Hub :=
  { h with writes := h.writes.set key h.calls.length }.issue (.write key e false)

/- What deferRewardAttestation queues: an armed gate, a whole entry, a key that is not held. -/
def deferrable (h : Hub) (e : Entry) : Bool :=
  cfg.rewardDeriveActive e.snapshotBlock e.network && e.whole && !h.queue.has e.key

def makeRoom (h : Hub) : Hub :=
  if cfg.announceQueueMax ≤ h.queue.size then
    match h.queue.entries with
    | [] => h
    | oldest :: _ => dropDeferredRewardAttest h oldest.1
  else h

def deferRewardAttestation (h : Hub) (e : Entry) (now : ℤ) : Hub :=
  if deferrable cfg h e then
    let h := makeRoom cfg h
    let entry := { e with at' := now }
    persistDeferredRewardAttest { h with queue := h.queue.set e.key entry } e.key entry
  else h

/- The journaled entries beside the queued ones, oldest first. -/
def merged (queue : Queue) (rows : List (String × Saved)) : Queue :=
  let saved := (rows.filterMap (parseJournalRow cfg)).filter fun s => !queue.has s.1
  ((queue.entries ++ saved).insertionSort fun a b => a.2.at' ≤ b.2.at').foldl
    (fun q s => q.set s.1 s.2) OrderedMap.empty

end Queueing

section Calls
variable (cfg : Params) (h : Hub)

def inFlight (n : ℕ) : Bool := (slotAt h.calls n).isSome

/- The database runs a call that has gone out. -/
def ran (n : ℕ) : Hub :=
  match slotAt h.calls n with
  | some (.write key e false) =>
    { h with
      journal := h.journal.set (journalKey cfg key) ⟨key, e⟩
      calls := h.calls.set n (some (.write key e true)) }
  | some (.delete key after false) =>
    if after.any (inFlight h) then h
    else
      { h with
        journal := h.journal.erase (journalKey cfg key)
        calls := h.calls.set n (some (.delete key after true)) }
  | some (.read none) => { h with calls := h.calls.set n (some (.read (some h.journal.entries))) }
  | _ => h

/- The promise of a call that was run resolves. -/
def settle (n : ℕ) : Hub :=
  match slotAt h.calls n with
  | some (.write _ _ true) | some (.delete _ _ true) => { h with calls := h.calls.set n none }
  | some (.read (some rows)) =>
    { h with queue := merged cfg h.queue rows, restored := true, calls := h.calls.set n none }
  | _ => h

end Calls

section Draining
variable (cfg : Params)

/- What the proofs of one entry came to: its row written, the anchor unbound, the tuple
   pinned, the payload or the version another one, or nothing decided. -/
inductive Outcome where
  | rowWritten
  | unbound
  | pinned
  | mismatch
  | undecided
  | writeFailed

def Outcome.drops : Outcome → Bool
  | .rowWritten | .unbound | .pinned | .mismatch => true
  | .undecided | .writeFailed => false

def drainStart (h : Hub) : Hub :=
  if h.drain.isSome then h
  else if h.restored then { h with drain := some (.visiting h.queue.entries none) }
  else { h with drain := some (.restoring h.calls.length) }.issue (.read none)

def drainStep (h : Hub) (now : ℤ) (outcome : Outcome) : Hub :=
  match h.drain with
  | none => h
  | some (.restoring n) =>
    if inFlight h n then h else { h with drain := some (.visiting h.queue.entries none) }
  | some (.visiting todo awaits) =>
    if awaits.any (inFlight h) then h
    else
      match todo with
      | [] => { h with drain := none }
      | (key, e) :: todo =>
        if cfg.announceRetryTtlMs < now - e.at' || outcome.drops then
          { dropDeferredRewardAttest h key with drain := some (.visiting todo (some h.calls.length)) }
        else { h with drain := some (.visiting todo none) }

end Draining

inductive Event where
  | defer (e : Entry) (now : ℤ)
  | ran (n : ℕ)
  | settle (n : ℕ)
  | drainStart
  | drainStep (now : ℤ) (outcome : Outcome)
  | restart

def step (cfg : Params) (h : Hub) : Event → Hub
  | .defer e now => deferRewardAttestation cfg h e now
  | .ran n => ran cfg h n
  | .settle n => settle cfg h n
  | .drainStart => drainStart h
  | .drainStep now outcome => drainStep cfg h now outcome
  | .restart => Hub.boot h.journal

end XChainHub.Anchor.Publisher.RewardJournal
