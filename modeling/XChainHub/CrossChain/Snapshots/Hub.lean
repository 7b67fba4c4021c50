import XChainHub.CrossChain.Pbft.Versions

/-!
The engines over append-only snapshot tables, policy_snapshots and list_snapshots: a poll
proposes the next version of what it reads, a follower validates a leader's row against its
own table and its own read, and what a round finalizes is written and mirrored. An awaited
read of the table saw a prefix of what it holds now.
-/
namespace XChainHub.CrossChain.Snapshots
open GuardedRuns

/- One engine: Poll is what a poll reads beside the table, Read what a validation reads.
   clashes is equality under one of the table's unique keys. -/
structure Rail (R Poll Read V D : Type) where
  engine : Engine R
  reading : Reading V D engine
  snapshotId : R → String
  clashes : R → R → Bool
  maybeSnapshot : List R → Poll → Option R
  validateProposedMatch : List R → Read → R → Bool

/- How the write of a finalized row goes: no capability row was persisted, the insert threw,
   or it went through, and whether subscribers were there for the mirror. -/
inductive WriteOutcome where
  | unbacked
  | failed
  | stored (streams : Bool)
  deriving DecidableEq

/- seen is how much of the table an awaited read saw, round the events of the consensus that
   are none of the engine's. -/
inductive Event (R Poll Read : Type) where
  | poll (seen : ℕ) (poll : Poll) (snapshot : StakeWeightedQuorum.Snapshot)
  | validated (tid seen : ℕ) (read : Read)
  | round (e : CrossChain.Event R)
  | write (wid : ℕ) (outcome : WriteOutcome)

structure Hub (R : Type) where
  consensus : CrossChain.Hub R
  table : List R
  mirrored : List R
  inflight : OrderedSet String
  writes : List (Option (Finalized R))

variable {R Poll Read V D : Type}

def Hub.started : Hub R := ⟨.started, [], [], .empty, []⟩

def Hub.write (h : Hub R) (wid : ℕ) : Option (Finalized R) := h.writes[wid]?.join

section Step
variable (rail : Rail R Poll Read V D)

/- What an event makes the consensus do. -/
def consensusEvent (h : Hub R) : Event R Poll Read → Option (CrossChain.Event R)
  | .poll seen poll snapshot =>
    match rail.maybeSnapshot (h.table.take seen) poll with
    | none => none
    | some row =>
      if rail.snapshotId row ∈ h.inflight then none
      else some (.propose (rail.snapshotId row) row snapshot)
  | .validated tid seen read =>
    match h.consensus.task tid with
    | some (.validate o) =>
      some (.validated tid (rail.validateProposedMatch (h.table.take seen) read o.row))
    | _ => none
  | .round e =>
    match e with
    | .propose .. => none
    | .validated .. => none
    | e => some e
  | .write wid outcome =>
    match h.write wid, outcome with
    | some ev, .unbacked => some (.forgetFinalized (rail.snapshotId ev.row))
    | some ev, .failed => some (.forgetFinalized (rail.snapshotId ev.row))
    | _, _ => none

def abandonedId : Output R → Option String
  | .abandoned matchId => some matchId
  | _ => none

def finalizedEvent : Output R → Option (Finalized R)
  | .finalized ev => some ev
  | _ => none

/- The listeners of match:abandoned and match:finalized, on what a step emitted. -/
def Hub.heard (h : Hub R) (outputs : List (Output R)) : Hub R :=
  { h with
    inflight := (outputs.filterMap abandonedId).foldl OrderedSet.erase h.inflight
    writes := h.writes ++ (outputs.filterMap finalizedEvent).map some }

def Hub.advance (cfg : Params R) (env : Env) (h : Hub R) (e : CrossChain.Event R) : Hub R :=
  let after := CrossChain.step cfg h.consensus (env, e)
  { h with consensus := after }.heard (after.trace.drop h.consensus.trace.length)

/- INSERT IGNORE. -/
def insertSnapshot (table : List R) (row : R) : List R :=
  if table.any (fun held => rail.clashes held row) then table else table ++ [row]

/- writeFinalizedPolicy and writeFinalizedList, from the insert on. -/
def Hub.store (h : Hub R) (wid : ℕ) (row : R) (streams : Bool) : Hub R :=
  let table := insertSnapshot rail h.table row
  let inserted := table.length ≠ h.table.length
  { h with
    table
    writes := h.writes.set wid none
    inflight := h.inflight.erase (rail.snapshotId row)
    mirrored :=
      if inserted ∧ streams = true then
        h.mirrored ++ (table.find? (fun held => rail.snapshotId held = rail.snapshotId row)).toList
      else h.mirrored }

/- Releases the round, so that a later poll proposes it again. -/
def Hub.defer (h : Hub R) (wid : ℕ) (row : R) : Hub R :=
  { h with
    writes := h.writes.set wid none
    inflight := h.inflight.erase (rail.snapshotId row) }

def Hub.propose (h : Hub R) (snapshotId : String) : Hub R :=
  { h with inflight := h.inflight.add snapshotId }

/- The engine's own part of an event. -/
def Hub.own (h : Hub R) (e : Event R Poll Read) : Hub R :=
  match e with
  | .poll seen poll _ =>
    match rail.maybeSnapshot (h.table.take seen) poll with
    | none => h
    | some row => h.propose (rail.snapshotId row)
  | .write wid outcome =>
    match h.write wid, outcome with
    | none, _ => h
    | some ev, .stored streams => h.store rail wid ev.row streams
    | some ev, _ => h.defer rail wid ev.row
  | _ => h

/- While early messages are replayed nothing else runs in the consensus. -/
def step (cfg : Params R) (h : Hub R) (m : Env × Event R Poll Read) : Hub R :=
  match consensusEvent rail h m.2 with
  | none =>
    match m.2 with
    | .write .. => h.own rail m.2
    | _ => h
  | some e =>
    match due h.consensus e with
    | none => h
    | some _ => (h.own rail m.2).advance cfg m.1 e

end Step
end XChainHub.CrossChain.Snapshots
