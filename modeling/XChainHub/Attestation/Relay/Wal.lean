import XChainHub.Library.HexText
import XChainHub.Attestation.Relay.State

/-!
The log on disk: attestation/relay/wal.js. Its fold to one deciding record a key, the
deadlines that bound it, eviction past them, and the compaction that follows.
-/
namespace XChainHub.Attestation.Relay

def isHex64 (s : String) : Bool := s.toList.length = 64 && s.toList.all HexText.isLowerHex

section Fold
variable (cfg : Params)

def Record.key (rec : Record) : Key := (rec.leg, cfg.toLowerCase rec.rid)

/- 'sent' is terminal and sticky; 'failed' only clears a bare intent. -/
def foldRecord (keep : OrderedMap Key Record) (rec : Record) : OrderedMap Key Record :=
  if (rec.key cfg).2 = "" then keep
  else
    match rec.phase, (keep.get (rec.key cfg)).map Record.phase with
    | .sent, _ => keep.set (rec.key cfg) rec
    | .failed, some .sent => keep
    | .failed, _ => keep.set (rec.key cfg) rec
    | .intent, none => keep.set (rec.key cfg) rec
    | .intent, some _ => keep

def foldWalRecords (wal : List Record) : OrderedMap Key Record :=
  wal.foldl (foldRecord cfg) OrderedMap.empty

/- The record that decides the key says the leg may be on the wire. -/
def marks (rec : Record) : Bool := rec.phase ≠ .failed

def Decided (wal : List Record) (k : Key) : Prop :=
  ∃ rec, (foldWalRecords cfg wal).get k = some rec ∧ marks rec = true

instance (wal : List Record) (k : Key) : Decidable (Decided cfg wal k) :=
  decidable_of_iff (((foldWalRecords cfg wal).get k).any marks = true) (by
    unfold Decided
    cases (foldWalRecords cfg wal).get k <;> simp)

end Fold

section Deadlines
variable (cfg : Params)

def noteDeadline (h : Hub) (coin rid : String) (block : ℤ) : Hub :=
  let rid := cfg.toLowerCase rid
  if coin ∉ originChains then h
  else if !isHex64 rid then h
  else if block ≤ 0 then h
  else if h.deadlines.get rid = some ⟨coin, block.toNat⟩ then h
  else if !h.deadlines.has rid && maxTrackedDeadlines ≤ h.deadlines.size then h
  else { h with deadlines := h.deadlines.set rid ⟨coin, block.toNat⟩ }

def pastEvictionHorizon (h : Hub) (d : Deadline) : Bool :=
  match h.originLatest d.coin with
  | none => false
  | some tip => (d.block : ℤ) + cfg.evictGraceBlocks + cfg.confirmations d.coin < tip

end Deadlines

section Append
variable (cfg : Params)

def appendWal (h : Hub) (outcome : Append) (rec : Record) : Hub :=
  match outcome with
  | .lost => h
  | .written | .left =>
    { h with wal :=
        h.wal ++ [{ rec with deadline := h.deadlines.get (cfg.toLowerCase rec.rid) }] }

end Append

section Compact
variable (cfg : Params)

def restamped (h : Hub) (k : Key) (rec : Record) : Record :=
  { rec with leg := k.1, deadline := (h.deadlines.get k.2).or rec.deadline }

def keptLines (h : Hub) (keep : OrderedMap Key Record) : List Record :=
  keep.entries.filterMap (fun e =>
    if e.1.2 ∈ h.published e.1.1 then some (restamped h e.1 e.2) else none)

/- A 'sent' for a published key with no line left. -/
def synthesizedLines (h : Hub) (keep : OrderedMap Key Record) (leg : Leg) : List Record :=
  (h.published leg).items.filterMap (fun rid =>
    if (keep.get (leg, rid)).isSome then none else some ⟨rid, leg, .sent, h.deadlines.get rid⟩)

def compactedWalLines (h : Hub) (keep : OrderedMap Key Record) : List Record :=
  keptLines h keep ++ synthesizedLines h keep .request ++ synthesizedLines h keep .response

/- done tells whether the rename went through; otherwise the old file stands. -/
def compactWal (h : Hub) (done : Bool) : Hub :=
  if done then { h with wal := compactedWalLines h (foldWalRecords cfg h.wal) } else h

end Compact

section Evict
variable (cfg : Params)

def expired (h : Hub) : List String :=
  (h.deadlines.entries.filter (fun e => pastEvictionHorizon cfg h e.2)).map Prod.fst

def evict (h : Hub) (rid : String) : Hub :=
  { h with
    deadlines := h.deadlines.erase rid
    published := fun leg => (h.published leg).erase rid
    wire := fun leg => (h.wire leg).erase rid
    forgotten :=
      ([.request, .response].filter (fun leg => rid ∈ h.published leg)).map (fun leg => (leg, rid)) ++
        h.forgotten }

def evictExpired (h : Hub) (compacted : Bool) : Hub :=
  if expired cfg h = [] then h
  else compactWal cfg ((expired cfg h).foldl evict h) compacted

end Evict

section Load
variable (cfg : Params)

def noteRecord (h : Hub) (rec : Record) : Hub :=
  match rec.deadline with
  | none => h
  | some d => if (rec.key cfg).2 = "" then h else noteDeadline cfg h d.coin rec.rid d.block

def markKey (h : Hub) (k : Key) : Hub :=
  { h with published := Function.update h.published k.1 ((h.published k.1).add k.2) }

def decidedKeys (wal : List Record) : List Key :=
  ((foldWalRecords cfg wal).entries.filter (fun e => marks e.2)).map Prod.fst

def namedRecords (wal : List Record) : ℕ :=
  (wal.filter (fun rec => (rec.key cfg).2 ≠ "")).length

/- loadWal into a fresh process, and the compaction that start() adds. -/
def loadWal (h : Hub) : Hub :=
  (decidedKeys cfg h.wal).foldl markKey (h.wal.foldl (noteRecord cfg) h)

def start (h : Hub) (compacted : Bool) : Hub :=
  if (decidedKeys cfg h.wal).length < namedRecords cfg h.wal then
    compactWal cfg (loadWal cfg h) compacted
  else loadWal cfg h

end Load
end XChainHub.Attestation.Relay
