import XChainHub.Library.SlotHeap
import XChainHub.Oracle.PriceAggregator.Store

/-!
Price pushes and price retractions of one hub: round_ingest.js, batch_ingest.js,
single_ingest.js and retract.js of oracle/price_aggregator. A push is one that passed its
validation. A handler that awaits holds a slot, and the statement that it awaits runs in the
step that fills the slot. No active-chain keep check is wired.
-/
namespace XChainHub.PriceAggregator
open GenerationFence
open SlotHeap (slotAt)

section State

structure RoundPush where
  chain : String
  round : ℕ
  pairs : List String
  actionIndex : Option ℕ
  pushGeneration : ℕ
  deriving DecidableEq

structure BatchPush where
  chain : String
  rounds : List (ℕ × List String)
  actionIndex : Option ℕ
  pushGeneration : ℕ
  deriving DecidableEq

structure OraclePush where
  chain : String
  sourceAddress : String
  actionIndex : ℕ
  pushGeneration : ℕ
  deriving DecidableEq

def RoundPush.stamp (p : RoundPush) : Option Stamp :=
  p.actionIndex.map (fun i => ⟨p.chain, i, p.pushGeneration⟩)

def BatchPush.stamp (p : BatchPush) : Option Stamp :=
  p.actionIndex.map (fun i => ⟨p.chain, i, p.pushGeneration⟩)

def OraclePush.stamp (p : OraclePush) : Stamp := ⟨p.chain, p.actionIndex, p.pushGeneration⟩

/- The statements of a retraction, in their order. -/
inductive Stage where
  | fence
  | reset
  | tombstones
  | snapshots
  | oraclePrices
  | windows
  deriving DecidableEq

/- standing, which no handler reads, lists the retractions that stood in the fence when it was
   read. -/
inductive Task where
  | roundRead (p : RoundPush) (duplicate : Bool)
  | roundVerifying (p : RoundPush)
  | roundFenced (p : RoundPush) (wm : Option Bound) (standing : List Retraction)
  | batchFenced (p : BatchPush) (wm : Option Bound) (standing : List Retraction)
  | batchVerifying (p : BatchPush) (standing : List Retraction)
  | batchStoring (p : BatchPush) (standing : List Retraction) (existing : List (ℕ × Snapshot))
      (rest : List (ℕ × List String))
  | oracleFenced (p : OraclePush) (wm : Option Bound) (standing : List Retraction)
  | oracleRead (p : OraclePush) (existing : Option ℕ) (standing : List Retraction)
  | oracleStoring (p : OraclePush) (standing : List Retraction)
  | retracting (b : Bounds) (stage : Stage)
  deriving DecidableEq

/- The lists keep what happened: the retractions whose fence is recorded, those whose deletes ran,
   those that returned; the pushes refused for a fence's sake; and what each retraction removed. -/
structure Hub where
  snapshots : Snapshots
  oraclePrices : OraclePrices
  fences : Fences
  tasks : List (Option Task)
  recorded : List Retraction
  snapshotDeletes : List Retraction
  oracleDeletes : List Retraction
  processed : List Retraction
  refused : List (Retraction × Stamp)
  removed : List (Retraction × Stamp)

def Hub.await (h : Hub) (t : Task) : Hub := { h with tasks := h.tasks ++ [some t] }

def Hub.next (h : Hub) (n : ℕ) (t : Task) : Hub := { h with tasks := h.tasks.set n (some t) }

def Hub.finish (h : Hub) (n : ℕ) : Hub := { h with tasks := h.tasks.set n none }

end State

section Ingest
variable (network : String)

/- action_index || null: a round takes index 0 for none. -/
def RoundPush.sourceActionIndex (p : RoundPush) : Option ℕ := p.actionIndex.filter (· ≠ 0)

def stale (wm : Option Bound) (p : Stamp) : Bool :=
  wm.any (fun b => b.Covers p.generation p.actionIndex)

def watermark (h : Hub) (sourceChain : String) : Option Bound :=
  getPriceIngestWatermark h.fences network sourceChain

/- The retractions on record that a watermark is still at least as strict as. -/
def standing (recorded : List Retraction) (wm : Option Bound) : List Retraction :=
  recorded.filter (fun r => wm.any (fun b => b.Covers r.bound.generation r.bound.lower))

def storeRound (h : Hub) (p : RoundPush) : Hub :=
  { h with
    snapshots := setPushedPriceSnapshotRound h.snapshots p.round p.pairs p.chain
      p.sourceActionIndex p.pushGeneration p.stamp }

def storeBatchRound (h : Hub) (p : BatchPush) (r : ℕ × List String) : Hub :=
  { h with
    snapshots := setBatchPriceSnapshotRound h.snapshots r.1 r.2 p.chain p.actionIndex
      p.pushGeneration p.stamp }

def storeOraclePrice (h : Hub) (p : OraclePush) : Hub :=
  { h with
    oraclePrices := setOraclePriceByGeneration h.oraclePrices p.chain p.actionIndex
      p.sourceAddress p.pushGeneration }

def refuse (h : Hub) (n : ℕ) (wm : Option Bound) (p : Stamp) : Hub :=
  { h with refused := wm.toList.map (fun b => (Retraction.mk p.chain b, p)) ++ h.refused }.finish n

def receiveValidatedRound (h : Hub) (p : RoundPush) : Hub :=
  h.await (.roundRead p (getPriceSnapshotByRoundNumber h.snapshots p.round))

/- The stored row is the orphaned landing of the batch itself. -/
def orphanedBatchLandingOf (p : BatchPush) (rows : List Snapshot) : Bool :=
  p.actionIndex.any (fun action => rows.any (fun row =>
    row.status ≠ .skipped && row.sourceChain = p.chain && row.batchProof &&
      row.sourceActionIndex.any (fun held =>
        row.pushGeneration < p.pushGeneration && action ≤ held)))

def heldRows (existing : List (ℕ × Snapshot)) (round : ℕ) : List Snapshot :=
  (existing.filter (fun e => e.1 = round && e.2.status ≠ .skipped)).map Prod.snd

/- A round is stored where none is held, or where the one held is its own orphaned landing. -/
def batchStores (p : BatchPush) (existing : List (ℕ × Snapshot)) (round : ℕ) : Bool :=
  (heldRows existing round).isEmpty || orphanedBatchLandingOf p (heldRows existing round)

def receiveValidatedBatch (h : Hub) (p : BatchPush) : Hub :=
  match p.stamp with
  | none => h.await (.batchVerifying p [])
  | some _ =>
    h.await (.batchFenced p (watermark network h p.chain)
      (standing h.recorded (watermark network h p.chain)))

def receiveOraclePrice (h : Hub) (p : OraclePush) : Hub :=
  h.await (.oracleFenced p (watermark network h p.chain)
    (standing h.recorded (watermark network h p.chain)))

end Ingest

section Retract
variable (network : String)

def persistIngestFence (h : Hub) (b : Bounds) : Hub :=
  match b.fence with
  | none => h
  | some r =>
    { h with
      fences := bumpPriceIngestWatermark h.fences network b.chain r.bound
      recorded := r :: h.recorded }

/- What a fenced retraction is about to remove. -/
def snapshotsRemoved (h : Hub) (b : Bounds) : List (Retraction × Stamp) :=
  (h.snapshots.entries.filter (fun e => e.2.sourceActionIndex.any (fun action =>
    b.selects e.2.sourceChain action e.2.pushGeneration))).flatMap (fun e =>
      e.2.origin.toList.flatMap (fun p => b.fence.toList.map (fun r => (r, p))))

def pricesRemoved (h : Hub) (b : Bounds) : List (Retraction × Stamp) :=
  (h.oraclePrices.entries.filter (fun e => b.selects e.1.1 e.1.2 e.2.pushGeneration)).flatMap
    (fun e => b.fence.toList.map (fun r => (r, ⟨e.1.1, e.1.2, e.2.pushGeneration⟩)))

def snapshotRetractionDelete (h : Hub) (b : Bounds) : Hub :=
  { h with
    snapshots := deletePriceSnapshotsForRetraction h.snapshots b
    snapshotDeletes := b.openEnded.toList ++ h.snapshotDeletes
    removed := snapshotsRemoved h b ++ h.removed }

def oraclePriceRetractionDelete (h : Hub) (b : Bounds) : Hub :=
  { h with
    oraclePrices := deleteOraclePricesForRetraction h.oraclePrices b
    oracleDeletes := b.openEnded.toList ++ h.oracleDeletes
    removed := pricesRemoved h b ++ h.removed }

def retractFromActionIndex (h : Hub) (b : Bounds) : Hub := h.await (.retracting b .fence)

/- The landing clocks and the tombstones live in other columns and tables. -/
def retract (h : Hub) (n : ℕ) (b : Bounds) : Stage → Hub
  | .fence => (persistIngestFence network h b).next n (.retracting b .reset)
  | .reset => h.next n (.retracting b .tombstones)
  | .tombstones => h.next n (.retracting b .snapshots)
  | .snapshots => (snapshotRetractionDelete h b).next n (.retracting b .oraclePrices)
  | .oraclePrices => (oraclePriceRetractionDelete h b).next n (.retracting b .windows)
  | .windows => { h with processed := b.openEnded.toList ++ h.processed }.finish n

end Retract

section Steps
variable (network : String)

/- verified is the outcome of the signature and quorum checks. -/
inductive Event where
  | pushRound (p : RoundPush)
  | pushBatch (p : BatchPush)
  | pushOraclePrice (p : OraclePush)
  | retraction (b : Bounds)
  | finalizeRound (round : ℕ) (pairs : List String)
  | skipRound (round : ℕ) (pairs : List String)
  | dispute (round : ℕ) (pair : String)
  | resume (n : ℕ) (verified : Bool)
  | fail (n : ℕ)
  | restart

def resume (h : Hub) (n : ℕ) (verified : Bool) : Task → Hub
  | .roundRead p duplicate => if duplicate then h.finish n else h.next n (.roundVerifying p)
  | .roundVerifying p =>
    if verified then
      match p.sourceActionIndex with
      | none => (storeRound h p).finish n
      | some _ =>
        h.next n (.roundFenced p (watermark network h p.chain)
          (standing h.recorded (watermark network h p.chain)))
    else h.finish n
  | .roundFenced p wm _ =>
    match p.stamp with
    | none => h.finish n
    | some s => if stale wm s then refuse h n wm s else (storeRound h p).finish n
  | .batchFenced p wm standing =>
    match p.stamp with
    | none => h.finish n
    | some s => if stale wm s then refuse h n wm s else h.next n (.batchVerifying p standing)
  | .batchVerifying p standing =>
    if verified then
      h.next n (.batchStoring p standing
        (findPriceSnapshotRowsForRounds h.snapshots (p.rounds.map Prod.fst)) p.rounds)
    else h.finish n
  | .batchStoring _ _ _ [] => h.finish n
  | .batchStoring p standing existing (r :: rest) =>
    (if batchStores p existing r.1 then storeBatchRound h p r else h).next n
      (.batchStoring p standing existing rest)
  | .oracleFenced p wm standing =>
    if stale wm p.stamp then refuse h n wm p.stamp
    else
      h.next n (.oracleRead p (getOraclePrice h.oraclePrices p.sourceAddress p.chain p.actionIndex)
        standing)
  | .oracleRead p existing standing =>
    if existing.any (p.pushGeneration ≤ ·) then h.finish n else h.next n (.oracleStoring p standing)
  | .oracleStoring p _ => (storeOraclePrice h p).finish n
  | .retracting b stage => retract network h n b stage

/- A failed statement ends its handler; the move of a round already held is only logged. -/
def failStatement (h : Hub) (n : ℕ) : Task → Hub
  | .batchStoring p standing existing (r :: rest) =>
    if (heldRows existing r.1).isEmpty then h.finish n
    else h.next n (.batchStoring p standing existing rest)
  | _ => h.finish n

def step (h : Hub) : Event → Hub
  | .pushRound p => receiveValidatedRound h p
  | .pushBatch p => receiveValidatedBatch network h p
  | .pushOraclePrice p => receiveOraclePrice network h p
  | .retraction b => retractFromActionIndex h b
  | .finalizeRound round pairs =>
    { h with snapshots := setFinalizedPriceSnapshotRound h.snapshots round pairs }
  | .skipRound round pairs =>
    { h with snapshots := setSkippedPriceSnapshotRound h.snapshots round pairs }
  | .dispute round pair => { h with snapshots := markDisputed h.snapshots round pair }
  | .resume n verified =>
    match slotAt h.tasks n with
    | none => h
    | some t => resume network h n verified t
  | .fail n =>
    match slotAt h.tasks n with
    | none => h
    | some t => failStatement h n t
  | .restart => { h with tasks := [] }

end Steps
end XChainHub.PriceAggregator
