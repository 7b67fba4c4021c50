import XChainHub.Library.GenerationFence
import XChainHub.Library.OrderedMap

/-!
The price tables as the aggregator's statements see them: db/prices/index.js,
db/prices/price_ingest_watermarks.js and db/oracle.js.
-/
namespace XChainHub.PriceAggregator
open GenerationFence

section Rows

/- The position at which an indexer pushes a row. -/
structure Stamp where
  chain : String
  actionIndex : ℕ
  generation : ℕ
  deriving DecidableEq

inductive SnapshotStatus where
  | finalized
  | skipped
  | disputed
  deriving DecidableEq

/- batchProof says whether the proof is a batch's. origin, which no statement reads, is the
   stamp of the push that the row was last stored from. -/
structure Snapshot where
  status : SnapshotStatus
  sourceChain : String
  sourceActionIndex : Option ℕ
  pushGeneration : ℕ
  batchProof : Bool
  origin : Option Stamp
  deriving DecidableEq

/- price_snapshots by round and pair. -/
abbrev Snapshots := OrderedMap (ℕ × String) Snapshot

structure OraclePrice where
  sourceAddress : String
  pushGeneration : ℕ
  deriving DecidableEq

/- oracle_prices by source chain and action index. -/
abbrev OraclePrices := OrderedMap (String × ℕ) OraclePrice

/- price_ingest_watermarks by network and source chain. -/
abbrev Fences := OrderedMap (String × String) Bound

end Rows

section Upserts

/- A disputed row keeps its status. -/
def finalizedOver (held : Option Snapshot) : SnapshotStatus :=
  if held.any (fun row => row.status = .disputed) then .disputed else .finalized

/- The same statement on every pair of a round. -/
def upsertRound (rows : Snapshots) (round : ℕ) (pairs : List String) (row : Option Snapshot → Snapshot) :
    Snapshots :=
  pairs.foldl (fun t pair => t.set (round, pair) (row (t.get (round, pair)))) rows

def pushedSnapshot (sourceChain : String) (sourceActionIndex : Option ℕ) (pushGeneration : ℕ)
    (batchProof : Bool) (origin : Option Stamp) (held : Option Snapshot) : Snapshot :=
  ⟨finalizedOver held, sourceChain, sourceActionIndex, pushGeneration, batchProof, origin⟩

def setPushedPriceSnapshotRound (rows : Snapshots) (round : ℕ) (pairs : List String)
    (sourceChain : String) (sourceActionIndex : Option ℕ) (pushGeneration : ℕ) (origin : Option Stamp) :
    Snapshots :=
  upsertRound rows round pairs
    (pushedSnapshot sourceChain sourceActionIndex pushGeneration false origin)

def setBatchPriceSnapshotRound (rows : Snapshots) (round : ℕ) (pairs : List String)
    (sourceChain : String) (sourceActionIndex : Option ℕ) (pushGeneration : ℕ) (origin : Option Stamp) :
    Snapshots :=
  upsertRound rows round pairs
    (pushedSnapshot sourceChain sourceActionIndex pushGeneration true origin)

/- A row this hub finalizes itself names no source action; over a pushed row it keeps that row's
   source columns. -/
def setFinalizedPriceSnapshotRound (rows : Snapshots) (round : ℕ) (pairs : List String) : Snapshots :=
  upsertRound rows round pairs (fun held =>
    match held with
    | none => ⟨.finalized, "DOGE", none, 0, false, none⟩
    | some row => { row with status := finalizedOver held, batchProof := false })

def setSkippedPriceSnapshotRound (rows : Snapshots) (round : ℕ) (pairs : List String) : Snapshots :=
  upsertRound rows round pairs (fun held => held.getD ⟨.skipped, "DOGE", none, 0, false, none⟩)

def markDisputed (rows : Snapshots) (round : ℕ) (pair : String) : Snapshots :=
  match rows.get (round, pair) with
  | none => rows
  | some row => rows.set (round, pair) { row with status := .disputed }

/- Only a higher generation overwrites a row. -/
def setOraclePriceByGeneration (rows : OraclePrices) (sourceChain : String) (actionIndex : ℕ)
    (sourceAddress : String) (pushGeneration : ℕ) : OraclePrices :=
  match rows.get (sourceChain, actionIndex) with
  | none => rows.set (sourceChain, actionIndex) ⟨sourceAddress, pushGeneration⟩
  | some row =>
    if row.pushGeneration < pushGeneration then
      rows.set (sourceChain, actionIndex) ⟨sourceAddress, pushGeneration⟩
    else rows

end Upserts

section Reads

def getPriceSnapshotByRoundNumber (rows : Snapshots) (round : ℕ) : Bool :=
  rows.entries.any (fun e => e.1.1 = round && e.2.status ≠ .skipped)

def findPriceSnapshotRowsForRounds (rows : Snapshots) (rounds : List ℕ) : List (ℕ × Snapshot) :=
  (rows.entries.filter (fun e => e.1.1 ∈ rounds)).map (fun e => (e.1.1, e.2))

def getOraclePrice (rows : OraclePrices) (sourceAddress sourceChain : String) (actionIndex : ℕ) :
    Option ℕ :=
  ((rows.get (sourceChain, actionIndex)).filter (fun row => row.sourceAddress = sourceAddress)).map
    OraclePrice.pushGeneration

/- The legacy bucket of a hub without a network is folded in. -/
def getPriceIngestWatermark (fences : Fences) (network sourceChain : String) : Option Bound :=
  stricter (fences.get (network, sourceChain)) (fences.get ("", sourceChain))

def bumpPriceIngestWatermark (fences : Fences) (network sourceChain : String) (b : Bound) : Fences :=
  fences.set (network, sourceChain) (raise (fences.get (network, sourceChain)) b)

end Reads

section Retractions

/- The normalized bounds of a retraction; last is none where it is open-ended, and generation
   where it is not fenced. -/
structure Bounds where
  chain : String
  first : ℕ
  last : Option ℕ
  generation : Option ℕ
  deriving DecidableEq

def Bounds.selects (b : Bounds) (chain : String) (actionIndex generation : ℕ) : Bool :=
  chain = b.chain && b.first ≤ actionIndex && b.last.all (actionIndex ≤ ·) &&
    b.generation.all (generation ≤ ·)

def deletePriceSnapshotsForRetraction (rows : Snapshots) (b : Bounds) : Snapshots :=
  rows.filter (fun e => !e.2.sourceActionIndex.any (fun action =>
    b.selects e.2.sourceChain action e.2.pushGeneration))

def deleteOraclePricesForRetraction (rows : OraclePrices) (b : Bounds) : OraclePrices :=
  rows.filter (fun e => !b.selects e.1.1 e.1.2 e.2.pushGeneration)

/- A generation-stamped retraction of everything from an action index on. -/
structure Retraction where
  chain : String
  bound : Bound
  deriving DecidableEq

def Retraction.Covers (r : Retraction) (p : Stamp) : Prop :=
  r.chain = p.chain ∧ r.bound.Covers p.generation p.actionIndex

instance (r : Retraction) (p : Stamp) : Decidable (r.Covers p) := inferInstanceAs (Decidable (_ ∧ _))

/- The fence that a retraction sets, which has no upper end. -/
def Bounds.fence (b : Bounds) : Option Retraction :=
  b.generation.map (fun g => ⟨b.chain, ⟨g, b.first⟩⟩)

/- The retraction itself where it is open-ended and fenced. -/
def Bounds.openEnded (b : Bounds) : Option Retraction := if b.last = none then b.fence else none

theorem fence_some {b : Bounds} {r : Retraction} (fenced : b.fence = some r) :
    r.chain = b.chain ∧ b.generation = some r.bound.generation ∧ r.bound.lower = b.first := by
  obtain ⟨g, named, rfl⟩ := Option.map_eq_some_iff.mp fenced
  exact ⟨rfl, named, rfl⟩

theorem openEnded_some {b : Bounds} {r : Retraction} (ended : b.openEnded = some r) :
    b.last = none ∧ b.fence = some r := by
  simp only [Bounds.openEnded] at ended
  split at ended
  · rename_i unbounded
    exact ⟨unbounded, ended⟩
  · exact absurd ended (by simp)

/-- A fenced retraction selects only what it covers. -/
theorem selected_covered {b : Bounds} {r : Retraction} {p : Stamp} (fenced : b.fence = some r)
    (selected : b.selects p.chain p.actionIndex p.generation = true) : r.Covers p := by
  obtain ⟨chain, generation, lower⟩ := fence_some fenced
  simp only [Bounds.selects, Bool.and_eq_true, decide_eq_true_eq, generation, Option.all_some]
    at selected
  obtain ⟨⟨⟨sameChain, reaches⟩, -⟩, older⟩ := selected
  exact ⟨chain.trans sameChain.symm, older, lower ▸ reaches⟩

/-- An open-ended one selects all that it covers. -/
theorem covered_selected {b : Bounds} {r : Retraction} {p : Stamp} (ended : b.openEnded = some r)
    (covered : r.Covers p) : b.selects p.chain p.actionIndex p.generation = true := by
  obtain ⟨unbounded, fenced⟩ := openEnded_some ended
  obtain ⟨chain, generation, lower⟩ := fence_some fenced
  obtain ⟨sameChain, older, reaches⟩ := covered
  simp [Bounds.selects, unbounded, generation, ← chain, sameChain, older, ← lower, reaches]

end Retractions

section Laws
variable {P : Snapshot → Prop} {rows : Snapshots}

def EveryRow (P : Snapshot → Prop) (rows : Snapshots) : Prop := ∀ e ∈ rows.entries, P e.2

theorem every_row_held (all : EveryRow P rows) (key : ℕ × String) :
    ∀ row ∈ rows.get key, P row := by
  intro row held
  exact all _ (OrderedMap.mem_of_get held)

theorem every_row_set (all : EveryRow P rows) {row : Snapshot} (new : P row) (key : ℕ × String) :
    EveryRow P (rows.set key row) := by
  rintro ⟨stored, r⟩ member
  rcases OrderedMap.mem_set member with ⟨-, same⟩ | ⟨-, old⟩
  · exact same ▸ new
  · exact all _ old

theorem every_row_upserted {row : Option Snapshot → Snapshot}
    (keeps : ∀ held, (∀ r ∈ held, P r) → P (row held)) (all : EveryRow P rows) (round : ℕ)
    (pairs : List String) : EveryRow P (upsertRound rows round pairs row) := by
  induction pairs generalizing rows with
  | nil => exact all
  | cons pair pairs ih =>
    exact ih (every_row_set all (keeps _ (every_row_held all _)) _)

/-- A property of the source columns that rows without a source have. -/
structure OfSource (P : Snapshot → Prop) : Prop where
  unsourced : ∀ status, P ⟨status, "DOGE", none, 0, false, none⟩
  restated : ∀ row status proof, P row → P { row with status := status, batchProof := proof }

theorem every_row_finalized (source : OfSource P) (all : EveryRow P rows) (round : ℕ)
    (pairs : List String) : EveryRow P (setFinalizedPriceSnapshotRound rows round pairs) := by
  apply every_row_upserted _ all
  intro held each
  cases held with
  | none => exact source.unsourced _
  | some row => exact source.restated _ _ _ (each row rfl)

theorem every_row_skipped (source : OfSource P) (all : EveryRow P rows) (round : ℕ)
    (pairs : List String) : EveryRow P (setSkippedPriceSnapshotRound rows round pairs) := by
  apply every_row_upserted _ all
  intro held each
  cases held with
  | none => exact source.unsourced _
  | some row => exact each row rfl

theorem every_row_disputed (source : OfSource P) (all : EveryRow P rows) (round : ℕ)
    (pair : String) : EveryRow P (markDisputed rows round pair) := by
  simp only [markDisputed]
  cases held : rows.get (round, pair) with
  | none => exact all
  | some row => exact every_row_set all (source.restated _ _ _ (every_row_held all _ row held)) _

theorem oracle_price_set {prices : OraclePrices} {chain address : String} {action generation : ℕ}
    {e : (String × ℕ) × OraclePrice}
    (member : e ∈ (setOraclePriceByGeneration prices chain action address generation).entries) :
    e ∈ prices.entries ∨ e = ((chain, action), ⟨address, generation⟩) ∧
      ((prices.get (chain, action)).all (·.pushGeneration < generation)) = true := by
  obtain ⟨stored, price⟩ := e
  simp only [setOraclePriceByGeneration] at member
  split at member
  · rename_i fresh
    rcases OrderedMap.mem_set member with ⟨key, value⟩ | ⟨-, old⟩
    · exact Or.inr ⟨Prod.ext key value, by simp [fresh]⟩
    · exact Or.inl old
  · rename_i row held
    split at member
    · rename_i newer
      rcases OrderedMap.mem_set member with ⟨key, value⟩ | ⟨-, old⟩
      · exact Or.inr ⟨Prod.ext key value, by simp [held, newer]⟩
      · exact Or.inl old
    · exact Or.inl member

end Laws
end XChainHub.PriceAggregator
