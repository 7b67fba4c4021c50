import XChainHub.Library.EarliestStamp
import XChainHub.Library.GuardedRuns
import XChainHub.Oracle.PriceAggregator.Ingest

/-!
The landing clock of price_snapshots: batch_ingest.js and retract.js of oracle/price_aggregator,
with the statements of db/prices/index.js and db/prices/batch_landing_reset.js. Each handler here
runs to its end before the next delivery.
-/
namespace XChainHub.PriceAggregator
open GenerationFence EarliestStamp GuardedRuns

section Rows

/- window is the one named in a batch's proof. -/
structure LandedRow where
  snapshot : Snapshot
  window : Option (ℕ × ℕ)
  batchBlockTime : ℕ
  deriving DecidableEq

abbrev LandedRows := OrderedMap (ℕ × String) LandedRow

def LandedRow.skipped (row : LandedRow) : Prop := row.snapshot.status = .skipped

instance (row : LandedRow) : Decidable row.skipped := inferInstanceAs (Decidable (_ = _))

/- A batch that passed validateBatchWindow, validateBatchAnchors and validateBatchRounds. -/
structure Batch where
  push : BatchPush
  firstRound : ℕ
  lastRound : ℕ
  blockTime : ℕ
  inside : ∀ r ∈ push.rounds, firstRound ≤ r.1 ∧ r.1 ≤ lastRound
  ascending : (push.rounds.map Prod.fst).Pairwise (· < ·)
  paired : ∀ r ∈ push.rounds, r.2 ≠ []
  landed : 0 < blockTime

def Batch.carries (b : Batch) (round : ℕ) : Prop := round ∈ b.push.rounds.map Prod.fst

instance (b : Batch) (round : ℕ) : Decidable (b.carries round) :=
  inferInstanceAs (Decidable (_ ∈ _))

end Rows

section Ingest

/- The upserted row keeps the earlier clock. -/
def batchSnapshotRow (b : Batch) (held : Option LandedRow) : LandedRow :=
  ⟨pushedSnapshot b.push.chain b.push.actionIndex b.push.pushGeneration true b.push.stamp
      (held.map LandedRow.snapshot),
    some (b.firstRound, b.lastRound),
    held.elim b.blockTime (fun row => earlier row.batchBlockTime b.blockTime)⟩

def batchRoundInsert (b : Batch) (rows : LandedRows) (r : ℕ × List String) : LandedRows :=
  r.2.foldl (fun t pair => t.set (r.1, pair) (batchSnapshotRow b (t.get (r.1, pair)))) rows

def stampedRow (blockTime : ℕ) (row : LandedRow) : LandedRow :=
  if row.skipped then row
  else { row with batchBlockTime := earlier row.batchBlockTime blockTime }

def stampBatchLanding (blockTime : ℕ) (rows : LandedRows) (round : ℕ) : LandedRows :=
  rows.mapValues (fun key row => if key.1 = round then stampedRow blockTime row else row)

/- findPriceSnapshotRowsForRounds -/
def batchPresenceRows (rows : LandedRows) (rounds : List ℕ) : List (ℕ × Snapshot) :=
  (rows.entries.filter (fun e => e.1.1 ∈ rounds)).map (fun e => (e.1.1, e.2.snapshot))

/- A round that is held is moved where it is the orphaned landing of this batch, and stamped. -/
def storeLandedRound (b : Batch) (existing : List (ℕ × Snapshot)) (rows : LandedRows)
    (r : ℕ × List String) : LandedRows :=
  if (heldRows existing r.1).isEmpty then batchRoundInsert b rows r
  else
    stampBatchLanding b.blockTime
      (if orphanedBatchLandingOf b.push (heldRows existing r.1) then batchRoundInsert b rows r
        else rows) r.1

def storeBatchRounds (b : Batch) (rows : LandedRows) : LandedRows :=
  b.push.rounds.foldl
    (storeLandedRound b (batchPresenceRows rows (b.push.rounds.map Prod.fst))) rows

end Ingest

section Retract

/- carried is the active chain's answer for the rounds at stake; without one it is empty. -/
structure BatchRetraction where
  bounds : Bounds
  windows : List (ℕ × ℕ)
  carried : List ℕ
  deriving DecidableEq

def within (w : ℕ × ℕ) (round : ℕ) : Prop := w.1 ≤ round ∧ round ≤ w.2

instance (w : ℕ × ℕ) (round : ℕ) : Decidable (within w round) :=
  inferInstanceAs (Decidable (_ ∧ _))

def BatchRetraction.names (r : BatchRetraction) (round : ℕ) : Prop :=
  ∃ w ∈ r.windows, within w round

instance (r : BatchRetraction) (round : ℕ) : Decidable (r.names round) :=
  inferInstanceAs (Decidable (∃ w ∈ _, _))

def LandedRow.selectedBy (row : LandedRow) (b : Bounds) : Bool :=
  row.snapshot.sourceActionIndex.any (fun action =>
    b.selects row.snapshot.sourceChain action row.snapshot.pushGeneration)

/- The rounds of the selected batch rows that the chain still carries. -/
def keepRounds (rows : LandedRows) (r : BatchRetraction) : List ℕ :=
  ((rows.entries.filter (fun e => e.2.selectedBy r.bounds && e.2.snapshot.batchProof)).map
    (fun e => e.1.1)).filter (· ∈ r.carried)

def retractedLandingWindows (rows : LandedRows) (b : Bounds) : List ((ℕ × ℕ) × ℕ) :=
  rows.entries.filterMap (fun e =>
    if e.2.selectedBy b && e.2.snapshot.batchProof && 0 < e.2.batchBlockTime then
      (e.2.window.filter (fun w => w.1 ≤ w.2)).map (fun w => (w, e.2.batchBlockTime))
    else none)

def resetOrphanedLandingBlockTimes (rows : LandedRows) (b : Bounds) : LandedRows :=
  rows.mapValues (fun key row =>
    if row.snapshot.sourceActionIndex = none ∧ row.snapshot.batchProof = false ∧
        ∃ w ∈ retractedLandingWindows rows b, within w.1 key.1 ∧ row.batchBlockTime = w.2 then
      { row with batchBlockTime := 0 }
    else row)

def snapshotRetractionDeleteKeeping (rows : LandedRows) (b : Bounds) (keep : List ℕ) : LandedRows :=
  rows.filter (fun e => !(e.2.selectedBy b && !keep.contains e.1.1))

def resetRetractedBatchWindows (rows : LandedRows) (r : BatchRetraction) : LandedRows :=
  rows.mapValues (fun key row =>
    if r.names key.1 ∧ ¬row.skipped then { row with batchBlockTime := 0 } else row)

end Retract

section Deliveries
variable (network : String)

/- delivered and retracted, which no handler reads, keep what came. -/
structure Landings where
  rows : LandedRows
  fences : Fences
  delivered : List Batch
  retracted : List Bounds

inductive Delivery where
  | batch (b : Batch)
  | retraction (r : BatchRetraction)

/- The ingest fence, which only a push with an action index meets. -/
def fencedOff (w : Landings) (p : BatchPush) : Bool :=
  p.stamp.any (stale (getPriceIngestWatermark w.fences network p.chain))

def deliver (w : Landings) : Delivery → Landings
  | .batch b =>
    { w with
      rows := if fencedOff network w b.push then w.rows else storeBatchRounds b w.rows
      delivered := w.delivered ++ [b] }
  | .retraction r =>
    { w with
      rows := resetRetractedBatchWindows (snapshotRetractionDeleteKeeping
        (resetOrphanedLandingBlockTimes w.rows r.bounds) r.bounds (keepRounds w.rows r)) r
      fences := r.bounds.fence.elim w.fences
        (fun f => bumpPriceIngestWatermark w.fences network r.bounds.chain f.bound)
      retracted := w.retracted ++ [r.bounds] }

end Deliveries

section Landing

def Batch.retractedBy (b : Batch) (r : Bounds) : Bool :=
  b.push.actionIndex.any (fun action => r.selects b.push.chain action b.push.pushGeneration)

def surviving (w : Landings) : List Batch :=
  w.delivered.filter (fun b => !w.retracted.any b.retractedBy)

/- The least landing clock among the surviving batches that carry a round, 0 for none. -/
def landing (w : Landings) (round : ℕ) : ℕ :=
  earliest (((surviving w).filter (fun b => b.carries round)).map Batch.blockTime)

def HoldsLanding (w : Landings) : Prop :=
  ∀ round,
    (∀ pair row, w.rows.get (round, pair) = some row → ¬row.skipped →
      row.batchBlockTime = landing w round) ∧
    (landing w round ≠ 0 → ∃ pair row, w.rows.get (round, pair) = some row ∧ ¬row.skipped)

/- Rows that this hub finalized or skipped itself, before any batch. -/
def Unlanded (rows : LandedRows) : Prop :=
  ∀ e ∈ rows.entries, e.2.snapshot.sourceActionIndex = none ∧ e.2.batchBlockTime = 0

def unlanded (rows : LandedRows) (fences : Fences) : Landings := ⟨rows, fences, [], []⟩

end Landing

section Inserted

theorem final_not_skipped (held : Option Snapshot) : finalizedOver held ≠ .skipped := by
  unfold finalizedOver
  split <;> simp

theorem batch_row_kept (b : Batch) (held : Option LandedRow) : ¬(batchSnapshotRow b held).skipped :=
  final_not_skipped _

theorem batch_row_twice (b : Batch) (held : Option LandedRow) :
    batchSnapshotRow b (some (batchSnapshotRow b held)) = batchSnapshotRow b held := by
  have status : finalizedOver (some (batchSnapshotRow b held).snapshot) =
      finalizedOver (held.map LandedRow.snapshot) := by
    simp only [batchSnapshotRow, pushedSnapshot, finalizedOver, Option.any_some, decide_eq_true_eq]
    split <;> simp
  cases held with
  | none =>
    simp only [batchSnapshotRow, pushedSnapshot, Option.map_some, Option.elim_some,
      Option.elim_none, earlier_self]
    rfl
  | some row =>
    simp only [batchSnapshotRow, pushedSnapshot, Option.map_some, Option.elim_some, earlier_twice]
      at status ⊢
    rw [status]

theorem batch_insert_get (b : Batch) (rows : LandedRows) (r : ℕ × List String) (round : ℕ)
    (pair : String) :
    (batchRoundInsert b rows r).get (round, pair) =
      if round = r.1 ∧ pair ∈ r.2 then some (batchSnapshotRow b (rows.get (round, pair)))
      else rows.get (round, pair) := by
  obtain ⟨n, pairs⟩ := r
  induction pairs generalizing rows with
  | nil => simp [batchRoundInsert]
  | cons first rest ih =>
    have step : batchRoundInsert b rows (n, first :: rest) =
        batchRoundInsert b (rows.set (n, first) (batchSnapshotRow b (rows.get (n, first))))
          (n, rest) := rfl
    rw [step, ih]
    by_cases here : (round, pair) = (n, first)
    · obtain ⟨rfl, rfl⟩ := Prod.mk.inj here
      simp only [OrderedMap.get_set_same, batch_row_twice]
      simp
    · have other : ¬(round = n ∧ pair = first) := fun both => here (by rw [both.1, both.2])
      rw [OrderedMap.get_set_other here]
      congr 1
      simp only [List.mem_cons]
      grind

theorem stamp_get (blockTime : ℕ) (rows : LandedRows) (n round : ℕ) (pair : String) :
    (stampBatchLanding blockTime rows n).get (round, pair) =
      if round = n then (rows.get (round, pair)).map (stampedRow blockTime)
      else rows.get (round, pair) := by
  simp only [stampBatchLanding, OrderedMap.get_map_values]
  split
  · rfl
  · simp

@[simp] theorem stamped_skipped {blockTime : ℕ} {row : LandedRow} :
    (stampedRow blockTime row).skipped ↔ row.skipped := by
  simp only [stampedRow]
  split <;> rfl

theorem stamped_snapshot (blockTime : ℕ) (row : LandedRow) :
    (stampedRow blockTime row).snapshot = row.snapshot ∧
      (stampedRow blockTime row).window = row.window := by
  simp only [stampedRow]
  split <;> exact ⟨rfl, rfl⟩

theorem stamped_clock {blockTime : ℕ} {row : LandedRow} (kept : ¬row.skipped) :
    (stampedRow blockTime row).batchBlockTime = earlier row.batchBlockTime blockTime := by
  simp [stampedRow, kept]

theorem stamped_of_skipped {blockTime : ℕ} {row : LandedRow} (skipped : row.skipped) :
    stampedRow blockTime row = row := by
  simp [stampedRow, skipped]

end Inserted

section Stored
variable {b : Batch} {existing : List (ℕ × Snapshot)} {rows : LandedRows}

theorem store_other {r : ℕ × List String} {round : ℕ} (other : round ≠ r.1) (pair : String) :
    (storeLandedRound b existing rows r).get (round, pair) = rows.get (round, pair) := by
  simp only [storeLandedRound]
  split
  · simp [batch_insert_get, other]
  · rw [stamp_get, if_neg other]
    split
    · simp [batch_insert_get, other]
    · rfl

/-- A round of the batch that no live row holds. -/
theorem store_new {r : ℕ × List String} (unheld : heldRows existing r.1 = []) (pair : String) :
    (storeLandedRound b existing rows r).get (r.1, pair) =
      if pair ∈ r.2 then some (batchSnapshotRow b (rows.get (r.1, pair)))
      else rows.get (r.1, pair) := by
  simp [storeLandedRound, unheld, batch_insert_get]

/-- One that is held is moved or not, and stamped. -/
theorem store_held {r : ℕ × List String} (held : heldRows existing r.1 ≠ []) (pair : String) :
    (storeLandedRound b existing rows r).get (r.1, pair) =
      (if orphanedBatchLandingOf b.push (heldRows existing r.1) ∧ pair ∈ r.2 then
        some (batchSnapshotRow b (rows.get (r.1, pair)))
      else rows.get (r.1, pair)).map (stampedRow b.blockTime) := by
  simp only [storeLandedRound, List.isEmpty_iff, held, if_false, stamp_get, if_true]
  by_cases orphaned : orphanedBatchLandingOf b.push (heldRows existing r.1) = true
  · simp [orphaned, batch_insert_get]
  · simp [orphaned]

/- What a round stores depends on its own rows only. -/
theorem store_local {others : LandedRows} {r : ℕ × List String} {pair : String}
    (same : rows.get (r.1, pair) = others.get (r.1, pair)) :
    (storeLandedRound b existing rows r).get (r.1, pair) =
      (storeLandedRound b existing others r).get (r.1, pair) := by
  by_cases held : heldRows existing r.1 = []
  · rw [store_new held, store_new held, same]
  · rw [store_held held, store_held held, same]

theorem stored_unlisted {rounds : List (ℕ × List String)} {round : ℕ}
    (unlisted : round ∉ rounds.map Prod.fst) (pair : String) :
    (rounds.foldl (storeLandedRound b existing) rows).get (round, pair) =
      rows.get (round, pair) := by
  induction rounds generalizing rows with
  | nil => rfl
  | cons r rest ih =>
    simp only [List.map_cons, List.mem_cons, not_or] at unlisted
    rw [List.foldl_cons, ih unlisted.2, store_other unlisted.1]

theorem stored_listed {rounds : List (ℕ × List String)}
    (ascending : (rounds.map Prod.fst).Pairwise (· < ·)) {r : ℕ × List String} (listed : r ∈ rounds)
    (pair : String) :
    (rounds.foldl (storeLandedRound b existing) rows).get (r.1, pair) =
      (storeLandedRound b existing rows r).get (r.1, pair) := by
  induction rounds generalizing rows with
  | nil => exact absurd listed (by simp)
  | cons first rest ih =>
    rw [List.map_cons, List.pairwise_cons] at ascending
    rw [List.foldl_cons]
    rcases List.mem_cons.mp listed with rfl | later
    · have unlisted : r.1 ∉ rest.map Prod.fst := fun again =>
        absurd (ascending.1 _ again) (lt_irrefl _)
      exact stored_unlisted unlisted pair
    · have other : r.1 ≠ first.1 :=
        (ascending.1 _ (List.mem_map_of_mem later)).ne'
      rw [ih ascending.2 later, store_local (store_other other pair)]

theorem held_empty_iff {rounds : List ℕ} {round : ℕ} (asked : round ∈ rounds) :
    heldRows (batchPresenceRows rows rounds) round = [] ↔
      ∀ pair row, rows.get (round, pair) = some row → row.skipped := by
  simp only [heldRows, batchPresenceRows, List.map_eq_nil_iff, List.filter_eq_nil_iff,
    List.mem_map, List.mem_filter, decide_eq_true_eq, Bool.and_eq_true, not_and, not_not]
  constructor
  · intro all pair row held
    exact all (round, row.snapshot)
      ⟨((round, pair), row), ⟨OrderedMap.mem_of_get held, asked⟩, rfl⟩ rfl
  · rintro all e ⟨⟨⟨n, pair⟩, row⟩, ⟨member, -⟩, rfl⟩ rfl
    exact all pair row (OrderedMap.get_of_mem member)

end Stored
section Rounds
variable {b : Batch} {rows : LandedRows}

def presence (b : Batch) (rows : LandedRows) (round : ℕ) : List Snapshot :=
  heldRows (batchPresenceRows rows (b.push.rounds.map Prod.fst)) round

def Batch.moves (b : Batch) (rows : LandedRows) (round : ℕ) : Prop :=
  presence b rows round ≠ [] ∧ orphanedBatchLandingOf b.push (presence b rows round) = true

instance (b : Batch) (rows : LandedRows) (round : ℕ) : Decidable (b.moves rows round) :=
  inferInstanceAs (Decidable (_ ∧ _))

theorem round_other {round : ℕ} (outside : ¬b.carries round) (pair : String) :
    (storeBatchRounds b rows).get (round, pair) = rows.get (round, pair) :=
  stored_unlisted outside pair

theorem unheld_skipped {r : ℕ × List String} (listed : r ∈ b.push.rounds)
    (unheld : presence b rows r.1 = []) {pair : String} {row : LandedRow}
    (stored : rows.get (r.1, pair) = some row) : row.skipped :=
  (held_empty_iff (List.mem_map_of_mem listed)).mp unheld pair row stored

theorem round_new {r : ℕ × List String} (listed : r ∈ b.push.rounds)
    (unheld : presence b rows r.1 = []) (pair : String) :
    (storeBatchRounds b rows).get (r.1, pair) =
      if pair ∈ r.2 then some (batchSnapshotRow b (rows.get (r.1, pair)))
      else rows.get (r.1, pair) :=
  (stored_listed b.ascending listed pair).trans (store_new unheld pair)

theorem round_held {r : ℕ × List String} (listed : r ∈ b.push.rounds)
    (held : presence b rows r.1 ≠ []) (pair : String) :
    (storeBatchRounds b rows).get (r.1, pair) =
      (if b.moves rows r.1 ∧ pair ∈ r.2 then some (batchSnapshotRow b (rows.get (r.1, pair)))
      else rows.get (r.1, pair)).map (stampedRow b.blockTime) := by
  have moved : b.moves rows r.1 ↔ orphanedBatchLandingOf b.push (presence b rows r.1) = true :=
    and_iff_right held
  rw [storeBatchRounds, stored_listed b.ascending listed pair, store_held held]
  simp only [moved]
  rfl

/-- What a batch leaves at a key: the old row, stamped or not, or its own. -/
theorem stored_row {key : ℕ × String} {row : LandedRow}
    (stored : (storeBatchRounds b rows).get key = some row) :
    (∃ old, rows.get key = some old ∧ row.snapshot = old.snapshot ∧ row.window = old.window) ∨
      b.carries key.1 ∧ row.snapshot = (batchSnapshotRow b (rows.get key)).snapshot ∧
        row.window = some (b.firstRound, b.lastRound) := by
  obtain ⟨round, pair⟩ := key
  by_cases carried : b.carries round
  · obtain ⟨r, listed, rfl⟩ := List.mem_map.mp carried
    by_cases unheld : presence b rows r.1 = []
    · rw [round_new listed unheld] at stored
      split at stored
      · rw [← Option.some.inj stored]
        exact Or.inr ⟨carried, rfl, rfl⟩
      · exact Or.inl ⟨row, stored, rfl, rfl⟩
    · rw [round_held listed unheld, Option.map_eq_some_iff] at stored
      obtain ⟨old, held, rfl⟩ := stored
      obtain ⟨snapshot, window⟩ := stamped_snapshot b.blockTime old
      split at held
      · refine Or.inr ⟨carried, ?_, ?_⟩
        · rw [snapshot, Option.some.inj held]
        · rw [window, ← Option.some.inj held]
          rfl
      · exact Or.inl ⟨old, held, snapshot, window⟩
  · rw [round_other carried] at stored
    exact Or.inl ⟨row, stored, rfl, rfl⟩

end Rounds

section Invariant

/- Skipped rows carry no clock, and a row with a source action was last stored from a delivered
   batch that carries its round. -/
structure Sourced (w : Landings) : Prop where
  skippedClock : ∀ key row, w.rows.get key = some row → row.skipped → row.batchBlockTime = 0
  source : ∀ key row action, w.rows.get key = some row →
    row.snapshot.sourceActionIndex = some action → ∃ b ∈ w.delivered, b.carries key.1 ∧
      b.push.chain = row.snapshot.sourceChain ∧ b.push.actionIndex = some action ∧
        b.push.pushGeneration = row.snapshot.pushGeneration ∧
          row.window = some (b.firstRound, b.lastRound)

/-- A selected row's batch is retracted with it. -/
theorem selected_source {w : Landings} (sourced : Sourced w) {key : ℕ × String} {row : LandedRow}
    (held : w.rows.get key = some row) {r : Bounds} (selected : row.selectedBy r = true) :
    ∃ b ∈ w.delivered, b.carries key.1 ∧ b.retractedBy r = true ∧
      row.window = some (b.firstRound, b.lastRound) := by
  obtain ⟨action, named, inside⟩ := (Option.any_eq_true _ _).mp selected
  obtain ⟨b, delivered, carried, chain, index, generation, window⟩ :=
    sourced.source key row action held named
  refine ⟨b, delivered, carried, ?_, window⟩
  simp [Batch.retractedBy, index, chain, generation, inside]

theorem carried_inside {b : Batch} {round : ℕ} (carried : b.carries round) :
    b.firstRound ≤ round ∧ round ≤ b.lastRound := by
  obtain ⟨r, listed, rfl⟩ := List.mem_map.mp carried
  exact b.inside r listed

theorem landing_concat {w : Landings} {b : Batch} {rows : LandedRows} (round : ℕ) :
    landing { w with rows := rows, delivered := w.delivered ++ [b] } round =
      if w.retracted.any b.retractedBy = false ∧ b.carries round then
        earlier (landing w round) b.blockTime
      else landing w round := by
  simp only [landing, surviving, List.filter_append, List.map_append]
  by_cases gone : w.retracted.any b.retractedBy = true
  · simp [gone]
  · by_cases carried : b.carries round
    · simp [gone, carried, earliest_concat]
    · simp [gone, carried]

theorem clocks_positive (bs : List Batch) : ∀ s ∈ bs.map Batch.blockTime, 0 < s := by
  intro s stamped
  obtain ⟨b, -, rfl⟩ := List.mem_map.mp stamped
  exact b.landed

theorem landing_pos {w : Landings} {round : ℕ} :
    landing w round ≠ 0 ↔ ∃ b ∈ surviving w, b.carries round := by
  rw [landing, Ne, earliest_eq_zero (clocks_positive _)]
  simp

/-- The landing is the clock of a batch that carries the round, and no later than any other. -/
theorem landing_least {w : Landings} {round : ℕ} (carried : ∃ b ∈ surviving w, b.carries round) :
    (∃ b ∈ surviving w, b.carries round ∧ landing w round = b.blockTime) ∧
      ∀ b ∈ surviving w, b.carries round → landing w round ≤ b.blockTime := by
  have some : ((surviving w).filter (fun b => b.carries round)).map Batch.blockTime ≠ [] := by
    obtain ⟨b, survives, carries⟩ := carried
    have member : b ∈ (surviving w).filter (fun b => b.carries round) :=
      List.mem_filter.mpr ⟨survives, decide_eq_true carries⟩
    exact List.ne_nil_of_mem (List.mem_map_of_mem member)
  constructor
  · obtain ⟨b, member, clock⟩ := List.mem_map.mp (earliest_mem some)
    obtain ⟨survives, carries⟩ := List.mem_filter.mp member
    exact ⟨b, survives, of_decide_eq_true carries, clock.symm⟩
  · intro b survives carries
    have member : b ∈ (surviving w).filter (fun b => b.carries round) :=
      List.mem_filter.mpr ⟨survives, decide_eq_true carries⟩
    exact earliest_le (clocks_positive _) _ (List.mem_map_of_mem member)

end Invariant
section Stamping
variable {w : Landings} {b : Batch}

theorem new_round_stamped (holds : HoldsLanding w) (sourced : Sourced w) {r : ℕ × List String}
    (listed : r ∈ b.push.rounds) (unheld : presence b w.rows r.1 = []) {pair : String}
    {row : LandedRow} (stored : (storeBatchRounds b w.rows).get (r.1, pair) = some row)
    (kept : ¬row.skipped) : row.batchBlockTime = earlier (landing w r.1) b.blockTime := by
  have unlanded : landing w r.1 = 0 := by
    by_contra some
    obtain ⟨q, old, held, live⟩ := (holds r.1).2 some
    exact live (unheld_skipped listed unheld held)
  rw [unlanded, earlier_zero]
  rw [round_new listed unheld] at stored
  split at stored
  · rw [← Option.some.inj stored]
    cases held : w.rows.get (r.1, pair) with
    | none => rfl
    | some old =>
      have blank := sourced.skippedClock _ old held (unheld_skipped listed unheld held)
      simp [batchSnapshotRow, blank]
  · exact absurd (unheld_skipped listed unheld stored) kept

theorem held_round_stamped (holds : HoldsLanding w) {r : ℕ × List String}
    (listed : r ∈ b.push.rounds) (heldRound : presence b w.rows r.1 ≠ [])
    (complete : b.moves w.rows r.1 → ∀ pair ∈ r.2, ∃ row, w.rows.get (r.1, pair) = some row ∧
      ¬row.skipped)
    {pair : String} {row : LandedRow}
    (stored : (storeBatchRounds b w.rows).get (r.1, pair) = some row) (kept : ¬row.skipped) :
    row.batchBlockTime = earlier (landing w r.1) b.blockTime := by
  rw [round_held listed heldRound, Option.map_eq_some_iff] at stored
  obtain ⟨old, held, rfl⟩ := stored
  rw [stamped_skipped] at kept
  rw [stamped_clock kept]
  split at held
  · rename_i moved
    obtain ⟨before, present, live⟩ := complete moved.1 pair moved.2
    rw [present] at held
    rw [← Option.some.inj held]
    have clock := (holds r.1).1 pair before present live
    simp only [batchSnapshotRow, Option.elim_some, clock, earlier_twice]
  · rw [(holds r.1).1 pair old held kept]

/-- A round that a batch carries has a live row once the batch is stored. -/
theorem round_stored {r : ℕ × List String} (listed : r ∈ b.push.rounds) :
    ∃ pair row, (storeBatchRounds b w.rows).get (r.1, pair) = some row ∧ ¬row.skipped := by
  by_cases unheld : presence b w.rows r.1 = []
  · obtain ⟨pair, member⟩ := List.exists_mem_of_ne_nil _ (b.paired r listed)
    exact ⟨pair, _, by rw [round_new listed unheld, if_pos member], batch_row_kept b _⟩
  · have live : ∃ pair row, w.rows.get (r.1, pair) = some row ∧ ¬row.skipped := by
      by_contra none
      push Not at none
      exact unheld ((held_empty_iff (List.mem_map_of_mem listed)).mpr none)
    obtain ⟨pair, row, held, kept⟩ := live
    by_cases moved : b.moves w.rows r.1 ∧ pair ∈ r.2
    · exact ⟨pair, _, by rw [round_held listed unheld, if_pos moved, Option.map_some],
        fun skipped => batch_row_kept b _ (stamped_skipped.mp skipped)⟩
    · exact ⟨pair, _, by rw [round_held listed unheld, if_neg moved, held, Option.map_some],
        fun skipped => kept (stamped_skipped.mp skipped)⟩

/-- A batch that the fence lets through. -/
theorem stored_holds (holds : HoldsLanding w) (sourced : Sourced w)
    (live : w.retracted.any b.retractedBy = false)
    (complete : ∀ r ∈ b.push.rounds, b.moves w.rows r.1 → ∀ pair ∈ r.2,
      ∃ row, w.rows.get (r.1, pair) = some row ∧ ¬row.skipped) :
    HoldsLanding { w with rows := storeBatchRounds b w.rows, delivered := w.delivered ++ [b] } := by
  intro round
  dsimp only
  rw [landing_concat]
  by_cases carried : b.carries round
  · rw [if_pos ⟨live, carried⟩]
    obtain ⟨r, listed, rfl⟩ := List.mem_map.mp carried
    refine ⟨fun pair row stored kept => ?_, fun _ => round_stored listed⟩
    by_cases unheld : presence b w.rows r.1 = []
    · exact new_round_stamped holds sourced listed unheld stored kept
    · exact held_round_stamped holds listed unheld (complete r listed) stored kept
  · rw [if_neg (fun both => carried both.2)]
    simp only [round_other carried]
    exact holds round

/-- One that it refuses, all of whose landings are retracted. -/
theorem refused_holds (holds : HoldsLanding w) (gone : w.retracted.any b.retractedBy = true) :
    HoldsLanding { w with delivered := w.delivered ++ [b] } := by
  intro round
  have same := @landing_concat w b w.rows round
  rw [if_neg (by simp [gone])] at same
  dsimp only at same ⊢
  rw [same]
  exact holds round

theorem stored_skipped_clock (sourced : Sourced w) {key : ℕ × String} {row : LandedRow}
    (stored : (storeBatchRounds b w.rows).get key = some row) (skipped : row.skipped) :
    row.batchBlockTime = 0 := by
  obtain ⟨round, pair⟩ := key
  by_cases carried : b.carries round
  · obtain ⟨r, listed, rfl⟩ := List.mem_map.mp carried
    by_cases unheld : presence b w.rows r.1 = []
    · rw [round_new listed unheld] at stored
      split at stored
      · exact absurd (Option.some.inj stored ▸ skipped) (batch_row_kept b _)
      · exact sourced.skippedClock _ _ stored skipped
    · rw [round_held listed unheld, Option.map_eq_some_iff] at stored
      obtain ⟨old, held, rfl⟩ := stored
      rw [stamped_skipped] at skipped
      rw [stamped_of_skipped skipped]
      split at held
      · exact absurd (Option.some.inj held ▸ skipped) (batch_row_kept b _)
      · exact sourced.skippedClock _ _ held skipped
  · rw [round_other carried] at stored
    exact sourced.skippedClock _ _ stored skipped

theorem stored_sourced (sourced : Sourced w) :
    Sourced { w with rows := storeBatchRounds b w.rows, delivered := w.delivered ++ [b] } where
  skippedClock := fun key row stored skipped => stored_skipped_clock sourced stored skipped
  source := by
    intro key row action stored named
    rcases stored_row stored with ⟨old, held, snapshot, window⟩ | ⟨carried, snapshot, window⟩
    · rw [snapshot] at named ⊢
      rw [window]
      obtain ⟨before, delivered, rest⟩ := sourced.source key old action held named
      exact ⟨before, List.mem_append_left _ delivered, rest⟩
    · rw [snapshot] at named ⊢
      exact ⟨b, List.mem_append_right _ (List.mem_singleton_self b), carried, rfl, named, rfl,
        window⟩

theorem refused_sourced (sourced : Sourced w) :
    Sourced { w with delivered := w.delivered ++ [b] } where
  skippedClock := sourced.skippedClock
  source := by
    intro key row action held named
    obtain ⟨before, delivered, rest⟩ := sourced.source key row action held named
    exact ⟨before, List.mem_append_left _ delivered, rest⟩

end Stamping
section Clearing
variable {w : Landings} {r : BatchRetraction}

def retractedRows (rows : LandedRows) (r : BatchRetraction) : LandedRows :=
  resetRetractedBatchWindows (snapshotRetractionDeleteKeeping
    (resetOrphanedLandingBlockTimes rows r.bounds) r.bounds (keepRounds rows r)) r

theorem kept_get (rows : LandedRows) (b : Bounds) (keep : List ℕ) (key : ℕ × String) :
    (snapshotRetractionDeleteKeeping rows b keep).get key =
      (rows.get key).filter (fun row => !(row.selectedBy b && !keep.contains key.1)) := by
  ext row
  rw [OrderedMap.get_eq_some_iff, snapshotRetractionDeleteKeeping, OrderedMap.mem_filter,
    Option.filter_eq_some_iff, OrderedMap.get_eq_some_iff]

/- What is left of a row. -/
theorem retracted_row {key : ℕ × String} {row : LandedRow}
    (left : (retractedRows w.rows r).get key = some row) :
    ∃ old, w.rows.get key = some old ∧ row.snapshot = old.snapshot ∧ row.window = old.window ∧
      (row.batchBlockTime = old.batchBlockTime ∨ row.batchBlockTime = 0) := by
  simp only [retractedRows, resetRetractedBatchWindows, OrderedMap.get_map_values, kept_get,
    resetOrphanedLandingBlockTimes, Option.map_eq_some_iff, Option.filter_eq_some_iff] at left
  obtain ⟨mid, ⟨⟨old, held, rfl⟩, -⟩, rfl⟩ := left
  refine ⟨old, held, ?_⟩
  split
  · split
    · exact ⟨rfl, rfl, Or.inr rfl⟩
    · exact ⟨rfl, rfl, Or.inr rfl⟩
  · split
    · exact ⟨rfl, rfl, Or.inr rfl⟩
    · exact ⟨rfl, rfl, Or.inl rfl⟩

theorem named_row_cleared {round : ℕ} (named : r.names round) {pair : String} {row : LandedRow}
    (left : (retractedRows w.rows r).get (round, pair) = some row) (kept : ¬row.skipped) :
    row.batchBlockTime = 0 := by
  simp only [retractedRows, resetRetractedBatchWindows, OrderedMap.get_map_values,
    Option.map_eq_some_iff] at left
  obtain ⟨old, -, rfl⟩ := left
  by_cases skipped : old.skipped
  · rw [if_neg (fun both => both.2 skipped)] at kept
    exact absurd skipped kept
  · rw [if_pos ⟨named, skipped⟩]

/- The windows that a retraction names reach over every batch that it selects. -/
def NamesSelected (w : Landings) (r : BatchRetraction) : Prop :=
  ∀ b ∈ w.delivered, b.retractedBy r.bounds = true →
    ∀ round ≤ b.lastRound, b.firstRound ≤ round → r.names round

instance (w : Landings) (r : BatchRetraction) : Decidable (NamesSelected w r) :=
  inferInstanceAs (Decidable (∀ b ∈ _, _))

theorem orphaned_window_named (sourced : Sourced w) (names : NamesSelected w r)
    {x : (ℕ × ℕ) × ℕ} (orphaned : x ∈ retractedLandingWindows w.rows r.bounds) {round : ℕ}
    (inside : within x.1 round) : r.names round := by
  obtain ⟨⟨key, row⟩, member, found⟩ := List.mem_filterMap.mp orphaned
  dsimp only at found
  split at found
  · rename_i selected
    simp only [Bool.and_eq_true] at selected
    obtain ⟨b, delivered, -, retracted, window⟩ :=
      selected_source sourced (OrderedMap.get_of_mem member) selected.1.1
    rw [window, Option.map_eq_some_iff] at found
    obtain ⟨span, kept, rfl⟩ := found
    obtain ⟨named, -⟩ := Option.filter_eq_some_iff.mp kept
    rw [← Option.some.inj named] at inside
    exact names b delivered retracted round inside.2 inside.1
  · exact absurd found (by simp)

/-- Outside the windows nothing moves. -/
theorem unnamed_row_kept (sourced : Sourced w) (names : NamesSelected w r) {round : ℕ}
    (unnamed : ¬r.names round) (pair : String) :
    (retractedRows w.rows r).get (round, pair) = w.rows.get (round, pair) := by
  have unreset : ∀ x ∈ retractedLandingWindows w.rows r.bounds, ¬within x.1 round :=
    fun x orphaned inside => unnamed (orphaned_window_named sourced names orphaned inside)
  have unselected : ∀ row, w.rows.get (round, pair) = some row →
      row.selectedBy r.bounds = false := by
    intro row held
    by_contra selected
    obtain ⟨b, delivered, carried, retracted, -⟩ :=
      selected_source sourced held (Bool.not_eq_false _ ▸ selected)
    obtain ⟨low, high⟩ := carried_inside carried
    exact unnamed (names b delivered retracted round high low)
  simp only [retractedRows, resetRetractedBatchWindows, OrderedMap.get_map_values, kept_get,
    resetOrphanedLandingBlockTimes]
  cases held : w.rows.get (round, pair) with
  | none => rfl
  | some row =>
    have untouched : ¬∃ x ∈ retractedLandingWindows w.rows r.bounds,
        within x.1 round ∧ row.batchBlockTime = x.2 :=
      fun ⟨x, orphaned, inside, _⟩ => unreset x orphaned inside
    rw [Option.map_some, if_neg (fun all => untouched all.2.2)]
    simp [unselected row held, unnamed]

end Clearing

section Retracting
variable {w : Landings} {r : BatchRetraction} {rows : LandedRows} {fences : Fences}

def retracting (w : Landings) (rows : LandedRows) (fences : Fences) (b : Bounds) : Landings :=
  { w with rows := rows, fences := fences, retracted := w.retracted ++ [b] }

theorem surviving_retracting (b : Bounds) :
    surviving (retracting w rows fences b) = (surviving w).filter (fun x => !x.retractedBy b) := by
  simp only [surviving, retracting, List.filter_filter, List.any_append, List.any_cons,
    List.any_nil, Bool.or_false, Bool.not_or]
  exact List.filter_congr (fun x _ => Bool.and_comm _ _)

/- No window of a retraction reaches into a batch that survives it. -/
def SparesSurviving (w : Landings) (r : BatchRetraction) : Prop :=
  ∀ b ∈ surviving w, b.retractedBy r.bounds = false →
    ∀ round ∈ b.push.rounds.map Prod.fst, ¬r.names round

instance (w : Landings) (r : BatchRetraction) : Decidable (SparesSurviving w r) :=
  inferInstanceAs (Decidable (∀ b ∈ _, _))

theorem landing_named (spares : SparesSurviving w r) {round : ℕ} (named : r.names round) :
    landing (retracting w rows fences r.bounds) round = 0 := by
  by_contra landed
  obtain ⟨b, survives, carried⟩ := landing_pos.mp landed
  rw [surviving_retracting, List.mem_filter, Bool.not_eq_true'] at survives
  exact spares b survives.1 survives.2 round carried named

theorem landing_unnamed (names : NamesSelected w r) {round : ℕ} (unnamed : ¬r.names round) :
    landing (retracting w rows fences r.bounds) round = landing w round := by
  rw [landing, landing, surviving_retracting, List.filter_filter]
  congr 2
  apply List.filter_congr
  intro b survives
  by_cases carried : b.carries round
  · have live : b.retractedBy r.bounds = false := by
      by_contra gone
      obtain ⟨low, high⟩ := carried_inside carried
      have retracted : b.retractedBy r.bounds = true := Bool.not_eq_false _ ▸ gone
      exact unnamed (names b (List.mem_of_mem_filter survives) retracted round high low)
    simp [live]
  · simp [carried]

theorem retracted_holds (holds : HoldsLanding w) (sourced : Sourced w) (names : NamesSelected w r)
    (spares : SparesSurviving w r) :
    HoldsLanding (retracting w (retractedRows w.rows r) fences r.bounds) := by
  intro round
  by_cases named : r.names round
  · rw [landing_named spares named]
    exact ⟨fun pair row left kept => named_row_cleared named left kept,
      fun landed => absurd rfl landed⟩
  · rw [landing_unnamed names named]
    dsimp only [retracting]
    simp only [unnamed_row_kept sourced names named]
    exact holds round

theorem retracted_sourced (sourced : Sourced w) :
    Sourced (retracting w (retractedRows w.rows r) fences r.bounds) where
  skippedClock := by
    intro key row left skipped
    obtain ⟨old, held, snapshot, -, clock⟩ := retracted_row left
    have blank : old.batchBlockTime = 0 := by
      apply sourced.skippedClock key old held
      rw [LandedRow.skipped, ← snapshot]
      exact skipped
    rcases clock with kept | cleared
    · rw [kept, blank]
    · exact cleared
  source := by
    intro key row action left named
    obtain ⟨old, held, snapshot, window, -⟩ := retracted_row left
    rw [snapshot] at named ⊢
    rw [window]
    exact sourced.source key old action held named

end Retracting

section Runs
variable (network : String)

/- The fence refuses just what a retraction on record selects, and a round is moved only where
   each pair that the batch prices for it is held; a retraction names the rounds of every batch
   that it selects and none that a surviving batch carries. -/
def Orderly (w : Landings) : Delivery → Prop
  | .batch b =>
    fencedOff network w b.push = w.retracted.any b.retractedBy ∧
      (fencedOff network w b.push = false → ∀ r ∈ b.push.rounds, b.moves w.rows r.1 →
        ∀ pair ∈ r.2, ∃ row ∈ w.rows.get (r.1, pair), ¬row.skipped)
  | .retraction r => NamesSelected w r ∧ SparesSurviving w r

instance (w : Landings) : (d : Delivery) → Decidable (Orderly network w d)
  | .batch _ => inferInstanceAs (Decidable (_ ∧ _))
  | .retraction _ => inferInstanceAs (Decidable (_ ∧ _))

theorem orderly_step {w : Landings} {d : Delivery} (inv : HoldsLanding w ∧ Sourced w)
    (orderly : Orderly network w d) :
    HoldsLanding (deliver network w d) ∧ Sourced (deliver network w d) := by
  obtain ⟨holds, sourced⟩ := inv
  cases d with
  | batch b =>
    obtain ⟨fence, complete⟩ := orderly
    simp only [deliver]
    split
    · rename_i refused
      exact ⟨refused_holds holds (fence ▸ refused), refused_sourced sourced⟩
    · rename_i accepted
      have live : w.retracted.any b.retractedBy = false := by
        rw [← fence]
        exact Bool.not_eq_true _ ▸ accepted
      exact ⟨stored_holds holds sourced live (complete (fence.trans live)), stored_sourced sourced⟩
  | retraction r =>
    exact ⟨retracted_holds holds sourced orderly.1 orderly.2, retracted_sourced sourced⟩

theorem unlanded_holds {rows : LandedRows} (fresh : Unlanded rows) (fences : Fences) :
    HoldsLanding (unlanded rows fences) ∧ Sourced (unlanded rows fences) := by
  refine ⟨fun round => ⟨fun pair row held _ => ?_, fun landed => absurd rfl landed⟩, ?_, ?_⟩
  · exact (fresh _ (OrderedMap.mem_of_get held)).2
  · exact fun key row held _ => (fresh _ (OrderedMap.mem_of_get held)).2
  · intro key row action held named
    have unsourced := (fresh _ (OrderedMap.mem_of_get held)).1
    exact absurd (unsourced.symm.trans named) (by simp)

theorem orderly_run {rows : LandedRows} (fresh : Unlanded rows) (fences : Fences)
    {ds : List Delivery}
    (orderly : Admitted (deliver network) (Orderly network) (unlanded rows fences) ds) :
    HoldsLanding (run (deliver network) (unlanded rows fences) ds) :=
  (run_invariant (fun w => HoldsLanding w ∧ Sourced w)
    (fun _ _ inv next => orderly_step network inv next) (unlanded_holds fresh fences) orderly).1

theorem landing_clock_earliest {rows : LandedRows} (fresh : Unlanded rows) (fences : Fences)
    {ds : List Delivery}
    (orderly : Admitted (deliver network) (Orderly network) (unlanded rows fences) ds) :
    HoldsLanding (run (deliver network) (unlanded rows fences) ds) ∧
      ∀ w round, (∀ b ∈ surviving w, ¬b.carries round) ∧ landing w round = 0 ∨
        (∃ b ∈ surviving w, b.carries round ∧ landing w round = b.blockTime) ∧
          ∀ b ∈ surviving w, b.carries round → landing w round ≤ b.blockTime := by
  refine ⟨orderly_run network fresh fences orderly, fun w round => ?_⟩
  by_cases carried : ∃ b ∈ surviving w, b.carries round
  · exact Or.inr (landing_least carried)
  · refine Or.inl ⟨fun b survives carries => carried ⟨b, survives, carries⟩, ?_⟩
    by_contra landed
    exact carried (landing_pos.mp landed)

def Delivery.delivered : Delivery → Option Batch
  | .batch b => some b
  | .retraction _ => none

def Delivery.retracted : Delivery → Option Bounds
  | .batch _ => none
  | .retraction r => some r.bounds

theorem run_records (w : Landings) (ds : List Delivery) :
    (run (deliver network) w ds).delivered = w.delivered ++ ds.filterMap Delivery.delivered ∧
      (run (deliver network) w ds).retracted = w.retracted ++ ds.filterMap Delivery.retracted := by
  induction ds generalizing w with
  | nil => simp [run]
  | cons d ds ih =>
    rw [run, List.foldl_cons]
    have rest := ih (deliver network w d)
    rw [run] at rest
    rw [rest.1, rest.2]
    cases d with
    | batch b => simp [deliver, List.filterMap_cons, Delivery.delivered, Delivery.retracted]
    | retraction r => simp [deliver, List.filterMap_cons, Delivery.delivered, Delivery.retracted]

/-- The landing is a matter of what came, not of its order or how often it came. -/
theorem landing_congr {w w' : Landings} (delivered : ∀ b, b ∈ w.delivered ↔ b ∈ w'.delivered)
    (retracted : ∀ b, b ∈ w.retracted ↔ b ∈ w'.retracted) (round : ℕ) :
    landing w round = landing w' round := by
  have gone : ∀ b : Batch, w.retracted.any b.retractedBy = w'.retracted.any b.retractedBy := by
    intro b
    rw [Bool.eq_iff_iff, List.any_eq_true, List.any_eq_true]
    simp only [retracted]
  apply earliest_congr (clocks_positive _)
  intro s
  simp only [List.mem_map, surviving, List.mem_filter, delivered, gone]

/-- Two orderly runs over the same deliveries leave a round one clock. -/
theorem order_independent {rows rows' : LandedRows} (fresh : Unlanded rows)
    (fresh' : Unlanded rows') (fences fences' : Fences) {ds es : List Delivery}
    (same : ∀ d, d ∈ ds ↔ d ∈ es)
    (first : Admitted (deliver network) (Orderly network) (unlanded rows fences) ds)
    (second : Admitted (deliver network) (Orderly network) (unlanded rows' fences') es)
    {round : ℕ} {pair pair' : String} {row row' : LandedRow}
    (held : (run (deliver network) (unlanded rows fences) ds).rows.get (round, pair) = some row)
    (held' : (run (deliver network) (unlanded rows' fences') es).rows.get (round, pair') =
      some row')
    (live : ¬row.skipped) (live' : ¬row'.skipped) : row.batchBlockTime = row'.batchBlockTime := by
  have clock := (orderly_run network fresh fences first round).1 pair row held live
  have clock' := (orderly_run network fresh' fences' second round).1 pair' row' held' live'
  rw [clock, clock']
  apply landing_congr
  · intro b
    simp only [(run_records network _ _).1, unlanded, List.nil_append, List.mem_filterMap, same]
  · intro b
    simp only [(run_records network _ _).2, unlanded, List.nil_append, List.mem_filterMap, same]

/- Two batches share round 2; a third lands after the second is rolled back. -/
def firstBatch : Batch :=
  ⟨⟨"DOGE", [(1, ["BTC-USD"]), (2, ["BTC-USD"])], some 10, 5⟩, 1, 2, 100, by decide, by decide,
    by decide, by decide⟩

def overlappingBatch : Batch :=
  ⟨⟨"DOGE", [(2, ["BTC-USD"]), (3, ["BTC-USD"])], some 11, 5⟩, 2, 3, 200, by decide, by decide,
    by decide, by decide⟩

def followingBatch (generation blockTime : ℕ) (later : 0 < blockTime) : Batch :=
  ⟨⟨"DOGE", [(3, ["BTC-USD"])], some 11, generation⟩, 3, 3, blockTime, by simp, by simp, by simp,
    later⟩

def rolledBack (window : ℕ × ℕ) : BatchRetraction := ⟨⟨"DOGE", 11, none, some 5⟩, [window], [1, 2]⟩

def sampleDeliveries : List Delivery :=
  [.batch firstBatch, .batch (followingBatch 5 200 (by decide)), .retraction (rolledBack (3, 3)),
    .batch firstBatch, .batch (followingBatch 6 150 (by decide)),
    .batch (followingBatch 5 200 (by decide))]

theorem landing_clock_earliest_rolled_back :
    HoldsLanding (run (deliver "mainnet") (unlanded .empty .empty) sampleDeliveries) ∧
      landing (run (deliver "mainnet") (unlanded .empty .empty) sampleDeliveries) 3 = 150 :=
  ⟨(landing_clock_earliest "mainnet" (by simp [Unlanded, OrderedMap.empty]) _
    (by decide +kernel)).1, by decide +kernel⟩

/-- The overlapping batches may come in either order. -/
theorem reversed_batches_one_clock :
    ∃ row ∈ (run (deliver "mainnet") (unlanded .empty .empty)
        [.batch firstBatch, .batch overlappingBatch]).rows.get (2, "BTC-USD"),
      ∃ row' ∈ (run (deliver "mainnet") (unlanded .empty .empty)
        [.batch overlappingBatch, .batch firstBatch]).rows.get (2, "BTC-USD"),
        row.batchBlockTime = row'.batchBlockTime := by
  obtain ⟨row, held, live⟩ : ∃ row ∈ (run (deliver "mainnet") (unlanded .empty .empty)
      [.batch firstBatch, .batch overlappingBatch]).rows.get (2, "BTC-USD"), ¬row.skipped := by
    decide +kernel
  obtain ⟨row', held', live'⟩ : ∃ row' ∈ (run (deliver "mainnet") (unlanded .empty .empty)
      [.batch overlappingBatch, .batch firstBatch]).rows.get (2, "BTC-USD"), ¬row'.skipped := by
    decide +kernel
  have fresh : Unlanded .empty := by simp [Unlanded, OrderedMap.empty]
  exact ⟨row, held, row', held', order_independent "mainnet" fresh fresh .empty .empty
    (by simp [or_comm]) (by decide +kernel) (by decide +kernel) held held' live live'⟩

/- The retraction of the overlapping batch clears round 2, which the first batch still carries;
   had it come before both batches, the round would have kept its clock. -/
theorem overlapping_landing_cleared :
    ¬(∀ (network : String) (rows : LandedRows) (fences : Fences) (ds : List Delivery),
      Unlanded rows → HoldsLanding (run (deliver network) (unlanded rows fences) ds)) ∧
    ((run (deliver "mainnet") (unlanded .empty .empty)
        [.retraction (rolledBack (2, 3)), .batch firstBatch, .batch overlappingBatch]).rows.get
      (2, "BTC-USD")).map LandedRow.batchBlockTime = some 100 := by
  refine ⟨fun all => ?_, by decide +kernel⟩
  have holds := all "mainnet" .empty .empty
    [.batch firstBatch, .batch overlappingBatch, .retraction (rolledBack (2, 3))]
    (by simp [Unlanded, OrderedMap.empty]) 2
  have cleared : ((run (deliver "mainnet") (unlanded .empty .empty) [.batch firstBatch,
      .batch overlappingBatch, .retraction (rolledBack (2, 3))]).rows.get (2, "BTC-USD")).any
        (fun row => row.batchBlockTime = 0 ∧ ¬row.skipped) = true := by decide +kernel
  have landed : landing (run (deliver "mainnet") (unlanded .empty .empty) [.batch firstBatch,
      .batch overlappingBatch, .retraction (rolledBack (2, 3))]) 2 = 100 := by decide +kernel
  obtain ⟨row, held, blank⟩ := (Option.any_eq_true _ _).mp cleared
  rw [decide_eq_true_eq] at blank
  have clock := holds.1 "BTC-USD" row held blank.2
  rw [blank.1, landed] at clock
  exact absurd clock (by decide)

end Runs
end XChainHub.PriceAggregator
