import XChainHub.Library.GuardedRuns
import XChainHub.Oracle.PriceAggregator.Ingest

/-!
What a processed retraction leaves in the price tables, over every run: whichever order the
pushes and the retractions come in, and however their handlers interleave.
-/
namespace XChainHub.PriceAggregator
open GuardedRuns GenerationFence
open SlotHeap (slotAt Every)

section Property

def OraclePrices.stampOf (e : (String × ℕ) × OraclePrice) : Stamp :=
  ⟨e.1.1, e.1.2, e.2.pushGeneration⟩

/-- No row that a processed retraction covers is present, and a retraction removes and has
    refused only what it covers. -/
structure Fenced (h : Hub) : Prop where
  snapshots : ∀ r ∈ h.processed, ∀ e ∈ h.snapshots.entries, ∀ s ∈ e.2.origin, ¬r.Covers s
  oraclePrices : ∀ r ∈ h.processed, ∀ e ∈ h.oraclePrices.entries, ¬r.Covers (OraclePrices.stampOf e)
  refused : ∀ x ∈ h.refused, x.1 ∈ h.recorded ∧ x.1.Covers x.2
  removed : ∀ x ∈ h.removed, x.1.Covers x.2

/-- Rows of this hub's own rounds may be there before any push. -/
structure Fresh (h : Hub) : Prop where
  rows : EveryRow (fun row => row.origin = none) h.snapshots
  oraclePrices : h.oraclePrices = OrderedMap.empty
  fences : h.fences = OrderedMap.empty
  tasks : h.tasks = []
  nothing : h.recorded = [] ∧ h.snapshotDeletes = [] ∧ h.oracleDeletes = [] ∧ h.processed = [] ∧
    h.refused = [] ∧ h.removed = []

/- A retraction that covers the push and already ran its delete stood in the fence when the push
   read it. -/
def Foreseen (deletes standing : List Retraction) (s : Stamp) : Prop :=
  ∀ r ∈ deletes, r.Covers s → r ∈ standing

/- The rows that a retraction covers name their source action. -/
def Reached (rows : Snapshots) (r : Retraction) : Prop :=
  ∀ e ∈ rows.entries, ∀ s ∈ e.2.origin, r.Covers s → e.2.sourceActionIndex ≠ none

def TaskForesees (h : Hub) (verified : Bool) : Task → Prop
  | .roundVerifying p =>
    verified = true ∧ p.sourceActionIndex = none → ∀ s ∈ p.stamp, Foreseen h.snapshotDeletes [] s
  | .roundFenced p wm standing =>
    ∀ s ∈ p.stamp, stale wm s = false → Foreseen h.snapshotDeletes standing s
  | .batchStoring p standing existing (r :: _) =>
    batchStores p existing r.1 = true → ∀ s ∈ p.stamp, Foreseen h.snapshotDeletes standing s
  | .oracleStoring p standing =>
    (h.oraclePrices.get (p.chain, p.actionIndex)).all (·.pushGeneration < p.pushGeneration) = true →
      Foreseen h.oracleDeletes standing p.stamp
  | .retracting b .snapshots => ∀ r ∈ b.openEnded, Reached h.snapshots r
  | _ => True

def Foresees (h : Hub) : Event → Prop
  | .resume n verified =>
    match slotAt h.tasks n with
    | none => True
    | some t => TaskForesees h verified t
  | _ => True

instance (deletes standing : List Retraction) (s : Stamp) : Decidable (Foreseen deletes standing s) :=
  inferInstanceAs (Decidable (∀ r ∈ deletes, r.Covers s → r ∈ standing))

instance (rows : Snapshots) (r : Retraction) : Decidable (Reached rows r) :=
  inferInstanceAs (Decidable (∀ e ∈ rows.entries, ∀ s ∈ e.2.origin, r.Covers s →
    e.2.sourceActionIndex ≠ none))

instance (h : Hub) (verified : Bool) (t : Task) : Decidable (TaskForesees h verified t) := by
  unfold TaskForesees
  split <;> infer_instance

instance (h : Hub) (e : Event) : Decidable (Foresees h e) := by
  unfold Foresees
  split
  · split <;> infer_instance
  · infer_instance

end Property

section Records
variable {network : String} {h : Hub} {n : ℕ} {t : Task}

def Snapshot.Faithful (row : Snapshot) : Prop :=
  ∀ s ∈ row.origin, row.sourceChain = s.chain ∧ row.pushGeneration = s.generation ∧
    ∀ a ∈ row.sourceActionIndex, a = s.actionIndex

theorem faithful_of_source : OfSource Snapshot.Faithful where
  unsourced := by
    intro status s origin
    exact absurd origin (by simp)
  restated := fun _ _ _ faithful => faithful

def OnRecord (recorded : List Retraction) : Task → Prop
  | .roundFenced p wm _ => ∀ w ∈ wm, (⟨p.chain, w⟩ : Retraction) ∈ recorded
  | .batchFenced p wm _ => ∀ w ∈ wm, (⟨p.chain, w⟩ : Retraction) ∈ recorded
  | .oracleFenced p wm _ => ∀ w ∈ wm, (⟨p.chain, w⟩ : Retraction) ∈ recorded
  | _ => True

theorem on_record_grows {recorded : List Retraction} (r : Retraction) (t : Task)
    (kept : OnRecord recorded t) : OnRecord (r :: recorded) t := by
  cases t <;> first | trivial | exact fun w here => List.mem_cons_of_mem _ (kept w here)

/- What holds in every run: rows repeat the stamps they were stored from, and whatever a fence
   holds was a retraction's. -/
structure Sound (h : Hub) : Prop where
  rows : EveryRow Snapshot.Faithful h.snapshots
  fences : ∀ net chain b, h.fences.get (net, chain) = some b → (⟨chain, b⟩ : Retraction) ∈ h.recorded
  tasks : Every (OnRecord h.recorded) h.tasks
  refused : ∀ x ∈ h.refused, x.1 ∈ h.recorded ∧ x.1.Covers x.2
  removed : ∀ x ∈ h.removed, x.1.Covers x.2

theorem fresh_sound (fresh : Fresh h) : Sound h := by
  obtain ⟨rows, -, fences, tasks, recorded, -, -, -, refused, removed⟩ := fresh
  refine ⟨?_, ?_, ?_, ?_, ?_⟩
  · intro e member s origin
    rw [rows e member] at origin
    exact absurd origin (by simp)
  · intro net chain b held
    simp [fences] at held
  · rw [tasks]
    exact SlotHeap.every_nil
  · simp [refused]
  · simp [removed]

theorem watermark_on_record (sound : Sound h) {chain : String} :
    ∀ w ∈ watermark network h chain, (⟨chain, w⟩ : Retraction) ∈ h.recorded := by
  intro w held
  rcases stricter_cases held with own | legacy
  · exact sound.fences _ _ _ own
  · exact sound.fences _ _ _ legacy

theorem sound_await (sound : Sound h) (t : Task) (new : OnRecord h.recorded t) :
    Sound (h.await t) :=
  { sound with tasks := SlotHeap.every_push sound.tasks new }

theorem sound_next (sound : Sound h) (held : slotAt h.tasks n = some t) (t' : Task)
    (new : OnRecord h.recorded t') : Sound (h.next n t') := by
  refine { sound with tasks := SlotHeap.every_set sound.tasks held ?_ }
  rintro _ ⟨⟩
  exact new

theorem sound_finish (sound : Sound h) (held : slotAt h.tasks n = some t) : Sound (h.finish n) := by
  refine { sound with tasks := SlotHeap.every_set sound.tasks held ?_ }
  rintro _ ⟨⟩

theorem sound_restored (sound : Sound h) {rows : Snapshots} (faithful : EveryRow Snapshot.Faithful rows) :
    Sound { h with snapshots := rows } :=
  { sound with rows := faithful }

theorem round_faithful (p : RoundPush) (held : Option Snapshot) :
    (pushedSnapshot p.chain p.sourceActionIndex p.pushGeneration false p.stamp held).Faithful := by
  intro s origin
  obtain ⟨index, named, rfl⟩ := Option.map_eq_some_iff.mp origin
  refine ⟨rfl, rfl, ?_⟩
  intro a column
  have kept := (Option.filter_eq_some_iff.mp column).1
  exact Option.some.inj (kept.symm.trans named)

theorem batch_faithful (p : BatchPush) (held : Option Snapshot) :
    (pushedSnapshot p.chain p.actionIndex p.pushGeneration true p.stamp held).Faithful := by
  intro s origin
  obtain ⟨index, named, rfl⟩ := Option.map_eq_some_iff.mp origin
  exact ⟨rfl, rfl, fun a column => Option.some.inj (column.symm.trans named)⟩

theorem sound_refuse (sound : Sound h) (held : slotAt h.tasks n = some t) {wm : Option Bound}
    {s : Stamp} (recorded : ∀ w ∈ wm, (⟨s.chain, w⟩ : Retraction) ∈ h.recorded)
    (old : stale wm s = true) : Sound (refuse h n wm s) := by
  cases wm with
  | none => exact absurd old (by simp [stale])
  | some w =>
    have covers : w.Covers s.generation s.actionIndex := by simpa [stale] using old
    have grown : Sound { h with refused := (⟨s.chain, w⟩, s) :: h.refused } := by
      refine { sound with refused := ?_ }
      intro x member
      rcases List.mem_cons.mp member with rfl | before
      · exact ⟨recorded w rfl, rfl, covers⟩
      · exact sound.refused x before
    exact sound_finish grown held

theorem sound_recorded (sound : Sound h) (b : Bounds) : Sound (persistIngestFence network h b) := by
  simp only [persistIngestFence]
  cases fence : b.fence with
  | none => exact sound
  | some r =>
    refine ⟨sound.rows, ?_, ?_, ?_, sound.removed⟩
    · intro net chain held stored
      simp only [bumpPriceIngestWatermark] at stored
      by_cases own : (net, chain) = (network, b.chain)
      · rw [own, OrderedMap.get_set_same, Option.some.injEq] at stored
        rw [Prod.mk.injEq] at own
        rcases raise_cases (h.fences.get (network, b.chain)) r.bound with new | kept
        · rw [← stored, new, own.2, ← (fence_some fence).1]
          exact List.mem_cons_self
        · rw [stored] at kept
          rw [own.2]
          exact List.mem_cons_of_mem _ (sound.fences _ _ _ kept)
      · rw [OrderedMap.get_set_other own] at stored
        exact List.mem_cons_of_mem _ (sound.fences _ _ _ stored)
    · exact SlotHeap.every_weaken (on_record_grows r) sound.tasks
    · intro x member
      exact ⟨List.mem_cons_of_mem _ (sound.refused x member).1, (sound.refused x member).2⟩

theorem snapshots_removed_covered (sound : Sound h) {b : Bounds} :
    ∀ x ∈ snapshotsRemoved h b, x.1.Covers x.2 := by
  intro x member
  simp only [snapshotsRemoved, List.mem_flatMap, List.mem_filter, List.mem_map, Option.mem_toList]
    at member
  obtain ⟨e, ⟨present, selected⟩, s, origin, r, fence, rfl⟩ := member
  obtain ⟨action, column, selects⟩ := (Option.any_eq_true _ _).mp selected
  obtain ⟨chain, generation, named⟩ := sound.rows e present s origin
  rw [chain, generation, named action column] at selects
  exact selected_covered fence selects

theorem prices_removed_covered {b : Bounds} : ∀ x ∈ pricesRemoved h b, x.1.Covers x.2 := by
  intro x member
  simp only [pricesRemoved, List.mem_flatMap, List.mem_filter, List.mem_map, Option.mem_toList]
    at member
  obtain ⟨e, ⟨-, selects⟩, r, fence, rfl⟩ := member
  exact selected_covered (p := ⟨e.1.1, e.1.2, e.2.pushGeneration⟩) fence selects

theorem sound_retract (sound : Sound h) {b : Bounds} {stage : Stage}
    (held : slotAt h.tasks n = some (.retracting b stage)) : Sound (retract network h n b stage) := by
  cases stage with
  | fence =>
    have tasks : (persistIngestFence network h b).tasks = h.tasks := by
      simp only [persistIngestFence]
      split <;> rfl
    exact sound_next (sound_recorded sound b) (tasks ▸ held) _ trivial
  | reset => exact sound_next sound held _ trivial
  | tombstones => exact sound_next sound held _ trivial
  | snapshots =>
    have deleted : Sound (snapshotRetractionDelete h b) := by
      refine ⟨?_, sound.fences, sound.tasks, sound.refused, ?_⟩
      · intro e member
        exact sound.rows e (OrderedMap.mem_filter.mp member).1
      · intro x member
        rcases List.mem_append.mp member with now | before
        · exact snapshots_removed_covered sound x now
        · exact sound.removed x before
    exact sound_next deleted held _ trivial
  | oraclePrices =>
    have deleted : Sound (oraclePriceRetractionDelete h b) := by
      refine { sound with removed := ?_ }
      intro x member
      rcases List.mem_append.mp member with now | before
      · exact prices_removed_covered x now
      · exact sound.removed x before
    exact sound_next deleted held _ trivial
  | windows => exact sound_finish { sound with } held

theorem sound_resume (sound : Sound h) (held : slotAt h.tasks n = some t) (verified : Bool) :
    Sound (resume network h n verified t) := by
  have recorded := sound.tasks n t held
  cases t with
  | roundRead p duplicate =>
    cases duplicate with
    | true => exact sound_finish sound held
    | false => exact sound_next sound held _ trivial
  | roundVerifying p =>
    cases verified with
    | false => exact sound_finish sound held
    | true =>
      simp only [resume, if_true]
      split
      · exact sound_finish (sound_restored sound
          (every_row_upserted (fun row _ => round_faithful p row) sound.rows _ _)) held
      · exact sound_next sound held _ (watermark_on_record sound)
  | roundFenced p wm standing =>
    simp only [resume]
    cases stamp : p.stamp with
    | none => exact sound_finish sound held
    | some s =>
      obtain ⟨index, -, rfl⟩ := Option.map_eq_some_iff.mp stamp
      simp only
      split
      · rename_i old
        exact sound_refuse sound held recorded old
      · exact sound_finish (sound_restored sound
          (every_row_upserted (fun row _ => round_faithful p row) sound.rows _ _)) held
  | batchFenced p wm standing =>
    simp only [resume]
    cases stamp : p.stamp with
    | none => exact sound_finish sound held
    | some s =>
      obtain ⟨index, -, rfl⟩ := Option.map_eq_some_iff.mp stamp
      simp only
      split
      · rename_i old
        exact sound_refuse sound held recorded old
      · exact sound_next sound held _ trivial
  | batchVerifying p standing =>
    cases verified with
    | true => exact sound_next sound held _ trivial
    | false => exact sound_finish sound held
  | batchStoring p standing existing rest =>
    cases rest with
    | nil => exact sound_finish sound held
    | cons r rest =>
      simp only [resume]
      split
      · exact sound_next (sound_restored sound
          (every_row_upserted (fun row _ => batch_faithful p row) sound.rows _ _)) held _ trivial
      · exact sound_next sound held _ trivial
  | oracleFenced p wm standing =>
    simp only [resume]
    split
    · rename_i old
      exact sound_refuse sound held recorded old
    · exact sound_next sound held _ trivial
  | oracleRead p existing standing =>
    simp only [resume]
    split
    · exact sound_finish sound held
    · exact sound_next sound held _ trivial
  | oracleStoring p standing => exact sound_finish { sound with } held
  | retracting b stage => exact sound_retract sound held

theorem sound_fail (sound : Sound h) (held : slotAt h.tasks n = some t) : Sound (failStatement h n t) := by
  unfold failStatement
  split
  · split
    · exact sound_finish sound held
    · exact sound_next sound held _ trivial
  · exact sound_finish sound held

theorem sound_step (sound : Sound h) (e : Event) : Sound (step network h e) := by
  cases e with
  | pushRound p => exact sound_await sound _ trivial
  | pushBatch p =>
    simp only [step, receiveValidatedBatch]
    split
    · exact sound_await sound _ trivial
    · exact sound_await sound _ (watermark_on_record sound)
  | pushOraclePrice p => exact sound_await sound _ (watermark_on_record sound)
  | retraction b => exact sound_await sound _ trivial
  | finalizeRound round pairs =>
    exact sound_restored sound (every_row_finalized faithful_of_source sound.rows round pairs)
  | skipRound round pairs =>
    exact sound_restored sound (every_row_skipped faithful_of_source sound.rows round pairs)
  | dispute round pair =>
    exact sound_restored sound (every_row_disputed faithful_of_source sound.rows round pair)
  | resume n verified =>
    simp only [step]
    split
    · exact sound
    · rename_i t held
      exact sound_resume sound held verified
  | fail n =>
    simp only [step]
    split
    · exact sound
    · rename_i t held
      exact sound_fail sound held
  | restart => exact { sound with tasks := SlotHeap.every_nil }

end Records

section Deletes
variable {network : String} {h : Hub} {n : ℕ} {t : Task}

def Clears (retractions : List Retraction) (s : Stamp) : Prop := ∀ r ∈ retractions, ¬r.Covers s

def Snapshot.Clear (deletes : List Retraction) (row : Snapshot) : Prop :=
  ∀ s ∈ row.origin, Clears deletes s

theorem clear_of_source (deletes : List Retraction) : OfSource (Snapshot.Clear deletes) where
  unsourced := by
    intro status s origin
    exact absurd origin (by simp)
  restated := fun _ _ _ clear => clear

theorem standing_clears {recorded : List Retraction} {wm : Option Bound} {s : Stamp}
    (passed : stale wm s = false) : Clears (standing recorded wm) s := by
  intro r stands covered
  obtain ⟨w, held, stricter⟩ := (Option.any_eq_true _ _).mp (List.mem_filter.mp stands).2
  have covers : w.Covers s.generation s.actionIndex :=
    Bound.covers_trans (of_decide_eq_true stricter) covered.2
  simp only [stale, held, Option.any_some, decide_eq_false_iff_not] at passed
  exact passed covers

theorem foreseen_clears {deletes standing : List Retraction} {s : Stamp}
    (foreseen : Foreseen deletes standing s) (clears : Clears standing s) : Clears deletes s :=
  fun r deleted covered => clears r (foreseen r deleted covered) covered

def Passed (snapshotDeletes oracleDeletes : List Retraction) : Task → Prop
  | .roundFenced p wm standing => ∀ s ∈ p.stamp, stale wm s = false → Clears standing s
  | .batchFenced p wm standing => ∀ s ∈ p.stamp, stale wm s = false → Clears standing s
  | .batchVerifying p standing => ∀ s ∈ p.stamp, Clears standing s
  | .batchStoring p standing _ _ => ∀ s ∈ p.stamp, Clears standing s
  | .oracleFenced p wm standing => stale wm p.stamp = false → Clears standing p.stamp
  | .oracleRead p _ standing => Clears standing p.stamp
  | .oracleStoring p standing => Clears standing p.stamp
  | .retracting b .oraclePrices => ∀ r ∈ b.openEnded, r ∈ snapshotDeletes
  | .retracting b .windows => ∀ r ∈ b.openEnded, r ∈ snapshotDeletes ∧ r ∈ oracleDeletes
  | _ => True

theorem passed_grows {snapshotDeletes oracleDeletes front back : List Retraction} (t : Task)
    (passed : Passed snapshotDeletes oracleDeletes t) :
    Passed (front ++ snapshotDeletes) (back ++ oracleDeletes) t := by
  cases t with
  | retracting b stage =>
    cases stage with
    | oraclePrices => exact fun r ended => List.mem_append_right _ (passed r ended)
    | windows =>
      exact fun r ended =>
        ⟨List.mem_append_right _ (passed r ended).1, List.mem_append_right _ (passed r ended).2⟩
    | _ => trivial
  | _ => exact passed

/- What an admitted run keeps: what a retraction deleted does not come back. -/
structure Clear (h : Hub) : Prop where
  rows : EveryRow (Snapshot.Clear h.snapshotDeletes) h.snapshots
  oraclePrices : ∀ e ∈ h.oraclePrices.entries, Clears h.oracleDeletes (OraclePrices.stampOf e)
  tasks : Every (Passed h.snapshotDeletes h.oracleDeletes) h.tasks
  processed : ∀ r ∈ h.processed, r ∈ h.snapshotDeletes ∧ r ∈ h.oracleDeletes

theorem fresh_clear (fresh : Fresh h) : Clear h := by
  obtain ⟨rows, prices, -, tasks, -, -, -, processed, -, -⟩ := fresh
  refine ⟨?_, ?_, ?_, ?_⟩
  · intro e member s origin
    rw [rows e member] at origin
    exact absurd origin (by simp)
  · simp [prices, OrderedMap.empty]
  · rw [tasks]
    exact SlotHeap.every_nil
  · simp [processed]

theorem clear_await (clear : Clear h) (t : Task) (new : Passed h.snapshotDeletes h.oracleDeletes t) :
    Clear (h.await t) :=
  { clear with tasks := SlotHeap.every_push clear.tasks new }

theorem clear_next (clear : Clear h) (held : slotAt h.tasks n = some t) (t' : Task)
    (new : Passed h.snapshotDeletes h.oracleDeletes t') : Clear (h.next n t') := by
  refine { clear with tasks := SlotHeap.every_set clear.tasks held ?_ }
  rintro _ ⟨⟩
  exact new

theorem clear_finish (clear : Clear h) (held : slotAt h.tasks n = some t) : Clear (h.finish n) := by
  refine { clear with tasks := SlotHeap.every_set clear.tasks held ?_ }
  rintro _ ⟨⟩

theorem clear_restored (clear : Clear h) {rows : Snapshots}
    (kept : EveryRow (Snapshot.Clear h.snapshotDeletes) rows) : Clear { h with snapshots := rows } :=
  { clear with rows := kept }

theorem pushed_clear {deletes : List Retraction} {stamp : Option Stamp}
    (clears : ∀ s ∈ stamp, Clears deletes s) (chain : String) (action : Option ℕ) (generation : ℕ)
    (proof : Bool) (held : Option Snapshot) :
    (pushedSnapshot chain action generation proof stamp held).Clear deletes :=
  clears

theorem round_stored_clear (clear : Clear h) {p : RoundPush}
    (clears : ∀ s ∈ p.stamp, Clears h.snapshotDeletes s) : Clear (storeRound h p) :=
  clear_restored clear
    (every_row_upserted (fun held _ => pushed_clear clears _ _ _ _ held) clear.rows _ _)

theorem batch_stored_clear (clear : Clear h) {p : BatchPush} (r : ℕ × List String)
    (clears : ∀ s ∈ p.stamp, Clears h.snapshotDeletes s) : Clear (storeBatchRound h p r) :=
  clear_restored clear
    (every_row_upserted (fun held _ => pushed_clear clears _ _ _ _ held) clear.rows _ _)

theorem price_stored_clear (clear : Clear h) {p : OraclePush}
    (clears : (h.oraclePrices.get (p.chain, p.actionIndex)).all (·.pushGeneration < p.pushGeneration) = true →
      Clears h.oracleDeletes p.stamp) : Clear (storeOraclePrice h p) := by
  refine { clear with oraclePrices := ?_ }
  intro e member
  rcases oracle_price_set member with old | ⟨rfl, fresh⟩
  · exact clear.oraclePrices e old
  · exact clears fresh

theorem snapshots_deleted_clear (sound : Sound h) (clear : Clear h) {b : Bounds}
    (reached : ∀ r ∈ b.openEnded, Reached h.snapshots r) : Clear (snapshotRetractionDelete h b) := by
  refine ⟨?_, clear.oraclePrices, ?_, ?_⟩
  · intro e member s origin r deleted covered
    obtain ⟨present, kept⟩ := OrderedMap.mem_filter.mp member
    rcases List.mem_append.mp deleted with now | before
    · -- the row names its action, so the statement itself selects it
      have ended := Option.mem_toList.mp now
      obtain ⟨action, column⟩ := Option.ne_none_iff_exists'.mp (reached r ended e present s origin covered)
      obtain ⟨chain, generation, named⟩ := sound.rows e present s origin
      have selects := covered_selected ended covered
      rw [← chain, ← generation, ← named action column] at selects
      simp [column, selects] at kept
    · exact clear.rows e present s origin r before covered
  · exact SlotHeap.every_weaken (@passed_grows _ _ _ []) clear.tasks
  · intro r returned
    exact ⟨List.mem_append_right _ (clear.processed r returned).1, (clear.processed r returned).2⟩

theorem prices_deleted_clear (clear : Clear h) (b : Bounds) : Clear (oraclePriceRetractionDelete h b) := by
  refine ⟨clear.rows, ?_, ?_, ?_⟩
  · intro e member r deleted covered
    obtain ⟨present, kept⟩ := OrderedMap.mem_filter.mp member
    rcases List.mem_append.mp deleted with now | before
    · have selects := covered_selected (Option.mem_toList.mp now) covered
      simp only [OraclePrices.stampOf] at selects
      simp [selects] at kept
    · exact clear.oraclePrices e present r before covered
  · exact SlotHeap.every_weaken (@passed_grows _ _ [] _) clear.tasks
  · intro r returned
    exact ⟨(clear.processed r returned).1, List.mem_append_right _ (clear.processed r returned).2⟩

theorem clear_retract (sound : Sound h) (clear : Clear h) {b : Bounds} {stage : Stage}
    (held : slotAt h.tasks n = some (.retracting b stage)) {verified : Bool}
    (foresees : TaskForesees h verified (.retracting b stage)) : Clear (retract network h n b stage) := by
  cases stage with
  | fence =>
    simp only [retract, persistIngestFence]
    split
    · exact clear_next clear held _ trivial
    · rename_i r _
      have fenced : Clear { h with
          fences := bumpPriceIngestWatermark h.fences network b.chain r.bound
          recorded := r :: h.recorded } := { clear with }
      exact clear_next fenced held _ trivial
  | reset => exact clear_next clear held _ trivial
  | tombstones => exact clear_next clear held _ trivial
  | snapshots =>
    exact clear_next (snapshots_deleted_clear sound clear foresees) held _
      (fun r ended => List.mem_append_left _ (Option.mem_toList.mpr ended))
  | oraclePrices =>
    refine clear_next (prices_deleted_clear clear b) held _ (fun r ended => ⟨?_, ?_⟩)
    · exact clear.tasks n _ held r ended
    · exact List.mem_append_left _ (Option.mem_toList.mpr ended)
  | windows =>
    have returned : Clear { h with processed := b.openEnded.toList ++ h.processed } := by
      refine { clear with processed := ?_ }
      intro r member
      rcases List.mem_append.mp member with now | before
      · exact clear.tasks n _ held r (Option.mem_toList.mp now)
      · exact clear.processed r before
    exact clear_finish returned held

theorem clear_resume (sound : Sound h) (clear : Clear h) (held : slotAt h.tasks n = some t)
    {verified : Bool} (foresees : TaskForesees h verified t) :
    Clear (resume network h n verified t) := by
  have passed := clear.tasks n t held
  cases t with
  | roundRead p duplicate =>
    cases duplicate with
    | true => exact clear_finish clear held
    | false => exact clear_next clear held _ trivial
  | roundVerifying p =>
    cases verified with
    | false => exact clear_finish clear held
    | true =>
      simp only [resume, if_true]
      split
      · rename_i unfenced
        refine clear_finish (round_stored_clear clear ?_) held
        intro s stamp
        exact foreseen_clears (foresees ⟨rfl, unfenced⟩ s stamp) (fun r none' => absurd none' (by simp))
      · exact clear_next clear held _ (fun s _ => standing_clears)
  | roundFenced p wm standing =>
    simp only [resume]
    split
    · exact clear_finish clear held
    · rename_i s stamp
      split
      · exact clear_finish { clear with } held
      · rename_i fresh
        have current := eq_false_of_ne_true fresh
        refine clear_finish (round_stored_clear clear ?_) held
        intro s' stamp'
        rw [stamp] at stamp'
        cases stamp'
        exact foreseen_clears (foresees s stamp current) (passed s stamp current)
  | batchFenced p wm standing =>
    simp only [resume]
    split
    · exact clear_finish clear held
    · rename_i s stamp
      split
      · exact clear_finish { clear with } held
      · rename_i fresh
        refine clear_next clear held _ ?_
        intro s' stamp'
        rw [stamp] at stamp'
        cases stamp'
        exact passed s stamp (eq_false_of_ne_true fresh)
  | batchVerifying p standing =>
    cases verified with
    | true => exact clear_next clear held _ passed
    | false => exact clear_finish clear held
  | batchStoring p standing existing rest =>
    cases rest with
    | nil => exact clear_finish clear held
    | cons r rest =>
      simp only [resume]
      split
      · rename_i stores
        refine clear_next (batch_stored_clear clear r ?_) held _ passed
        intro s stamp
        exact foreseen_clears (foresees stores s stamp) (passed s stamp)
      · exact clear_next clear held _ passed
  | oracleFenced p wm standing =>
    simp only [resume]
    split
    · exact clear_finish { clear with } held
    · rename_i fresh
      exact clear_next clear held _ (passed (eq_false_of_ne_true fresh))
  | oracleRead p existing standing =>
    simp only [resume]
    split
    · exact clear_finish clear held
    · exact clear_next clear held _ passed
  | oracleStoring p standing =>
    exact clear_finish (price_stored_clear clear (fun newer => foreseen_clears (foresees newer) passed)) held
  | retracting b stage => exact clear_retract sound clear held foresees

theorem clear_fail (clear : Clear h) (held : slotAt h.tasks n = some t) : Clear (failStatement h n t) := by
  have passed := clear.tasks n t held
  unfold failStatement
  split
  · split
    · exact clear_finish clear held
    · exact clear_next clear held _ passed
  · exact clear_finish clear held

theorem clear_step (sound : Sound h) (clear : Clear h) {e : Event} (foresees : Foresees h e) :
    Clear (step network h e) := by
  cases e with
  | pushRound p => exact clear_await clear _ trivial
  | pushBatch p =>
    simp only [step, receiveValidatedBatch]
    split
    · exact clear_await clear _ (fun s _ r none' => absurd none' (by simp))
    · exact clear_await clear _ (fun s _ => standing_clears)
  | pushOraclePrice p => exact clear_await clear _ standing_clears
  | retraction b => exact clear_await clear _ trivial
  | finalizeRound round pairs =>
    exact clear_restored clear (every_row_finalized (clear_of_source _) clear.rows round pairs)
  | skipRound round pairs =>
    exact clear_restored clear (every_row_skipped (clear_of_source _) clear.rows round pairs)
  | dispute round pair =>
    exact clear_restored clear (every_row_disputed (clear_of_source _) clear.rows round pair)
  | resume n verified =>
    simp only [step]
    split
    · exact clear
    · rename_i t held
      simp only [Foresees, held] at foresees
      exact clear_resume sound clear held foresees
  | fail n =>
    simp only [step]
    split
    · exact clear
    · rename_i t held
      exact clear_fail clear held
  | restart => exact { clear with tasks := SlotHeap.every_nil }

end Deletes

section Main

theorem sound_clear_fenced {h : Hub} (sound : Sound h) (clear : Clear h) : Fenced h where
  snapshots := by
    intro r processed e present s origin
    exact clear.rows e present s origin r (clear.processed r processed).1
  oraclePrices := by
    intro r processed e present
    exact clear.oraclePrices e present r (clear.processed r processed).2
  refused := sound.refused
  removed := sound.removed

def noRows : Hub :=
  ⟨OrderedMap.empty, OrderedMap.empty, OrderedMap.empty, [], [], [], [], [], [], []⟩

theorem noRows_fresh : Fresh noRows where
  rows := by
    intro e member
    exact absurd member (List.not_mem_nil)
  oraclePrices := rfl
  fences := rfl
  tasks := rfl
  nothing := ⟨rfl, rfl, rfl, rfl, rfl, rfl⟩

/- A push of generation 3 at action 50, the retraction of generation 5 from action 10 on, and the
   push again. -/
def sampleRun : List Event :=
  [.pushOraclePrice ⟨"BTC", "user", 50, 3⟩, .resume 0 true, .resume 0 true, .resume 0 true,
    .retraction ⟨"BTC", 10, none, some 5⟩, .resume 1 true, .resume 1 true, .resume 1 true,
    .resume 1 true, .resume 1 true, .resume 1 true, .pushOraclePrice ⟨"BTC", "user", 50, 3⟩, .resume 2 true]

/- Both retractions return before the push: the one of generation 5 from action 10 on, then the
   one of generation 6 from action 100 on, whose fence replaces the first. -/
def replacedFence : List Event :=
  [.retraction ⟨"BTC", 10, none, some 5⟩, .resume 0 true, .resume 0 true, .resume 0 true,
    .resume 0 true, .resume 0 true, .resume 0 true, .retraction ⟨"BTC", 100, none, some 6⟩,
    .resume 1 true, .resume 1 true, .resume 1 true, .resume 1 true, .resume 1 true, .resume 1 true,
    .pushOraclePrice ⟨"BTC", "user", 50, 3⟩, .resume 2 true, .resume 2 true, .resume 2 true]

end Main
end XChainHub.PriceAggregator
