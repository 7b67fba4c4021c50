import XChainHub.Library.GuardedRuns
import XChainHub.CrossChain.Bridge.Retraction

/-!
When a retracted source leg stays retracted. What a retraction covers is written by
pending writes only, it waits for those, and nothing that it covers is begun after it.
-/
namespace XChainHub.CrossChain.Bridge
open SlotHeap GuardedRuns

section Conditions
variable (watched : Entry → Bool) (h : Engine)

/- No round commits a row that a watched retraction has covered, and a row is retracted only
   while the retraction that found it still covers it. -/
def Guarded : Event → Prop
  | .committed id => ∀ t ∈ h.rounds.get id, ∀ e ∈ h.recorded, watched e = true →
      retractionCovers e t = false
  | .callRan k => ∀ c ∈ slotAt h.calls k,
      match c.stage with
      | .updating id _ => ∀ row ∈ h.table.get id, row.status = .finalized →
          retractionCovers c.entry row.toTransfer = true
      | _ => True
  | _ => True

instance : (ev : Event) → Decidable (Guarded watched h ev)
  | .committed id => inferInstanceAs (Decidable (∀ t ∈ h.rounds.get id, ∀ e ∈ h.recorded,
      watched e = true → retractionCovers e t = false))
  | .callRan k =>
    have (c : Call) : Decidable (match c.stage with
        | .updating id _ => ∀ row ∈ h.table.get id, row.status = .finalized →
            retractionCovers c.entry row.toTransfer = true
        | _ => True) := by
      split <;> infer_instance
    inferInstanceAs (Decidable (∀ c ∈ slotAt h.calls k,
      match c.stage with
      | .updating id _ => ∀ row ∈ h.table.get id, row.status = .finalized →
          retractionCovers c.entry row.toTransfer = true
      | _ => True))
  | .poll _ | .stamped _ | .joined _ | .abandoned _ | .writeRan _ | .writeAnswered .. | .retract ..
  | .callAnswered .. | .restart => isTrue trivial

end Conditions

section Claim
variable (watched : Entry → Bool) (h : Engine)

/- No row that a returned retraction covers is finalized; a retraction retracts only rows it
   covers, and a write is given up only for retractions that cover its row. -/
structure NeverBack : Prop where
  gone : ∀ e ∈ h.returned, watched e = true → ∀ id row, h.table.get id = some row →
    row.status = .finalized → retractionCovers e row.toTransfer = false
  covered : ∀ p ∈ h.touched, retractionCovers p.1 p.2 = true
  refused : ∀ p ∈ h.refused, p.2 ≠ [] ∧ ∀ e ∈ p.2, retractionCovers e p.1 = true

end Claim

section Invariant

/- No pending write is covered by the entry. -/
def Quiet (writes : List (Option Write)) (entry : Entry) : Prop :=
  ∀ n w, slotAt writes n = some w → retractionCovers entry w.row = false

/- Every finalized row that the entry covers is still to be retracted. -/
def Remaining (table : Table) (entry : Entry) (ids : List String) : Prop :=
  ∀ id row, table.get id = some row → row.status = .finalized →
    retractionCovers entry row.toTransfer = true → id ∈ ids

def CallKept (table : Table) (writes : List (Option Write)) (c : Call) : Prop :=
  match c.stage with
  | .waiting slots => ∀ n w, slotAt writes n = some w → retractionCovers c.entry w.row = true → n ∈ slots
  | .selecting => Quiet writes c.entry
  | .selected ids => Quiet writes c.entry ∧ Remaining table c.entry ids
  | .updating id rest => Quiet writes c.entry ∧ Remaining table c.entry (id :: rest)
  | .updated _ rest => Quiet writes c.entry ∧ Remaining table c.entry rest

/- A row is kept under the id of its source leg. -/
def Keyed (cfg : Params) (table : Table) : Prop :=
  ∀ id row, table.get id = some row → ∃ leg, id = deriveTransferId cfg cfg.network leg ∧
    leg.srcChain = row.leg.srcChain ∧ leg.srcActionIndex = row.leg.srcActionIndex

structure Retractions (cfg : Params) (watched : Entry → Bool) (table : Table)
    (writes : List (Option Write)) (calls : List (Option Call)) (seq : ℕ)
    (recorded returned : List Entry) : Prop where
  keyed : Keyed cfg table
  dated : ∀ n w, slotAt writes n = some w → w.seq ≤ seq
  noted : ∀ k c, slotAt calls k = some c → c.entry ∈ recorded
  known : ∀ e ∈ returned, e ∈ recorded
  call : ∀ k c, slotAt calls k = some c → watched c.entry = true → CallKept table writes c
  back : ∀ e ∈ returned, watched e = true → Quiet writes e ∧ Remaining table e []

variable {cfg : Params} {watched : Entry → Bool} {table after : Table}
  {writes writes' : List (Option Write)} {calls : List (Option Call)} {seq : ℕ}
  {recorded returned : List Entry}

/-- Coverage looks at the source leg and the generation alone. -/
theorem covers_same {e : Entry} {a b : Transfer} (chain : a.leg.srcChain = b.leg.srcChain)
    (index : a.leg.srcActionIndex = b.leg.srcActionIndex)
    (generation : a.pushGeneration = b.pushGeneration) :
    retractionCovers e a = retractionCovers e b := by
  unfold retractionCovers
  rw [chain, index, generation]

/-- Fewer pending writes, and no new finalized row that a quiet entry covers. -/
theorem CallKept.rewrite {c : Call} (kept : CallKept table writes c)
    (fewer : ∀ n w, slotAt writes' n = some w → ∃ w', slotAt writes n = some w' ∧ w'.row = w.row)
    (rows : Quiet writes c.entry → ∀ ids, Remaining table c.entry ids → Remaining after c.entry ids) :
    CallKept after writes' c := by
  have quiet : Quiet writes c.entry → Quiet writes' c.entry := by
    intro q n w held
    obtain ⟨w', held', same⟩ := fewer n w held
    rw [← same]
    exact q n w' held'
  unfold CallKept at kept ⊢
  split at kept
  · intro n w held covers
    obtain ⟨w', held', same⟩ := fewer n w held
    exact kept n w' held' (same ▸ covers)
  · exact quiet kept
  · exact ⟨quiet kept.1, rows kept.1 _ kept.2⟩
  · exact ⟨quiet kept.1, rows kept.1 _ kept.2⟩
  · exact ⟨quiet kept.1, rows kept.1 _ kept.2⟩

/-- The table and the pending writes move under the retractions. -/
theorem Retractions.rewrite (kept : Retractions cfg watched table writes calls seq recorded returned)
    (keyed : Keyed cfg after)
    (fewer : ∀ n w, slotAt writes' n = some w →
      ∃ w', slotAt writes n = some w' ∧ w'.row = w.row ∧ w'.seq = w.seq)
    (rows : ∀ e, Quiet writes e → ∀ ids, Remaining table e ids → Remaining after e ids) :
    Retractions cfg watched after writes' calls seq recorded returned where
  keyed := keyed
  dated := by
    intro n w held
    obtain ⟨w', held', -, same⟩ := fewer n w held
    rw [← same]
    exact kept.dated n w' held'
  noted := kept.noted
  known := kept.known
  call := fun k c held on => (kept.call k c held on).rewrite
    (fun n w pending => by
      obtain ⟨w', pending', same, -⟩ := fewer n w pending
      exact ⟨w', pending', same⟩) (rows c.entry)
  back := by
    intro e member on
    obtain ⟨quiet, none'⟩ := kept.back e member on
    refine ⟨?_, rows e quiet _ none'⟩
    intro n w held
    obtain ⟨w', held', same, -⟩ := fewer n w held
    rw [← same]
    exact quiet n w' held'

/-- A pending write that keeps its row, or is done. -/
theorem fewer_set {n : ℕ} {w : Write} {x : Option Write} (held : slotAt writes n = some w)
    (same : ∀ v ∈ x, v.row = w.row ∧ v.seq = w.seq) :
    ∀ m v, slotAt (writes.set n x) m = some v →
      ∃ v', slotAt writes m = some v' ∧ v'.row = v.row ∧ v'.seq = v.seq := by
  intro m v found
  rcases slot_set_cases held found with ⟨rfl, new⟩ | ⟨-, old⟩
  · exact ⟨w, held, (same v new).1.symm, (same v new).2.symm⟩
  · exact ⟨v, old, rfl, rfl⟩

/-- Setting one row as finalized concerns no entry that does not cover it. -/
theorem remaining_set {e : Entry} {id : String} {row : Stored} {ids : List String}
    (free : row.status = .finalized → retractionCovers e row.toTransfer = false)
    (remaining : Remaining table e ids) : Remaining (table.set id row) e ids := by
  intro key found at' final covers
  by_cases same : key = id
  · rw [same, OrderedMap.get_set_same, Option.some.injEq] at at'
    rw [at'] at free
    rw [free final] at covers
    exact absurd covers (by simp)
  · rw [OrderedMap.get_set_other same] at at'
    exact remaining key found at' final covers

theorem keyed_set (keyed : Keyed cfg table) {id : String} {row : Stored}
    (own : ∃ leg, id = deriveTransferId cfg cfg.network leg ∧ leg.srcChain = row.leg.srcChain ∧
      leg.srcActionIndex = row.leg.srcActionIndex) : Keyed cfg (table.set id row) := by
  intro key found at'
  by_cases same : key = id
  · rw [same, OrderedMap.get_set_same, Option.some.injEq] at at'
    rw [same, ← at']
    exact own
  · rw [OrderedMap.get_set_other same] at at'
    exact keyed key found at'

theorem insert_keyed (keyed : Keyed cfg table) (t : Transfer) :
    Keyed cfg (insertIgnore table (t.id cfg) t).1 := by
  unfold insertIgnore
  split
  · exact keyed
  · exact keyed_set keyed ⟨t.leg, rfl, rfl, rfl⟩

theorem insert_remaining {e : Entry} {t : Transfer} {ids : List String}
    (free : retractionCovers e t = false) (remaining : Remaining table e ids) :
    Remaining (insertIgnore table (t.id cfg) t).1 e ids := by
  unfold insertIgnore
  split
  · exact remaining
  · exact remaining_set (fun _ => free) remaining

theorem revive_keyed (keyed : Keyed cfg table) (t : Transfer) :
    Keyed cfg (reviveRetracted table (t.id cfg) t).1 := by
  unfold reviveRetracted
  split
  · exact keyed
  · rename_i old found
    split
    · exact keyed_set keyed (keyed _ old found)
    · exact keyed

/-- A revived row has the source leg of the round that revives it. -/
theorem revive_remaining (collisionFree : Function.Injective cfg.sha256) (keyed : Keyed cfg table)
    {e : Entry} {t : Transfer} {ids : List String} (free : retractionCovers e t = false)
    (remaining : Remaining table e ids) :
    Remaining (reviveRetracted table (t.id cfg) t).1 e ids := by
  unfold reviveRetracted
  split
  · exact remaining
  · rename_i old found
    split
    · refine remaining_set (fun _ => ?_) remaining
      obtain ⟨leg, same, chain, index⟩ := keyed _ old found
      obtain ⟨chain', index'⟩ := transfer_id_source collisionFree same
      rw [← free]
      exact covers_same (chain'.trans chain).symm (index'.trans index).symm rfl
    · exact remaining

theorem retract_keyed (keyed : Keyed cfg table) (id : String) :
    Keyed cfg (updateBridgeTransfer table id) := by
  unfold updateBridgeTransfer
  split
  · exact keyed
  · rename_i old found
    exact keyed_set keyed (keyed id old found)

theorem retract_remaining {e : Entry} {id : String} {ids : List String}
    (remaining : Remaining table e ids) : Remaining (updateBridgeTransfer table id) e ids := by
  unfold updateBridgeTransfer
  split
  · exact remaining
  · exact remaining_set (fun final => absurd final (by simp)) remaining

/-- The retracted id need not be retracted again. -/
theorem retract_done {e : Entry} {id : String} {rest : List String}
    (remaining : Remaining table e (id :: rest)) :
    Remaining (updateBridgeTransfer table id) e rest := by
  intro key row at' final covers
  have member := retract_remaining remaining key row at' final covers
  rw [List.mem_cons] at member
  rcases member with rfl | later
  · unfold updateBridgeTransfer at at'
    split at at'
    · rename_i absent
      rw [absent] at at'
      exact absurd at' (by simp)
    · rw [OrderedMap.get_set_same, Option.some.injEq] at at'
      rw [← at'] at final
      exact absurd final (by simp)
  · exact later

theorem found_remaining {e : Entry} :
    Remaining table e (findFinalizedBridgeTransferIdsForReorg table e) := by
  intro id row at' final covers
  unfold findFinalizedBridgeTransferIdsForReorg
  exact List.mem_map.mpr ⟨(id, row), List.mem_filter.mpr
    ⟨OrderedMap.mem_of_get at', by simp [final, covers]⟩, rfl⟩

/-- A call that moves on, or is done. -/
theorem Retractions.advance (kept : Retractions cfg watched table writes calls seq recorded returned)
    {k : ℕ} {c : Call} {x : Option Call} (held : slotAt calls k = some c)
    (same : ∀ d ∈ x, d.entry = c.entry)
    (next : ∀ d ∈ x, watched d.entry = true → CallKept table writes d) :
    Retractions cfg watched table writes (calls.set k x) seq recorded returned where
  keyed := kept.keyed
  dated := kept.dated
  noted := by
    intro m d found
    rcases slot_set_cases held found with ⟨-, new⟩ | ⟨-, old⟩
    · rw [same d new]
      exact kept.noted k c held
    · exact kept.noted m d old
  known := kept.known
  call := by
    intro m d found on
    rcases slot_set_cases held found with ⟨-, new⟩ | ⟨-, old⟩
    · exact next d new on
    · exact kept.call m d old on
  back := kept.back

theorem Retractions.finish (kept : Retractions cfg watched table writes calls seq recorded returned)
    {k : ℕ} {c : Call} (held : slotAt calls k = some c)
    (last : watched c.entry = true → Quiet writes c.entry ∧ Remaining table c.entry []) :
    Retractions cfg watched table writes (calls.set k none) seq recorded (c.entry :: returned) := by
  have freed := kept.advance held (x := none) (by simp) (by simp)
  refine ⟨freed.keyed, freed.dated, freed.noted, ?_, freed.call, ?_⟩
  · intro e member
    rcases List.mem_cons.mp member with rfl | old
    · exact kept.noted k c held
    · exact kept.known e old
  · intro e member on
    rcases List.mem_cons.mp member with rfl | old
    · exact last on
    · exact kept.back e old on

/-- A write begins for a row that no recorded retraction covers. -/
theorem Retractions.begin (kept : Retractions cfg watched table writes calls seq recorded returned)
    {t : Transfer} (free : ∀ e ∈ recorded, watched e = true → retractionCovers e t = false)
    (stage : WriteStage) :
    Retractions cfg watched table (writes ++ [some ⟨seq, t, stage⟩]) calls seq recorded returned := by
  have quiet : ∀ e ∈ recorded, watched e = true → Quiet writes e →
      Quiet (writes ++ [some ⟨seq, t, stage⟩]) e := by
    intro e member on q n w held
    rcases slot_push_cases held with old | rfl
    · exact q n w old
    · exact free e member on
  refine ⟨kept.keyed, ?_, kept.noted, kept.known, ?_, ?_⟩
  · intro n w held
    rcases slot_push_cases held with old | rfl
    · exact kept.dated n w old
    · exact Nat.le_refl seq
  · intro k c held on
    have entry := kept.noted k c held
    have before := kept.call k c held on
    unfold CallKept at before ⊢
    split at before
    · intro n w pending covers
      rcases slot_push_cases pending with old | rfl
      · exact before n w old covers
      · rw [free c.entry entry on] at covers
        exact absurd covers (by simp)
    · exact quiet _ entry on before
    · exact ⟨quiet _ entry on before.1, before.2⟩
    · exact ⟨quiet _ entry on before.1, before.2⟩
    · exact ⟨quiet _ entry on before.1, before.2⟩
  · intro e member on
    obtain ⟨q, none'⟩ := kept.back e member on
    exact ⟨quiet e (kept.known e member) on q, none'⟩

/-- A new retraction waits for every pending write it covers. -/
theorem Retractions.record (kept : Retractions cfg watched table writes calls seq recorded returned)
    (entry : Entry) {slots : List ℕ}
    (waits : ∀ n w, slotAt writes n = some w → retractionCovers entry w.row = true → n ∈ slots)
    {seq' : ℕ} (later : seq ≤ seq') :
    Retractions cfg watched table writes (calls ++ [some ⟨entry, .waiting slots⟩]) seq'
      (entry :: recorded) returned := by
  refine ⟨kept.keyed, ?_, ?_, ?_, ?_, kept.back⟩
  · exact fun n w held => Nat.le_trans (kept.dated n w held) later
  · intro k c held
    rcases slot_push_cases held with old | rfl
    · exact List.mem_cons_of_mem entry (kept.noted k c old)
    · exact List.mem_cons_self
  · exact fun e member => List.mem_cons_of_mem entry (kept.known e member)
  · intro k c held on
    rcases slot_push_cases held with old | rfl
    · exact kept.call k c old on
    · exact waits

end Invariant

section Steps
variable {cfg : Params} {watched : Entry → Bool} {h : Engine}

def CoveredOnly (touched : List (Entry × Transfer)) : Prop :=
  ∀ p ∈ touched, retractionCovers p.1 p.2 = true

def RefusedOnly (refused : List (Transfer × List Entry)) : Prop :=
  ∀ p ∈ refused, p.2 ≠ [] ∧ ∀ e ∈ p.2, retractionCovers e p.1 = true

def Engine.Kept (cfg : Params) (watched : Entry → Bool) (h : Engine) : Prop :=
  Retractions cfg watched h.table h.writes h.calls h.retractionSeq h.recorded h.returned ∧
    CoveredOnly h.touched ∧ RefusedOnly h.refused

theorem release_kept (id : String) (kept : h.Kept cfg watched) :
    (releaseSourceLegGuard h id).Kept cfg watched := by
  unfold releaseSourceLegGuard
  simp only
  split <;> exact kept

@[simp] theorem release_writes (id : String) : (releaseSourceLegGuard h id).writes = h.writes := by
  unfold releaseSourceLegGuard
  simp only
  split <;> rfl

@[simp] theorem release_calls (id : String) : (releaseSourceLegGuard h id).calls = h.calls := by
  unfold releaseSourceLegGuard
  simp only
  split <;> rfl

theorem open_round_kept (t : Transfer) (kept : h.Kept cfg watched) :
    (openRound cfg h t).Kept cfg watched := by
  unfold openRound
  split <;> exact kept

theorem propose_kept (ok : Bool) (kept : h.Kept cfg watched) :
    (proposeTransfer cfg h ok).Kept cfg watched := by
  unfold proposeTransfer
  split
  · exact kept
  · simp only
    split
    · exact open_round_kept _ kept
    · exact kept

variable {n : ℕ} {w : Write}

theorem put_write_kept (held : slotAt h.writes n = some w) (stage : WriteStage)
    (kept : h.Kept cfg watched) : (putWrite h n w stage).Kept cfg watched := by
  refine ⟨kept.1.rewrite kept.1.keyed (fewer_set held ?_) (fun _ _ _ remaining => remaining), kept.2⟩
  rintro v ⟨⟩
  exact ⟨rfl, rfl⟩

theorem end_write_kept (held : slotAt h.writes n = some w) (kept : h.Kept cfg watched) :
    (endWrite h n).Kept cfg watched :=
  ⟨kept.1.rewrite kept.1.keyed (fewer_set held (by simp)) (fun _ _ _ remaining => remaining), kept.2⟩

theorem defer_write_kept (held : slotAt h.writes n = some w) (kept : h.Kept cfg watched) :
    (deferWrite cfg h n w).Kept cfg watched :=
  end_write_kept (by rw [release_writes]; exact held) (release_kept _ kept)

/-- A write that is given up names the retractions that cover its row. -/
theorem unless_retracted_kept (held : slotAt h.writes n = some w) {next : Engine}
    (goes : next.Kept cfg watched) (kept : h.Kept cfg watched) :
    (unlessRetracted cfg h n w next).Kept cfg watched := by
  unfold unlessRetracted
  split
  · exact goes
  · rename_i hits some'
    refine defer_write_kept held ⟨kept.1, kept.2.1, ?_⟩
    intro p member
    rcases List.mem_cons.mp member with rfl | old
    · refine ⟨some', fun e hit => ?_⟩
      have filtered := (List.mem_filter.mp hit).2
      rw [Bool.and_eq_true] at filtered
      exact filtered.2
    · exact kept.2.2 p old

theorem settle_write_kept (held : slotAt h.writes n = some w) (written : Bool)
    (kept : h.Kept cfg watched) : (settleWrite cfg h n w written).Kept cfg watched := by
  unfold settleWrite
  refine unless_retracted_kept held ?_ kept
  have released := release_kept (w.row.id cfg) kept
  have held' : slotAt (releaseSourceLegGuard h (w.row.id cfg)).writes n = some w := by
    rw [release_writes]
    exact held
  simp only
  split
  · exact put_write_kept held' _ released
  · exact end_write_kept held' released

theorem write_answered_kept (held : slotAt h.writes n = some w) (ok : Bool)
    (kept : h.Kept cfg watched) : (writeAnswered cfg h n w ok).Kept cfg watched := by
  unfold writeAnswered
  split
  · exact end_write_kept held kept
  · exact defer_write_kept held kept
  · exact put_write_kept held _ kept
  · exact unless_retracted_kept held (put_write_kept held _ kept) kept
  · split
    · exact settle_write_kept held _ kept
    · exact put_write_kept held _ kept
  · exact settle_write_kept held _ kept
  · exact kept
  · exact kept

/-- A pending write writes its own row, which no quiet entry covers. -/
theorem write_ran_kept (collisionFree : Function.Injective cfg.sha256)
    (held : slotAt h.writes n = some w) (kept : h.Kept cfg watched) :
    (writeRan cfg h n w).Kept cfg watched := by
  unfold writeRan
  split
  · have wrote : ({ h with table := (insertIgnore h.table (w.row.id cfg) w.row).1 } : Engine).Kept
        cfg watched :=
      ⟨kept.1.rewrite (insert_keyed kept.1.keyed w.row) (fun _ w held => ⟨w, held, rfl, rfl⟩)
        (fun e quiet _ remaining => insert_remaining (quiet n w held) remaining), kept.2⟩
    exact put_write_kept (by exact held) _ wrote
  · have wrote : ({ h with table := (reviveRetracted h.table (w.row.id cfg) w.row).1 } : Engine).Kept
        cfg watched :=
      ⟨kept.1.rewrite (revive_keyed kept.1.keyed w.row) (fun _ w held => ⟨w, held, rfl, rfl⟩)
        (fun e quiet _ remaining =>
          revive_remaining collisionFree kept.1.keyed (quiet n w held) remaining), kept.2⟩
    exact put_write_kept (by exact held) _ wrote
  · exact kept

theorem committed_kept (id : String) (guarded : Guarded watched h (.committed id))
    (kept : h.Kept cfg watched) : (writeFinalizedTransfer h id).Kept cfg watched := by
  unfold writeFinalizedTransfer
  split
  · exact kept
  · rename_i t found
    exact ⟨kept.1.begin (guarded t found) .snapshot, kept.2⟩

theorem mem_covered_writes {entry : Entry} (held : slotAt h.writes n = some w)
    (earlier : w.seq < entry.seq) (covers : retractionCovers entry w.row = true) :
    n ∈ coveredWrites h entry := by
  unfold coveredWrites
  refine List.mem_filter.mpr ⟨List.mem_range.mpr (slot_inside held), ?_⟩
  rw [held, Option.any_some]
  simp [earlier, covers]

theorem retract_kept (chain : Coin) (first : Option ℤ) (last gen : Option (Option ℤ))
    (kept : h.Kept cfg watched) :
    (retractTransfersForReorg h chain first last gen).Kept cfg watched := by
  unfold retractTransfersForReorg
  split
  · exact kept
  · rename_i bounds _
    refine ⟨kept.1.record _ ?_ (Nat.le_succ _), kept.2⟩
    intro n w held covers
    exact mem_covered_writes held (Nat.lt_succ_of_le (kept.1.dated n w held)) covers

variable {k : ℕ} {c : Call}

theorem put_call_kept (held : slotAt h.calls k = some c) {stage : CallStage}
    (next : watched c.entry = true → CallKept h.table h.writes { c with stage := stage })
    (kept : h.Kept cfg watched) : (putCall h k c stage).Kept cfg watched := by
  refine ⟨kept.1.advance held ?_ ?_, kept.2⟩
  · rintro d ⟨⟩
    rfl
  · rintro d ⟨⟩
    exact next

theorem next_row_kept (held : slotAt h.calls k = some c) {ids : List String}
    (rows : watched c.entry = true → Quiet h.writes c.entry ∧ Remaining h.table c.entry ids)
    (kept : h.Kept cfg watched) : (nextRow h k c ids).Kept cfg watched := by
  unfold nextRow
  split
  · exact ⟨kept.1.finish held rows, kept.2⟩
  · exact put_call_kept held rows kept

theorem call_ran_kept (held : slotAt h.calls k = some c) (guarded : Guarded watched h (.callRan k))
    (kept : h.Kept cfg watched) : (callRan h k c).Kept cfg watched := by
  have before := fun on => kept.1.call k c held on
  have own := guarded c held
  unfold callRan
  split
  · rename_i stage
    simp only [CallKept, stage] at before
    exact put_call_kept held (fun on => ⟨before on, found_remaining⟩) kept
  · rename_i id rest stage
    simp only [CallKept, stage] at before
    simp only [stage] at own
    refine put_call_kept (h := { h with table := updateBridgeTransfer h.table id, touched := _ }) held
      (fun on => ⟨(before on).1, retract_done (before on).2⟩) ⟨?_, ?_, kept.2.2⟩
    · exact kept.1.rewrite (retract_keyed kept.1.keyed id) (fun _ w held => ⟨w, held, rfl, rfl⟩)
        (fun _ _ _ => retract_remaining)
    · split
      · exact kept.2.1
      · rename_i row found
        split
        · rename_i final
          intro p member
          rcases List.mem_cons.mp member with rfl | old
          · exact own row found final
          · exact kept.2.1 p old
        · exact kept.2.1
  · exact kept

theorem call_answered_kept (held : slotAt h.calls k = some c) (ok : Bool) (kept : h.Kept cfg watched) :
    (callAnswered h k c ok).Kept cfg watched := by
  have before := fun on => kept.1.call k c held on
  unfold callAnswered
  split
  · rename_i slots stage
    simp only [CallKept, stage] at before
    split
    · rename_i done
      refine put_call_kept held (fun on => ?_) kept
      intro n w pending
      by_contra covers
      rw [Bool.not_eq_false] at covers
      have empty := List.all_eq_true.mp done n (before on n w pending covers)
      rw [pending] at empty
      exact absurd empty (by simp)
    · exact kept
  · exact ⟨kept.1.advance held (by simp) (by simp), kept.2⟩
  · rename_i ids stage
    simp only [CallKept, stage] at before
    exact next_row_kept held before kept
  · rename_i id rest stage
    simp only [CallKept, stage] at before
    have released := release_kept id kept
    refine next_row_kept (by rw [release_calls]; exact held) (fun on => ?_) released
    rw [release_writes]
    have table : (releaseSourceLegGuard h id).table = h.table := by
      unfold releaseSourceLegGuard
      simp only
      split <;> rfl
    rw [table]
    exact before on
  · exact kept
  · exact kept

theorem restart_kept (kept : h.Kept cfg watched) : (restart h).Kept cfg watched := by
  refine ⟨⟨kept.1.keyed, by simp [restart], by simp [restart], kept.1.known, by simp [restart], ?_⟩,
    kept.2⟩
  intro e member on
  exact ⟨by simp [Quiet, restart], (kept.1.back e member on).2⟩

/-- The step lemma. -/
theorem step_kept (collisionFree : Function.Injective cfg.sha256) {ev : Event}
    (guarded : Guarded watched h ev) (kept : h.Kept cfg watched) :
    (step cfg h ev).Kept cfg watched := by
  cases ev with
  | poll t =>
    simp only [step, poll]
    split_ifs <;> exact kept
  | stamped ok => exact propose_kept ok kept
  | joined t => exact open_round_kept t kept
  | abandoned id => exact release_kept id kept
  | committed id => exact committed_kept id guarded kept
  | writeRan n =>
    cases held : slotAt h.writes n with
    | none => simpa only [step, held, Option.elim_none] using kept
    | some w =>
      simp only [step, held, Option.elim_some]
      exact write_ran_kept collisionFree held kept
  | writeAnswered n ok =>
    cases held : slotAt h.writes n with
    | none => simpa only [step, held, Option.elim_none] using kept
    | some w =>
      simp only [step, held, Option.elim_some]
      exact write_answered_kept held ok kept
  | retract chain first last gen => exact retract_kept chain first last gen kept
  | callRan k =>
    cases held : slotAt h.calls k with
    | none => simpa only [step, held, Option.elim_none] using kept
    | some c =>
      simp only [step, held, Option.elim_some]
      exact call_ran_kept held guarded kept
  | callAnswered k ok =>
    cases held : slotAt h.calls k with
    | none => simpa only [step, held, Option.elim_none] using kept
    | some c =>
      simp only [step, held, Option.elim_some]
      exact call_answered_kept held ok kept
  | restart => exact restart_kept kept

end Steps

section Runs
variable {cfg : Params} {watched : Entry → Bool}

end Runs

section Sample

def sampleParams : Params := ⟨"regtest", String.ofList⟩

theorem sample_collision_free : Function.Injective sampleParams.sha256 :=
  fun _ _ same => String.ofList_injective same

def sampleTransfer (generation : ℤ) : Transfer := ⟨⟨.btc, 41, .ltc, "q"⟩, generation⟩

def sampleId : String := deriveTransferId sampleParams "regtest" (sampleTransfer 0).leg

/- A write that finds no row of its id, and one that finds a retracted row. -/
def inserted (n : ℕ) : List Event :=
  [.writeAnswered n true, .writeAnswered n true, .writeRan n, .writeAnswered n true,
    .writeAnswered n true]

def revived (n : ℕ) : List Event :=
  [.writeAnswered n true, .writeAnswered n true, .writeRan n, .writeAnswered n true, .writeRan n,
    .writeAnswered n true, .writeAnswered n true]

/- Everything from action 40 on at generation 1 or below. -/
def sampleRetract : Event := .retract .btc (some 40) none (some (some 1))

/- A round is collecting votes when its leg is reorganized away, and commits after that. -/
@[irreducible] def lateRoundRun : List Event :=
  [.joined (sampleTransfer 1), sampleRetract, .callAnswered 0 true, .callRan 0, .callAnswered 0 true,
    .committed sampleId] ++ inserted 0

/- Finalized by the poll's own round, retracted while the write is mirroring, mined again at the
   next generation and finalized once more. -/
@[irreducible] def reminedRun : List Event :=
  [.poll (sampleTransfer 1), .stamped true, .committed sampleId] ++ (inserted 0).dropLast ++
    [sampleRetract, .callAnswered 0 true, .writeAnswered 0 true, .callAnswered 0 true, .callRan 0,
      .callAnswered 0 true, .callRan 0, .callAnswered 0 true, .joined (sampleTransfer 2),
      .committed sampleId] ++ revived 1

theorem remined_guarded :
    Admitted (step sampleParams) (Guarded fun e => e.bounds.gen.isSome) Engine.start reminedRun := by
  decide +kernel

end Sample
end XChainHub.CrossChain.Bridge
