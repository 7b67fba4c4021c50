import XChainHub.Library.GuardedRuns
import XChainHub.CrossChain.Call.Engine

/-!
When a retracted call stays retracted. The fence stops every write that began before the
retraction and is checked after it; what it does not reach is a quorum that comes later and
an upsert that was checked earlier.
-/
namespace XChainHub.CrossChain.Call
open SlotHeap GuardedRuns
open Bridge (Coin Bounds Entry normalizeRetractionBounds)

section Conditions
variable (watched : Entry → Bool) (h : Engine)

/- An upsert that runs after the last statement of a retraction covering its row belongs to a
   round that reached its quorum before the retraction and was checked after it. -/
def Guarded : Event → Prop
  | .writeRan n => ∀ w ∈ slotAt h.writes n, w.stage = .upserting → ∀ e ∈ h.closed, watched e = true →
      crossChainCallRetractionTail e w.row = true → e ∉ w.known ∧ e ∈ w.passed
  | _ => True

instance : (ev : Event) → Decidable (Guarded watched h ev)
  | .writeRan n => inferInstanceAs (Decidable (∀ w ∈ slotAt h.writes n, w.stage = .upserting →
      ∀ e ∈ h.closed, watched e = true → crossChainCallRetractionTail e w.row = true →
        e ∉ w.known ∧ e ∈ w.passed))
  | .pollDispatch _ | .pollResults .. | .pollRan | .pollAnswered _ | .proposed _ | .vouchRan _
  | .vouchAnswered .. | .synced _ | .abandoned _ | .committed _ | .ringFull _ | .writeAnswered ..
  | .retract .. | .retractionRan _ | .retractionAnswered .. | .restart => isTrue trivial

end Conditions

section Claim

/- No row that a returned retraction covers is finalized, in either phase. -/
def StaysBack (watched : Entry → Bool) (h : Engine) : Prop :=
  ∀ e ∈ h.returned, watched e = true → Cleared h.table e

def CoveredOnly (touched : List (Entry × CallRow)) : Prop :=
  ∀ p ∈ touched, crossChainCallRetractionTail p.1 p.2 = true

def RefusedOnly (refused : List (CallRow × List Entry)) : Prop :=
  ∀ p ∈ refused, p.2 ≠ [] ∧ ∀ e ∈ p.2, crossChainCallRetractionTail e p.1 = true

end Claim

section Invariant
variable {fence : List Entry} {seq : ℕ} {recorded : List Entry} {w : Write}

/- What a pending write can count on: every retraction recorded since its round reached its
   quorum is in the fence under a later number, and none that it has passed covers its row. -/
structure Answers (fence : List Entry) (seq : ℕ) (recorded : List Entry) (w : Write) : Prop where
  dated : w.seq ≤ seq
  fenced : ∀ e ∈ recorded, e ∉ w.known → e ∈ fence ∧ w.seq < e.seq
  passed : w.stage = .upserting → ∀ e ∈ w.passed, e ∉ w.known →
    crossChainCallRetractionTail e w.row = false

/- No statement is left before the return. -/
def CallStage.last : CallStage → Bool
  | .selected [] | .updated _ => true
  | _ => false

def Closing (closed : List Entry) (c : Retraction) : Prop := c.stage.last = true → c.entry ∈ closed

theorem floor_le_start (seq : ℕ) (pending : List Write) : fenceFloor seq pending ≤ seq := by
  induction pending generalizing seq with
  | nil => exact Nat.le_refl seq
  | cons v rest ih => exact Nat.le_trans (ih (min seq v.seq)) (Nat.min_le_left _ _)

/-- The fence is cut below every pending write. -/
theorem floor_le_pending {seq : ℕ} {pending : List Write} (member : w ∈ pending) :
    fenceFloor seq pending ≤ w.seq := by
  induction pending generalizing seq with
  | nil => exact absurd member List.not_mem_nil
  | cons v rest ih =>
    rcases List.mem_cons.mp member with rfl | later
    · exact Nat.le_trans (floor_le_start (min seq w.seq) rest) (Nat.min_le_right _ _)
    · exact ih later

theorem slot_pending {writes : List (Option Write)} {n : ℕ} (held : slotAt writes n = some w) :
    w ∈ writes.filterMap id := by
  rw [slotAt, Option.join_eq_some_iff] at held
  exact List.mem_filterMap.mpr ⟨some w, List.mem_of_getElem? held, rfl⟩

theorem Answers.record (answers : Answers fence seq recorded w) {entry : Entry}
    (next : entry.seq = seq + 1) : Answers (fence ++ [entry]) entry.seq (entry :: recorded) w := by
  refine ⟨next ▸ Nat.le_succ_of_le answers.dated, ?_, answers.passed⟩
  intro e member unknown
  rcases List.mem_cons.mp member with rfl | old
  · exact ⟨List.mem_append_right _ (List.mem_singleton_self _), next ▸ Nat.lt_succ_of_le answers.dated⟩
  · obtain ⟨held, later⟩ := answers.fenced e old unknown
    exact ⟨List.mem_append_left _ held, later⟩

/-- A new write knows of every retraction so far. -/
theorem answers_begin (row : CallRow) : Answers fence seq recorded ⟨seq, row, .snapshot, recorded, []⟩ :=
  ⟨Nat.le_refl seq, fun _ member unknown => absurd member unknown, by simp⟩

end Invariant

section Steps
variable {sha256 : String → String} {watched : Entry → Bool} {h : Engine}

def Engine.Kept (h : Engine) : Prop :=
  Every (Answers h.fence h.retractionSeq h.recorded) h.writes ∧ Every (Closing h.closed) h.retractions ∧
    (∀ e ∈ h.returned, e ∈ h.closed) ∧ CoveredOnly h.touched ∧ RefusedOnly h.refused

def Engine.ClosedClear (watched : Entry → Bool) (h : Engine) : Prop :=
  ∀ e ∈ h.closed, watched e = true → Cleared h.table e

/- What writes and retractions are about, without polls and rounds. -/
def Engine.core (h : Engine) : Engine :=
  { h with
    vouches := []
    rounds := OrderedMap.empty
    finalized := OrderedSet.empty
    inflight := OrderedSet.empty
    polling := none }

theorem kept_of_core {after : Engine} (same : after.core = h.core) (kept : h.Kept) : after.Kept := by
  have here : after.core.Kept := by
    rw [same]
    exact kept
  exact here

theorem clear_of_core {after : Engine} (same : after.core = h.core) (clear : h.ClosedClear watched) :
    after.ClosedClear watched := by
  have here : after.core.ClosedClear watched := by
    rw [same]
    exact clear
  exact here

theorem propose_core (row : CallRow) : (propose sha256 h row).core = h.core := by
  unfold propose
  split <;> rfl

theorem maybe_dispatch_core (row : CallRow) : (maybeDispatch sha256 h row).core = h.core := by
  unfold maybeDispatch
  split
  · rfl
  · split <;> rfl

theorem poll_results_core (coin : Coin) (parked : List String) :
    (pollTargetResults h coin parked).core = h.core := by
  unfold pollTargetResults
  split <;> rfl

theorem relay_result_core (pending : List CallRow) : (maybeRelayResult sha256 h pending).core = h.core := by
  induction pending with
  | nil => rfl
  | cons dispatch rest ih =>
    rw [maybeRelayResult]
    split
    · exact ih
    · rfl

theorem poll_ran_core : (pollRan h).core = h.core := by
  unfold pollRan
  split <;> rfl

theorem poll_answered_core (ok : Bool) : (pollAnswered sha256 h ok).core = h.core := by
  unfold pollAnswered
  split
  · split <;> rfl
  · exact relay_result_core _
  · exact (relay_result_core _).trans (propose_core _)
  · exact relay_result_core _
  all_goals rfl

theorem validate_core (row : CallRow) : (validateProposedMatch sha256 h row).core = h.core := by
  unfold validateProposedMatch
  split
  · rfl
  · split <;> rfl

theorem adopt_core (row : CallRow) : (adoptLeaderRow sha256 h row).core = h.core := by
  unfold adoptLeaderRow
  split <;> rfl

theorem vouch_ran_core (n : ℕ) (v : Vouch) : (vouchRan h n v).core = h.core := by
  unfold vouchRan
  split <;> rfl

theorem vouch_answered_core (n : ℕ) (v : Vouch) (ok : Bool) :
    (vouchAnswered sha256 h n v ok).core = h.core := by
  unfold vouchAnswered
  split
  · rfl
  · rfl
  · split <;> rfl
  · exact adopt_core _

theorem release_all_core (rows : List Stored) :
    (rows.foldl (fun s row => releaseRound s (row.roundId sha256)) h).core = h.core := by
  induction rows generalizing h with
  | nil => rfl
  | cons row rest ih => exact ih

variable {n : ℕ} {w : Write}

theorem prune_kept (kept : h.Kept) : (pruneRetractionFence h).Kept := by
  refine ⟨?_, kept.2⟩
  intro n w held
  obtain ⟨dated, fenced, passed⟩ := kept.1 n w held
  refine ⟨dated, fun e member unknown => ?_, passed⟩
  obtain ⟨here, later⟩ := fenced e member unknown
  refine ⟨List.mem_filter.mpr ⟨here, ?_⟩, later⟩
  exact decide_eq_true (Nat.lt_of_le_of_lt (floor_le_pending (slot_pending held)) later)

theorem record_kept {entry : Entry} (next : entry.seq = h.retractionSeq + 1) (kept : h.Kept) :
    (recordRetraction h entry).Kept := by
  refine prune_kept ⟨?_, kept.2⟩
  exact every_weaken (fun w answers => answers.record next) kept.1

theorem put_write_kept (held : slotAt h.writes n = some w) {next : Write}
    (answers : Answers h.fence h.retractionSeq h.recorded next) (kept : h.Kept) :
    (putWrite h n next).Kept :=
  ⟨every_set kept.1 held (by rintro _ ⟨⟩; exact answers), kept.2⟩

theorem end_write_kept (held : slotAt h.writes n = some w) (kept : h.Kept) : (endWrite h n).Kept :=
  prune_kept ⟨every_set kept.1 held (by simp), kept.2⟩

theorem defer_kept (held : slotAt h.writes n = some w) (kept : h.Kept) :
    (deferFinalize sha256 h n w).Kept :=
  end_write_kept (h := releaseRound h (w.row.roundId sha256)) held kept

theorem Answers.stage {fence recorded : List Entry} {seq : ℕ} (answers : Answers fence seq recorded w)
    {stage : WriteStage} (other : stage ≠ .upserting) :
    Answers fence seq recorded { w with stage := stage } :=
  ⟨answers.dated, answers.fenced, fun same => absurd same other⟩

/-- A write that goes on has passed every retraction recorded since its quorum; one that is
    given up names those that cover its row. -/
theorem check_fence_kept (held : slotAt h.writes n = some w) (kept : h.Kept) :
    (checkFence sha256 h n w).Kept := by
  obtain ⟨dated, fenced, -⟩ := kept.1 n w held
  unfold checkFence
  split
  · rename_i none'
    refine put_write_kept held ⟨dated, fenced, fun _ e member unknown => ?_⟩ kept
    by_contra covers
    rw [Bool.not_eq_false] at covers
    obtain ⟨here, later⟩ := fenced e member unknown
    have hit : e ∈ retractedSince h w.seq w.row := List.mem_filter.mpr ⟨here, by simp [later, covers]⟩
    rw [none'] at hit
    exact absurd hit List.not_mem_nil
  · rename_i hits some'
    refine defer_kept held ⟨kept.1, kept.2.1, kept.2.2.1, kept.2.2.2.1, ?_⟩
    intro p member
    rcases List.mem_cons.mp member with rfl | old
    · refine ⟨some', fun e hit => ?_⟩
      have filtered := (List.mem_filter.mp hit).2
      rw [Bool.and_eq_true] at filtered
      exact filtered.2
    · exact kept.2.2.2.2 p old

theorem write_answered_kept (held : slotAt h.writes n = some w) (ok : Bool) (kept : h.Kept) :
    (writeAnswered sha256 h n w ok).Kept := by
  have answers := kept.1 n w held
  unfold writeAnswered
  split
  · exact end_write_kept held kept
  · exact check_fence_kept held kept
  · exact put_write_kept held (answers.stage (by decide)) kept
  · exact put_write_kept (h := { h with inflight := _ }) held (answers.stage (by decide)) kept
  · exact defer_kept held kept
  · exact kept

theorem write_ran_kept (held : slotAt h.writes n = some w) (kept : h.Kept) : (writeRan h n w).Kept := by
  unfold writeRan
  split
  · exact put_write_kept (h := { h with table := _ }) held ((kept.1 n w held).stage (by decide)) kept
  · exact kept

theorem write_row_kept (id : String) (kept : h.Kept) : (writeFinalizedRow h id).Kept := by
  unfold writeFinalizedRow
  split
  · exact kept
  · exact ⟨every_push kept.1 (answers_begin _), kept.2⟩

variable {k : ℕ} {c : Retraction}

theorem retract_kept (chain : Coin) (first : Option ℤ) (last gen : Option (Option ℤ)) (kept : h.Kept) :
    (retractCallsForReorg h chain first last gen).Kept := by
  unfold retractCallsForReorg
  split
  · exact kept
  · rename_i bounds _
    have noted : (recordRetraction h ⟨h.retractionSeq + 1, chain, bounds⟩).Kept := record_kept rfl kept
    exact ⟨noted.1, every_push noted.2.1 (by simp [Closing, CallStage.last]), noted.2.2⟩

theorem put_retraction_kept (held : slotAt h.retractions k = some c) {stage : CallStage}
    (closing : Closing h.closed { c with stage := stage }) (kept : h.Kept) :
    (putRetraction h k c stage).Kept :=
  ⟨kept.1, every_set kept.2.1 held (by rintro _ ⟨⟩; exact closing), kept.2.2⟩

theorem return_kept (held : slotAt h.retractions k = some c) (done : c.entry ∈ h.closed)
    (kept : h.Kept) : (returnRetraction h k c).Kept := by
  refine ⟨kept.1, every_set kept.2.1 held (by simp), ?_, kept.2.2.2⟩
  intro e member
  rcases List.mem_cons.mp member with rfl | old
  · exact done
  · exact kept.2.2.1 e old

theorem close_kept {table : Table} {touched : List (Entry × CallRow)} (covered : CoveredOnly touched)
    (entry : Entry) (kept : h.Kept) :
    ({ h with table := table, closed := entry :: h.closed, touched := touched } : Engine).Kept :=
  ⟨kept.1, every_weaken (fun _ closing done => List.mem_cons_of_mem _ (closing done)) kept.2.1,
    fun e member => List.mem_cons_of_mem _ (kept.2.2.1 e member), covered, kept.2.2.2.2⟩

/-- The update touches only rows in the range of its retraction. -/
theorem touched_covered (table : Table) (entry : Entry) {touched : List (Entry × CallRow)}
    (covered : CoveredOnly touched) :
    CoveredOnly ((findFinalizedCrossChainCallsInRetractionRange table entry).map
      (fun row => (entry, row.toCallRow)) ++ touched) := by
  intro p member
  rcases List.mem_append.mp member with new | old
  · obtain ⟨row, found, rfl⟩ := List.mem_map.mp new
    obtain ⟨e, hit, rfl⟩ := List.mem_map.mp found
    have filtered := (List.mem_filter.mp hit).2
    rw [Bool.and_eq_true] at filtered
    exact filtered.2
  · exact covered p old

theorem retraction_ran_kept (held : slotAt h.retractions k = some c) (kept : h.Kept) :
    (retractionRan h k c).Kept := by
  unfold retractionRan
  split
  · simp only
    split
    · rename_i none'
      exact put_retraction_kept (h := { h with closed := c.entry :: h.closed }) held
        (fun _ => List.mem_cons_self) (close_kept kept.2.2.2.1 c.entry kept)
    · rename_i some'
      refine put_retraction_kept (h := { h with closed := h.closed }) held (fun done => ?_) kept
      cases found : findFinalizedCrossChainCallsInRetractionRange h.table c.entry with
      | nil => exact absurd found some'
      | cons row rows =>
        rw [found] at done
        exact absurd done (by simp [CallStage.last])
  · exact put_retraction_kept
      (h := { h with table := _, closed := c.entry :: h.closed, touched := _ }) held
      (fun _ => List.mem_cons_self) (close_kept (touched_covered h.table c.entry kept.2.2.2.1) c.entry kept)
  · exact kept

theorem retraction_answered_kept (held : slotAt h.retractions k = some c) (ok : Bool) (kept : h.Kept) :
    (retractionAnswered sha256 h k c ok).Kept := by
  have closing := kept.2.1 k c held
  unfold retractionAnswered
  split
  · exact ⟨kept.1, every_set kept.2.1 held (by simp), kept.2.2⟩
  · rename_i stage
    exact return_kept held (closing (by rw [stage]; rfl)) kept
  · exact put_retraction_kept held (by simp [Closing, CallStage.last]) kept
  · rename_i rows stage
    have done := closing (by rw [stage]; rfl)
    have same : (rows.foldl (fun s row => releaseRound s (row.roundId sha256)) h).core = h.core :=
      release_all_core rows
    have slots := congrArg Engine.retractions same
    have ends := congrArg Engine.closed same
    simp only [Engine.core] at slots ends
    exact return_kept (by rw [slots]; exact held) (by rw [ends]; exact done) (kept_of_core same kept)
  · exact kept
  · exact kept

theorem restart_kept (kept : h.Kept) : (restart h).Kept :=
  ⟨every_nil, every_nil, kept.2.2⟩

theorem final_sync_kept (row : CallRow) (kept : h.Kept) : (handleFinalSync sha256 h row).Kept :=
  write_row_kept _ (kept_of_core (adopt_core row) kept)

theorem step_kept (ev : Event) (kept : h.Kept) : (step sha256 h ev).Kept := by
  cases ev with
  | pollDispatch row => exact kept_of_core (maybe_dispatch_core _) kept
  | pollResults coin parked => exact kept_of_core (poll_results_core coin parked) kept
  | pollRan => exact kept_of_core poll_ran_core kept
  | pollAnswered ok => exact kept_of_core (poll_answered_core ok) kept
  | proposed row => exact kept_of_core (validate_core row) kept
  | vouchRan n =>
    cases held : slotAt h.vouches n with
    | none => simpa only [step, held, Option.elim_none] using kept
    | some v =>
      simp only [step, held, Option.elim_some]
      exact kept_of_core (vouch_ran_core n v) kept
  | vouchAnswered n ok =>
    cases held : slotAt h.vouches n with
    | none => simpa only [step, held, Option.elim_none] using kept
    | some v =>
      simp only [step, held, Option.elim_some]
      exact kept_of_core (vouch_answered_core n v ok) kept
  | synced row => exact final_sync_kept row kept
  | abandoned id => exact kept
  | committed id => exact write_row_kept id kept
  | ringFull id => exact kept
  | writeRan n =>
    cases held : slotAt h.writes n with
    | none => simpa only [step, held, Option.elim_none] using kept
    | some w =>
      simp only [step, held, Option.elim_some]
      exact write_ran_kept held kept
  | writeAnswered n ok =>
    cases held : slotAt h.writes n with
    | none => simpa only [step, held, Option.elim_none] using kept
    | some w =>
      simp only [step, held, Option.elim_some]
      exact write_answered_kept held ok kept
  | retract chain first last gen => exact retract_kept chain first last gen kept
  | retractionRan k =>
    cases held : slotAt h.retractions k with
    | none => simpa only [step, held, Option.elim_none] using kept
    | some c =>
      simp only [step, held, Option.elim_some]
      exact retraction_ran_kept held kept
  | retractionAnswered k ok =>
    cases held : slotAt h.retractions k with
    | none => simpa only [step, held, Option.elim_none] using kept
    | some c =>
      simp only [step, held, Option.elim_some]
      exact retraction_answered_kept held ok kept
  | restart => exact restart_kept kept

end Steps

section Cleared
variable {sha256 : String → String} {watched : Entry → Bool} {h : Engine} {n : ℕ} {w : Write} {k : ℕ}
  {c : Retraction}

theorem write_row_clear (id : String) (clear : h.ClosedClear watched) :
    (writeFinalizedRow h id).ClosedClear watched := by
  unfold writeFinalizedRow
  split <;> exact clear

theorem write_answered_clear (ok : Bool) (clear : h.ClosedClear watched) :
    (writeAnswered sha256 h n w ok).ClosedClear watched := by
  unfold writeAnswered
  split
  · exact clear
  · unfold checkFence
    split <;> exact clear
  all_goals exact clear

/-- An upsert under the guard writes a row that no closed retraction covers. -/
theorem write_ran_clear (held : slotAt h.writes n = some w)
    (guarded : Guarded watched h (.writeRan n)) (kept : h.Kept) (clear : h.ClosedClear watched) :
    (writeRan h n w).ClosedClear watched := by
  unfold writeRan
  split
  · rename_i stage
    intro e member on
    refine (clear e member on).upsert ?_
    by_contra covers
    rw [Bool.not_eq_false] at covers
    obtain ⟨unknown, passed⟩ := guarded w held stage e member on covers
    have free := (kept.1 n w held).passed stage e passed unknown
    rw [free] at covers
    exact absurd covers (by decide)
  · exact clear

theorem retract_clear (chain : Coin) (first : Option ℤ) (last gen : Option (Option ℤ))
    (clear : h.ClosedClear watched) :
    (retractCallsForReorg h chain first last gen).ClosedClear watched := by
  unfold retractCallsForReorg
  split <;> exact clear

/-- A retraction closes on a table without finalized rows in its range. -/
theorem retraction_ran_clear (clear : h.ClosedClear watched) :
    (retractionRan h k c).ClosedClear watched := by
  unfold retractionRan
  split
  · intro e member on
    simp only [putRetraction] at member ⊢
    split at member
    · rename_i none'
      rcases List.mem_cons.mp member with rfl | old
      · exact cleared_of_none_found none'
      · exact clear e old on
    · exact clear e member on
  · intro e member on
    rcases List.mem_cons.mp member with rfl | old
    · exact update_clears
    · exact (clear e old on).update c.entry
  · exact clear

theorem retraction_answered_clear (ok : Bool) (clear : h.ClosedClear watched) :
    (retractionAnswered sha256 h k c ok).ClosedClear watched := by
  unfold retractionAnswered
  split
  · exact clear
  · exact clear
  · exact clear
  · rename_i rows _
    have same : (rows.foldl (fun s row => releaseRound s (row.roundId sha256)) h).core = h.core :=
      release_all_core rows
    have released := clear_of_core same clear
    exact released
  · exact clear
  · exact clear

theorem step_clear {ev : Event} (guarded : Guarded watched h ev) (kept : h.Kept)
    (clear : h.ClosedClear watched) : (step sha256 h ev).ClosedClear watched := by
  cases ev with
  | pollDispatch row => exact clear_of_core (maybe_dispatch_core _) clear
  | pollResults coin parked => exact clear_of_core (poll_results_core coin parked) clear
  | pollRan => exact clear_of_core poll_ran_core clear
  | pollAnswered ok => exact clear_of_core (poll_answered_core ok) clear
  | proposed row => exact clear_of_core (validate_core row) clear
  | vouchRan n =>
    cases held : slotAt h.vouches n with
    | none => simpa only [step, held, Option.elim_none] using clear
    | some v =>
      simp only [step, held, Option.elim_some]
      exact clear_of_core (vouch_ran_core n v) clear
  | vouchAnswered n ok =>
    cases held : slotAt h.vouches n with
    | none => simpa only [step, held, Option.elim_none] using clear
    | some v =>
      simp only [step, held, Option.elim_some]
      exact clear_of_core (vouch_answered_core n v ok) clear
  | synced row => exact write_row_clear _ (clear_of_core (adopt_core row) clear)
  | abandoned id => exact clear
  | committed id => exact write_row_clear id clear
  | ringFull id => exact clear
  | writeRan n =>
    cases held : slotAt h.writes n with
    | none => simpa only [step, held, Option.elim_none] using clear
    | some w =>
      simp only [step, held, Option.elim_some]
      exact write_ran_clear held guarded kept clear
  | writeAnswered n ok =>
    cases held : slotAt h.writes n with
    | none => simpa only [step, held, Option.elim_none] using clear
    | some w =>
      simp only [step, held, Option.elim_some]
      exact write_answered_clear ok clear
  | retract chain first last gen => exact retract_clear chain first last gen clear
  | retractionRan k =>
    cases held : slotAt h.retractions k with
    | none => simpa only [step, held, Option.elim_none] using clear
    | some c =>
      simp only [step, held, Option.elim_some]
      exact retraction_ran_clear clear
  | retractionAnswered k ok =>
    cases held : slotAt h.retractions k with
    | none => simpa only [step, held, Option.elim_none] using clear
    | some c =>
      simp only [step, held, Option.elim_some]
      exact retraction_answered_clear ok clear
  | restart => exact clear

end Cleared

section Runs
variable (sha256 : String → String) (watched : Entry → Bool)

theorem start_kept : Engine.start.Kept :=
  ⟨every_nil, every_nil, by simp [Engine.start], by simp [CoveredOnly, Engine.start],
    by simp [RefusedOnly, Engine.start]⟩

/-- In a run whose steps keep the guard no row that a returned retraction covers is finalized, and
    in every run a retraction touches and refuses only rows it covers. -/
theorem retracted_call_stays_back (evs : List Event) :
    (Admitted (step sha256) (Guarded watched) Engine.start evs →
        StaysBack watched (run (step sha256) Engine.start evs)) ∧
      CoveredOnly (run (step sha256) Engine.start evs).touched ∧
      RefusedOnly (run (step sha256) Engine.start evs).refused := by
  have kept : (run (step sha256) Engine.start evs).Kept :=
    run_preserves Engine.Kept (fun h ev kept => step_kept ev kept) start_kept evs
  refine ⟨fun guarded => ?_, kept.2.2.2⟩
  have clear : (run (step sha256) Engine.start evs).Kept ∧
      (run (step sha256) Engine.start evs).ClosedClear watched :=
    run_invariant (fun h => h.Kept ∧ h.ClosedClear watched)
      (fun h ev both ok => ⟨step_kept ev both.1, step_clear ok both.1 both.2⟩)
      ⟨start_kept, by simp [Engine.ClosedClear, Engine.start]⟩ guarded
  exact fun e member on => clear.2 e (kept.2.2.1 e member) on

end Runs

section Sample

def sampleRow (generation : ℤ) : CallRow := ⟨"c1", .dispatch, "regtest", .btc, 41, .ltc, generation⟩

def sampleId : String := roundId id .dispatch "c1"

/- A poll that finds no row, and the awaits up to the proposal. -/
def polledRow (generation : ℤ) : List Event :=
  [.pollDispatch (sampleRow generation), .pollRan, .pollAnswered true, .pollAnswered true]

/- A write whose every await resolves. -/
def written (n : ℕ) : List Event :=
  [.writeAnswered n true, .writeAnswered n true, .writeRan n, .writeAnswered n true,
    .writeAnswered n true]

/- Everything from action 40 on at generation 1 or below. -/
def sampleRetract : Event := .retract .btc (some 40) none (some (some 1))

/- The retraction finds nothing while the round collects votes, and returns before its quorum. -/
@[irreducible] def lateQuorumRun : List Event :=
  polledRow 1 ++ [sampleRetract, .retractionRan 0, .retractionAnswered 0 true, .committed sampleId] ++
    written 0

/-- A round that was open at the retraction finalizes the retracted call after it. -/
theorem late_quorum_finalizes_retracted_call :
    ¬ ∀ e ∈ (run (step id) Engine.start lateQuorumRun).returned, e.bounds.gen.isSome = true →
      ∀ p ∈ (run (step id) Engine.start lateQuorumRun).table.entries,
        p.2.status = .finalized → crossChainCallRetractionTail e p.2.toCallRow = false := by
  decide +kernel

/- The dispatch is finalized and its result round commits; the retraction fences the result's
   write before its check and retracts the dispatch; the call is mined again at the next
   generation and both phases are finalized. -/
@[irreducible] def reminedRun : List Event :=
  polledRow 1 ++ [.committed sampleId] ++ written 0 ++
    [.pollResults .ltc [], .pollRan, .pollAnswered true, .pollAnswered true,
      .committed (roundId id .result "c1"), .writeAnswered 1 true, sampleRetract, .writeAnswered 1 true,
      .retractionRan 0, .retractionAnswered 0 true, .retractionRan 0, .retractionAnswered 0 true] ++
    polledRow 2 ++ [.committed sampleId] ++ written 2 ++
    [.pollResults .ltc [], .pollRan, .pollAnswered true, .pollAnswered true,
      .committed (roundId id .result "c1")] ++ written 3

theorem remined_guarded :
    Admitted (step id) (Guarded fun e => e.bounds.gen.isSome) Engine.start reminedRun := by
  decide +kernel

theorem sample_call_stays_back :
    ((run (step id) Engine.start reminedRun).table.entries.map Prod.snd =
        [⟨sampleRow 2, .finalized⟩, ⟨resultRow (sampleRow 2), .finalized⟩] ∧
      (run (step id) Engine.start reminedRun).returned.length = 1 ∧
      (run (step id) Engine.start reminedRun).touched.length = 1 ∧
      (run (step id) Engine.start reminedRun).refused.length = 1) ∧
    StaysBack (fun e => e.bounds.gen.isSome) (run (step id) Engine.start reminedRun) :=
  ⟨by decide +kernel, (retracted_call_stays_back id _ reminedRun).1 remined_guarded⟩

/- The upsert waits for the database while the retraction selects, finds nothing and returns. -/
example : ¬ Admitted (step id) (Guarded fun _ => true) Engine.start
    (polledRow 1 ++ [.committed sampleId, .writeAnswered 0 true, .writeAnswered 0 true, sampleRetract,
      .retractionRan 0, .retractionAnswered 0 true, .writeRan 0]) := by
  decide +kernel

end Sample
end XChainHub.CrossChain.Call
