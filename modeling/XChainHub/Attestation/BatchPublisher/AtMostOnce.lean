import XChainHub.Library.GuardedRuns
import XChainHub.Attestation.BatchPublisher.Sweep

/-!
When a batch window is paid for at most once. A window with an intent, a publish or a
landing on record keeps a marker that holds it, unless a skipped marker is written
over it or a retraction of some other batch reopens it.
-/
namespace XChainHub.Attestation.BatchPublisher
open PaidLog GuardedRuns IdempotentBroadcast

section Conditions
variable (h : Hub)

/- No skipped marker is written over one that holds the window, and what reopens a landed
   window is a retraction of the batch that landed last. -/
def Guarded : Event → Prop
  | .wrote reply =>
    match h.call with
    | some (.skipping c _) => reply.ran = true → ¬ Held h.table c.start
    | _ => True
  | .retracted batch was =>
    was = .landed → statusAt h.table batch.windowStart = some .landed →
      h.landedBy.get batch.windowStart = some batch.action
  | _ => True

instance : (ev : Event) → Decidable (Guarded h ev)
  | .wrote reply =>
    match call : h.call with
    | some (.skipping c _) =>
      decidable_of_iff (reply.ran = true → ¬ Held h.table c.start) (by simp only [Guarded, call])
    | none | some (.marker ..) | some (.skippedRows ..) | some (.chain _) | some (.landing ..)
    | some (.rows ..) | some (.burying ..) | some (.preparing ..) | some (.claimDelete ..)
    | some (.claimInsert ..) | some (.sending ..) | some (.withdrawing ..) | some (.moving ..)
    | some (.marking ..) => isTrue (by simp only [Guarded, call])
  | .retracted batch was => inferInstanceAs (Decidable
      (was = .landed → statusAt h.table batch.windowStart = some .landed →
        h.landedBy.get batch.windowStart = some batch.action))
  | .sweep .. | .markerRead .. | .skippedRead _ | .chainRead _ | .rowsRead _ | .prepared _
  | .sent _ | .landed _ | .restart _ => isTrue trivial

end Conditions

section Invariant

/- A window that is spent has a marker that holds it, and none is under way in the log: a
   claim is its own record. -/
structure MarkersKept (table : Table) (log : List (Mark ℕ)) : Prop where
  once : PaidOnce log
  settled : ∀ start, status log start ≠ .running
  held : ∀ start, status log start = .spent → Held table start

variable {table : Table} {log : List (Mark ℕ)}

/-- A table that holds what was held keeps the log. -/
theorem MarkersKept.rewrite {after : Table} (kept : MarkersKept table log)
    (holds : ∀ start, Held table start → Held after start) : MarkersKept after log :=
  ⟨kept.once, kept.settled, fun start spent => holds start (kept.held start spent)⟩

theorem MarkersKept.paid {after : Table} (kept : MarkersKept table log) {start : ℕ} (own : Held after start)
    (others : ∀ other, other ≠ start → Held table other → Held after other) :
    MarkersKept after (.paid start :: log) := by
  refine ⟨⟨trivial, kept.once⟩, ?_, ?_⟩
  · intro other
    by_cases same : start = other
    · rw [← same]
      simp [status, Mark.key, Mark.leaves]
    · rw [status_other (m := .paid start) same]
      exact kept.settled other
  · intro other spent
    by_cases same : start = other
    · rw [← same]
      exact own
    · rw [status_other (m := .paid start) same] at spent
      exact others other (Ne.symm same) (kept.held other spent)

theorem MarkersKept.freed {after : Table} (kept : MarkersKept table log) {start : ℕ}
    (others : ∀ other, other ≠ start → Held table other → Held after other) :
    MarkersKept after (.freed start :: log) := by
  refine ⟨⟨trivial, kept.once⟩, ?_, ?_⟩
  · intro other
    by_cases same : start = other
    · rw [← same]
      simp [status, Mark.key, Mark.leaves]
    · rw [status_other (m := .freed start) same]
      exact kept.settled other
  · intro other spent
    by_cases same : start = other
    · rw [← same] at spent
      simp [status, Mark.key, Mark.leaves] at spent
    · rw [status_other (m := .freed start) same] at spent
      exact others other (Ne.symm same) (kept.held other spent)

/-- A window without a marker is claimed: it has not been paid for. -/
theorem MarkersKept.claimed {after : Table} (kept : MarkersKept table log) {start : ℕ}
    (absent : statusAt table start = none) (own : Held after start)
    (others : ∀ other, Held table other → Held after other) :
    MarkersKept after (.paid start :: .begun start :: log) := by
  have idle : status log start = .idle := by
    cases found : status log start with
    | idle => rfl
    | running => exact absurd found (kept.settled start)
    | spent =>
      obtain ⟨s, at', -⟩ := kept.held start found
      rw [absent] at at'
      exact absurd at' (by simp)
  refine ⟨⟨trivial, idle, kept.once⟩, ?_, ?_⟩
  · intro other
    by_cases same : start = other
    · rw [← same]
      simp [status, Mark.key, Mark.leaves]
    · rw [status_other (m := .paid start) same, status_other (m := .begun start) same]
      exact kept.settled other
  · intro other spent
    by_cases same : start = other
    · rw [← same]
      exact own
    · rw [status_other (m := .paid start) same, status_other (m := .begun start) same] at spent
      exact others other (kept.held other spent)

theorem upsert_held {start other windowEnd : ℕ} {s : Status}
    (kept : s.holds = true ∨ ¬ Held table start) (held : Held table other) :
    Held (upsertStatus table start windowEnd s) other := by
  by_cases apart : other = start
  · rw [apart] at held ⊢
    rcases kept with holds | free
    · exact ⟨s, upsert_same, holds⟩
    · exact absurd held free
  · obtain ⟨was, at', holds⟩ := held
    exact ⟨was, by rw [upsert_other apart]; exact at', holds⟩

theorem upsert_landed_held {start windowEnd : ℕ} :
    Held (upsertStatus table start windowEnd .landed) start :=
  ⟨.landed, upsert_same, rfl⟩

end Invariant

section Steps
variable {cfg : Params} {h : Hub}

def Hub.Kept (h : Hub) : Prop := MarkersKept h.table h.log

theorem next_marker_kept (todo : List ℕ) (out : List Candidate) (kept : h.Kept) :
    (nextMarker h todo out).Kept := by
  unfold nextMarker
  split
  · split <;> exact kept
  · exact kept

theorem next_window_kept (pending : List Candidate) (kept : h.Kept) :
    (nextWindow h pending).Kept := by
  unfold nextWindow
  split <;> exact kept

theorem record_landed_kept (batch : LandedBatch) (kept : h.Kept) :
    (recordLandedWindow h batch).Kept :=
  MarkersKept.paid kept upsert_landed_held (fun _ _ => upsert_held (Or.inl rfl))

theorem next_landing_kept (todo : List LandedBatch) (pending : List Candidate) (kept : h.Kept) :
    (nextLanding h todo pending).Kept := by
  unfold nextLanding
  split
  · exact next_window_kept pending kept
  · exact kept

theorem read_marker_kept (start : ℕ) (todo : List ℕ) (out : List Candidate) (ready : Bool)
    (kept : h.Kept) : (readMarker h start todo out ready).Kept := by
  unfold readMarker
  split
  · exact next_marker_kept _ _ kept
  · exact next_marker_kept _ _ kept
  · exact kept
  · split <;> exact next_marker_kept _ _ kept
  all_goals exact next_marker_kept _ _ kept

theorem reconcile_kept (pending : List Candidate) (answer : Option ChainAnswer) (kept : h.Kept) :
    (reconcile cfg h pending answer).Kept := by
  unfold reconcile
  split
  · exact next_window_kept _ kept
  · exact next_landing_kept _ _ kept

theorem read_rows_kept (c : Candidate) (rest : List Candidate) (rows : Option ℕ) (kept : h.Kept) :
    (readRows h c rest rows).Kept := by
  unfold readRows
  split
  · exact next_window_kept rest kept
  · split
    · exact kept
    · split <;> exact kept

theorem record_status_kept (c : Candidate) (rest : List Candidate) {s : Status} {reply : Reply}
    (over' : reply.ran = true → s.holds = true ∨ ¬ Held h.table c.start) (kept : h.Kept) :
    (recordStatus cfg h c rest s reply).Kept := by
  unfold recordStatus
  refine next_window_kept rest ?_
  split
  · rename_i ran
    exact MarkersKept.rewrite kept (fun _ => upsert_held (over' ran))
  · exact kept

theorem claims_open (c : Candidate) : c.claims.holds = false := by
  unfold Candidate.claims
  cases c.reopenedFrom with
  | none => rfl
  | some r => cases r <;> rfl

theorem claim_delete_kept (c : Candidate) (wires : ℕ) (rest : List Candidate) (reply : Reply)
    (kept : h.Kept) :
    (claimDelete h c wires rest reply).Kept := by
  have after : (if reply.ran then
      { h with table := (deleteAttestPublishedBatch h.table c.start c.claims).1 }
      else h).Kept := by
    split
    · exact MarkersKept.rewrite kept (fun _ => delete_held (claims_open c))
    · exact kept
  unfold claimDelete
  simp only
  split
  · exact next_window_kept rest after
  · split
    · exact next_window_kept rest after
    · exact after

theorem claim_insert_kept (c : Candidate) (wires : ℕ) (rest : List Candidate) (reply : Reply)
    (kept : h.Kept) : (claimInsert cfg h c wires rest reply).Kept := by
  unfold claimInsert
  simp only
  split
  · exact next_window_kept rest kept
  · rename_i claimed
    rw [not_or, not_not] at claimed
    obtain ⟨absent, present⟩ := insert_created claimed.1
    have own : Held (setAttestPublishedBatchByNetwork h.table c.start (windowEndFor cfg c.start)
        .intent).1 c.start := ⟨.intent, present, rfl⟩
    split
    · exact next_window_kept rest
        (MarkersKept.paid kept own (fun _ _ => insert_held))
    · exact MarkersKept.claimed kept absent own (fun _ => insert_held)

theorem wire_sent_kept (c : Candidate) (wire wires : ℕ) (rest : List Candidate)
    (error : Option SendError) (kept : h.Kept) :
    (wireSent cfg h c wire wires rest error).Kept := by
  unfold wireSent
  split
  · split <;> exact kept
  · split
    · simp only
      split <;> exact kept
    · exact next_window_kept rest kept

theorem delete_other_held {start other : ℕ} {s : Status} {table : Table} (apart : other ≠ start)
    (held : Held table other) : Held (deleteAttestPublishedBatch table start s).1 other := by
  obtain ⟨was, at', holds⟩ := held
  exact ⟨was, by rw [delete_other apart]; exact at', holds⟩

theorem set_other_held {start other : ℕ} {row : Marker} {table : Table} (apart : other ≠ start)
    (held : Held table other) : Held (table.set start row) other := by
  obtain ⟨was, at', holds⟩ := held
  exact ⟨was, by rw [status_at_set_other _ apart]; exact at', holds⟩

/-- Only a withdrawn intent is freed. -/
theorem withdraw_kept (c : Candidate) (rest : List Candidate) (reply : Reply) (kept : h.Kept) :
    (withdraw h c rest reply).Kept := by
  unfold withdraw
  simp only
  refine next_window_kept rest ?_
  split
  · exact MarkersKept.freed kept (fun _ => delete_other_held)
  · exact kept

theorem move_to_dead_letter_kept (c : Candidate) (rest : List Candidate) (reply : Reply)
    (kept : h.Kept) : (moveToDeadLetter cfg h c rest reply).Kept := by
  have after : (if reply.ran then
      { h with table := (updateAttestPublishedBatchStatus h.table c.start
        (windowEndFor cfg c.start) .intent .deadletter).1 }
      else h).Kept := by
    split
    · rcases update_status_cases h.table c.start (windowEndFor cfg c.start)
        .intent .deadletter with same | ⟨-, row, moved, to'⟩
      · rw [same]
        exact kept
      · rw [moved]
        exact MarkersKept.rewrite kept (fun _ => set_held (by rw [to']; rfl))
    · exact kept
  unfold moveToDeadLetter
  simp only
  refine next_window_kept rest ?_
  split <;> exact after

theorem mark_sent_kept (c : Candidate) (rest : List Candidate) (reply : Reply) (kept : h.Kept) :
    (markSent h c rest reply).Kept := by
  unfold markSent
  simp only
  refine next_window_kept rest ?_
  rcases update_cases h.table c.start .intent .sent with
    same | ⟨-, row, moved, to'⟩
  · rw [same, if_neg (by simp)]
    exact kept
  · rw [moved]
    split
    · exact MarkersKept.paid kept ⟨row.status, status_at_set_same row, by rw [to']; rfl⟩
        (fun _ => set_other_held)
    · exact kept

theorem reopen_kept (batch : LandedBatch) {was : Status}
    (last : was = .landed → statusAt h.table batch.windowStart = some .landed →
      h.landedBy.get batch.windowStart = some batch.action)
    (was' : was = .landed ∨ was = .sent) (kept : h.Kept) :
    (reopenLandedWindow h batch was).Kept := by
  unfold reopenLandedWindow
  simp only
  rcases update_status_cases h.table batch.windowStart batch.windowEnd was
    .reopened with same | ⟨at', row, moved, -⟩
  · rw [same, if_neg (by simp)]
    exact kept
  · rw [moved, if_pos rfl, if_pos ?_]
    · exact MarkersKept.freed kept (fun _ => set_other_held)
    · rcases was' with landed | sent
      · exact Or.inr (last landed (by rw [at', landed]))
      · exact Or.inl sent

theorem restart_kept (tracking : Option ℕ) (kept : h.Kept) : (restart cfg h tracking).Kept := by
  unfold restart
  cases tracking with
  | none => exact kept
  | some start => exact MarkersKept.rewrite kept (fun _ => insert_held)

theorem call_step_kept {stage : Stage} (running : h.call = some stage) {ev : Event}
    (guarded : Guarded h ev) (kept : h.Kept) : (callStep cfg h stage ev).Kept := by
  unfold callStep
  split
  · split
    · exact read_marker_kept _ _ _ _ kept
    · exact kept
  · rename_i start todo out rows
    unfold readSkipped
    split <;> exact next_marker_kept _ _ kept
  · exact reconcile_kept _ _ kept
  · rename_i batch todo pending reply
    cases reply with
    | done => exact next_landing_kept _ _ (record_landed_kept batch kept)
    | left => exact record_landed_kept batch kept
    | lost => exact kept
  · exact read_rows_kept _ _ _ kept
  · rename_i c rest reply
    simp only [Guarded, running] at guarded
    exact record_status_kept c rest (fun ran => Or.inr (guarded ran)) kept
  · exact record_status_kept _ _ (fun _ => Or.inl rfl) kept
  · unfold prepare
    split
    · exact next_window_kept _ kept
    · exact kept
    · split
      · exact next_window_kept _ kept
      · exact kept
  · exact claim_delete_kept _ _ _ _ kept
  · exact claim_insert_kept _ _ _ _ kept
  · exact wire_sent_kept _ _ _ _ _ kept
  · exact withdraw_kept _ _ _ kept
  · exact move_to_dead_letter_kept _ _ _ kept
  · exact mark_sent_kept _ _ _ kept
  · exact kept

/-- The step lemma. -/
theorem step_kept {ev : Event} (guarded : Guarded h ev) (kept : h.Kept) : (step cfg h ev).Kept := by
  unfold step
  split
  · unfold sweep
    split
    · exact kept
    · exact next_marker_kept _ _ kept
  · exact record_landed_kept _ kept
  · rename_i batch was
    split
    · rename_i was'
      exact reopen_kept batch guarded was' kept
    · exact kept
  · exact restart_kept _ kept
  · split
    · exact kept
    · rename_i stage running
      exact call_step_kept running guarded kept

end Steps

section Runs
variable {cfg : Params}

/- A publisher with no windows on record. -/
def Hub.fresh : Hub := ⟨OrderedMap.empty, OrderedMap.empty, none, [], OrderedMap.empty⟩

/-- In a run whose steps keep the guard, a window with an intent, a publish or a landing on
    record is broadcast again only after it was freed. -/
theorem window_paid_once {evs : List Event} (guarded : Admitted (step cfg) Guarded Hub.fresh evs) :
    PaidOnce (run (step cfg) Hub.fresh evs).log := by
  have start : Hub.fresh.Kept :=
    ⟨trivial, fun _ => by simp [Hub.fresh, status], fun _ spent => absurd spent (by
      simp [Hub.fresh, status])⟩
  exact (run_invariant Hub.Kept (fun h ev kept ok => step_kept ok kept) start guarded).once

end Runs

section Sample

def sampleParams : Params := ⟨3600, 3⟩

def sampleBatch : LandedBatch := ⟨3600, 7200, 5⟩

/- One closed window, with its claim and one wire. -/
def sampleClaim : List Event :=
  [.rowsRead (some 1), .prepared (.wires 1), .wrote .done, .wrote .done]

/- The batch of another hub lands while this hub's read of the window is empty; a late row
   makes the skipped window owed again, and the chain cannot be asked. -/
@[irreducible] def overwrittenRun : List Event :=
  [.sweep 7200 (some 3600) [], .markerRead true false, .chainRead none, .rowsRead (some 0),
    .landed sampleBatch, .wrote .done,
    .sweep 10800 (some 3600) [], .markerRead true false, .skippedRead (some 1),
    .markerRead true false, .chainRead none] ++ sampleClaim

/-- A skipped marker written over a landing lets the window be paid for. -/
theorem landed_window_broadcast :
    ¬ PaidOnce (run (step sampleParams) Hub.fresh overwrittenRun).log := by
  decide +kernel

/- Published, landed, retracted and published again. -/
@[irreducible] def republishedRun : List Event :=
  [.sweep 7200 (some 3600) [], .markerRead true false, .chainRead none] ++ sampleClaim ++
    [.sent none, .wrote .done, .landed sampleBatch, .retracted sampleBatch .landed,
      .sweep 7200 (some 3600) [], .markerRead true true,
      .chainRead (some ⟨[], false⟩)] ++ sampleClaim

theorem republished_guarded :
    Admitted (step sampleParams) Guarded Hub.fresh republishedRun := by
  decide +kernel

theorem sample_window_paid_once :
    (run (step sampleParams) Hub.fresh republishedRun).log =
      [.paid 3600, .begun 3600, .freed 3600, .paid 3600, .paid 3600, .paid 3600, .begun 3600] ∧
    PaidOnce (run (step sampleParams) Hub.fresh republishedRun).log :=
  ⟨by decide +kernel, window_paid_once republished_guarded⟩

end Sample
end XChainHub.Attestation.BatchPublisher
