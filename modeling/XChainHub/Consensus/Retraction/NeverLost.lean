import XChainHub.Consensus.Retraction.Carried

/-!
Runs of the retraction rounds. The books of a hub hold on every run: a deferral has its timer
armed or its retry running. On a run that never drops the last record of an event, every
submission that returned is streamed since, held, or in flight.
-/
namespace XChainHub.RetractionConsensus
open GuardedRuns SlotHeap

/- A submission or the retry of a deferral still awaits one of its calls. -/
def Retrying (h : Hub) (key : IntentKey) (serial : ℕ) : Prop :=
  ∃ n d stage, slotAt h.tasks n = some (.submit d (.retry serial) stage) ∧ d.intentKey = key

def Task.entered : Task → Option ℕ
  | .submit _ origin _ => origin.caller
  | .adopt _ _ => none
  | .finalize _ _ caller => caller

/- What holds on every run: the calls in flight entered in the past, and a deferral is filed
   under its own key with its timer armed or its retry running. -/
structure Books (h : Hub) : Prop where
  past : Every (fun t => ∀ since ∈ t.entered, since ≤ h.streamed.length) h.tasks
  keyed : ∀ key state, h.deferrals.get key = some state → state.deletion.intentKey = key
  armed : ∀ key state, h.deferrals.get key = some state →
    state.armed = true ∨ Retrying h key state.serial

section Bookkeeping
variable {h h' : Hub} {d : Deletion} {s : Signed} {n : ℕ} {origin : Origin}

theorem Books.start : Books Hub.initial :=
  ⟨every_nil, fun _ _ found => by simp [Hub.initial] at found,
    fun _ _ found => by simp [Hub.initial] at found⟩

/-- Rounds, ring and history are no part of the books. -/
theorem Books.congr (books : Books h) (tasks : h'.tasks = h.tasks)
    (deferrals : h'.deferrals = h.deferrals) (grown : h.streamed.length ≤ h'.streamed.length) :
    Books h' := by
  refine ⟨?_, ?_, ?_⟩
  · rw [tasks]
    exact every_weaken (fun t past since mark => (past since mark).trans grown) books.past
  · rw [deferrals]
    exact books.keyed
  · intro key state found
    rw [deferrals] at found
    rcases books.armed key state found with armed | ⟨m, e, stage, held, same⟩
    · exact Or.inl armed
    · exact Or.inr ⟨m, e, stage, tasks ▸ held, same⟩

theorem Books.push (books : Books h) {t : Task}
    (past : ∀ since ∈ t.entered, since ≤ h.streamed.length) :
    Books { h with tasks := h.tasks ++ [some t] } := by
  refine ⟨every_push books.past past, books.keyed, ?_⟩
  intro key state found
  rcases books.armed key state found with armed | ⟨m, e, stage, held, same⟩
  · exact Or.inl armed
  · exact Or.inr ⟨m, e, stage, slot_push_old held, same⟩

/- The books of a hub whose deferral of one key and serial waits for a timer. -/
structure Unarmed (h : Hub) (d : Deletion) (origin : Origin) : Prop where
  past : Every (fun t => ∀ since ∈ t.entered, since ≤ h.streamed.length) h.tasks
  keyed : ∀ key state, h.deferrals.get key = some state → state.deletion.intentKey = key
  armed : ∀ key state, h.deferrals.get key = some state →
    state.armed = true ∨ Retrying h key state.serial ∨
      (key = d.intentKey ∧ origin = .retry state.serial)

theorem Unarmed.settled {since : ℕ} (unarmed : Unarmed h d (.submitted since)) : Books h :=
  ⟨unarmed.past, unarmed.keyed, fun key state found => by
    rcases unarmed.armed key state found with armed | retrying | ⟨-, retry⟩
    · exact Or.inl armed
    · exact Or.inr retrying
    · exact absurd retry (by simp)⟩

theorem Books.settle (books : Books h) {stage : Stage}
    (held : slotAt h.tasks n = some (.submit d origin stage)) : Unarmed (h.settle n) d origin := by
  refine ⟨every_set books.past held (by simp), books.keyed, ?_⟩
  intro key state found
  rcases books.armed key state found with armed | ⟨m, e, stage', other, same⟩
  · exact Or.inl armed
  · by_cases here : m = n
    · rw [here, held, Option.some.injEq, Task.submit.injEq] at other
      obtain ⟨rfl, rfl, rfl⟩ := other
      exact Or.inr (Or.inr ⟨same.symm, rfl⟩)
    · refine Or.inr (Or.inl ⟨m, e, stage', ?_, same⟩)
      exact (slot_set_other here).trans other

theorem Books.settle_other (books : Books h) {t : Task} (held : slotAt h.tasks n = some t)
    (other : ∀ e origin stage, t ≠ .submit e origin stage) : Books (h.settle n) := by
  refine ⟨every_set books.past held (by simp), books.keyed, ?_⟩
  intro key state found
  rcases books.armed key state found with armed | ⟨m, e, stage, running, same⟩
  · exact Or.inl armed
  · refine Or.inr ⟨m, e, stage, ?_, same⟩
    have apart : m ≠ n := by
      rintro rfl
      rw [held, Option.some.injEq] at running
      exact other e _ stage running
    exact (slot_set_other apart).trans running

theorem Books.staged (books : Books h) {stage next : Stage}
    (held : slotAt h.tasks n = some (.submit d origin stage)) :
    Books { h with tasks := h.tasks.set n (some (.submit d origin next)) } := by
  refine ⟨every_set books.past held ?_, books.keyed, ?_⟩
  · rintro t same
    rw [← Option.some.inj same]
    exact fun since mark => books.past n _ held since mark
  · intro key state found
    rcases books.armed key state found with armed | ⟨m, e, stage', running, same⟩
    · exact Or.inl armed
    · by_cases here : m = n
      · rw [here, held, Option.some.injEq, Task.submit.injEq] at running
        obtain ⟨rfl, rfl, rfl⟩ := running
        exact Or.inr ⟨n, d, next, slot_set_same held, same⟩
      · exact Or.inr ⟨m, e, stage', (slot_set_other here).trans running, same⟩

theorem Unarmed.schedule {serial : ℕ} (unarmed : Unarmed h d (.retry serial)) :
    Books (h.scheduleDeferredRetry d.intentKey serial) := by
  have elsewhere (other : ∀ state, h.deferrals.get d.intentKey = some state →
      state.serial ≠ serial) : Books h := by
    refine ⟨unarmed.past, unarmed.keyed, ?_⟩
    intro key state found
    rcases unarmed.armed key state found with armed | retrying | ⟨rfl, retry⟩
    · exact Or.inl armed
    · exact Or.inr retrying
    · exact absurd (Origin.retry.inj retry).symm (other state found)
  unfold Hub.scheduleDeferredRetry
  split
  · rename_i absent
    exact elsewhere (fun state found => by rw [absent] at found; exact absurd found (by simp))
  · rename_i state standing
    split
    · refine ⟨unarmed.past, ?_, ?_⟩
      · intro key held found
        rcases OrderedMap.mem_set (OrderedMap.mem_of_get found) with ⟨rfl, rfl⟩ | ⟨-, old⟩
        · exact unarmed.keyed _ state standing
        · exact unarmed.keyed key held (OrderedMap.get_of_mem old)
      · intro key held found
        rcases OrderedMap.mem_set (OrderedMap.mem_of_get found) with ⟨rfl, rfl⟩ | ⟨apart, old⟩
        · exact Or.inl rfl
        · rcases unarmed.armed key held (OrderedMap.get_of_mem old) with
            armed | retrying | ⟨same, -⟩
          · exact Or.inl armed
          · exact Or.inr retrying
          · exact absurd same apart
    · rename_i other
      refine elsewhere (fun held found => ?_)
      rw [standing, Option.some.injEq] at found
      rw [← found]
      exact other

theorem Unarmed.threw (unarmed : Unarmed h d origin) : Books (submitThrew d h origin) := by
  cases origin with
  | submitted since => exact unarmed.settled
  | retry serial => exact unarmed.schedule

theorem Unarmed.defer (unarmed : Unarmed h d origin) : Books (h.deferSigningRound d origin) := by
  cases origin with
  | retry serial => exact unarmed.schedule
  | submitted since =>
    have books := unarmed.settled
    dsimp only [Hub.deferSigningRound]
    split
    · rename_i existing standing
      refine ⟨books.past, ?_, ?_⟩
      · intro key held found
        rcases OrderedMap.mem_set (OrderedMap.mem_of_get found) with ⟨rfl, rfl⟩ | ⟨-, old⟩
        · rfl
        · exact books.keyed key held (OrderedMap.get_of_mem old)
      · intro key held found
        rcases OrderedMap.mem_set (OrderedMap.mem_of_get found) with ⟨rfl, rfl⟩ | ⟨-, old⟩
        · exact books.armed _ existing standing
        · exact books.armed key held (OrderedMap.get_of_mem old)
    · refine ⟨books.past, ?_, ?_⟩
      · intro key held found
        rcases OrderedMap.mem_set (OrderedMap.mem_of_get found) with ⟨rfl, rfl⟩ | ⟨-, old⟩
        · rfl
        · exact books.keyed key held (OrderedMap.get_of_mem old)
      · intro key held found
        rcases OrderedMap.mem_set (OrderedMap.mem_of_get found) with ⟨rfl, rfl⟩ | ⟨-, old⟩
        · exact Or.inl rfl
        · exact books.armed key held (OrderedMap.get_of_mem old)

theorem Unarmed.clear (unarmed : Unarmed h d origin) : Books (h.clearDeferral d origin) := by
  have kept (m : OrderedMap IntentKey Deferral)
      (old : ∀ key state, m.get key = some state → h.deferrals.get key = some state)
      (gone : ∀ state, m.get d.intentKey = some state → origin ≠ .retry state.serial) :
      Books { h with deferrals := m } := by
    refine ⟨unarmed.past, fun key state found => unarmed.keyed key state (old key state found), ?_⟩
    intro key state found
    rcases unarmed.armed key state (old key state found) with armed | retrying | ⟨rfl, retry⟩
    · exact Or.inl armed
    · exact Or.inr retrying
    · exact absurd retry (gone state found)
  unfold Hub.clearDeferral
  split
  · rename_i absent
    refine kept h.deferrals (fun _ _ found => found) ?_
    intro state found
    rw [absent] at found
    exact absurd found (by simp)
  · rename_i state standing
    split
    · refine kept _ ?_ ?_
      · intro key held found
        by_cases here : key = d.intentKey
        · rw [here, OrderedMap.get_erase_same] at found
          exact absurd found (by simp)
        · rw [OrderedMap.get_erase_other here] at found
          exact found
      · intro held found
        rw [OrderedMap.get_erase_same] at found
        exact absurd found (by simp)
    · rename_i spared
      refine kept h.deferrals (fun _ _ found => found) ?_
      rintro held found rfl
      rw [standing, Option.some.injEq] at found
      exact spared (by rw [found, Origin.clears, decide_eq_true rfl])

theorem Books.returned (books : Books h) : Books (h.returned d origin) := by
  cases origin with
  | submitted since => exact books.congr rfl rfl le_rfl
  | retry serial => exact books

theorem Books.finalizeReturned (books : Books h) {caller : Option ℕ} :
    Books (h.finalizeReturned d caller) := by
  cases caller with
  | none => exact books
  | some since => exact @Books.returned h d (.submitted since) books

theorem Books.finalize (books : Books h) {sigs : Signatures} {caller : Option ℕ}
    (past : ∀ since ∈ caller, since ≤ h.streamed.length) : Books (h.finalize s sigs caller) :=
  (books.push (t := .finalize s sigs caller) past).congr rfl rfl le_rfl

theorem Books.checkQuorum (cfg : Params) (books : Books h) : Books (checkQuorum cfg s h) := by
  unfold RetractionConsensus.checkQuorum
  split
  · exact books
  · split
    · refine Books.finalize ?_ (fun since mark => absurd mark (by simp))
      exact books.congr rfl rfl le_rfl
    · exact books

theorem block_books (cfg : Params) {answer : Option ℕ} (books : Books h)
    (held : slotAt h.tasks n = some (.submit d origin .block)) :
    Books (blockResolved cfg n d origin answer h) := by
  cases answer with
  | none => exact (books.settle held).defer.returned
  | some snapshotBlock =>
    dsimp only [blockResolved]
    split
    · exact books.staged held
    · refine Books.returned ?_
      exact (books.settle held).clear.congr rfl rfl (by simp [Hub.broadcastUnsigned])

theorem validators_books (cfg : Params) {snap : StakeWeightedQuorum.Snapshot} (books : Books h)
    (held : slotAt h.tasks n = some (.submit s.deletion origin (.validators s.snapshotBlock))) :
    Books (validatorsResolved cfg n s origin snap h) := by
  have cleared := (books.settle held).clear
  dsimp only [validatorsResolved]
  split
  · exact (books.settle held).defer.returned
  · split
    · exact cleared.returned
    · split
      · refine cleared.finalize ?_
        intro since mark
        rw [clear_streamed]
        refine books.past n _ held since ?_
        cases origin with
        | submitted entered => exact mark
        | retry serial => exact absurd mark (by simp)
      · refine Books.returned (Books.checkQuorum cfg ?_)
        exact cleared.congr rfl rfl le_rfl

theorem timer_books (key : IntentKey) (books : Books h) : Books (retryTimer key h) := by
  unfold retryTimer
  split
  · exact books
  · rename_i state standing
    split
    · refine ⟨every_push books.past (by simp [Task.entered, Origin.caller]), ?_, ?_⟩
      · intro k held found
        rcases OrderedMap.mem_set (OrderedMap.mem_of_get found) with ⟨rfl, rfl⟩ | ⟨-, old⟩
        · exact books.keyed _ state standing
        · exact books.keyed k held (OrderedMap.get_of_mem old)
      · intro k held found
        rcases OrderedMap.mem_set (OrderedMap.mem_of_get found) with ⟨rfl, rfl⟩ | ⟨-, old⟩
        · exact Or.inr ⟨h.tasks.length, state.deletion, .block,
            slot_push_iff.mpr (Or.inr ⟨rfl, rfl⟩), books.keyed _ state standing⟩
        · rcases books.armed k held (OrderedMap.get_of_mem old) with
            armed | ⟨m, e, stage, running, same⟩
          · exact Or.inl armed
          · exact Or.inr ⟨m, e, stage, slot_push_old running, same⟩
    · exact books

theorem persist_books {sigs : Signatures} {caller : Option ℕ} {answer : Answer ℕ} (books : Books h)
    (held : slotAt h.tasks n = some (.finalize s sigs caller)) :
    Books (persistResolved n s sigs caller answer h) := by
  have settled := books.settle_other held (by simp)
  match answer with
  | .threw =>
    refine Books.finalizeReturned ?_
    exact settled.congr rfl rfl le_rfl
  | .value 0 =>
    refine Books.finalizeReturned ?_
    exact settled.congr rfl rfl le_rfl
  | .value (rows + 1) =>
    refine Books.finalizeReturned ?_
    exact settled.congr rfl rfl (by simp [Hub.settle])

theorem step_books (cfg : Params) (h : Hub) (e : Event) (books : Books h) :
    Books (step cfg h e) := by
  cases e with
  | submit d =>
    dsimp only [step, submitLocal]
    split
    · refine Books.returned ?_
      exact books.congr rfl rfl (by simp [Hub.broadcastUnsigned])
    · exact books.push (by simp [Task.entered, Origin.caller])
  | block n answer =>
    dsimp only [step]
    split
    · rename_i d origin held
      cases answer with
      | threw => exact (books.settle held).threw
      | value answer => exact block_books cfg books held
    · exact books
  | validators n answer =>
    dsimp only [step]
    split
    · rename_i d origin snapshotBlock held
      cases answer with
      | threw => exact (books.settle held).threw
      | value snap => exact validators_books cfg (s := ⟨d, snapshotBlock⟩) books held
    · exact books
  | retryTimer key => exact timer_books key books
  | sign s sigPubkey sig =>
    dsimp only [step, handleSign]
    split
    · exact books
    · split
      · refine Books.checkQuorum cfg ?_
        exact books.congr rfl rfl le_rfl
      · exact books
  | roundTimeout s =>
    dsimp only [step, roundTimeout]
    split
    · exact books
    · exact books.congr rfl rfl (by simp [Hub.broadcastUnsigned])
  | finalizedMessage s signatures =>
    dsimp only [step, handleFinalized]
    split
    · exact books.push (by simp [Task.entered])
    · exact books
  | adoptValidators n answer =>
    dsimp only [step]
    split
    · rename_i s signatures held
      have settled := books.settle_other held (by simp)
      cases answer with
      | threw => exact settled
      | value snap =>
        dsimp only [adoptResolved]
        split
        · exact settled.finalize (by simp)
        · exact settled
    · exact books
  | persisted n answer =>
    dsimp only [step]
    split
    · rename_i s sigs caller held
      exact persist_books books held
    · exact books

end Bookkeeping
section Steps
variable {h : Hub} {o : Deletion × ℕ}

theorem returned_owed (d : Deletion) (origin : Origin) (owed : o ∈ h.owed) :
    o ∈ (h.returned d origin).owed := by
  cases origin with
  | submitted since => exact List.mem_append_left _ owed
  | retry serial => exact owed

theorem finalize_returned_owed (d : Deletion) (caller : Option ℕ) (owed : o ∈ h.owed) :
    o ∈ (h.finalizeReturned d caller).owed := by
  cases caller with
  | none => exact owed
  | some since => exact returned_owed d (.submitted since) owed

theorem threw_owed (d : Deletion) (origin : Origin) (owed : o ∈ h.owed) :
    o ∈ (submitThrew d h origin).owed := by
  cases origin with
  | submitted since => exact owed
  | retry serial => simpa [submitThrew] using owed

theorem block_owed (cfg : Params) (n : ℕ) (d : Deletion) (origin : Origin) (answer : Option ℕ)
    (owed : o ∈ h.owed) : o ∈ (blockResolved cfg n d origin answer h).owed := by
  cases answer with
  | none => exact returned_owed d origin (by simpa using owed)
  | some snapshotBlock =>
    dsimp only [blockResolved]
    split
    · exact owed
    · exact returned_owed d origin (by simpa [Hub.broadcastUnsigned] using owed)

theorem validators_owed (cfg : Params) (n : ℕ) (s : Signed) (origin : Origin)
    (snap : StakeWeightedQuorum.Snapshot) (owed : o ∈ h.owed) :
    o ∈ (validatorsResolved cfg n s origin snap h).owed := by
  dsimp only [validatorsResolved]
  split
  · exact returned_owed s.deletion origin (by simpa using owed)
  · split
    · exact returned_owed s.deletion origin (by simpa using owed)
    · split
      · simpa [Hub.finalize] using owed
      · exact returned_owed s.deletion origin (by simpa [openSigningRound] using owed)

theorem persist_owed (n : ℕ) (s : Signed) (sigs : Signatures) (caller : Option ℕ)
    (answer : Answer ℕ) (owed : o ∈ h.owed) :
    o ∈ (persistResolved n s sigs caller answer h).owed :=
  match answer with
  | .threw => finalize_returned_owed s.deletion caller owed
  | .value 0 => finalize_returned_owed s.deletion caller owed
  | .value (_ + 1) => finalize_returned_owed s.deletion caller owed

/-- A submission that returned stays owed. -/
theorem step_owed (cfg : Params) (e : Event) (owed : o ∈ h.owed) : o ∈ (step cfg h e).owed := by
  cases e with
  | submit d =>
    dsimp only [step, submitLocal]
    split
    · exact returned_owed d _ owed
    · exact owed
  | block n answer =>
    dsimp only [step]
    split
    · cases answer with
      | threw => exact threw_owed _ _ owed
      | value answer => exact block_owed cfg n _ _ answer owed
    · exact owed
  | validators n answer =>
    dsimp only [step]
    split
    · cases answer with
      | threw => exact threw_owed _ _ owed
      | value snap => exact validators_owed cfg n _ _ snap owed
    · exact owed
  | retryTimer key =>
    dsimp only [step, retryTimer]
    split
    · exact owed
    · split <;> exact owed
  | sign s sigPubkey sig =>
    dsimp only [step, handleSign]
    split
    · exact owed
    · split
      · simpa using owed
      · exact owed
  | roundTimeout s =>
    dsimp only [step, roundTimeout]
    split <;> exact owed
  | finalizedMessage s signatures =>
    dsimp only [step, handleFinalized]
    split <;> exact owed
  | adoptValidators n answer =>
    dsimp only [step]
    split
    · cases answer with
      | threw => exact owed
      | value snap =>
        dsimp only [adoptResolved]
        split <;> exact owed
    · exact owed
  | persisted n answer =>
    dsimp only [step]
    split
    · exact persist_owed n _ _ _ answer owed
    · exact owed

theorem run_owed (cfg : Params) (es : List Event) (owed : o ∈ h.owed) :
    o ∈ (run (step cfg) h es).owed :=
  run_preserves (fun g : Hub => o ∈ g.owed) (fun _ e member => step_owed cfg e member) owed es

/-- A spared step of a hub whose books are in order keeps every returned submission carried. -/
theorem step_sure (cfg : Params) (e : Event) (books : Books h) (sure : Sure h)
    (spares : Spares cfg h e) : Sure (step cfg h e) := by
  cases e with
  | submit d =>
    dsimp only [step, submitLocal]
    split
    · refine SureBut.returned (d := d) (fun o owed => ⟨(sure o owed).1, fun _ => sure.held owed⟩)
        ?_ rfl (fun e => broadcast_passes h e d) (fun since bound => broadcast_delivers bound)
      exact fun since mark => (Option.some.inj mark).ge
    · exact sure.passes rfl (fun e => push_passes h _ e)
  | block n answer =>
    dsimp only [step]
    split
    · rename_i d origin held
      cases answer with
      | threw => exact threw_sure (settle_sure sure held rfl)
      | value answer => exact block_sure cfg held sure (books.past n _ held) spares
    · exact sure
  | validators n answer =>
    dsimp only [step]
    split
    · rename_i d origin snapshotBlock held
      cases answer with
      | threw => exact threw_sure (settle_sure sure held rfl)
      | value snap =>
        exact validators_sure cfg (s := ⟨d, snapshotBlock⟩) held sure (books.past n _ held) spares
    · exact sure
  | retryTimer key =>
    refine sure.passes ?_ (fun e => retry_passes key h e)
    dsimp only [step, retryTimer]
    split
    · rfl
    · split <;> rfl
  | sign s sigPubkey sig =>
    refine sure.passes ?_ (fun e => sign_passes cfg s sigPubkey sig h e)
    dsimp only [step, handleSign]
    split
    · rfl
    · split
      · exact check_quorum_owed _ cfg s
      · rfl
  | roundTimeout s =>
    refine sure.passes ?_ (fun e => timeout_passes s h e)
    dsimp only [step, roundTimeout]
    split <;> rfl
  | finalizedMessage s signatures =>
    dsimp only [step, handleFinalized]
    split
    · exact sure.passes rfl (fun e => push_passes h _ e)
    · exact sure
  | adoptValidators n answer =>
    dsimp only [step]
    split
    · rename_i s signatures held
      cases answer with
      | threw => exact settle_sure sure held rfl
      | value snap => exact adopt_sure cfg held sure
    · exact sure
  | persisted n answer =>
    dsimp only [step]
    split
    · rename_i s sigs caller held
      simp only [Spares, losses, held] at spares
      exact persist_sure held sure (books.past n _ held) spares
    · exact sure

theorem run_sure (cfg : Params) {es : List Event}
    (admitted : Admitted (step cfg) (Spares cfg) Hub.initial es) :
    Books (run (step cfg) Hub.initial es) ∧ Sure (run (step cfg) Hub.initial es) :=
  run_invariant (fun h => Books h ∧ Sure h)
    (fun h e kept spares =>
      ⟨step_books cfg h e kept.1, step_sure cfg e kept.1 kept.2 spares⟩)
    ⟨Books.start, fun _ owed => absurd owed (by simp [Hub.initial])⟩ admitted

end Steps

/- A pending round, or a deferral with its timer armed. -/
def Held (h : Hub) (d : Deletion) : Prop :=
  InRound h d ∨ ∃ state, h.deferrals.get d.intentKey = some state ∧ state.deletion = d ∧
    state.armed = true

/- Between two awaits: a finalize of the event, or the retry its deferral's timer started. -/
def InFlight (h : Hub) (d : Deletion) : Prop :=
  Finalizing h d ∨ ∃ state, h.deferrals.get d.intentKey = some state ∧ state.deletion = d ∧
    Retrying h d.intentKey state.serial

def NotLost (h : Hub) (d : Deletion) (since : ℕ) : Prop :=
  Delivered h d since ∨ Held h d ∨ InFlight h d

theorem not_lost_iff {h : Hub} {d : Deletion} {since : ℕ} (books : Books h) :
    NotLost h d since ↔ Carried h d since := by
  constructor
  · rintro (delivered | (round | ⟨state, found, same, -⟩) | finalizing | ⟨state, found, same, -⟩)
    · exact Or.inl delivered
    · exact Or.inr (Or.inl round)
    · exact Or.inr (Or.inr (Or.inl (has_deferral_iff.mpr ⟨state, found, same⟩)))
    · exact Or.inr (Or.inr (Or.inr finalizing))
    · exact Or.inr (Or.inr (Or.inl (has_deferral_iff.mpr ⟨state, found, same⟩)))
  · rintro (delivered | round | deferred | finalizing)
    · exact Or.inl delivered
    · exact Or.inr (Or.inl (Or.inl round))
    · obtain ⟨state, found, same⟩ := has_deferral_iff.mp deferred
      rcases books.armed _ state found with armed | retrying
      · exact Or.inr (Or.inl (Or.inr ⟨state, found, same, armed⟩))
      · exact Or.inr (Or.inr (Or.inr ⟨state, found, same, retrying⟩))
    · exact Or.inr (Or.inr (Or.inl finalizing))

/-- On a run that never drops the last record of an event, a submission that returned is never
    lost in any later state. -/
theorem submitted_never_lost (cfg : Params) (front back : List Event)
    (admitted : Admitted (step cfg) (Spares cfg) Hub.initial (front ++ back))
    (d : Deletion) (since : ℕ) (owed : (d, since) ∈ (run (step cfg) Hub.initial front).owed) :
    NotLost (run (step cfg) Hub.initial (front ++ back)) d since := by
  obtain ⟨books, sure⟩ := run_sure cfg admitted
  have later := run_owed cfg back owed
  rw [← run_append] at later
  exact (not_lost_iff books).mpr (Sure.held sure later)

def sampleDeletion : Deletion := ⟨"cross_chain_calls", "DOGE", 5, none, some 1⟩

def sampleParams : Params :=
  ⟨true, "a", id, fun _ => "mine", fun _ sig pubkey => sig = pubkey, fun _ => true, fun _ => false⟩

def sampleRows (pubkeys : List String) : StakeWeightedQuorum.Snapshot :=
  ⟨pubkeys.map (fun pubkey => ⟨pubkey, some "", some "1"⟩), false⟩

/- No tip, a retry, a round of two, its quorum and its stream. -/
def sampleRun : List Event :=
  [.submit sampleDeletion, .block 0 (.value none), .retryTimer sampleDeletion.intentKey,
    .block 1 (.value (some 100)), .validators 1 (.value (sampleRows ["a", "b"])),
    .sign ⟨sampleDeletion, 100⟩ "b" "b", .persisted 2 (.value 2)]

theorem submitted_never_lost_deferred :
    NotLost (run (step sampleParams) Hub.initial sampleRun) sampleDeletion 0 :=
  submitted_never_lost sampleParams (sampleRun.take 2) (sampleRun.drop 2) (by decide +kernel)
    sampleDeletion 0 (by decide +kernel)

/- A federation of one whose finalize writes no capability row. -/
def refusedRun : List Event :=
  [.submit sampleDeletion, .block 0 (.value (some 100)),
    .validators 0 (.value (sampleRows ["a"])), .persisted 1 (.value 0)]

theorem refused_finalize_loses :
    ¬ ∀ (cfg : Params) (front back : List Event) (d : Deletion) (since : ℕ),
      (d, since) ∈ (run (step cfg) Hub.initial front).owed →
        NotLost (run (step cfg) Hub.initial (front ++ back)) d since := by
  intro all
  have kept := all sampleParams refusedRun [] sampleDeletion 0 (by decide +kernel)
  have books := run_preserves Books (fun h e => step_books sampleParams h e) Books.start
    (refusedRun ++ [])
  exact absurd ((not_lost_iff books).mp kept) (by decide +kernel)

end XChainHub.RetractionConsensus
