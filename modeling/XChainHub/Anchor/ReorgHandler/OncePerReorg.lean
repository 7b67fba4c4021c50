import XChainHub.Anchor.ReorgHandler.Rollback

/-!
How often executeRollback is started for one reorg, and how many rounds are pending: a
handler checks both before its awaits and acts after them, so what it finds on its way
back decides.
-/
namespace XChainHub.Anchor.ReorgHandler
open ScriptValue ChainSignerAdmission GuardedRuns

section Conditions
variable (cfg : Params) (h : Hub) (m : Env × Event)

def startedFor : Output → Option String
  | .consensusRollback _ writes => some writes.reorgId
  | .localRollback writes => some writes.reorgId
  | _ => none

/- The reorg ids whose rollback has been started, in order. -/
def starts : List String := h.trace.filterMap startedFor

def Context.joins : Context → Bool
  | .refused => false
  | _ => true

/- The id of the round that the step opens: the handler comes back from its awaits with
   every check passed, and no round of the id is pending. -/
def opening : Option String :=
  let found : Option String :=
    match m.2 with
    | .resume tid =>
      match h.tasks[tid]?.join with
      | some (.prepareProbe _ f _ _ pid) =>
        (h.confirmedProbe pid).bind fun blockTimeMs =>
          if timestampConsistentWithBlockTime cfg f.timestamp blockTimeMs then some f.reorgId else none
      | _ => none
    | .locked tid reply =>
      match h.tasks[tid]?.join with
      | some (.alertLock e f known _) =>
        let context := lockReorgFederationSnapshot cfg m.1 e.data.btcBlockHeight true reply
        if context.joins && senderAdmitted cfg m.1 e known context then some f.reorgId else none
      | some (.reportLock f _ _) =>
        let context := lockReorgFederationSnapshot cfg m.1 .null false reply
        if context.joins && context.roundQuorum cfg m.1 ≠ 0 then some f.reorgId else none
      | _ => none
    | _ => none
  found.filter fun reorgId => !h.pendingReorgs.has reorgId

/- The id of a report that this hub settles alone. -/
def settlingAlone : Option String :=
  match m.2 with
  | .locked tid reply =>
    match h.tasks[tid]?.join with
    | some (.reportLock f _ _) =>
      let context := lockReorgFederationSnapshot cfg m.1 .null false reply
      if context.joins && context.roundQuorum cfg m.1 = 0 then some f.reorgId else none
    | _ => none
  | _ => none

/- What a handler must find on its way back from its awaits. -/
structure Rechecked : Prop where
  opens : ∀ reorgId ∈ opening cfg h m,
    reorgId ∉ starts h ∧ h.pendingReorgs.size < cfg.maxPendingReorgs
  alone : ∀ reorgId ∈ settlingAlone cfg h m,
    reorgId ∉ starts h ∧ h.pendingReorgs.has reorgId = false

instance : Decidable (Rechecked cfg h m) :=
  decidable_of_iff ((∀ reorgId ∈ opening cfg h m,
      reorgId ∉ starts h ∧ h.pendingReorgs.size < cfg.maxPendingReorgs) ∧
    ∀ reorgId ∈ settlingAlone cfg h m, reorgId ∉ starts h ∧ h.pendingReorgs.has reorgId = false)
    ⟨fun parts => ⟨parts.1, parts.2⟩, fun rechecked => ⟨rechecked.opens, rechecked.alone⟩⟩

/- A reorg that is rolled back has no open round, and the pending rounds keep to the cap. -/
structure Once : Prop where
  single : (starts h).Nodup
  closed : ∀ reorgId ∈ starts h, ∀ rid p, h.pending reorgId = some (rid, p) → p.finalized = true
  capped : h.pendingReorgs.size ≤ cfg.maxPendingReorgs
  placed : ∀ reorgId rid, h.pendingReorgs.get reorgId = some rid → rid < h.rounds.length

end Conditions

section Quiet

/- A step that neither opens a round nor starts a rollback; rounds may close. -/
structure Quiet (h after : Hub) : Prop where
  starts : starts after = starts h
  size : after.pendingReorgs.size ≤ h.pendingReorgs.size
  held : ∀ reorgId rid p, after.pending reorgId = some (rid, p) →
    ∃ q, h.pending reorgId = some (rid, q) ∧ (q.finalized = true → p.finalized = true)
  kept : ∀ reorgId rid, after.pendingReorgs.get reorgId = some rid → h.pendingReorgs.get reorgId = some rid
  rounds : after.rounds.length = h.rounds.length

variable {cfg : Params} {env : Env} {h after : Hub}

theorem Quiet.refl (h : Hub) : Quiet h h :=
  ⟨rfl, Nat.le_refl _, fun _ _ p held => ⟨p, held, id⟩, fun _ _ => id, rfl⟩

theorem Quiet.trans {last : Hub} (first : Quiet h after) (second : Quiet after last) : Quiet h last := by
  refine ⟨second.starts.trans first.starts, second.size.trans first.size, fun reorgId rid p held => ?_,
    fun reorgId rid found => first.kept reorgId rid (second.kept reorgId rid found),
    second.rounds.trans first.rounds⟩
  obtain ⟨q, held', closes⟩ := second.held reorgId rid p held
  obtain ⟨r, held'', closes'⟩ := first.held reorgId rid q held'
  exact ⟨r, held'', fun done => closes (closes' done)⟩

theorem Once.quiet (once : Once cfg h) (quiet : Quiet h after) : Once cfg after := by
  refine ⟨?_, fun reorgId member rid p held => ?_, quiet.size.trans once.capped, fun reorgId rid found => ?_⟩
  · rw [quiet.starts]
    exact once.single
  · rw [quiet.starts] at member
    obtain ⟨q, held', closes⟩ := quiet.held reorgId rid p held
    exact closes (once.closed reorgId member rid q held')
  · rw [quiet.rounds]
    exact once.placed reorgId rid (quiet.kept reorgId rid found)

theorem quiet_same (trace : after.trace = h.trace) (rounds : after.rounds = h.rounds)
    (pending : after.pendingReorgs = h.pendingReorgs) : Quiet h after := by
  refine ⟨by rw [starts, trace, starts], by rw [pending], fun reorgId rid p held => ⟨p, ?_, id⟩,
    fun reorgId rid found => by rw [← pending]; exact found, by rw [rounds]⟩
  rw [Hub.pending, ← rounds, ← pending]
  exact held

theorem quiet_emit {o : Output} (silent : startedFor o = none) : Quiet h (h.emit o) := by
  refine ⟨?_, Nat.le_refl _, fun _ _ p held => ⟨p, held, id⟩, fun _ _ => id, rfl⟩
  simp [starts, Hub.emit, silent]

theorem quiet_park (t : Task) : Quiet h (h.park t) := quiet_same rfl rfl rfl

theorem quiet_take (tid : ℕ) : Quiet h (h.takeTask tid) := quiet_same rfl rfl rfl

theorem quiet_modify {rid : ℕ} {f : Round → Round}
    (closes : ∀ p : Round, p.finalized = true → (f p).finalized = true) : Quiet h (h.modify rid f) := by
  refine ⟨rfl, Nat.le_refl _, fun reorgId n p held => ?_, fun _ _ => id, List.length_modify ..⟩
  obtain ⟨m, found, stored⟩ := Option.bind_eq_some_iff.mp held
  obtain ⟨q, at', same⟩ := Option.map_eq_some_iff.mp stored
  rw [Prod.mk.injEq] at same
  obtain ⟨rfl, rfl⟩ := same
  rw [Hub.modify, List.getElem?_modify] at at'
  cases old : h.rounds[m]? with
  | none => simp [old] at at'
  | some r =>
    refine ⟨r, ?_, ?_⟩
    · rw [Hub.pending, show h.pendingReorgs.get reorgId = some m from found]
      simp [old]
    · rw [old] at at'
      have moved : r.finalized = true → (if rid = m then f r else r).finalized = true := by
        split
        · exact closes r
        · exact id
      have same := Option.some.inj at'
      rw [← same]
      exact moved

theorem quiet_forget (reorgId : String) : Quiet h (h.forget reorgId) := by
  have kept : ∀ other rid, (h.forget reorgId).pendingReorgs.get other = some rid →
      h.pendingReorgs.get other = some rid := by
    intro other rid found
    by_cases same : other = reorgId
    · simp [Hub.forget, same] at found
    · rw [Hub.forget, OrderedMap.get_erase_other same] at found
      exact found
  refine ⟨rfl, OrderedMap.size_erase_le _ _, fun other rid p held => ⟨p, ?_, id⟩, kept, rfl⟩
  obtain ⟨n, found, stored⟩ := Option.bind_eq_some_iff.mp held
  rw [Hub.pending, kept other n found]
  exact stored

end Quiet

section Voting
variable {cfg : Params} {env : Env} {h : Hub}

/-- A rollback is started of a reorg that was not, whose rounds are all closed. -/
theorem Once.start (once : Once cfg h) {reorgId : String} (first : reorgId ∉ starts h)
    (closed : ∀ rid p, h.pending reorgId = some (rid, p) → p.finalized = true) {o : Output}
    (starting : startedFor o = some reorgId) : Once cfg (h.emit o) := by
  have grown : starts (h.emit o) = starts h ++ [reorgId] := by simp [starts, Hub.emit, starting]
  refine ⟨?_, fun other member rid p held => ?_, once.capped, once.placed⟩
  · rw [grown]
    refine List.nodup_append.mpr ⟨once.single, List.nodup_singleton _, ?_⟩
    intro a before b new same
    rw [List.mem_singleton] at new
    exact first (new ▸ same ▸ before)
  · rw [grown, List.mem_append, List.mem_singleton] at member
    rcases member with before | rfl
    · exact once.closed other before rid p held
    · exact closed rid p held

theorem commit_quorum_once (once : Once cfg h) (reorgId : String) :
    Once cfg (checkCommitQuorum cfg env h reorgId) := by
  unfold checkCommitQuorum
  split
  · exact once
  · rename_i rid p held
    split
    · exact once
    · rename_i open'
      have unfinalized : p.finalized = false := by
        cases done : p.finalized with
        | false => rfl
        | true => exact absurd (by simp [done]) open'
      have first : reorgId ∉ starts h := by
        intro begun
        rw [once.closed reorgId begun rid p held] at unfinalized
        cases unfinalized
      split
      · have quiet : Quiet h (h.modify rid Round.finalize) := quiet_modify fun _ _ => rfl
        refine Once.quiet (Once.start (once.quiet quiet) first ?_ rfl) (quiet_park _)
        intro n q held'
        obtain ⟨r, before, -⟩ := quiet.held reorgId n q held'
        rw [held, Option.some.injEq, Prod.mk.injEq] at before
        have stored := pending_stored held'
        have own : (h.modify rid Round.finalize).rounds[rid]? = some p.finalize := by
          simp [Hub.modify, pending_stored held]
        rw [← before.1, own, Option.some.injEq] at stored
        rw [← stored]
        rfl
      · exact once

theorem prepare_quorum_once (once : Once cfg h) (reorgId : String) :
    Once cfg (checkPrepareQuorum cfg env h reorgId) := by
  unfold checkPrepareQuorum
  split
  · exact once
  · rename_i rid p held
    split
    · exact once
    · split
      · split
        · split
          · exact once.quiet (quiet_modify fun _ done => done)
          · refine commit_quorum_once (once.quiet (Quiet.trans ?_ (quiet_emit rfl))) reorgId
            exact quiet_modify fun _ done => done
        · refine commit_quorum_once (once.quiet (Quiet.trans ?_ (quiet_emit rfl))) reorgId
          exact quiet_modify fun _ done => done
      · exact once

theorem tally_once (once : Once cfg h) (e : Envelope) (f : Fields) (known : Known) :
    Once cfg (tallyPrepare cfg env h e f known) := by
  have counted : ∀ (rid : ℕ) (k : Option String),
      Once cfg (h.modify rid (Round.countPrepare e.sender k)) :=
    fun _ _ => once.quiet (quiet_modify fun _ done => done)
  unfold tallyPrepare
  split
  · exact once
  · split
    · exact once
    · split
      · split
        · exact once
        · split
          · exact once
          · split
            · exact once
            · exact prepare_quorum_once (counted _ _) f.reorgId
      · split
        · exact once
        · split
          · exact once
          · exact prepare_quorum_once (counted _ _) f.reorgId

theorem handle_commit_once (once : Once cfg h) (e : Envelope) :
    Once cfg (handleCommit cfg env h e) := by
  have counted : ∀ (rid : ℕ) (k : Option String),
      Once cfg (h.modify rid (Round.countCommit e.sender k)) :=
    fun _ _ => once.quiet (quiet_modify fun _ done => done)
  unfold handleCommit
  split
  · rename_i reorgId digest _ _
    split
    · exact once
    · split
      · exact once
      · split
        · exact once
        · split
          · split
            · exact once
            · split
              · exact once
              · exact commit_quorum_once (counted _ _) reorgId
          · split
            · exact once
            · exact commit_quorum_once (counted _ _) reorgId
  · exact once

end Voting

section Opening
variable {cfg : Params} {env : Env} {h : Hub}

/-- A round is opened of a reorg whose rollback was not started, below the cap. -/
theorem Once.openRound (once : Once cfg h) {p : Round} (first : p.reorgId ∉ starts h)
    (room : h.pendingReorgs.size < cfg.maxPendingReorgs) : Once cfg (h.openRound p) := by
  refine ⟨once.single, fun reorgId begun rid q held => ?_, ?_, fun reorgId rid found => ?_⟩
  · have other : reorgId ≠ p.reorgId := fun same => first (same ▸ begun)
    obtain ⟨n, found, stored⟩ := Option.bind_eq_some_iff.mp held
    obtain ⟨r, at', same⟩ := Option.map_eq_some_iff.mp stored
    rw [Prod.mk.injEq] at same
    obtain ⟨rfl, rfl⟩ := same
    rw [Hub.openRound] at found at'
    rw [OrderedMap.get_set_other other] at found
    rw [List.getElem?_append_left (once.placed reorgId n found)] at at'
    refine once.closed reorgId begun n r ?_
    rw [Hub.pending, found]
    simp [at']
  · calc (h.pendingReorgs.set p.reorgId h.rounds.length).size
        ≤ h.pendingReorgs.size + 1 := OrderedMap.size_set_le _ _ _
      _ ≤ cfg.maxPendingReorgs := room
  · rw [Hub.openRound] at found ⊢
    rw [List.length_append, List.length_singleton]
    by_cases same : reorgId = p.reorgId
    · rw [same, OrderedMap.get_set_same, Option.some.injEq] at found
      rw [← found]
      exact Nat.lt_succ_self _
    · rw [OrderedMap.get_set_other same] at found
      exact Nat.lt_succ_of_lt (once.placed reorgId rid found)

theorem round_reorg_id (f : Fields) (affectedChains : Value) (digest : String) (blockTimeMs : Option ℚ)
    (context : Context) (leader : Bool) :
    (roundOf cfg env f affectedChains digest blockTimeMs context leader).reorgId = f.reorgId := by
  cases context <;> rfl

theorem initiate_once (once : Once cfg h) (f : Fields) (blockTimeMs : Option ℚ) {context : Context}
    (rechecked : context.joins = true → h.pendingReorgs.has f.reorgId = false →
      f.reorgId ∉ starts h ∧ h.pendingReorgs.size < cfg.maxPendingReorgs) :
    Once cfg (initiateReorgConsensus cfg env h f blockTimeMs context) := by
  unfold initiateReorgConsensus
  split
  · exact once
  · rename_i joins
    split
    · exact once
    · rename_i absent
      obtain ⟨first, room⟩ := rechecked (by
        cases context with
        | refused => exact absurd rfl joins
        | inactive => rfl
        | active height members quorum self => rfl) (Bool.eq_false_iff.mpr absent)
      refine prepare_quorum_once (Once.quiet (Once.openRound once ?_ room) (quiet_emit rfl)) f.reorgId
      rw [round_reorg_id]
      exact first

end Opening

section Inbound
variable {cfg : Params} {env : Env} {h : Hub}

theorem quiet_verify (f : Fields) : Quiet h (verifyReorgAgainstOwnNode cfg h f).1 := by
  unfold verifyReorgAgainstOwnNode
  simp only
  split <;> exact quiet_same rfl rfl rfl

theorem handle_alert_quiet (e : Envelope) : Quiet h (handleAlert cfg env h e) := by
  unfold handleAlert
  simp only
  split
  · exact Quiet.refl h
  · split
    · exact Quiet.refl h
    · split_ifs <;> first | exact Quiet.refl h | exact (quiet_verify _).trans (quiet_park _)

theorem handle_prepare_once (once : Once cfg h) (e : Envelope) :
    Once cfg (handlePrepare cfg env h e) := by
  unfold handlePrepare
  simp only
  split
  · exact once
  · split
    · exact once
    · split
      · exact once
      · split_ifs <;> first | exact once | exact tally_once once e _ _ | exact once.quiet (quiet_park _)

theorem alert_verified_quiet (e : Envelope) (f : Fields) (known : Known) (blockTimeMs : Option ℚ) :
    Quiet h (alertVerified cfg h e f known blockTimeMs) := by
  unfold alertVerified
  split_ifs <;> first | exact Quiet.refl h | exact quiet_park _

theorem prepare_locked_quiet (e : Envelope) (f : Fields) (known : Known) (context : Context) :
    Quiet h (prepareLocked cfg env h e f known context) := by
  unfold prepareLocked
  split
  · exact Quiet.refl h
  · split_ifs <;> first | exact Quiet.refl h | exact (quiet_verify _).trans (quiet_park _)

theorem prepare_verified_once (once : Once cfg h) (e : Envelope) (f : Fields) (known : Known)
    (context : Context) (blockTimeMs : Option ℚ)
    (rechecked : timestampConsistentWithBlockTime cfg f.timestamp blockTimeMs = true →
      h.pendingReorgs.has f.reorgId = false →
      f.reorgId ∉ starts h ∧ h.pendingReorgs.size < cfg.maxPendingReorgs) :
    Once cfg (prepareVerified cfg env h e f known context blockTimeMs) := by
  unfold prepareVerified
  split
  · exact once
  · rename_i consistent
    refine Once.quiet ?_ (quiet_park _)
    split
    · exact once
    · rename_i absent
      obtain ⟨first, room⟩ := rechecked (by simpa using consistent) (Bool.eq_false_iff.mpr absent)
      refine once.openRound ?_ room
      rw [round_reorg_id]
      exact first

theorem report_quiet (chain reorgHeight timestamp oldHash newHash : Value) :
    Quiet h (reportReorg cfg env h chain reorgHeight timestamp oldHash newHash) := by
  unfold reportReorg
  split
  · exact Quiet.refl h
  · split_ifs <;> first | exact Quiet.refl h | exact (quiet_verify _).trans (quiet_park _)

theorem report_verified_quiet (f : Fields) (now : ℤ) (blockTimeMs : Option ℚ) :
    Quiet h (reportVerified cfg h f now blockTimeMs) := by
  unfold reportVerified
  split_ifs <;> first | exact Quiet.refl h | exact quiet_park _

theorem report_locked_once (once : Once cfg h) (f : Fields) (now : ℤ) (blockTimeMs : Option ℚ)
    {context : Context} (opens : context.roundQuorum cfg env ≠ 0 → h.pendingReorgs.has f.reorgId = false →
      f.reorgId ∉ starts h ∧ h.pendingReorgs.size < cfg.maxPendingReorgs)
    (alone : context.roundQuorum cfg env = 0 →
      f.reorgId ∉ starts h ∧ h.pendingReorgs.has f.reorgId = false) :
    Once cfg (reportLocked cfg env h f now blockTimeMs context) := by
  have tracked : Quiet h
      { h with reorgRateTracker := h.reorgRateTracker.set f.chain.asText now } := quiet_same rfl rfl rfl
  unfold reportLocked
  simp only
  split
  · rename_i single
    obtain ⟨first, absent⟩ := alone single
    refine Once.quiet (Once.start (once.quiet tracked) first ?_ rfl) (quiet_park _)
    intro rid p held
    rw [OrderedMap.has, Option.isSome_eq_false_iff, Option.isNone_iff_eq_none] at absent
    rw [Hub.pending, absent] at held
    cases held
  · rename_i several
    have said := tracked.trans (quiet_emit (o := .broadcast (alertMessage f context)) rfl)
    refine initiate_once (once.quiet said) f blockTimeMs (fun _ absent => ?_)
    rw [said.starts]
    exact opens several absent

end Inbound

section Runs
variable {cfg : Params} {h : Hub}

theorem resume_once (once : Once cfg h) (env : Env) (tid : ℕ)
    (rechecked : Rechecked cfg h (env, .resume tid)) : Once cfg (resume cfg env h tid) := by
  have taken : Once cfg (h.takeTask tid) := once.quiet (quiet_take tid)
  unfold resume
  split
  · rename_i e f known pid parked
    split
    · split
      · exact taken.quiet (alert_verified_quiet e f known _)
      · exact taken
    · exact once
  · rename_i e f known context pid parked
    split
    · split
      · rename_i blockTimeMs confirmed
        refine prepare_verified_once taken e f known context blockTimeMs (fun consistent absent => ?_)
        refine rechecked.opens f.reorgId ?_
        have open' : h.pendingReorgs.has f.reorgId = false := absent
        simp [opening, parked, confirmed, consistent, open']
      · exact taken
    · exact once
  · rename_i f now pid parked
    split
    · split
      · exact taken.quiet (report_verified_quiet f now _)
      · exact taken
    · exact once
  · rename_i e f known parked
    exact tally_once taken e f known
  · exact once

theorem locked_once (once : Once cfg h) (env : Env) (tid : ℕ) (reply : LockReply)
    (rechecked : Rechecked cfg h (env, .locked tid reply)) : Once cfg (locked cfg env h tid reply) := by
  have taken : Once cfg (h.takeTask tid) := once.quiet (quiet_take tid)
  unfold locked
  split
  · rename_i e f known blockTimeMs parked
    unfold alertLocked
    split
    · rename_i admitted
      refine initiate_once taken f blockTimeMs (fun joins absent => ?_)
      have open' : h.pendingReorgs.has f.reorgId = false := absent
      refine rechecked.opens f.reorgId ?_
      simp [opening, parked, joins, admitted, open']
    · exact taken
  · exact taken.quiet (prepare_locked_quiet _ _ _ _)
  · rename_i f now blockTimeMs parked
    split
    · exact taken
    · rename_i joins
      have joined : (lockReorgFederationSnapshot cfg env .null false reply).joins = true := by
        cases context : lockReorgFederationSnapshot cfg env .null false reply with
        | refused => exact absurd context joins
        | inactive => rfl
        | active height members quorum self => rfl
      refine report_locked_once taken f now blockTimeMs (fun several absent => ?_) (fun single => ?_)
      · have open' : h.pendingReorgs.has f.reorgId = false := absent
        refine rechecked.opens f.reorgId ?_
        simp [opening, parked, joined, several, open']
      · refine rechecked.alone f.reorgId ?_
        simp [settlingAlone, parked, joined, single]
  · exact once

theorem timeout_quiet (rid : ℕ) : Quiet h (timeout h rid) := by
  unfold timeout
  split
  · exact Quiet.refl h
  · rename_i p _
    simp only
    have stopped : Quiet h (h.modify rid fun q => { q with timer := false }) :=
      quiet_modify fun _ done => done
    split_ifs
    · exact Quiet.refl h
    · exact stopped
    · exact stopped.trans (quiet_forget _)
    · exact (stopped.trans (quiet_emit rfl)).trans (quiet_forget _)

theorem written_quiet (tid : ℕ) (ok : Bool) : Quiet h (written h tid ok) := by
  unfold written
  split
  · simp only
    split_ifs
    · refine Quiet.trans ?_ (quiet_park _)
      exact quiet_same rfl rfl rfl
    · exact (quiet_take tid).trans (quiet_forget _)
    · exact quiet_take tid
  · exact Quiet.refl h

theorem broadcasted_quiet (tid : ℕ) : Quiet h (broadcasted h tid) := by
  unfold broadcasted
  split
  · simp only
    split_ifs
    · exact ((quiet_take tid).trans (quiet_emit rfl)).trans (quiet_forget _)
    · exact (quiet_take tid).trans (quiet_emit rfl)
  · exact Quiet.refl h

theorem advance_quiet (pid : ℕ) (p : Probe) (stage : ProbeStage) : Quiet h (h.advance pid p stage) := by
  unfold Hub.advance
  simp only
  split
  · refine Quiet.trans ?_ (quiet_emit rfl)
    exact quiet_same rfl rfl rfl
  · exact quiet_same rfl rfl rfl

/-- The step lemma. -/
theorem step_once (once : Once cfg h) {m : Env × Event} (rechecked : Rechecked cfg h m) :
    Once cfg (step cfg h m) := by
  obtain ⟨env, event⟩ := m
  cases event with
  | deliver e =>
    simp only [step, handleMessage]
    split
    · exact once.quiet (handle_alert_quiet e)
    · exact handle_prepare_once once e
    · exact handle_commit_once once e
  | report chain reorgHeight timestamp oldHash newHash =>
    exact once.quiet (report_quiet chain reorgHeight timestamp oldHash newHash)
  | tip pid answer | block pid answer | history pid answer =>
    simp only [step]
    split
    · split
      · exact once.quiet (advance_quiet ..)
      · exact once
    · exact once
  | probeOver pid =>
    simp only [step]
    split
    · split
      · exact once.quiet (quiet_same rfl rfl rfl)
      · exact once
    · exact once
  | resume tid => exact resume_once once env tid rechecked
  | locked tid reply => exact locked_once once env tid reply rechecked
  | timeout rid => exact once.quiet (timeout_quiet rid)
  | written tid ok => exact once.quiet (written_quiet tid ok)
  | broadcasted tid => exact once.quiet (broadcasted_quiet tid)

theorem started_once : Once cfg Hub.started :=
  ⟨List.nodup_nil, by simp [starts, Hub.started], Nat.zero_le _, by simp [Hub.started]⟩

/-- In a run whose handlers recheck on their way back, no reorg's rollback is started twice
    and the pending rounds keep to the cap. -/
theorem rollback_started_once {ms : List (Env × Event)}
    (rechecked : Admitted (step cfg) (Rechecked cfg) Hub.started ms) :
    (starts (run (step cfg) Hub.started ms)).Nodup ∧
      (run (step cfg) Hub.started ms).pendingReorgs.size ≤ cfg.maxPendingReorgs := by
  have once := run_invariant (Once cfg) (fun _ _ once rechecked => step_once once rechecked)
    started_once rechecked
  exact ⟨once.single, once.capped⟩

end Runs

section Sample

/- A hub on its own, with no federation to ask. -/
def singleParams : Params :=
  { sampleParams "h0" '0' id with
    declaredMinValidators := none
    snapshotActivation := none
    maxPendingReorgs := 1 }

def singleEnv : Env := ⟨⟨some [("h0", ofDigit '0')], none⟩, [], 0, 1000000⟩

def reported : Env × Event :=
  (singleEnv, .report (.text "BTC") (.number (NumberText.Number.ofNat 100))
    (.number (NumberText.Number.ofNat 1000000)) (.text (ofDigit '3')) (.text (ofDigit '4')))

/- The probe of the hub's own node confirms the reorg. -/
def confirmedRun : List (Env × Event) :=
  [(singleEnv, .tip 0 servesNew), (singleEnv, .history 0 (some [⟨some 100, some (ofDigit '3')⟩]))]

def unlocked : LockReply := ⟨none, false, none⟩

/- A report that is settled alone, and the same report again. -/
@[irreducible] def settledRun : List (Env × Event) :=
  [reported] ++ confirmedRun ++
    [(singleEnv, .resume 0), (singleEnv, .locked 1 unlocked), (singleEnv, .written 2 true), reported]

/- The report comes a second time while the first waits for the probe. -/
@[irreducible] def overlappedRun : List (Env × Event) :=
  [reported, reported] ++ confirmedRun ++
    [(singleEnv, .resume 0), (singleEnv, .resume 1), (singleEnv, .locked 2 unlocked),
      (singleEnv, .locked 3 unlocked)]

def startedOnce : { events : List (Env × Event) //
    Admitted (step singleParams) (Rechecked singleParams) Hub.started events ∧
      starts (run (step singleParams) Hub.started events) = ["BTC:100:1000000"] } :=
  ⟨settledRun, by decide +kernel⟩

def startedTwice : { events : List (Env × Event) //
    starts (run (step singleParams) Hub.started events) =
      ["BTC:100:1000000", "BTC:100:1000000"] } :=
  ⟨overlappedRun, by decide +kernel⟩

theorem sample_started_once :
    (starts (run (step singleParams) Hub.started settledRun) = ["BTC:100:1000000"]) ∧
      (starts (run (step singleParams) Hub.started settledRun)).Nodup ∧
      (run (step singleParams) Hub.started settledRun).pendingReorgs.size ≤ singleParams.maxPendingReorgs :=
  ⟨startedOnce.property.2, rollback_started_once startedOnce.property.1⟩

/-- Two reports that overlap roll the reorg back twice. -/
theorem overlapping_reports_start_twice :
    ¬ ((starts (run (step singleParams) Hub.started overlappedRun)).Nodup ∧
      (run (step singleParams) Hub.started overlappedRun).pendingReorgs.size ≤
        singleParams.maxPendingReorgs) := by
  rintro ⟨single, -⟩
  have twice : starts (run (step singleParams) Hub.started overlappedRun) = _ :=
    startedTwice.property
  rw [twice] at single
  exact absurd single (by decide)

end Sample
end XChainHub.Anchor.ReorgHandler
