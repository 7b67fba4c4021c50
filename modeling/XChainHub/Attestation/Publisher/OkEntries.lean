import XChainHub.Attestation.Publisher.OkAccounts

/-!
The steps of the publisher against the accounts: each leaves on the queue the ok entries it
has no reason to drop, and what it puts on record of an ok response is accounted for.
-/
namespace XChainHub.Attestation.Publisher
open PaidLog GuardedRuns SlotHeap IdempotentBroadcast

section Accounting
variable {known more : List String} {h : Hub} {flights : List (Option Flight)} {table : Table}
  {n : ℕ} {f : Flight} {x : Option Flight}

section Sweeps
variable {cfg : Params} {pending : List String} {now : ℤ} {e : Entry}

/- What a step leaves: the invariants, and every ok entry it has no reason to drop. -/
structure Accountable (known : List String) (unlisted : String → Prop) (h after : Hub) : Prop where
  core : Core known after
  sweep : SweepKept known after
  keeps : Keeps known unlisted h after

theorem Accountable.requeue {unlisted : String → Prop} {after before : Hub}
    (kept : Accountable known unlisted before after) (same : before.queue = h.queue) :
    Accountable known unlisted h after where
  core := kept.core
  sweep := kept.sweep
  keeps := by
    intro e member ok
    rw [← same] at member
    exact kept.keeps e member ok

/-- An entry is dropped as unlisted, as published, or for its age, which an ok entry never is. -/
theorem turn_drop {landed : Bool} (turn : replayTurn cfg h e pending now = .drop landed) :
    landed = true ∧ e.requestId ∉ pending ∨
      landed = false ∧ (isPublishedInProcess h e.requestId e.status = true ∨ e.status ≠ .ok) := by
  unfold replayTurn at turn
  split at turn
  · rename_i published
    rw [Turn.drop.injEq] at turn
    exact .inr ⟨turn.symm, .inl published⟩
  · split at turn
    · rename_i gone
      rw [Turn.drop.injEq] at turn
      exact .inl ⟨turn.symm, gone⟩
    · split at turn
      · rename_i aged
        rw [Turn.drop.injEq] at turn
        exact .inr ⟨turn.symm, .inr aged.1⟩
      · split at turn
        · exact absurd turn (by simp)
        · split at turn
          · split at turn <;> exact absurd turn (by simp)
          · exact absurd turn (by simp)

theorem swept_away_iff :
    sweptAway cfg h pending now e = true ↔
      isPublishedInProcess h e.requestId e.status = true ∨
      (e.requestId ∈ pending ∧ e.status ≠ .ok ∧ failoverWindowMs cfg < now - e.ts) ∨
      isQuarantined h e.requestId e.status = true := by
  have turn : replayTurn cfg h e pending now = .drop false ↔
      isPublishedInProcess h e.requestId e.status = true ∨
      (e.requestId ∈ pending ∧ e.status ≠ .ok ∧ failoverWindowMs cfg < now - e.ts) := by
    unfold replayTurn
    split
    · simp_all
    · split
      · simp_all
      · split
        · simp_all
        · split
          · simp_all
          · split
            · split <;> simp_all
            · simp_all
  unfold sweptAway
  rw [Bool.or_eq_true, decide_eq_true_eq, turn, or_assoc]

/- The entries the sweep still has to come to may be dropped. -/
def Droppable (known : List String) (cfg : Params) (h : Hub) (pending : List String) (now : ℤ)
    (todo : List Entry) : Prop :=
  ∀ e ∈ todo, e.status ≠ .ok → sweptAway cfg h pending now e = true →
    okQueued h e.requestId = true → e.requestId ∈ known

theorem Clear.droppable {todo : List Entry} (clear : Clear cfg h pending now todo) :
    Droppable known cfg h pending now todo := by
  intro e member advisory swept queued
  rw [clear e member advisory swept] at queued
  exact absurd queued (by simp)

theorem DropKept.add {drop : OrderedSet String} {rid : String}
    (kept : DropKept known h pending drop.items)
    (own : okQueued h rid = true → rid ∈ known ∨ rid ∉ pending) :
    DropKept known h pending (drop.add rid).items := by
  intro other member queued
  rcases OrderedSet.mem_add.mp member with rfl | old
  · exact own queued
  · exact kept other old queued

theorem forget_core (core : Core known h) (rid : String) : Core known (forgetAmbiguous h rid) :=
  core.same rfl rfl rfl rfl rfl core.queue

theorem forget_droppable {todo : List Entry} (rid : String)
    (droppable : Droppable known cfg h pending now todo) :
    Droppable known cfg (forgetAmbiguous h rid) pending now todo := by
  intro e member advisory swept queued
  refine droppable e member advisory ?_ queued
  rw [swept_away_iff] at swept ⊢
  exact swept

/-- The sweep drops an ok entry that is unlisted, published or quarantined, and takes the next. -/
theorem replay_queue_accountable (disk : Disk) (todo : List Entry) (drop : OrderedSet String)
    (core : Core known h) (plain : ∀ e ∈ todo, '|' ∉ e.requestId.toList)
    (droppable : Droppable known cfg h pending now todo)
    (drops : DropKept known h pending drop.items) :
    Accountable known (· ∉ pending) h (replayQueue cfg pending now disk todo drop h) := by
  induction todo generalizing drop h with
  | nil =>
    have removed : Core known (removeFromQueue h drop disk) := remove_core core drop disk
    refine ⟨removed.same rfl rfl rfl rfl rfl removed.queue, trivial, ?_⟩
    intro e member ok
    rcases remove_mem member with stays | named
    · exact .inl stays
    · exact .inr (drops e.requestId named (ok_queued_iff.mpr ⟨e, member, rfl, ok⟩))
  | cons entry todo ih =>
    have own : '|' ∉ entry.requestId.toList := plain entry List.mem_cons_self
    have rest : ∀ e ∈ todo, '|' ∉ e.requestId.toList :=
      fun e member => plain e (List.mem_cons_of_mem _ member)
    have ahead : Droppable known cfg h pending now todo :=
      fun e member => droppable e (List.mem_cons_of_mem _ member)
    have cleared : Core known (forgetAmbiguous h entry.requestId) := forget_core core _
    have cleared' : Droppable known cfg (forgetAmbiguous h entry.requestId) pending now todo :=
      forget_droppable entry.requestId ahead
    -- an advisory entry that the sweep drops stands over no ok entry
    have advisory (swept : sweptAway cfg h pending now entry = true) (notOk : entry.status ≠ .ok)
        (queued : okQueued h entry.requestId = true) : entry.requestId ∈ known :=
      droppable entry List.mem_cons_self notOk swept queued
    unfold replayQueue
    split
    · rename_i landed turn
      have adds : DropKept known h pending (drop.add entry.requestId).items := by
        refine drops.add fun queued => ?_
        rcases turn_drop turn with ⟨-, gone⟩ | ⟨kind, reason⟩
        · exact .inr gone
        · subst kind
          refine .inl ?_
          by_cases ok : entry.status = .ok
          · rcases reason with published | notOk
            · rw [ok] at published
              exact core.published_known own published
            · exact absurd ok notOk
          · exact advisory (by simp [sweptAway, turn]) ok queued
      cases landed with
      | true => exact (ih _ cleared rest cleared' adds).requeue rfl
      | false => exact ih _ core rest ahead adds
    · exact ih drop core rest ahead drops
    · exact ih drop core rest ahead drops
    · simp only
      split
      · exact (ih drop cleared rest cleared' drops).requeue rfl
      · split
        · rename_i held
          have adds : DropKept known h pending (drop.add entry.requestId).items := by
            refine drops.add fun queued => .inl ?_
            by_cases ok : entry.status = .ok
            · rw [ok] at held
              exact core.quarantined_known own held
            · exact advisory (swept_away_iff.mpr (.inr (.inr held))) ok queued
          exact (ih _ cleared rest cleared' adds).requeue rfl
        · refine ⟨?_, ⟨rest, drops⟩, keeps_queue rfl⟩
          refine Core.push (cleared.same rfl rfl rfl rfl rfl cleared.queue) ⟨own, ?_, ?_⟩
          · rintro - (marking | marked)
            · exact absurd marking (by simp)
            · exact absurd marked (by simp)
          · intro row gate
            exact absurd gate (by simp)

end Sweeps

section Handlers
variable {cfg : Params}

/- The running sweep was told that the request is not pending. -/
def NotPending (h : Hub) (rid : String) : Prop :=
  match h.sweep with
  | some (.replaying _ pending _ _) => rid ∉ pending
  | _ => False

/- The rest of the running sweep may be dropped. -/
def RestDroppable (known : List String) (cfg : Params) (h : Hub) : Prop :=
  ∀ todo pending now drop, h.sweep = some (.replaying todo pending now drop) →
    Droppable known cfg h pending now todo

theorem Accountable.resume {after before : Hub}
    (kept : Accountable known (NotPending before) before after) (queue : before.queue = h.queue)
    (sweep : before.sweep = h.sweep) : Accountable known (NotPending h) h after := by
  have told : NotPending h = NotPending before := by
    funext rid
    unfold NotPending
    rw [sweep]
  rw [told]
  exact kept.requeue queue

theorem ClearAhead.droppable (clear : ClearAhead cfg h) : RestDroppable known cfg h := by
  intro todo pending now drop sweep
  unfold ClearAhead at clear
  rw [sweep] at clear
  exact Clear.droppable clear

theorem SweepKept.todo_plain (kept : SweepKept known h) {todo : List Entry} {pending : List String}
    {now : ℤ} {drop : OrderedSet String} (sweep : h.sweep = some (.replaying todo pending now drop))
    {e : Entry} (member : e ∈ todo) : '|' ∉ e.requestId.toList := by
  unfold SweepKept at kept
  rw [sweep] at kept
  exact kept.1 e member

theorem published_added {rid other : String} {st was : Status} (plain : '|' ∉ other.toList)
    (held : isPublishedInProcess { h with published := h.published.add (publicationKey rid st) }
      other was = true) :
    isPublishedInProcess h other was = true ∨ other = rid ∧ was = st := by
  unfold isPublishedInProcess at held ⊢
  rw [Bool.or_eq_true, decide_eq_true_eq, decide_eq_true_eq] at held ⊢
  rcases held with bare | keyed
  · rcases OrderedSet.mem_add.mp bare with same | old
    · rw [same] at plain
      exact absurd (key_not_plain rid st) plain
    · exact .inl (.inl old)
  · rcases OrderedSet.mem_add.mp keyed with same | old
    · exact .inr (publication_key_inj same)
    · exact .inl (.inr old)

theorem quarantined_added {key other : String} {was : Status}
    (held : isQuarantined { h with quarantined := h.quarantined.add key } other was = true) :
    isQuarantined h other was = true ∨ other = key ∨ publicationKey other was = key := by
  unfold isQuarantined at held ⊢
  rw [Bool.or_eq_true, decide_eq_true_eq, decide_eq_true_eq] at held ⊢
  rcases held with bare | keyed
  · exact (OrderedSet.mem_add.mp bare).elim (fun same => .inr (.inl same))
      (fun old => .inl (.inl old))
  · exact (OrderedSet.mem_add.mp keyed).elim (fun same => .inr (.inr same))
      (fun old => .inl (.inr old))

/-- A publication on record lets the sweep drop the entries of its own pair besides. -/
theorem RestDroppable.publish (rest : RestDroppable known cfg h) (sweep : SweepKept known h)
    (own : f.status ≠ .ok → okQueued h f.rid = true → f.rid ∈ known) :
    RestDroppable known cfg
      { h with published := h.published.add (publicationKey f.rid f.status) } := by
  intro todo pending now drop running e member advisory swept queued
  have old := rest todo pending now drop running e member advisory
  rw [swept_away_iff] at old swept
  rcases swept with published | aged | held
  · rcases published_added (sweep.todo_plain running member) published with before | ⟨same, kind⟩
    · exact old (.inl before) queued
    · rw [same] at queued ⊢
      exact own (kind ▸ advisory) queued
  · exact old (.inr (.inl aged)) queued
  · exact old (.inr (.inr held)) queued

theorem RestDroppable.quarantine (rest : RestDroppable known cfg h) {key : String}
    (fresh : ∀ rid st, '|' ∉ rid.toList → st ≠ .ok → rid = key ∨ publicationKey rid st = key →
      okQueued h rid = true → rid ∈ known) (sweep : SweepKept known h) :
    RestDroppable known cfg { h with quarantined := h.quarantined.add key } := by
  intro todo pending now drop running e member advisory swept queued
  have old := rest todo pending now drop running e member advisory
  rw [swept_away_iff] at old swept
  rcases swept with published | aged | held
  · exact old (.inl published) queued
  · exact old (.inr (.inl aged)) queued
  · rcases quarantined_added held with before | new
    · exact old (.inr (.inr before)) queued
    · exact fresh e.requestId e.status (sweep.todo_plain running member) advisory new queued

theorem finish_live (live : f.live = true) (dropped : Bool) (disk : Disk) :
    finish cfg h n f dropped disk = h.put n none := by
  unfold finish
  simp only
  rw [if_pos live]

theorem quit_core (core : Core known h) (slot : slotAt h.flights n = some f)
    (paid : f.status = .ok → f.stage.holding = true → f.rid ∈ known)
    (calm : f.stage.withdrawn = false) : Core known (h.put n none) := by
  refine core.put slot (by simp) (fun ok holding => .inl (paid ok holding)) ?_
  intro withdrawn
  rw [calm] at withdrawn
  exact absurd withdrawn (by simp)

/-- A handler that is done leaves the sweep to its next entry. -/
theorem finish_accountable (dropped : Bool) (disk : Disk) (core : Core known h)
    (sweep : SweepKept known h) (slot : slotAt h.flights n = some f)
    (paid : f.status = .ok → f.stage.holding = true → f.rid ∈ known)
    (calm : f.stage.withdrawn = false) (rest : f.live = false → RestDroppable known cfg h)
    (drops : f.live = false → dropped = true → okQueued h f.rid = true → f.rid ∈ known) :
    Accountable known (NotPending h) h (finish cfg h n f dropped disk) := by
  have quit : Core known (h.put n none) := quit_core core slot paid calm
  by_cases live : f.live = true
  · rw [finish_live live]
    exact ⟨quit, sweep, keeps_queue rfl⟩
  · rw [Bool.not_eq_true] at live
    unfold finish
    simp only
    rw [if_neg (by simp [live])]
    split
    · rename_i todo pending now drop running
      have kept := sweep
      unfold SweepKept at kept
      rw [running] at kept
      have unlisted : NotPending h = (· ∉ pending) := by
        funext rid
        unfold NotPending
        rw [running]
      rw [unlisted]
      refine (replay_queue_accountable disk todo _ quit kept.1
        (rest live todo pending now drop running) ?_).requeue rfl
      split
      · rename_i yes
        exact DropKept.add kept.2 fun queued => .inl (drops live yes queued)
      · exact kept.2
    · exact ⟨quit, sweep, keeps_queue rfl⟩

section Verdicts
variable {row : Option Row}

theorem verdict_sent {rid : String} {st : Status} (sent : markerVerdict row rid st = .sent) :
    ∃ r, row = some r ∧ r.sentAt = true ∧
      (r.statuses = [] ∨ st ∈ r.statuses ∨ Status.ok ∈ r.statuses) := by
  unfold markerVerdict at sent
  split at sent
  · exact absurd sent (by simp)
  · rename_i r
    split at sent
    · rename_i marked
      split at sent
      · rename_i named
        exact ⟨r, rfl, marked, named⟩
      · exact absurd sent (by simp)
    · split at sent
      · exact absurd sent (by simp)
      · split at sent <;> exact absurd sent (by simp)

theorem verdict_quarantine {rid key : String} {st : Status}
    (held : markerVerdict row rid st = .quarantine key) :
    ∃ r, row = some r ∧ r.sentAt = false ∧
      (r.intent = none ∧ key = rid ∨ r.intent = some st ∧ key = publicationKey rid st) := by
  unfold markerVerdict at held
  split at held
  · exact absurd held (by simp)
  · rename_i r
    split at held
    · split at held <;> exact absurd held (by simp)
    · rename_i unsent
      rw [Bool.not_eq_true] at unsent
      split at held
      · rename_i bare
        rw [Verdict.quarantine.injEq] at held
        exact ⟨r, rfl, unsent, .inl ⟨bare, held.symm⟩⟩
      · rename_i armed intent
        split at held
        · rename_i same
          rw [Verdict.quarantine.injEq, same] at held
          exact ⟨r, rfl, unsent, .inr ⟨by rw [intent, same], held.symm⟩⟩
        · exact absurd held (by simp)

/-- A row that answers sent to an ok response names it. -/
theorem FlightKept.sent_known (kept : FlightKept known f) (gate : f.stage = .gate row)
    (sent : markerVerdict row f.rid f.status = .sent) (ok : f.status = .ok) : f.rid ∈ known := by
  obtain ⟨r, rfl, marked, named⟩ := verdict_sent sent
  have read := kept.read r gate
  rcases named with empty | own | other
  · exact absurd empty (read.named marked)
  · rw [ok] at own
    exact read.sent own
  · exact read.sent other

theorem FlightKept.quarantine_known (kept : FlightKept known f) (gate : f.stage = .gate row)
    {key : String} (held : markerVerdict row f.rid f.status = .quarantine key) :
    key = f.rid ∧ f.rid ∈ known ∨
      key = publicationKey f.rid f.status ∧ (f.status = .ok → f.rid ∈ known) := by
  obtain ⟨r, rfl, unsent, ⟨bare, rfl⟩ | ⟨armed, rfl⟩⟩ := verdict_quarantine held
  · have read := kept.read r gate
    exact .inl ⟨rfl, (read.bare unsent bare).elim id False.elim⟩
  · have read := kept.read r gate
    refine .inr ⟨rfl, fun ok => ?_⟩
    rw [ok] at armed
    exact (read.armed armed).elim id (fun notOk => absurd ok notOk)

end Verdicts

theorem gate_accountable {row : Option Row} (gate : f.stage = .gate row) (reserved : Bool)
    (disk : Disk) (core : Core known h) (sweep : SweepKept known h) (slot : slotAt h.flights n = some f)
    (single : f.status ≠ .ok → settles f = true → okQueued h f.rid = false)
    (clear : f.live = false → ClearAhead cfg h) :
    Accountable known (NotPending h) h (answerGate cfg h n f row reserved disk) := by
  have flight : FlightKept known f := core.flights n f slot
  have calm : f.stage.withdrawn = false := by rw [gate]; rfl
  have paid (ok : f.status = .ok) (holding : f.stage.holding = true) : f.rid ∈ known := by
    rw [gate] at holding
    exact absurd holding (by simp [Stage.holding])
  have rest (own : f.live = false) : RestDroppable known cfg h := (clear own).droppable
  unfold answerGate
  split
  · rename_i send
    split
    · refine ⟨core.put slot ?_ ?_ ?_, sweep, keeps_queue rfl⟩
      · rintro g ⟨⟩
        refine ⟨flight.plain, ?_, ?_⟩
        · rintro - (marking | marked)
          · exact absurd marking (by simp)
          · exact absurd marked (by simp)
        · intro row' gate'
          exact absurd gate' (by simp)
      · intro ok holding
        exact .inl (paid ok holding)
      · intro withdrawn
        rw [calm] at withdrawn
        exact absurd withdrawn (by simp)
    · exact finish_accountable false disk core sweep slot paid calm rest (by simp)
  · rename_i sent
    have own (alone : f.live = false) (notOk : f.status ≠ .ok) (queued : okQueued h f.rid = true) :
        f.rid ∈ known := by
      rw [single notOk (by simp [settles, gate, alone, sent])] at queued
      exact absurd queued (by simp)
    refine (finish_accountable true disk (core.publish (flight.sent_known gate sent)) sweep slot
      paid calm (fun alone => (rest alone).publish sweep (own alone)) ?_).resume rfl rfl
    intro alone _ queued
    by_cases ok : f.status = .ok
    · exact flight.sent_known gate sent ok
    · exact own alone ok queued
  · rename_i key held
    have reason := flight.quarantine_known gate held
    have own (alone : f.live = false) (notOk : f.status ≠ .ok) (queued : okQueued h f.rid = true) :
        f.rid ∈ known := by
      rw [single notOk (by simp [settles, gate, alone, held])] at queued
      exact absurd queued (by simp)
    refine (finish_accountable true disk (core.quarantine ?_) sweep slot paid calm
      (fun alone => (rest alone).quarantine ?_ sweep) ?_).resume rfl rfl
    · rcases reason with ⟨rfl, member⟩ | ⟨rfl, ok⟩
      · exact .inr ⟨flight.plain, member⟩
      · exact .inl ⟨f.rid, f.status, rfl, ok⟩
    · intro rid st plain notOk new queued
      rcases reason with ⟨rfl, member⟩ | ⟨rfl, ok⟩
      · rcases new with rfl | keyed
        · exact member
        · exact absurd (keyed ▸ key_not_plain rid st) flight.plain
      · rcases new with rfl | keyed
        · exact absurd (key_not_plain f.rid f.status) plain
        · obtain ⟨rfl, rfl⟩ := publication_key_inj keyed
          exact own alone notOk queued
    · intro alone _ queued
      rcases reason with ⟨-, member⟩ | ⟨-, ok⟩
      · exact member
      · by_cases is : f.status = .ok
        · exact ok is
        · exact own alone is queued

theorem moved_on (flight : FlightKept known f) {stage : Stage}
    (unpaid : stage ≠ .marking ∧ stage ≠ .marked)
    (past : stage.past = true) : FlightKept known { f with stage := stage } where
  plain := flight.plain
  paid := fun _ either => either.elim (fun is => absurd is unpaid.1) (fun is => absurd is unpaid.2)
  read := by
    rintro row rfl
    exact absurd past (by simp [Stage.past])

/-- A marked advisory of this process takes no ok entry with it. -/
theorem marked_accountable (marked : f.stage = .marked) (disk : Disk) (core : Core known h)
    (sweep : SweepKept known h) (slot : slotAt h.flights n = some f)
    (single : f.status ≠ .ok → settles f = true → okQueued h f.rid = false)
    (clear : f.live = false → ClearAhead cfg h) :
    Accountable known (NotPending h) h
      (if f.live then
        finish cfg (removeFromQueue h (OrderedSet.empty.add f.rid) disk) n f false disk
      else finish cfg h n f true disk) := by
  have own (queued : okQueued h f.rid = true) : f.rid ∈ known := by
    by_cases ok : f.status = .ok
    · exact (core.flights n f slot).paid ok (.inr marked)
    · rw [single ok (by simp [settles, marked])] at queued
      exact absurd queued (by simp)
  have paid (ok : f.status = .ok) (_ : f.stage.holding = true) : f.rid ∈ known :=
    (core.flights n f slot).paid ok (.inr marked)
  split
  · rename_i live
    rw [finish_live live]
    have slot' :
        slotAt (removeFromQueue h (OrderedSet.empty.add f.rid) disk).flights n = some f := by
      rw [remove_flights]
      exact slot
    refine ⟨quit_core (remove_core core _ disk) slot' paid (by rw [marked]; rfl),
      remove_sweep_kept sweep _ disk, ?_⟩
    intro e member ok
    rcases remove_mem member with stays | named
    · exact .inl stays
    · rw [OrderedSet.mem_add, or_iff_left OrderedSet.not_mem_empty] at named
      have queued : okQueued h f.rid = true := ok_queued_iff.mpr ⟨e, member, named, ok⟩
      rw [named]
      exact .inr (.inl (own queued))
  · rename_i alone
    rw [Bool.not_eq_true] at alone
    exact finish_accountable true disk core sweep slot paid (by rw [marked]; rfl)
      (fun alone => (clear alone).droppable) (fun _ _ => own)

theorem reply_accountable (reserved : Bool) (disk : Disk) (core : Core known h)
    (sweep : SweepKept known h) (slot : slotAt h.flights n = some f)
    (single : f.status ≠ .ok → settles f = true → okQueued h f.rid = false)
    (clear : f.live = false → ClearAhead cfg h) :
    Accountable known (NotPending h) h (takeReply cfg h n f reserved disk) := by
  have flight : FlightKept known f := core.flights n f slot
  unfold takeReply
  split
  · rename_i row gate
    exact gate_accountable gate reserved disk core sweep slot single clear
  · rename_i armed
    refine ⟨Core.put (core.same rfl rfl rfl rfl rfl core.queue) slot ?_ ?_ ?_, sweep,
      keeps_queue rfl⟩
    · rintro g ⟨⟩
      exact moved_on flight ⟨by simp, by simp⟩ rfl
    · intro ok _
      exact .inr ⟨_, rfl, rfl, ok, rfl⟩
    · intro withdrawn
      rw [armed] at withdrawn
      exact absurd withdrawn (by simp [Stage.withdrawn])
  · rename_i marked
    exact marked_accountable marked disk core sweep slot single clear
  · rename_i disarmed
    refine ⟨core.put slot ?_ ?_ ?_, sweep, keeps_queue rfl⟩
    · rintro g ⟨⟩
      exact moved_on flight ⟨by simp, by simp⟩ rfl
    · intro _ holding
      rw [disarmed] at holding
      exact absurd holding (by simp [Stage.holding])
    · intro _
      exact ⟨_, rfl, rfl, rfl⟩
  · rename_i deleted
    refine finish_accountable false disk core sweep slot ?_ (by rw [deleted]; rfl)
      (fun alone => (clear alone).droppable) (by simp)
    intro _ holding
    rw [deleted] at holding
    exact absurd holding (by simp [Stage.holding])
  · exact ⟨core, sweep, keeps_queue rfl⟩

/-- An ok response that was broadcast, or whose answer was ambiguous, is accounted for. -/
theorem settle_accountable (error : Option (SendError × Bool)) (now : ℤ) (disk : Disk)
    (core : Core known h) (sweep : SweepKept known h) (slot : slotAt h.flights n = some f)
    (counted : f.stage = .sending → f.status = .ok →
      error.all (fun e => isAmbiguousSendError e.1 || e.2) = true → f.rid ∈ known)
    (clear : f.live = false → ClearAhead cfg h) :
    Accountable known (NotPending h) h (settleBroadcast cfg h n f error now disk) := by
  have flight : FlightKept known f := core.flights n f slot
  unfold settleBroadcast
  split
  · exact ⟨core, sweep, keeps_queue rfl⟩
  · rename_i sending
    rw [not_not] at sending
    have calm : f.stage.withdrawn = false := by rw [sending]; rfl
    have gone {P : Prop} (withdrawn : f.stage.withdrawn = true) : P := by
      rw [calm] at withdrawn
      exact absurd withdrawn (by simp)
    split
    · have known' (ok : f.status = .ok) : f.rid ∈ known := counted sending ok rfl
      refine ⟨Core.put ((core.publish known').same rfl rfl rfl rfl rfl core.queue) slot ?_
        (fun ok _ => .inl (known' ok)) gone, sweep, keeps_queue rfl⟩
      rintro g ⟨⟩
      refine ⟨flight.plain, fun ok _ => known' ok, ?_⟩
      intro row gate
      exact absurd gate (by simp)
    · rename_i e attestAmbiguousSend
      split
      · rename_i ambiguous
        refine (finish_accountable (h := { h with
            ambiguousSends := h.ambiguousSends.set f.rid now
            log := .refused f.pair :: h.log })
          false disk (core.same rfl rfl rfl rfl rfl core.queue) sweep slot
          (fun ok _ => counted sending ok ambiguous) calm ?_ (by simp)).resume rfl rfl
        intro alone todo pending at' drop running e' member advisory swept
        refine (clear alone).droppable todo pending at' drop running e' member advisory ?_
        rw [swept_away_iff] at swept ⊢
        exact swept
      · refine ⟨Core.put (core.same rfl rfl rfl rfl rfl core.queue) slot ?_ ?_ gone, sweep,
          keeps_queue rfl⟩
        · rintro g ⟨⟩
          exact moved_on flight ⟨by simp, by simp⟩ rfl
        · intro ok _
          exact .inr ⟨_, rfl, rfl, ok, rfl⟩

end Handlers

section Readings

/-- A row read while nobody stands behind it says what it says for good. -/
theorem read_kept (core : Core known h) {rid : String} {st : Status} (free : RowFree h rid st)
    {row : Row} (found : h.table.get rid = some row) : RowKept known (st ≠ .ok) False rid row := by
  refine (core.rows rid row found).weaken (List.Subset.refl _) ?_ ?_
  · rintro ⟨m, g, at', own, ok, holding⟩
    refine .inr fun is => ?_
    rw [(free g (mem_occupied at') own).2 is ok] at holding
    exact absurd holding (by simp)
  · rintro ⟨m, g, at', own, withdrawn⟩
    rw [(free g (mem_occupied at') own).1] at withdrawn
    exact absurd withdrawn (by simp)

theorem statement_accountable (core : Core known h) (sweep : SweepKept known h)
    (slot : slotAt h.flights n = some f) (free : f.stage = .reading → RowFree h f.rid f.status) :
    Accountable known (NotPending h) h (runStatement h n f) := by
  have flight : FlightKept known f := core.flights n f slot
  have own : ∀ row, h.table.get f.rid = some row →
      RowKept known (Held h.flights f.rid) (Withdrawn h.flights f.rid) f.rid row := core.rows f.rid
  unfold runStatement
  split
  · rename_i reading
    refine ⟨core.put slot ?_ ?_ ?_, sweep, keeps_queue rfl⟩
    · rintro g ⟨⟩
      refine ⟨flight.plain, ?_, ?_⟩
      · rintro - (marking | marked)
        · exact absurd marking (by simp)
        · exact absurd marked (by simp)
      · intro row gate
        rw [Stage.gate.injEq] at gate
        exact read_kept core (free reading) gate
    · intro _ holding
      rw [reading] at holding
      exact absurd holding (by simp [Stage.holding])
    · intro withdrawn
      rw [reading] at withdrawn
      exact absurd withdrawn (by simp [Stage.withdrawn])
  · refine ⟨core.retable slot ?_ (fun _ => arm_elsewhere) ?_, sweep, keeps_queue rfl⟩
    · rintro g ⟨⟩
      exact moved_on flight ⟨by simp, by simp⟩ rfl
    · intro row found
      refine arm_kept own flight.plain (fun ok => ?_) found
      exact ⟨n, _, slot_set_same slot, rfl, ok, rfl⟩
  · rename_i marking
    have paid (ok : f.status = .ok) : f.rid ∈ known := flight.paid ok (.inl marking)
    refine ⟨core.retable slot ?_ (fun _ => mark_elsewhere) ?_, sweep, keeps_queue rfl⟩
    · rintro g ⟨⟩
      refine ⟨flight.plain, fun ok _ => paid ok, ?_⟩
      intro row gate
      exact absurd gate (by simp)
    · intro row found
      exact mark_kept own paid found
  · refine ⟨core.retable slot ?_ (fun _ => disarm_elsewhere) ?_, sweep, keeps_queue rfl⟩
    · rintro g ⟨⟩
      exact moved_on flight ⟨by simp, by simp⟩ rfl
    · intro row found
      refine disarm_kept own ?_ ⟨n, _, slot_set_same slot, rfl, rfl⟩ found
      exact fun notOk => held_set slot (fun _ ok _ => absurd ok notOk)
  · rename_i deleting
    refine ⟨core.retable slot ?_ (fun _ => delete_elsewhere) ?_, sweep, keeps_queue rfl⟩
    · rintro g ⟨⟩
      exact moved_on flight ⟨by simp, by simp⟩ rfl
    · intro row found
      refine delete_kept own (held_set slot ?_) found
      intro _ _ holding
      rw [deleting] at holding
      exact absurd holding (by simp [Stage.holding])
  · exact ⟨core, sweep, keeps_queue rfl⟩

end Readings

section Steps
variable {cfg : Params}

theorem live_accountable (ev : FinalizedEvent) (now : ℤ) (enqueued : Bool) (core : Core known h)
    (sweep : SweepKept known h) (plain : '|' ∉ ev.requestId.toList)
    (kept : ev.status = .ok → ev.requestId ∉ dropped h) :
    Accountable known (NotPending h) h (onRequestFinalized cfg h ev now enqueued) := by
  have idle : Accountable known (NotPending h) h h := ⟨core, sweep, keeps_queue rfl⟩
  unfold onRequestFinalized
  simp only
  split
  · exact idle
  split
  · exact idle
  split
  · exact idle
  split
  · exact idle
  split
  · exact idle
  · generalize entry : (⟨now, ev.requestId, ev.status, ev.responsible,
      ev.leaderPubkey.or ev.responsible.head?⟩ : Entry) = e
    have rid : e.requestId = ev.requestId := by rw [← entry]
    have kind : e.status = ev.status := by rw [← entry]
    have queued : Accountable known (NotPending h) h { h with queue := h.queue ++ [e] } := by
      refine ⟨core.same rfl rfl rfl rfl rfl ?_, ?_, ?_⟩
      · intro e' member
        rcases List.mem_append.mp member with old | new
        · exact core.queue e' old
        · rw [List.mem_singleton.mp new, rid]
          exact plain
      · unfold SweepKept at sweep ⊢
        split
        · trivial
        · rename_i entries running
          rw [running] at sweep
          exact sweep
        · rename_i todo pending at' drop running
          rw [running] at sweep
          refine ⟨sweep.1, ?_⟩
          intro other member found
          obtain ⟨e', inside, own, ok⟩ := ok_queued_iff.mp found
          rcases List.mem_append.mp inside with old | new
          · exact sweep.2 other member (ok_queued_iff.mpr ⟨e', old, own, ok⟩)
          · -- the sweep has not dropped this request yet
            rw [List.mem_singleton.mp new] at own ok
            have absent := kept (kind ▸ ok)
            unfold dropped at absent
            rw [running] at absent
            rw [← rid, own] at absent
            exact absurd member absent
      · intro e' member _
        exact .inl (List.mem_append_left _ member)
    split
    · exact queued
    · unfold broadcastFinalized
      split
      · exact queued
      · split
        · exact queued
        · split
          · exact queued
          · refine ⟨queued.core.push ⟨plain, ?_, ?_⟩, queued.sweep, queued.keeps⟩
            · rintro - (marking | marked)
              · exact absurd marking (by simp)
              · exact absurd marked (by simp)
            · intro row gate
              exact absurd gate (by simp)

theorem tick_accountable (readable : Bool) (core : Core known h) (sweep : SweepKept known h) :
    Accountable known (NotPending h) h (tick cfg h readable) := by
  unfold tick
  split
  · simp only
    split_ifs with _ off off
    · exact ⟨core, sweep, keeps_queue rfl⟩
    · exact ⟨core.same rfl rfl rfl rfl rfl core.queue, core.queue, keeps_queue rfl⟩
    · exact ⟨core, sweep, keeps_queue rfl⟩
    · exact ⟨core.same rfl rfl rfl rfl rfl core.queue, by simp [SweepKept], keeps_queue rfl⟩
  · exact ⟨core, sweep, keeps_queue rfl⟩

theorem pending_accountable (ids : Option (List String)) (now : ℤ) (disk : Disk)
    (core : Core known h) (sweep : SweepKept known h)
    (guarded : Separate cfg h (.pendingIds ids now disk)) :
    Accountable known (Unlisted h (.pendingIds ids now disk)) h
      (readPending cfg h ids now disk) := by
  unfold readPending
  split
  · rename_i entries running
    unfold SweepKept at sweep
    rw [running] at sweep
    cases ids with
    | none => exact ⟨core.same rfl rfl rfl rfl rfl core.queue, trivial, keeps_queue rfl⟩
    | some pending =>
      have clear : Clear cfg h pending now entries := by
        unfold Separate at guarded
        simp only [running] at guarded
        exact guarded
      have unlisted : Unlisted h (.pendingIds (some pending) now disk) = (· ∉ pending) := by
        funext rid
        unfold Unlisted
        rw [running]
      rw [unlisted]
      refine replay_queue_accountable disk entries OrderedSet.empty core sweep clear.droppable ?_
      intro rid member
      exact absurd member OrderedSet.not_mem_empty
  · exact ⟨core, sweep, keeps_queue rfl⟩

theorem prune_core (core : Core known h) (aged : List String) :
    Core known { h with
      table := deleteSettledAttestPublishedRequests h.table aged
      pruned := aged ++ h.pruned } :=
  { core with rows := fun rid row found => core.rows rid row (prune_old found) }

theorem hydrate_read_core (core : Core known h) (free : ∀ g ∈ occupied h.flights,
    g.stage.withdrawn = false ∧ (g.status = .ok → g.stage.holding = false)) :
    Core known { h with hydration := .rows h.table } :=
  { core with
    seen := by
      intro rid row member
      refine (core.rows rid row (OrderedMap.get_of_mem member)).weaken (List.Subset.refl _) ?_ ?_
      · rintro ⟨m, g, at', -, ok, holding⟩
        rw [(free g (mem_occupied at')).2 ok] at holding
        exact absurd holding (by simp)
      · rintro ⟨m, g, at', -, withdrawn⟩
        rw [(free g (mem_occupied at')).1] at withdrawn
        exact absurd withdrawn (by simp) }

/- What hydration may put into its two sets. -/
def SetsKept (known : List String) (sets : OrderedSet String × OrderedSet String) : Prop :=
  (∀ k ∈ sets.1, ∃ rid st, k = publicationKey rid st ∧ (st = .ok → rid ∈ known)) ∧
  (∀ k ∈ sets.2, (∃ rid st, k = publicationKey rid st ∧ (st = .ok → rid ∈ known)) ∨
    '|' ∉ k.toList ∧ k ∈ known)

theorem named_kept {statuses : List Status} {rid : String} {published : OrderedSet String}
    (kept : ∀ k ∈ published, ∃ rid st, k = publicationKey rid st ∧ (st = .ok → rid ∈ known))
    (ok : .ok ∈ statuses → rid ∈ known) :
    ∀ k ∈ statuses.foldl (fun names st => names.add (publicationKey rid st)) published,
      ∃ rid st, k = publicationKey rid st ∧ (st = .ok → rid ∈ known) := by
  induction statuses generalizing published with
  | nil => exact kept
  | cons st statuses ih =>
    refine ih ?_ (fun member => ok (List.mem_cons_of_mem _ member))
    intro k member
    rcases OrderedSet.mem_add.mp member with rfl | old
    · exact ⟨rid, st, rfl, fun is => ok (is ▸ List.mem_cons_self)⟩
    · exact kept k old

theorem hydrate_row_sets {sets : OrderedSet String × OrderedSet String} {rid : String} {row : Row}
    (kept : SetsKept known sets) (read : RowKept known False False rid row) :
    SetsKept known (hydrateRow sets (rid, row)) := by
  have bare : ∀ k ∈ (if !row.sentAt && row.intent.isNone then sets.2.add rid else sets.2),
      (∃ rid st, k = publicationKey rid st ∧ (st = .ok → rid ∈ known)) ∨ '|' ∉ k.toList ∧
        k ∈ known := by
    intro k member
    split at member
    · rename_i empty
      rw [Bool.and_eq_true, Bool.not_eq_true', Option.isNone_iff_eq_none] at empty
      rcases OrderedSet.mem_add.mp member with rfl | old
      · exact .inr ⟨read.plain, (read.bare empty.1 empty.2).elim id False.elim⟩
      · exact kept.2 k old
    · exact kept.2 k member
  unfold hydrateRow
  refine ⟨?_, ?_⟩
  · simp only
    split
    · rename_i marked
      rw [if_neg (read.named marked)]
      exact named_kept kept.1 read.sent
    · exact kept.1
  · simp only
    split
    · exact bare
    · rename_i armed intent
      intro k member
      rcases OrderedSet.mem_add.mp member with rfl | old
      · refine .inl ⟨rid, armed, rfl, fun is => ?_⟩
        rw [is] at intent
        exact (read.armed intent).elim id False.elim
      · exact bare k old

theorem hydrate_sets {rows : List (String × Row)} {sets : OrderedSet String × OrderedSet String}
    (kept : SetsKept known sets)
    (read : ∀ rid row, (rid, row) ∈ rows → RowKept known False False rid row) :
    SetsKept known (rows.foldl hydrateRow sets) := by
  induction rows generalizing sets with
  | nil => exact kept
  | cons marker rows ih =>
    exact ih (hydrate_row_sets kept (read _ _ List.mem_cons_self))
      (fun rid row member => read rid row (List.mem_cons_of_mem _ member))

theorem hydrate_core (core : Core known h) : Core known (hydratePublishedMarkers h) := by
  unfold hydratePublishedMarkers
  split
  · rename_i seen phase
    have read := core.seen
    rw [phase] at read
    have sets : SetsKept known (seen.entries.foldl hydrateRow (h.published, h.quarantined)) :=
      hydrate_sets ⟨core.published, core.quarantined⟩ read
    exact { core with published := sets.1, quarantined := sets.2, seen := trivial }
  · exact core

/-- The handlers that a crash cuts off are accounted for. -/
theorem restart_core (core : Core known h) (clean : ∀ g ∈ occupied h.flights,
      g.stage.withdrawn = true → g.status = .ok) :
    Core (known ++ accounts h .restart) (restart h) where
  published := fun k member => absurd member OrderedSet.not_mem_empty
  quarantined := fun k member => absurd member OrderedSet.not_mem_empty
  rows := by
    intro rid row found
    have cut {m : ℕ} {g : Flight} (at' : slotAt h.flights m = some g) (own : g.rid = rid)
        (ok : g.status = .ok) (stage : g.stage.holding = true ∨ g.stage.withdrawn = true) :
        rid ∈ known ++ accounts h .restart := by
      refine List.mem_append_right _ (List.mem_map.mpr
        ⟨g, List.mem_filter.mpr ⟨mem_occupied at', ?_⟩, own⟩)
      rw [Bool.and_eq_true, decide_eq_true_eq, Bool.or_eq_true]
      exact ⟨ok, stage⟩
    refine (core.rows rid row found).weaken (List.subset_append_left _ _) ?_ ?_
    · rintro ⟨m, g, at', own, ok, holding⟩
      exact .inl (cut at' own ok (.inl holding))
    · rintro ⟨m, g, at', own, withdrawn⟩
      exact .inl (cut at' own (clean g (mem_occupied at') withdrawn) (.inr withdrawn))
  seen := trivial
  flights := by
    intro m g at'
    exact absurd at' (by simp [restart])
  queue := core.queue

theorem not_pending_unlisted {ev : Event} {rid : String} (gone : NotPending h rid) :
    Unlisted h ev rid := by
  unfold NotPending at gone
  split at gone
  · rename_i todo pending now drop running
    unfold Unlisted
    split
    · rename_i fetching
      rw [running] at fetching
      exact absurd fetching (by simp)
    · rename_i running'
      rw [running] at running'
      simp only [Option.some.injEq, Sweep.replaying.injEq] at running'
      rw [← running'.2.1]
      exact gone
    · rename_i other _
      exact absurd running (other todo pending now drop)
  · exact gone.elim

theorem Accountable.unlisted {ev : Event} {after : Hub}
    (kept : Accountable known (NotPending h) h after) :
    Accountable known (Unlisted h ev) h after where
  core := kept.core
  sweep := kept.sweep
  keeps := by
    intro e member ok
    rcases kept.keeps e member ok with stays | old | gone
    · exact .inl stays
    · exact .inr (.inl old)
    · exact .inr (.inr (not_pending_unlisted gone))

/-- The step lemma. -/
theorem step_accountable {ev : Event} (core : Core known h) (sweep : SweepKept known h)
    (guarded : Separate cfg h ev) :
    Accountable (known ++ accounts h ev) (Unlisted h ev) h (step cfg h ev) := by
  have grows : known ⊆ known ++ accounts h ev := List.subset_append_left _ _
  have core' : Core (known ++ accounts h ev) h := core.grow grows
  have sweep' : SweepKept (known ++ accounts h ev) h := sweep.grow grows
  cases ev with
  | finalized ev now enqueued =>
    exact (live_accountable ev now enqueued core' sweep' guarded.1 guarded.2).unlisted
  | tick readable => exact (tick_accountable readable core' sweep').unlisted
  | pendingIds ids now disk => exact pending_accountable ids now disk core' sweep' guarded
  | statement n =>
    cases held : flightAt h n with
    | none =>
      simp only [step, held, Option.elim_none]
      exact ⟨core', sweep', keeps_queue rfl⟩
    | some f =>
      simp only [step, held, Option.elim_some]
      exact (statement_accountable core' sweep' held (guarded f held)).unlisted
  | reply n reserved disk =>
    cases held : flightAt h n with
    | none =>
      simp only [step, held, Option.elim_none]
      exact ⟨core', sweep', keeps_queue rfl⟩
    | some f =>
      simp only [step, held, Option.elim_some]
      exact (reply_accountable reserved disk core' sweep' held (guarded f held).1
        (guarded f held).2).unlisted
  | broadcast n error now disk =>
    cases held : flightAt h n with
    | none =>
      simp only [step, held, Option.elim_none]
      exact ⟨core', sweep', keeps_queue rfl⟩
    | some f =>
      simp only [step, held, Option.elim_some]
      refine (settle_accountable error now disk core' sweep' held ?_ (guarded f held)).unlisted
      intro sending ok answered
      refine List.mem_append_right _ ?_
      simp only [accounts, held]
      rw [if_pos ⟨sending, ok, answered⟩]
      exact List.mem_singleton_self f.rid
  | prune aged => exact ⟨prune_core core' aged, sweep', keeps_queue rfl⟩
  | hydrateRead =>
    simp only [step]
    split
    · exact ⟨hydrate_read_core core' guarded, sweep', keeps_queue rfl⟩
    · exact ⟨core', sweep', keeps_queue rfl⟩
  | hydrate =>
    refine ⟨hydrate_core core', ?_, ?_⟩
    · simp only [step, hydratePublishedMarkers]
      split <;> exact sweep'
    · refine keeps_queue ?_
      simp only [step, hydratePublishedMarkers]
      split <;> rfl
  | restart => exact ⟨restart_core core guarded, trivial, keeps_queue rfl⟩

end Steps

end Accounting

section Runs
variable {cfg : Params}

/- What must hold of the ok entries that a step takes off the queue. -/
def OnlyAccounted (cfg : Params) (start : Hub) (evs : List Event) (ev : Event) : Prop :=
  ∀ e ∈ (run (step cfg) start evs).queue, e.status = .ok →
    e ∉ (step cfg (run (step cfg) start evs) ev).queue →
      e.requestId ∈ accounted cfg start (evs ++ [ev]) ∨
        Unlisted (run (step cfg) start evs) ev e.requestId

instance (cfg : Params) (start : Hub) (evs : List Event) (ev : Event) :
    Decidable (OnlyAccounted cfg start evs ev) := by
  unfold OnlyAccounted
  infer_instance

/-- In a run whose steps keep responses of two statuses apart, an ok entry leaves the queue only
    when its request is unlisted, its response went out, or a crash or an ambiguous answer left
    its intent. -/
theorem ok_entry_accounted {evs : List Event} {ev : Event}
    (guarded : Admitted (step cfg) (Separate cfg) (Hub.start OrderedMap.empty []) (evs ++ [ev])) :
    OnlyAccounted cfg (Hub.start OrderedMap.empty []) evs ev := by
  have start : Core (accounted cfg (Hub.start OrderedMap.empty []) [])
      (Hub.start OrderedMap.empty []) := by
    refine ⟨?_, ?_, ?_, trivial, ?_, ?_⟩ <;> simp [Hub.start, RowsKept]
  obtain ⟨before, last⟩ := admitted_append.mp guarded
  have kept : Core (accounted cfg (Hub.start OrderedMap.empty []) evs)
        (run (step cfg) (Hub.start OrderedMap.empty []) evs) ∧
      SweepKept (accounted cfg (Hub.start OrderedMap.empty []) evs)
        (run (step cfg) (Hub.start OrderedMap.empty []) evs) := by
    -- the history is what the responses so far are accounted by
    have along := run_history
      (fun past h => h = run (step cfg) (Hub.start OrderedMap.empty []) past ∧
        Core (accounted cfg (Hub.start OrderedMap.empty []) past) h ∧
        SweepKept (accounted cfg (Hub.start OrderedMap.empty []) past) h)
      ?_ ⟨rfl, start, trivial⟩ before
    · exact along.2
    · rintro past h e ⟨rfl, core, sweep⟩ separate
      have next := step_accountable core sweep separate
      refine ⟨?_, ?_, ?_⟩
      · rw [run_append, run_singleton]
      · rw [accounted_snoc]
        exact next.core
      · rw [accounted_snoc]
        exact next.sweep
  have next := step_accountable kept.1 kept.2 last.1
  intro e member ok gone
  rw [accounted_snoc]
  rcases next.keeps e member ok with stays | known | unlisted
  · exact absurd stays gone
  · exact .inl known
  · exact .inr unlisted

end Runs

section Samples

/- An advisory row goes out while the ok response of its request is on the queue. -/
@[irreducible] def advisoryRun : List Event :=
  [.hydrateRead, .hydrate, .finalized (sampleEvent .providerError) 0 true,
    .finalized (sampleEvent .ok) 0 true] ++ invoked 0 ++
      [.broadcast 0 none 0 sampleDisk, .statement 0]

theorem advisory_success_drops_ok :
    ¬ OnlyAccounted sampleParams (Hub.start OrderedMap.empty []) advisoryRun
      (.reply 0 true sampleDisk) := by
  decide +kernel

/- The encoder refuses the ok response, the sweep retries it, and an ambiguous answer leaves it
   to the next process, which drops it. -/
@[irreducible] def retriedOkRun : List Event :=
  [.hydrateRead, .hydrate, .finalized (sampleEvent .ok) 0 true] ++ invoked 0 ++
    [.broadcast 0 (some ({ neverSent := true }, false)) 1 sampleDisk, .statement 0,
      .reply 0 true sampleDisk, .statement 0, .reply 0 true sampleDisk,
      .tick true, .pendingIds (some ["77"]) 60000 sampleDisk] ++ invoked 1 ++
    [.broadcast 1 (some ({}, false)) 60001 sampleDisk, .restart, .hydrateRead, .hydrate, .tick true]

theorem retried_ok_separate :
    Admitted (step sampleParams) (Separate sampleParams) (Hub.start OrderedMap.empty [])
      (retriedOkRun ++ [.pendingIds (some ["77"]) 2000000 sampleDisk]) := by
  decide +kernel

theorem retried_ok_accounted :
    OnlyAccounted sampleParams (Hub.start OrderedMap.empty []) retriedOkRun
      (.pendingIds (some ["77"]) 2000000 sampleDisk) :=
  ok_entry_accounted retried_ok_separate

end Samples

end XChainHub.Attestation.Publisher
