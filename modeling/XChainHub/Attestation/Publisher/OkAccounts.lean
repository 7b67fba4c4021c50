import XChainHub.Attestation.Publisher.AtMostOnce
import XChainHub.Library.DelimitedText

/-!
When an ok response leaves the queue. The entries, the markers and the quarantine are
keyed by a request and a status, the removal by the request alone: an ok entry goes only
with its own outcome as long as no entry of another status is settled over it and no marker
is read that a handler of this process still stands behind.
-/
namespace XChainHub.Attestation.Publisher
open PaidLog GuardedRuns SlotHeap IdempotentBroadcast

section Accounts

/- The intent is on the row, and this handler answers for it. -/
def Stage.holding : Stage → Bool
  | .armed | .sending | .disarming => true
  | _ => false

/- The intent is withdrawn, and its row not yet deleted. -/
def Stage.withdrawn : Stage → Bool
  | .disarmed | .deleting => true
  | _ => false

/- The requests whose ok response a step accounts for: it was broadcast, its answer was
   ambiguous, or the process crashed that had armed its intent. -/
def accounts (h : Hub) : Event → List String
  | .broadcast n error _ _ =>
    match flightAt h n with
    | some f =>
      if f.stage = .sending ∧ f.status = .ok ∧
          error.all (fun e => isAmbiguousSendError e.1 || e.2) then [f.rid] else []
    | none => []
  | .restart =>
    ((occupied h.flights).filter (fun f =>
      f.status = .ok && (f.stage.holding || f.stage.withdrawn))).map Flight.rid
  | _ => []

def accounted (cfg : Params) : Hub → List Event → List String
  | _, [] => []
  | h, ev :: evs => accounts h ev ++ accounted cfg (step cfg h ev) evs

/- The indexer's answer that a step goes by does not list the request. -/
def Unlisted (h : Hub) (ev : Event) (rid : String) : Prop :=
  match ev, h.sweep with
  | .pendingIds (some ids) _ _, some (.fetching _) => rid ∉ ids
  | _, some (.replaying _ pending _ _) => rid ∉ pending
  | _, _ => False

instance (h : Hub) (ev : Event) (rid : String) : Decidable (Unlisted h ev rid) := by
  unfold Unlisted
  split <;> infer_instance

theorem accounted_snoc (cfg : Params) (h : Hub) (evs : List Event) (ev : Event) :
    accounted cfg h (evs ++ [ev]) = accounted cfg h evs ++ accounts (run (step cfg) h evs) ev := by
  induction evs generalizing h with
  | nil => simp [accounted, run]
  | cons first evs ih =>
    rw [List.cons_append, accounted, ih, accounted, List.append_assoc]
    rfl

end Accounts

section Conditions
variable (cfg : Params) (h : Hub)

def okQueued (rid : String) : Bool := h.queue.any (fun e => e.requestId = rid && e.status = .ok)

/- The sweep would drop the entry as sent, aged or quarantined. -/
def sweptAway (pending : List String) (now : ℤ) (e : Entry) : Bool :=
  replayTurn cfg h e pending now = .drop false || isQuarantined h e.requestId e.status

/- No entry of another status is dropped over a queued ok entry of its request. -/
def Clear (pending : List String) (now : ℤ) (entries : List Entry) : Prop :=
  ∀ e ∈ entries, e.status ≠ .ok → sweptAway cfg h pending now e = true →
    okQueued h e.requestId = false

def ClearAhead : Prop :=
  match h.sweep with
  | some (.replaying todo pending now _) => Clear cfg h pending now todo
  | _ => True

def dropped : List String :=
  match h.sweep with
  | some (.replaying _ _ _ drop) => drop.items
  | _ => []

/- The reply has the handler's request dropped or removed. -/
def settles (f : Flight) : Bool :=
  match f.stage with
  | .gate row => !f.live && markerVerdict row f.rid f.status ≠ .send
  | .marked => true
  | _ => false

/- Nobody stands behind the row of the request: an ok response asks about ok intents too. -/
def RowFree (rid : String) (st : Status) : Prop :=
  ∀ g ∈ occupied h.flights, g.rid = rid →
    g.stage.withdrawn = false ∧ (st = .ok → g.status = .ok → g.stage.holding = false)

def Separate : Event → Prop
  | .finalized ev _ _ =>
    '|' ∉ ev.requestId.toList ∧ (ev.status = .ok → ev.requestId ∉ dropped h)
  | .pendingIds (some ids) now _ =>
    match h.sweep with
    | some (.fetching entries) => Clear cfg h ids now entries
    | _ => True
  | .statement n => ∀ f ∈ flightAt h n, f.stage = .reading → RowFree h f.rid f.status
  | .reply n _ _ => ∀ f ∈ flightAt h n,
    (f.status ≠ .ok → settles f = true → okQueued h f.rid = false) ∧
      (f.live = false → ClearAhead cfg h)
  | .broadcast n _ _ _ => ∀ f ∈ flightAt h n, f.live = false → ClearAhead cfg h
  | .hydrateRead => ∀ g ∈ occupied h.flights,
    g.stage.withdrawn = false ∧ (g.status = .ok → g.stage.holding = false)
  | .restart => ∀ g ∈ occupied h.flights, g.stage.withdrawn = true → g.status = .ok
  | _ => True

instance (pending : List String) (now : ℤ) (entries : List Entry) :
    Decidable (Clear cfg h pending now entries) := by
  unfold Clear
  infer_instance

instance : Decidable (ClearAhead cfg h) := by
  unfold ClearAhead
  split <;> infer_instance

instance (rid : String) (st : Status) : Decidable (RowFree h rid st) := by
  unfold RowFree
  infer_instance

instance (ev : Event) : Decidable (Separate cfg h ev) := by
  unfold Separate
  split
  · infer_instance
  · split <;> infer_instance
  all_goals infer_instance

end Conditions

section Keys
variable {rid other : String} {st was : Status}

theorem status_plain (st : Status) : '|' ∉ st.text.toList := by
  cases st <;> decide

theorem publication_key_chars (rid : String) (st : Status) :
    (publicationKey rid st).toList = rid.toList ++ '|' :: st.text.toList := by
  simp [publicationKey]

/-- A key falls apart at its last bar. -/
theorem publication_key_inj (same : publicationKey rid st = publicationKey other was) :
    rid = other ∧ st = was := by
  have chars := congrArg String.toList same
  rw [publication_key_chars, publication_key_chars] at chars
  have turned := congrArg List.reverse chars
  simp only [List.reverse_append, List.reverse_cons, List.append_assoc,
    List.singleton_append] at turned
  obtain ⟨statuses, rids⟩ := DelimitedText.plain_field_inj
    (by rw [List.mem_reverse]; exact status_plain st)
    (by rw [List.mem_reverse]; exact status_plain was) turned
  have ids : rid = other := String.toList_inj.mp (List.reverse_injective rids)
  have texts : st.text = was.text := String.toList_inj.mp (List.reverse_injective statuses)
  refine ⟨ids, ?_⟩
  cases st <;> cases was <;> first | rfl | exact absurd texts (by decide)

theorem key_not_plain (rid : String) (st : Status) : '|' ∈ (publicationKey rid st).toList := by
  rw [publication_key_chars]
  exact List.mem_append_right _ List.mem_cons_self

end Keys

section Invariant

/- What a row says of its request's ok response, given who stands behind its intent and who has
   withdrawn one. -/
structure RowKept (known : List String) (held withdrawn : Prop) (rid : String) (row : Row) :
    Prop where
  plain : '|' ∉ rid.toList
  named : row.sentAt = true → row.statuses ≠ []
  sent : .ok ∈ row.statuses → rid ∈ known
  armed : row.intent = some .ok → rid ∈ known ∨ held
  bare : row.sentAt = false → row.intent = none → rid ∈ known ∨ withdrawn

def Held (flights : List (Option Flight)) (rid : String) : Prop :=
  ∃ n f, slotAt flights n = some f ∧ f.rid = rid ∧ f.status = .ok ∧ f.stage.holding = true

def Withdrawn (flights : List (Option Flight)) (rid : String) : Prop :=
  ∃ n f, slotAt flights n = some f ∧ f.rid = rid ∧ f.stage.withdrawn = true

structure FlightKept (known : List String) (f : Flight) : Prop where
  plain : '|' ∉ f.rid.toList
  paid : f.status = .ok → f.stage = .marking ∨ f.stage = .marked → f.rid ∈ known
  read : ∀ row, f.stage = .gate (some row) → RowKept known (f.status ≠ .ok) False f.rid row

def RowsKept (known : List String) (table : Table) (flights : List (Option Flight)) : Prop :=
  ∀ rid row, table.get rid = some row →
    RowKept known (Held flights rid) (Withdrawn flights rid) rid row

def SeenKept (known : List String) : Hydration → Prop
  | .rows seen => ∀ rid row, (rid, row) ∈ seen.entries → RowKept known False False rid row
  | _ => True

/- What is known of the ok responses agrees with everything the hub reads. -/
structure Core (known : List String) (h : Hub) : Prop where
  published : ∀ k ∈ h.published, ∃ rid st, k = publicationKey rid st ∧ (st = .ok → rid ∈ known)
  quarantined : ∀ k ∈ h.quarantined,
    (∃ rid st, k = publicationKey rid st ∧ (st = .ok → rid ∈ known)) ∨ '|' ∉ k.toList ∧ k ∈ known
  rows : RowsKept known h.table h.flights
  seen : SeenKept known h.hydration
  flights : ∀ n f, slotAt h.flights n = some f → FlightKept known f
  queue : ∀ e ∈ h.queue, '|' ∉ e.requestId.toList

/- An ok entry of a request the sweep has dropped is accounted for, or not listed. -/
def DropKept (known : List String) (h : Hub) (pending drop : List String) : Prop :=
  ∀ rid ∈ drop, okQueued h rid = true → rid ∈ known ∨ rid ∉ pending

def SweepKept (known : List String) (h : Hub) : Prop :=
  match h.sweep with
  | none => True
  | some (.fetching entries) => ∀ e ∈ entries, '|' ∉ e.requestId.toList
  | some (.replaying todo pending _ drop) =>
    (∀ e ∈ todo, '|' ∉ e.requestId.toList) ∧ DropKept known h pending drop.items

variable {known more : List String} {h : Hub} {flights : List (Option Flight)} {table : Table}
  {n : ℕ} {f : Flight} {x : Option Flight}

theorem RowKept.weaken {held held' withdrawn withdrawn' : Prop} {rid : String} {row : Row}
    (kept : RowKept known held withdrawn rid row) (grows : known ⊆ more)
    (behind : held → rid ∈ more ∨ held') (gone : withdrawn → rid ∈ more ∨ withdrawn') :
    RowKept more held' withdrawn' rid row where
  plain := kept.plain
  named := kept.named
  sent := fun member => grows (kept.sent member)
  armed := fun intent => (kept.armed intent).elim (fun old => .inl (grows old)) behind
  bare := fun unsent none' => (kept.bare unsent none').elim (fun old => .inl (grows old)) gone

theorem FlightKept.grow (kept : FlightKept known f) (grows : known ⊆ more) : FlightKept more f where
  plain := kept.plain
  paid := fun ok stage => grows (kept.paid ok stage)
  read := fun row stage => (kept.read row stage).weaken grows .inr .inr

theorem Core.grow (core : Core known h) (grows : known ⊆ more) : Core more h where
  published := by
    intro k member
    obtain ⟨rid, st, same, ok⟩ := core.published k member
    exact ⟨rid, st, same, fun is => grows (ok is)⟩
  quarantined := by
    intro k member
    rcases core.quarantined k member with ⟨rid, st, same, ok⟩ | ⟨plain, old⟩
    · exact .inl ⟨rid, st, same, fun is => grows (ok is)⟩
    · exact .inr ⟨plain, grows old⟩
  rows := fun rid row found => (core.rows rid row found).weaken grows .inr .inr
  seen := by
    have seen := core.seen
    unfold SeenKept at seen ⊢
    split at seen
    · exact fun rid row member => (seen rid row member).weaken grows .inr .inr
    · trivial
  flights := fun n f held => (core.flights n f held).grow grows
  queue := core.queue

theorem SweepKept.grow (kept : SweepKept known h) (grows : known ⊆ more) : SweepKept more h := by
  unfold SweepKept at kept ⊢
  split
  · trivial
  · rename_i entries sweep
    rw [sweep] at kept
    exact kept
  · rename_i todo pending now drop sweep
    rw [sweep] at kept
    refine ⟨kept.1, ?_⟩
    intro rid member queued
    exact (kept.2 rid member queued).imp_left fun old => grows old

/-- An ok response that the process holds for published is accounted for. -/
theorem Core.published_known (core : Core known h) {rid : String} (plain : '|' ∉ rid.toList)
    (published : isPublishedInProcess h rid .ok = true) : rid ∈ known := by
  unfold isPublishedInProcess at published
  rw [Bool.or_eq_true, decide_eq_true_eq, decide_eq_true_eq] at published
  rcases published with bare | keyed
  · obtain ⟨other, st, same, -⟩ := core.published _ bare
    rw [same] at plain
    exact absurd (key_not_plain other st) plain
  · obtain ⟨other, st, same, ok⟩ := core.published _ keyed
    obtain ⟨rfl, rfl⟩ := publication_key_inj same
    exact ok rfl

theorem Core.quarantined_known (core : Core known h) {rid : String} (plain : '|' ∉ rid.toList)
    (held : isQuarantined h rid .ok = true) : rid ∈ known := by
  unfold isQuarantined at held
  rw [Bool.or_eq_true, decide_eq_true_eq, decide_eq_true_eq] at held
  rcases held with bare | keyed
  · rcases core.quarantined _ bare with ⟨other, st, same, -⟩ | ⟨-, member⟩
    · rw [same] at plain
      exact absurd (key_not_plain other st) plain
    · exact member
  · rcases core.quarantined _ keyed with ⟨other, st, same, ok⟩ | ⟨bar, -⟩
    · obtain ⟨rfl, rfl⟩ := publication_key_inj same
      exact ok rfl
    · exact absurd (key_not_plain rid .ok) bar

section Moves

theorem held_set {rid : String} (slot : slotAt flights n = some f)
    (behind : rid = f.rid → f.status = .ok → f.stage.holding = true →
      rid ∈ known ∨ ∃ g, x = some g ∧ g.rid = f.rid ∧ g.status = .ok ∧ g.stage.holding = true)
    (held : Held flights rid) : rid ∈ known ∨ Held (flights.set n x) rid := by
  obtain ⟨m, g, at', own, ok, holding⟩ := held
  by_cases here : m = n
  · subst here
    rw [slot, Option.some.injEq] at at'
    subst at'
    rcases behind own.symm ok holding with old | ⟨g', new, own', ok', holding'⟩
    · exact .inl old
    · exact .inr ⟨m, g', by rw [slot_set_same slot, new], own'.trans own, ok', holding'⟩
  · exact .inr ⟨m, g, by rw [slot_set_other here]; exact at', own, ok, holding⟩

theorem withdrawn_set {rid : String} (slot : slotAt flights n = some f)
    (gone : rid = f.rid → f.stage.withdrawn = true →
      ∃ g, x = some g ∧ g.rid = f.rid ∧ g.stage.withdrawn = true)
    (withdrawn : Withdrawn flights rid) : Withdrawn (flights.set n x) rid := by
  obtain ⟨m, g, at', own, stage⟩ := withdrawn
  by_cases here : m = n
  · subst here
    rw [slot, Option.some.injEq] at at'
    subst at'
    obtain ⟨g', new, own', stage'⟩ := gone own.symm stage
    exact ⟨m, g', by rw [slot_set_same slot, new], own'.trans own, stage'⟩
  · exact ⟨m, g, by rw [slot_set_other here]; exact at', own, stage⟩

/-- A statement of a handler touches the row of its own request only. -/
theorem rows_update {after : Table} (kept : RowsKept known table flights)
    (slot : slotAt flights n = some f) (others : ∀ rid, rid ≠ f.rid → after.get rid = table.get rid)
    (own : ∀ row, after.get f.rid = some row →
      RowKept known (Held (flights.set n x) f.rid) (Withdrawn (flights.set n x) f.rid) f.rid row) :
    RowsKept known after (flights.set n x) := by
  intro rid row found
  by_cases same : rid = f.rid
  · subst same
    exact own row found
  · rw [others rid same] at found
    refine (kept rid row found).weaken (List.Subset.refl _) ?_ ?_
    · exact held_set slot (fun own' => absurd own' same)
    · exact fun withdrawn => .inr (withdrawn_set slot (fun own' => absurd own' same) withdrawn)

theorem Core.put (core : Core known h) (slot : slotAt h.flights n = some f)
    (flight : ∀ g ∈ x, FlightKept known g)
    (behind : f.status = .ok → f.stage.holding = true →
      f.rid ∈ known ∨ ∃ g, x = some g ∧ g.rid = f.rid ∧ g.status = .ok ∧ g.stage.holding = true)
    (gone : f.stage.withdrawn = true →
      ∃ g, x = some g ∧ g.rid = f.rid ∧ g.stage.withdrawn = true) : Core known (h.put n x) where
  published := core.published
  quarantined := core.quarantined
  rows := by
    refine rows_update core.rows slot (fun _ _ => rfl) ?_
    intro row found
    refine (core.rows f.rid row found).weaken (List.Subset.refl _) ?_ ?_
    · exact held_set slot (fun _ => behind)
    · exact fun withdrawn => .inr (withdrawn_set slot (fun _ => gone) withdrawn)
  seen := core.seen
  flights := by
    intro m g at'
    rcases slot_set_cases slot at' with ⟨-, new⟩ | ⟨-, old⟩
    · exact flight g new
    · exact core.flights m g old
  queue := core.queue

/-- A statement on the handler's row, with the handler moved on. -/
theorem Core.retable {after : Table} (core : Core known h) (slot : slotAt h.flights n = some f)
    (flight : ∀ g ∈ x, FlightKept known g)
    (others : ∀ rid, rid ≠ f.rid → after.get rid = h.table.get rid)
    (own : ∀ row, after.get f.rid = some row →
      RowKept known (Held (h.flights.set n x) f.rid)
        (Withdrawn (h.flights.set n x) f.rid) f.rid row) :
    Core known ({ h with table := after }.put n x) where
  published := core.published
  quarantined := core.quarantined
  rows := rows_update core.rows slot others own
  seen := core.seen
  flights := by
    intro m g at'
    rcases slot_set_cases slot at' with ⟨-, new⟩ | ⟨-, old⟩
    · exact flight g new
    · exact core.flights m g old
  queue := core.queue

theorem Core.push (core : Core known h) (flight : FlightKept known f) : Core known (h.push f) where
  published := core.published
  quarantined := core.quarantined
  rows := by
    intro rid row found
    refine (core.rows rid row found).weaken (List.Subset.refl _) ?_ ?_
    · rintro ⟨m, g, at', rest⟩
      exact .inr ⟨m, g, slot_push_old at', rest⟩
    · rintro ⟨m, g, at', rest⟩
      exact .inr ⟨m, g, slot_push_old at', rest⟩
  seen := core.seen
  flights := by
    intro m g at'
    rcases slot_push_cases at' with old | rfl
    · exact core.flights m g old
    · exact flight
  queue := core.queue

/-- Nothing is known of the state beyond what the fields of the invariant read. -/
theorem Core.same {after : Hub} (core : Core known h) (published : after.published = h.published)
    (quarantined : after.quarantined = h.quarantined) (table : after.table = h.table)
    (hydration : after.hydration = h.hydration) (flights : after.flights = h.flights)
    (queue : ∀ e ∈ after.queue, '|' ∉ e.requestId.toList) : Core known after where
  published := by
    rw [published]
    exact core.published
  quarantined := by
    rw [quarantined]
    exact core.quarantined
  rows := by
    rw [table, flights]
    exact core.rows
  seen := by
    rw [hydration]
    exact core.seen
  flights := by
    rw [flights]
    exact core.flights
  queue := queue

theorem Core.publish (core : Core known h) {rid : String} {st : Status}
    (paid : st = .ok → rid ∈ known) :
    Core known { h with published := h.published.add (publicationKey rid st) } :=
  { core with
    published := by
      intro k member
      rcases OrderedSet.mem_add.mp member with rfl | old
      · exact ⟨rid, st, rfl, paid⟩
      · exact core.published k old }

theorem Core.quarantine (core : Core known h) {key : String}
    (reason : (∃ rid st, key = publicationKey rid st ∧ (st = .ok → rid ∈ known)) ∨
      '|' ∉ key.toList ∧ key ∈ known) :
    Core known { h with quarantined := h.quarantined.add key } :=
  { core with
    quarantined := by
      intro k member
      rcases OrderedSet.mem_add.mp member with rfl | old
      · exact reason
      · exact core.quarantined k old }

end Moves

section Queue

/- The ok entries that are gone are accounted for, or not listed. -/
def Keeps (known : List String) (unlisted : String → Prop) (h after : Hub) : Prop :=
  ∀ e ∈ h.queue, e.status = .ok →
    e ∈ after.queue ∨ e.requestId ∈ known ∨ unlisted e.requestId

theorem keeps_queue {unlisted : String → Prop} {after : Hub} (same : after.queue = h.queue) :
    Keeps known unlisted h after := by
  intro e member _
  rw [same]
  exact .inl member

theorem ok_queued_iff {rid : String} :
    okQueued h rid = true ↔ ∃ e ∈ h.queue, e.requestId = rid ∧ e.status = .ok := by
  simp [okQueued]

theorem remove_mem {drop : OrderedSet String} {disk : Disk} {e : Entry} (member : e ∈ h.queue) :
    e ∈ (removeFromQueue h drop disk).queue ∨ e.requestId ∈ drop := by
  unfold removeFromQueue
  split
  · exact .inl member
  · split
    · by_cases named : e.requestId ∈ drop
      · exact .inr named
      · exact .inl (List.mem_filter.mpr ⟨member, decide_eq_true named⟩)
    · exact .inl member

theorem remove_subset {drop : OrderedSet String} {disk : Disk} {e : Entry}
    (member : e ∈ (removeFromQueue h drop disk).queue) : e ∈ h.queue := by
  unfold removeFromQueue at member
  split at member
  · exact member
  · split at member
    · exact (List.mem_filter.mp member).1
    · exact member

theorem remove_flights (drop : OrderedSet String) (disk : Disk) :
    (removeFromQueue h drop disk).flights = h.flights := by
  unfold removeFromQueue
  split
  · rfl
  · split <;> rfl

theorem remove_sweep (drop : OrderedSet String) (disk : Disk) :
    (removeFromQueue h drop disk).sweep = h.sweep := by
  unfold removeFromQueue
  split
  · rfl
  · split <;> rfl

theorem remove_core (core : Core known h) (drop : OrderedSet String) (disk : Disk) :
    Core known (removeFromQueue h drop disk) := by
  have queue : ∀ e ∈ (removeFromQueue h drop disk).queue, '|' ∉ e.requestId.toList :=
    fun e member => core.queue e (remove_subset member)
  unfold removeFromQueue at queue ⊢
  split
  · exact core
  · rename_i some_dropped
    rw [if_neg some_dropped] at queue
    split
    · rename_i writable
      rw [if_pos writable] at queue
      exact { core with
        published := fun k member => absurd member OrderedSet.not_mem_empty
        queue := queue }
    · exact core

theorem remove_sweep_kept (kept : SweepKept known h) (drop : OrderedSet String) (disk : Disk) :
    SweepKept known (removeFromQueue h drop disk) := by
  unfold SweepKept at kept ⊢
  rw [remove_sweep]
  split
  · trivial
  · rename_i entries sweep
    rw [sweep] at kept
    exact kept
  · rename_i todo pending now dropping sweep
    rw [sweep] at kept
    refine ⟨kept.1, ?_⟩
    intro rid member queued
    obtain ⟨e, inside, own, ok⟩ := ok_queued_iff.mp queued
    exact kept.2 rid member (ok_queued_iff.mpr ⟨e, remove_subset inside, own, ok⟩)

end Queue

section Tables
variable {rid other : String} {st : Status} {row : Row}

theorem arm_elsewhere (apart : other ≠ rid) :
    (setAttestPublishedRequest table rid st).get other = table.get other := by
  unfold setAttestPublishedRequest
  split <;> exact OrderedMap.get_set_other apart

theorem mark_elsewhere (apart : other ≠ rid) :
    (updateAttestPublishedRequestByRequestId table rid st).get other = table.get other := by
  unfold updateAttestPublishedRequestByRequestId
  split
  · rfl
  · exact OrderedMap.get_set_other apart

theorem disarm_elsewhere (apart : other ≠ rid) :
    (updateAttestPublishedRequestByRequestIdAndIntentStatus table rid st).get other =
      table.get other := by
  unfold updateAttestPublishedRequestByRequestIdAndIntentStatus
  split
  · rfl
  · split
    · exact OrderedMap.get_set_other apart
    · rfl

theorem delete_elsewhere (apart : other ≠ rid) :
    (deleteAttestPublishedRequest table rid).get other = table.get other := by
  unfold deleteAttestPublishedRequest
  split
  · exact OrderedMap.get_erase_other apart
  · rfl

theorem prune_old {aged : List String}
    (found : (deleteSettledAttestPublishedRequests table aged).get rid = some row) :
    table.get rid = some row := by
  unfold deleteSettledAttestPublishedRequests at found
  induction aged generalizing table with
  | nil => exact found
  | cons r aged ih =>
    rw [List.foldl_cons] at found
    have before := ih found
    split at before
    · by_cases same : rid = r
      · rw [same, OrderedMap.get_erase_same] at before
        exact absurd before (by simp)
      · rw [OrderedMap.get_erase_other same] at before
        exact before
    · exact before

variable {held withdrawn held' withdrawn' : Prop}

/-- The armed intent has this handler behind it. -/
theorem arm_kept (kept : ∀ row, table.get rid = some row → RowKept known held withdrawn rid row)
    (plain : '|' ∉ rid.toList) (behind : st = .ok → held')
    (found : (setAttestPublishedRequest table rid st).get rid = some row) :
    RowKept known held' withdrawn' rid row := by
  unfold setAttestPublishedRequest at found
  split at found
  · rw [OrderedMap.get_set_same, Option.some.injEq] at found
    subst found
    exact ⟨plain, by simp, by simp, by simpa using fun ok => .inr (behind ok), by simp⟩
  · rename_i old at'
    rw [OrderedMap.get_set_same, Option.some.injEq] at found
    subst found
    have before := kept old at'
    exact ⟨plain, before.named, before.sent, by simpa using fun ok => .inr (behind ok), by simp⟩

theorem mark_kept (kept : ∀ row, table.get rid = some row → RowKept known held withdrawn rid row)
    (paid : st = .ok → rid ∈ known)
    (found : (updateAttestPublishedRequestByRequestId table rid st).get rid = some row) :
    RowKept known held' withdrawn' rid row := by
  unfold updateAttestPublishedRequestByRequestId at found
  split at found
  · rename_i absent
    rw [absent] at found
    exact absurd found (by simp)
  · rename_i old at'
    rw [OrderedMap.get_set_same, Option.some.injEq] at found
    subst found
    have before := kept old at'
    refine ⟨before.plain, ?_, ?_, by simp, by simp⟩
    · intro _ empty
      have member : st ∈ appendStatus old.statuses st := mem_append_status.mpr (.inr rfl)
      rw [show appendStatus old.statuses st = [] from empty] at member
      exact absurd member (by simp)
    · intro named
      rcases mem_append_status.mp named with before' | own
      · exact before.sent before'
      · exact paid own.symm

/-- Withdrawing the intent takes the handler from behind it. -/
theorem disarm_kept (kept : ∀ row, table.get rid = some row → RowKept known held withdrawn rid row)
    (others : st ≠ .ok → held → rid ∈ known ∨ held') (gone : withdrawn')
    (found : (updateAttestPublishedRequestByRequestIdAndIntentStatus table rid st).get rid =
      some row) : RowKept known held' withdrawn' rid row := by
  unfold updateAttestPublishedRequestByRequestIdAndIntentStatus at found
  split at found
  · rename_i absent
    rw [absent] at found
    exact absurd found (by simp)
  · rename_i old at'
    have before := kept old at'
    split at found
    · rw [OrderedMap.get_set_same, Option.some.injEq] at found
      subst found
      exact ⟨before.plain, before.named, before.sent, by simp, fun _ _ => .inr gone⟩
    · rename_i another
      rw [at', Option.some.injEq] at found
      subst found
      refine ⟨before.plain, before.named, before.sent, ?_, fun _ _ => .inr gone⟩
      intro intent
      refine (before.armed intent).elim .inl (others ?_)
      rintro rfl
      exact another intent

theorem delete_kept (kept : ∀ row, table.get rid = some row → RowKept known held withdrawn rid row)
    (others : held → rid ∈ known ∨ held')
    (found : (deleteAttestPublishedRequest table rid).get rid = some row) :
    RowKept known held' withdrawn' rid row := by
  unfold deleteAttestPublishedRequest at found
  split at found
  · rw [OrderedMap.get_erase_same] at found
    exact absurd found (by simp)
  · rename_i marked
    have before := kept row found
    rw [found, Option.any_some, Bool.not_eq_true, Bool.not_eq_false'] at marked
    refine ⟨before.plain, before.named, before.sent,
      fun intent => (before.armed intent).elim .inl others, ?_⟩
    intro unsent
    rw [marked] at unsent
    exact absurd unsent (by simp)

end Tables

end Invariant
end XChainHub.Attestation.Publisher
