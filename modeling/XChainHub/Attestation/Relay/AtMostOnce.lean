import XChainHub.Attestation.Relay.Broadcast

/-!
When a relay leg is paid for at most once. A paid leg is in the published set and
decided on disk until an eviction forgets it; a leg under way is in neither, so what
happens beside it, and to its line on disk, decides whether it is paid for again.
-/
namespace XChainHub.Attestation.Relay
open PaidLog GuardedRuns IdempotentBroadcast

section Folds
variable {cfg : Params}

def decideRecord (prior : Option Record) (rec : Record) : Option Record :=
  match rec.phase, prior.map Record.phase with
  | .sent, _ => some rec
  | .failed, some .sent => prior
  | .failed, _ => some rec
  | .intent, none => some rec
  | .intent, some _ => prior

theorem decide_cases (prior : Option Record) (rec : Record) :
    decideRecord prior rec = prior ∨ decideRecord prior rec = some rec := by
  unfold decideRecord
  split <;> simp

theorem decide_some (prior : Option Record) (rec : Record) :
    (decideRecord prior rec).isSome = true := by
  unfold decideRecord
  cases prior with
  | none => cases rec.phase <;> rfl
  | some old => cases rec.phase <;> cases phase : old.phase <;> simp [phase]

theorem fold_record_get {keep : OrderedMap Key Record} {rec : Record} {k : Key}
    (named : k.2 ≠ "") :
    (foldRecord cfg keep rec).get k =
      if rec.key cfg = k then decideRecord (keep.get k) rec else keep.get k := by
  unfold foldRecord
  by_cases same : rec.key cfg = k
  · rw [same, if_neg named, if_pos rfl]
    unfold decideRecord
    cases found : keep.get k with
    | none => cases rec.phase <;> simp
    | some old => cases rec.phase <;> cases phase : old.phase <;> simp [found, phase]
  · rw [if_neg same]
    split
    · rfl
    · have other : k ≠ rec.key cfg := fun back => same back.symm
      split <;> first | rfl | exact OrderedMap.get_set_other other

/-- A key is decided by its own records alone. -/
theorem fold_get {k : Key} (named : k.2 ≠ "") (wal : List Record) (keep : OrderedMap Key Record) :
    (wal.foldl (foldRecord cfg) keep).get k =
      (wal.filter (fun rec => rec.key cfg = k)).foldl decideRecord (keep.get k) := by
  induction wal generalizing keep with
  | nil => rfl
  | cons rec wal ih =>
    rw [List.foldl_cons, ih, fold_record_get named]
    by_cases same : rec.key cfg = k
    · simp [same]
    · simp [same]

theorem fold_wal_get {k : Key} (named : k.2 ≠ "") (wal : List Record) :
    (foldWalRecords cfg wal).get k =
      (wal.filter (fun rec => rec.key cfg = k)).foldl decideRecord none := by
  rw [foldWalRecords, fold_get named, OrderedMap.get_empty]

theorem fold_record_keys {keep : OrderedMap Key Record}
    (own : ∀ e ∈ keep.entries, e.1 = e.2.key cfg ∧ e.1.2 ≠ "") (rec : Record) :
    ∀ e ∈ (foldRecord cfg keep rec).entries, e.1 = e.2.key cfg ∧ e.1.2 ≠ "" := by
  unfold foldRecord
  split
  · exact own
  · rename_i named
    have written : ∀ e ∈ (keep.set (rec.key cfg) rec).entries, e.1 = e.2.key cfg ∧ e.1.2 ≠ "" := by
      intro e member
      rcases OrderedMap.mem_set member with ⟨key, value⟩ | ⟨-, old⟩
      · rw [key, value]
        exact ⟨rfl, named⟩
      · exact own e old
    split <;> first | exact own | exact written

/-- The fold keys a record by its own leg and request id. -/
theorem fold_wal_keys (wal : List Record) :
    ∀ e ∈ (foldWalRecords cfg wal).entries, e.1 = e.2.key cfg ∧ e.1.2 ≠ "" := by
  unfold foldWalRecords
  have grow : ∀ keep : OrderedMap Key Record,
      (∀ e ∈ keep.entries, e.1 = e.2.key cfg ∧ e.1.2 ≠ "") →
      ∀ e ∈ (wal.foldl (foldRecord cfg) keep).entries, e.1 = e.2.key cfg ∧ e.1.2 ≠ "" := by
    induction wal with
    | nil => exact fun keep own => own
    | cons rec wal ih => exact fun keep own => ih _ (fold_record_keys own rec)
  exact grow _ (by simp [OrderedMap.empty])

theorem decided_named {wal : List Record} {k : Key} (decided : Decided cfg wal k) : k.2 ≠ "" := by
  obtain ⟨rec, found, -⟩ := decided
  exact (fold_wal_keys wal _ (OrderedMap.mem_of_get found)).2

theorem decided_lowered {wal : List Record} {k : Key} (decided : Decided cfg wal k) :
    cfg.toLowerCase k.2 = k.2 := by
  obtain ⟨rec, found, -⟩ := decided
  have own := (fold_wal_keys wal _ (OrderedMap.mem_of_get found)).1
  rw [show k = rec.key cfg from own]
  exact cfg.lower_idem rec.rid

/-- Appending a record leaves the other keys as they were. -/
theorem decided_append_other {wal : List Record} {rec : Record} {k : Key}
    (other : rec.key cfg ≠ k) (decided : Decided cfg wal k) : Decided cfg (wal ++ [rec]) k := by
  have named := decided_named decided
  obtain ⟨kept, found, marked⟩ := decided
  refine ⟨kept, ?_, marked⟩
  rw [fold_wal_get named] at found ⊢
  rw [List.filter_append, List.filter_cons_of_neg (by simpa using other), List.filter_nil,
    List.append_nil]
  exact found

theorem decided_append_sent {wal : List Record} {rec : Record} (sent : rec.phase = .sent)
    (named : (rec.key cfg).2 ≠ "") : Decided cfg (wal ++ [rec]) (rec.key cfg) := by
  refine ⟨rec, ?_, by simp [marks, sent]⟩
  rw [fold_wal_get named, List.filter_append, List.foldl_append,
    List.filter_cons_of_pos (by simp), List.filter_nil, List.foldl_cons, List.foldl_nil]
  unfold decideRecord
  simp only [sent]

/-- Records that all mark their key decide it. -/
theorem decided_of_marks {wal : List Record} {k : Key} (named : k.2 ≠ "")
    (some' : ∃ rec ∈ wal, rec.key cfg = k)
    (all : ∀ rec ∈ wal, rec.key cfg = k → marks rec = true) : Decided cfg wal k := by
  have marked : ∀ (recs : List Record) (prior : Option Record),
      (∀ rec ∈ recs, marks rec = true) → (∀ rec ∈ prior, marks rec = true) →
      (recs ≠ [] ∨ prior.isSome) →
      ∃ rec, recs.foldl decideRecord prior = some rec ∧ marks rec = true := by
    intro recs
    induction recs with
    | nil =>
      intro prior _ kept present
      obtain ⟨rec, shape⟩ := Option.isSome_iff_exists.mp (present.resolve_left (fun no => no rfl))
      exact ⟨rec, shape, kept rec (by rw [shape]; exact Option.mem_some_self rec)⟩
    | cons rec recs ih =>
      intro prior ok kept _
      have own := ok rec List.mem_cons_self
      refine ih (decideRecord prior rec) (fun r member => ok r (List.mem_cons_of_mem rec member))
        ?_ (Or.inr (decide_some prior rec))
      intro r member
      rcases decide_cases prior rec with same | same
      · rw [same] at member
        exact kept r member
      · rw [same, Option.mem_some_iff] at member
        rw [← member]
        exact own
  unfold Decided
  rw [fold_wal_get named]
  refine marked _ none ?_ (by simp) (Or.inl ?_)
  · intro rec member
    rw [List.mem_filter, decide_eq_true_iff] at member
    exact all rec member.1 member.2
  · obtain ⟨rec, member, key⟩ := some'
    intro empty
    have inside : rec ∈ wal.filter (fun r => r.key cfg = k) :=
      List.mem_filter.mpr ⟨member, decide_eq_true key⟩
    rw [empty] at inside
    exact absurd inside List.not_mem_nil

end Folds

section Compaction
variable {cfg : Params} {h : Hub}

theorem restamped_key {k : Key} {rec : Record} (own : k = rec.key cfg) :
    (restamped h k rec).key cfg = k := by
  rw [own]
  rfl

theorem mem_synthesized {keep : OrderedMap Key Record} {leg : Leg} {rec : Record}
    (member : rec ∈ synthesizedLines h keep leg) :
    rec.phase = .sent ∧ rec.leg = leg ∧ rec.rid ∈ h.published leg := by
  obtain ⟨rid, published, made⟩ := List.mem_filterMap.mp member
  split at made
  · exact absurd made (by simp)
  · rw [Option.some.injEq] at made
    rw [← made]
    exact ⟨rfl, rfl, published⟩

/-- A compaction keeps what it finds decided of the published keys. -/
theorem decided_compacted {k : Key} (published : k.2 ∈ h.published k.1)
    (decided : Decided cfg h.wal k) :
    Decided cfg (compactedWalLines h (foldWalRecords cfg h.wal)) k := by
  have named := decided_named decided
  obtain ⟨rec, found, marked⟩ := decided
  have entry := OrderedMap.mem_of_get found
  have own := (fold_wal_keys h.wal _ entry).1
  refine decided_of_marks named ⟨restamped h k rec, ?_, restamped_key own⟩ ?_
  · refine List.mem_append_left _ (List.mem_append_left _ ?_)
    exact List.mem_filterMap.mpr ⟨(k, rec), entry, if_pos published⟩
  · intro line member same
    unfold compactedWalLines at member
    rw [List.mem_append, List.mem_append] at member
    rcases member with (kept | requests) | responses
    · obtain ⟨e, old, made⟩ := List.mem_filterMap.mp kept
      split at made
      · rw [Option.some.injEq] at made
        have key := (fold_wal_keys h.wal e old).1
        rw [← made, restamped_key key] at same
        have value := OrderedMap.get_of_mem old
        rw [same, found, Option.some.injEq] at value
        rw [← made, ← value]
        exact marked
      · exact absurd made (by simp)
    · simp [marks, (mem_synthesized requests).1]
    · simp [marks, (mem_synthesized responses).1]

end Compaction

section Conditions
variable (cfg : Params) (h : Hub)

/- The leg an event hands to broadcast(). -/
def handed : Event → Option Key
  | .finalized _ row sigs =>
    match Leg.ofPhase row.phase with
    | none => none
    | some leg =>
      let rid := cfg.toLowerCase row.requestId
      if sigs ≠ [] ∧ wireFault cfg leg row sigs.length = none ∧ myRank cfg rid sigs = some 0 then
        some (leg, rid)
      else none
  | .sweepVisit env rid =>
    match h.sweeping with
    | none => none
    | some leg =>
      if ((h.wire leg).get rid).any (fun entry =>
          !legLanded env leg rid entry && stepsIn env cfg entry) then
        some (leg, rid)
      else none
  | _ => none

def mayBePaid : Option (Bool × SendError) → Bool
  | none => true
  | some (preSend, e) => !preSend && isAmbiguousSendError e

/- A send whose outcome is never written down left an intent that decides its key. -/
def Recorded : Event → Prop
  | .settled n error .lost =>
    mayBePaid error = true → ∀ send ∈ h.sends[n]?.join, Decided cfg h.wal send.key
  | .restart _ => ∀ k ∈ inFlight h, Decided cfg h.wal k
  | _ => True

/- The steps that keep the guard: a leg goes out beside no send of its own, and not after
   an eviction forgot it. -/
structure Guarded (ev : Event) : Prop where
  named : ∀ k ∈ handed cfg h ev, k.2 ≠ ""
  alone : ∀ k ∈ handed cfg h ev, k.2 ∉ h.published k.1 → k ∉ inFlight h ∧ k ∉ h.forgotten
  recorded : Recorded cfg h ev

instance : (ev : Event) → Decidable (Recorded cfg h ev)
  | .settled n error .lost => inferInstanceAs (Decidable
      (mayBePaid error = true → ∀ send ∈ h.sends[n]?.join, Decided cfg h.wal send.key))
  | .restart _ => inferInstanceAs (Decidable (∀ k ∈ inFlight h, Decided cfg h.wal k))
  | .settled _ _ .written | .settled _ _ .left | .finalized .. | .sweepStart | .sweepVisit ..
  | .sweepNext | .sweepEnd _ | .deadline .. | .tip .. => isTrue trivial

instance (ev : Event) : Decidable (Guarded cfg h ev) :=
  decidable_of_iff ((∀ k ∈ handed cfg h ev, k.2 ≠ "") ∧
      (∀ k ∈ handed cfg h ev, k.2 ∉ h.published k.1 → k ∉ inFlight h ∧ k ∉ h.forgotten) ∧
      Recorded cfg h ev)
    ⟨fun parts => ⟨parts.1, parts.2.1, parts.2.2⟩,
      fun guarded => ⟨guarded.named, guarded.alone, guarded.recorded⟩⟩

end Conditions

section Invariant
variable {cfg : Params}

/- A paid leg is published and decided on disk, or was forgotten. -/
def SpentKept (cfg : Params) (published : Leg → OrderedSet String) (wal : List Record)
    (log : List (Mark Key)) (forgotten : List Key) : Prop :=
  ∀ k, status log k = .spent →
    (k.2 ∈ published k.1 ∧ Decided cfg wal k) ∨ k ∈ forgotten

structure Kept (cfg : Params) (h : Hub) : Prop where
  once : PaidOnce h.log
  flights : UnderWay h.log (inFlight h)
  spent : SpentKept cfg h.published h.wal h.log h.forgotten
  flying : ∀ k ∈ inFlight h, k.2 ≠ "" ∧ cfg.toLowerCase k.2 = k.2

theorem spent_append {published : Leg → OrderedSet String} {wal : List Record}
    {log : List (Mark Key)} {forgotten : List Key} {rec : Record}
    (spent : SpentKept cfg published wal log forgotten)
    (own : status log (rec.key cfg) = .spent → rec.key cfg ∉ forgotten →
      Decided cfg (wal ++ [rec]) (rec.key cfg)) :
    SpentKept cfg published (wal ++ [rec]) log forgotten := by
  intro k paid
  rcases spent k paid with ⟨inside, decided⟩ | gone
  · by_cases same : rec.key cfg = k
    · by_cases gone : k ∈ forgotten
      · exact Or.inr gone
      · subst same
        exact Or.inl ⟨inside, own paid gone⟩
    · exact Or.inl ⟨inside, decided_append_other same decided⟩
  · exact Or.inr gone

theorem spent_log {published : Leg → OrderedSet String} {wal : List Record}
    {log : List (Mark Key)} {forgotten : List Key} {m : Mark Key}
    (spent : SpentKept cfg published wal log forgotten) (open' : m.leaves ≠ .spent) :
    SpentKept cfg published wal (m :: log) forgotten := by
  intro k paid
  by_cases same : m.key = k
  · rw [← same, status_same] at paid
    exact absurd paid open'
  · rw [status_other same] at paid
    exact spent k paid

variable (cfg) in
theorem append_wal_cases (h : Hub) (outcome : Append) (rec : Record) :
    (outcome = .lost ∧ appendWal cfg h outcome rec = h) ∨
    ∃ d, appendWal cfg h outcome rec = { h with wal := h.wal ++ [{ rec with deadline := d }] } := by
  cases outcome with
  | lost => exact Or.inl ⟨rfl, rfl⟩
  | written => exact Or.inr ⟨_, rfl⟩
  | left => exact Or.inr ⟨_, rfl⟩

variable (cfg) in
theorem note_deadline_frame (h : Hub) (coin rid : String) (block : ℤ) :
    ∃ d, noteDeadline cfg h coin rid block = { h with deadlines := d } := by
  unfold noteDeadline
  simp only
  split
  · exact ⟨_, rfl⟩
  · split
    · exact ⟨_, rfl⟩
    · split
      · exact ⟨_, rfl⟩
      · split
        · exact ⟨_, rfl⟩
        · split <;> exact ⟨_, rfl⟩

def withIntent (h : Hub) (k : Key) (d : Option Deadline) : Hub :=
  { h with wal := h.wal ++ [⟨k.2, k.1, .intent, d⟩] }

/-- A leg that goes out is unpublished and has its intent on disk. -/
theorem prepare_cases (env : Env) (h : Hub) (k : Key) :
    prepareLegSend env cfg h k = (h, none) ∨
    k.2 ∉ h.published k.1 ∧ ∃ d, prepareLegSend env cfg h k = (withIntent h k d, none) ∨
      ∃ entry, prepareLegSend env cfg h k = (withIntent h k d, some entry) := by
  unfold prepareLegSend
  split
  · exact Or.inl rfl
  · rename_i entry _
    split
    · exact Or.inl rfl
    · rename_i published
      split
      · exact Or.inl rfl
      · split
        · exact Or.inl rfl
        · cases env.append with
          | written => exact Or.inr ⟨published, _, Or.inr ⟨entry, rfl⟩⟩
          | lost => exact Or.inl rfl
          | left => exact Or.inr ⟨published, _, Or.inl rfl⟩

theorem Kept.idle {h : Hub} (kept : Kept cfg h) {k : Key} (unpublished : k.2 ∉ h.published k.1)
    (alone : k ∉ inFlight h) (known : k ∉ h.forgotten) : status h.log k = .idle := by
  cases found : status h.log k with
  | idle => rfl
  | running => exact absurd ((kept.flights.running k).mp found) alone
  | spent =>
    rcases kept.spent k found with ⟨inside, -⟩ | gone
    · exact absurd inside unpublished
    · exact absurd gone known

theorem Kept.intent {h : Hub} (kept : Kept cfg h) {k : Key} (lowered : cfg.toLowerCase k.2 = k.2)
    (idle : status h.log k = .idle) (d : Option Deadline) : Kept cfg (withIntent h k d) := by
  refine ⟨kept.once, kept.flights, spent_append kept.spent ?_, kept.flying⟩
  rw [Record.key, lowered]
  intro paid
  exact Status.noConfusion (idle.symm.trans paid)

theorem Kept.begin {h : Hub} (kept : Kept cfg h) {k : Key}
    (named : k.2 ≠ "" ∧ cfg.toLowerCase k.2 = k.2) (idle : status h.log k = .idle) (entry : Entry) :
    Kept cfg { h with sends := h.sends ++ [some ⟨k, entry⟩], log := .begun k :: h.log } := by
  have grown : inFlight { h with
      sends := h.sends ++ [some ⟨k, entry⟩], log := .begun k :: h.log } = inFlight h ++ [k] := by
    simp [inFlight, occupied_append]
  have fresh : k ∉ inFlight h := by
    intro member
    rw [(kept.flights.running k).mpr member] at idle
    exact Status.noConfusion idle
  refine ⟨⟨idle, kept.once⟩, ?_, spent_log kept.spent (by simp [Mark.leaves]), ?_⟩
  · rw [grown]
    exact kept.flights.begin fresh
  · rw [grown]
    intro key member
    rcases List.mem_append.mp member with old | new
    · exact kept.flying key old
    · rw [List.mem_singleton] at new
      rw [new]
      exact named

/-- A key that is idle is armed and begun. -/
theorem Kept.broadcast {h : Hub} (kept : Kept cfg h) (env : Env) {k : Key}
    (named : k.2 ≠ "" ∧ cfg.toLowerCase k.2 = k.2)
    (alone : k.2 ∉ h.published k.1 → k ∉ inFlight h ∧ k ∉ h.forgotten) :
    Kept cfg (broadcast env cfg h k).1 := by
  unfold Relay.broadcast
  rcases prepare_cases env h k with same | ⟨unpublished, d, held | ⟨entry, goes⟩⟩
  · rw [same]
    exact kept
  · obtain ⟨apart, known⟩ := alone unpublished
    rw [held]
    exact kept.intent named.2 (kept.idle unpublished apart known) d
  · obtain ⟨apart, known⟩ := alone unpublished
    have idle := kept.idle unpublished apart known
    rw [goes]
    exact (kept.intent named.2 idle d).begin named idle entry

theorem Kept.rest {h g : Hub} (kept : Kept cfg h) (log : g.log = h.log) (sends : g.sends = h.sends)
    (published : g.published = h.published) (wal : g.wal = h.wal)
    (forgotten : g.forgotten = h.forgotten) : Kept cfg g := by
  obtain ⟨once, flights, spent, flying⟩ := kept
  rw [inFlight, ← sends] at flights flying
  rw [← log] at once flights spent
  rw [← published, ← wal, ← forgotten] at spent
  exact ⟨once, flights, spent, flying⟩

/-- A settled send leaves the sends under way. -/
theorem Kept.settled {h : Hub} (kept : Kept cfg h) {n : ℕ} {send : Send}
    (held : h.sends[n]?.join = some send) {m : Mark Key} (own : m.key = send.key)
    (ends : m.leaves ≠ .running) (starts : ∀ earlier, m.Allowed earlier)
    {published : Leg → OrderedSet String} {wal : List Record}
    (spent : SpentKept cfg published wal (m :: h.log) h.forgotten) (g : Hub)
    (log : g.log = m :: h.log) (sends : g.sends = h.sends.set n none)
    (pub : g.published = published) (disk : g.wal = wal) (gone : g.forgotten = h.forgotten) :
    Kept cfg g := by
  obtain ⟨front, back, before, after⟩ := occupied_clear held
  have flights := kept.flights
  have flying := kept.flying
  rw [inFlight, before, List.map_append, List.map_cons, ← own] at flights flying
  have left : inFlight g = front.map Send.key ++ back.map Send.key := by
    rw [inFlight, sends, after, List.map_append]
  refine ⟨?_, ?_, ?_, ?_⟩
  · rw [log]
    exact ⟨starts _, kept.once⟩
  · rw [log, left]
    exact flights.finish ends
  · rw [log, pub, disk, gone]
    exact spent
  · rw [left]
    intro k member
    refine flying k ?_
    rw [List.mem_append] at member ⊢
    exact member.imp_right (List.mem_cons_of_mem _)

theorem spent_paid {h : Hub} (kept : Kept cfg h) {k : Key} {published : Leg → OrderedSet String}
    {wal : List Record} (grown : ∀ key : Key, key.2 ∈ h.published key.1 → key.2 ∈ published key.1)
    (own : k.2 ∈ published k.1) (decided : Decided cfg wal k)
    (others : ∀ key, key ≠ k → Decided cfg h.wal key → Decided cfg wal key) :
    SpentKept cfg published wal (.paid k :: h.log) h.forgotten := by
  intro key paid
  by_cases same : key = k
  · rw [same]
    exact Or.inl ⟨own, decided⟩
  · rw [status_other (show (Mark.paid k).key ≠ key from fun back => same back.symm)] at paid
    rcases kept.spent key paid with ⟨inside, known⟩ | gone
    · exact Or.inl ⟨grown key inside, others key same known⟩
    · exact Or.inr gone

theorem mem_update_self (published : Leg → OrderedSet String) (k : Key) :
    k.2 ∈ Function.update published k.1 ((published k.1).add k.2) k.1 := by
  rw [Function.update_self, OrderedSet.mem_add]
  exact Or.inl rfl

theorem mem_update_add {published : Leg → OrderedSet String} {k key : Key}
    (inside : key.2 ∈ published key.1) :
    key.2 ∈ Function.update published k.1 ((published k.1).add k.2) key.1 := by
  by_cases same : key.1 = k.1
  · rw [same, Function.update_self, OrderedSet.mem_add]
    exact Or.inr (same ▸ inside)
  · rw [Function.update_of_ne same]
    exact inside

/-- A send that may have landed is published, and on disk as sent or as the intent it was. -/
theorem Kept.paid {h : Hub} (kept : Kept cfg h) {n : ℕ} {send : Send}
    (held : h.sends[n]?.join = some send) {append : Append}
    (recorded : append = .lost → Decided cfg h.wal send.key)
    (wire : Leg → OrderedMap String Entry) :
    Kept cfg (appendWal cfg
      { h with
        sends := h.sends.set n none
        published := Function.update h.published send.key.1
          ((h.published send.key.1).add send.key.2)
        wire := wire
        log := .paid send.key :: h.log } append ⟨send.key.2, send.key.1, .sent, none⟩) := by
  obtain ⟨named, lowered⟩ := kept.flying _ (List.mem_map.mpr ⟨send, mem_occupied held, rfl⟩)
  have own := mem_update_self h.published send.key
  have key : ∀ d, Record.key cfg ⟨send.key.2, send.key.1, .sent, d⟩ = send.key := by
    intro d
    rw [Record.key, lowered]
  rcases append_wal_cases cfg { h with
      sends := h.sends.set n none
      published := Function.update h.published send.key.1 ((h.published send.key.1).add send.key.2)
      wire := wire
      log := .paid send.key :: h.log } append ⟨send.key.2, send.key.1, .sent, none⟩ with
    ⟨lost, same⟩ | ⟨d, same⟩
  · rw [same]
    exact kept.settled held (m := .paid send.key) rfl (by simp [Mark.leaves]) (fun _ => trivial)
      (spent_paid kept (fun _ => mem_update_add) own (recorded lost) (fun _ _ old => old))
      _ rfl rfl rfl rfl rfl
  · rw [same]
    have decided : Decided cfg (h.wal ++ [⟨send.key.2, send.key.1, .sent, d⟩])
        (Record.key cfg ⟨send.key.2, send.key.1, .sent, d⟩) :=
      decided_append_sent rfl (by rw [key]; exact named)
    rw [key] at decided
    refine kept.settled held (m := .paid send.key) rfl (by simp [Mark.leaves]) (fun _ => trivial)
      (spent_paid kept (fun _ => mem_update_add) own decided (fun k other old => ?_))
      _ rfl rfl rfl rfl rfl
    exact decided_append_other (by rw [key]; exact Ne.symm other) old

theorem Kept.refused {h : Hub} (kept : Kept cfg h) {n : ℕ} {send : Send}
    (held : h.sends[n]?.join = some send) (append : Append) :
    Kept cfg (appendWal cfg
      { h with sends := h.sends.set n none, log := .refused send.key :: h.log } append
      ⟨send.key.2, send.key.1, .failed, none⟩) := by
  obtain ⟨-, lowered⟩ := kept.flying _ (List.mem_map.mpr ⟨send, mem_occupied held, rfl⟩)
  have spent : SpentKept cfg h.published h.wal (.refused send.key :: h.log) h.forgotten :=
    spent_log kept.spent (by simp [Mark.leaves])
  rcases append_wal_cases cfg { h with
      sends := h.sends.set n none
      log := .refused send.key :: h.log } append ⟨send.key.2, send.key.1, .failed, none⟩ with
    ⟨-, same⟩ | ⟨d, same⟩
  · rw [same]
    exact kept.settled held (m := .refused send.key) rfl (by simp [Mark.leaves])
      (fun _ => trivial) spent _ rfl rfl rfl rfl rfl
  · rw [same]
    refine kept.settled held (m := .refused send.key) rfl (by simp [Mark.leaves])
      (fun _ => trivial) (spent_append spent ?_) _ rfl rfl rfl rfl rfl
    intro paid
    rw [Record.key, lowered, show (send.key.1, send.key.2) = (Mark.refused send.key).key from rfl,
      status_same] at paid
    exact Status.noConfusion paid

theorem Kept.settle {h : Hub} (kept : Kept cfg h) (n : ℕ) (error : Option (Bool × SendError))
    (append : Append)
    (recorded : append = .lost → mayBePaid error = true →
      ∀ send, h.sends[n]?.join = some send → Decided cfg h.wal send.key) :
    Kept cfg (settle cfg h n error append) := by
  unfold Relay.settle
  cases held : h.sends[n]?.join with
  | none => exact kept
  | some send =>
    cases error with
    | none => exact kept.paid held (fun lost => recorded lost rfl send held) _
    | some error =>
      obtain ⟨preSend, e⟩ := error
      simp only [noteLegSendFailed]
      split
      · rename_i ambiguous
        exact kept.paid held (fun lost => recorded lost ambiguous send held) h.wire
      · exact kept.refused held append

/-- What stays decided, and what is dropped only into the forgotten keys, keeps a hub. -/
theorem Kept.retire {h g : Hub} (kept : Kept cfg h) (log : g.log = h.log)
    (sends : g.sends = h.sends)
    (spent : ∀ k, k.2 ∈ h.published k.1 ∧ Decided cfg h.wal k ∨ k ∈ h.forgotten →
      k.2 ∈ g.published k.1 ∧ Decided cfg g.wal k ∨ k ∈ g.forgotten) : Kept cfg g := by
  obtain ⟨once, flights, old, flying⟩ := kept
  rw [inFlight, ← sends] at flights flying
  rw [← log] at once flights old
  exact ⟨once, flights, fun k paid => spent k (old k paid), flying⟩

theorem Kept.compact {h : Hub} (kept : Kept cfg h) (done : Bool) :
    Kept cfg (compactWal cfg h done) := by
  unfold compactWal
  split
  · refine kept.retire rfl rfl (fun k old => ?_)
    rcases old with ⟨inside, decided⟩ | gone
    · exact Or.inl ⟨inside, decided_compacted inside decided⟩
    · exact Or.inr gone
  · exact kept

theorem Kept.evict {h : Hub} (kept : Kept cfg h) (rid : String) : Kept cfg (evict h rid) := by
  refine kept.retire rfl rfl (fun k old => ?_)
  rcases old with ⟨inside, decided⟩ | gone
  · by_cases same : k.2 = rid
    · refine Or.inr (List.mem_append_left _ (List.mem_map.mpr ⟨k.1, ?_, ?_⟩))
      · rw [List.mem_filter, decide_eq_true_iff, ← same]
        refine ⟨?_, inside⟩
        cases k.1 <;> simp
      · rw [← same]
    · exact Or.inl ⟨OrderedSet.mem_erase.mpr ⟨same, inside⟩, decided⟩
  · exact Or.inr (List.mem_append_right _ gone)

theorem Kept.evictExpired {h : Hub} (kept : Kept cfg h) (compacted : Bool) :
    Kept cfg (evictExpired cfg h compacted) := by
  unfold Relay.evictExpired
  split
  · exact kept
  · refine Kept.compact ?_ compacted
    have all : ∀ (rids : List String) (g : Hub), Kept cfg g → Kept cfg (rids.foldl Relay.evict g) := by
      intro rids
      induction rids with
      | nil => exact fun g keeps => keeps
      | cons rid rids ih => exact fun g keeps => ih _ (keeps.evict rid)
    exact all _ h kept

theorem mem_mark_key (g : Hub) (key k : Key) :
    k.2 ∈ (markKey g key).published k.1 ↔ k = key ∨ k.2 ∈ g.published k.1 := by
  unfold markKey
  by_cases leg : k.1 = key.1
  · have pairs : k = key ↔ k.2 = key.2 := by
      rw [Prod.ext_iff]
      exact and_iff_right leg
    rw [pairs, leg]
    simp
  · have apart : k ≠ key := fun same => leg (congrArg Prod.fst same)
    simp [Function.update_of_ne leg, apart]

theorem mem_mark_keys (keys : List Key) (g : Hub) (k : Key) :
    k.2 ∈ (keys.foldl markKey g).published k.1 ↔ k ∈ keys ∨ k.2 ∈ g.published k.1 := by
  induction keys generalizing g with
  | nil => simp
  | cons key keys ih =>
    rw [List.foldl_cons, ih, mem_mark_key, List.mem_cons]
    constructor
    · rintro (later | now | before)
      · exact Or.inl (Or.inr later)
      · exact Or.inl (Or.inl now)
      · exact Or.inr before
    · rintro ((now | later) | before)
      · exact Or.inr (Or.inl now)
      · exact Or.inl later
      · exact Or.inr (Or.inr before)

theorem mem_decided_keys (wal : List Record) (k : Key) :
    k ∈ decidedKeys cfg wal ↔ Decided cfg wal k := by
  unfold decidedKeys Decided
  constructor
  · intro member
    obtain ⟨⟨key, rec⟩, kept, rfl⟩ := List.mem_map.mp member
    obtain ⟨inside, marked⟩ := List.mem_filter.mp kept
    exact ⟨rec, OrderedMap.get_of_mem inside, marked⟩
  · rintro ⟨rec, found, marked⟩
    exact List.mem_map.mpr ⟨(k, rec), List.mem_filter.mpr ⟨OrderedMap.mem_of_get found, marked⟩, rfl⟩

variable (cfg) in
theorem note_records_frame (wal : List Record) (g : Hub) :
    ∃ d, wal.foldl (noteRecord cfg) g = { g with deadlines := d } := by
  induction wal generalizing g with
  | nil => exact ⟨g.deadlines, rfl⟩
  | cons rec wal ih =>
    have one : ∃ d, noteRecord cfg g rec = { g with deadlines := d } := by
      unfold noteRecord
      split
      · exact ⟨_, rfl⟩
      · split
        · exact ⟨_, rfl⟩
        · exact note_deadline_frame cfg g _ _ _
    obtain ⟨d, noted⟩ := one
    obtain ⟨d', rest⟩ := ih { g with deadlines := d }
    exact ⟨d', by rw [List.foldl_cons, noted, rest]⟩

theorem mem_load_published (h : Hub) (k : Key) :
    k.2 ∈ (loadWal cfg h).published k.1 ↔ Decided cfg h.wal k ∨ k.2 ∈ h.published k.1 := by
  obtain ⟨d, noted⟩ := note_records_frame cfg h.wal h
  rw [loadWal, noted, mem_mark_keys, mem_decided_keys]

variable (cfg) in
theorem load_frame (h : Hub) :
    ∃ d p, loadWal cfg h = { h with deadlines := d, published := p } ∧
      ∀ k, Decided cfg h.wal k → k.2 ∈ p k.1 := by
  have marked : ∀ (keys : List Key) (g : Hub), ∃ p, keys.foldl markKey g = { g with published := p } := by
    intro keys
    induction keys with
    | nil => exact fun g => ⟨g.published, rfl⟩
    | cons key keys ih =>
      intro g
      obtain ⟨p, shape⟩ := ih (markKey g key)
      exact ⟨p, by rw [List.foldl_cons, shape]; rfl⟩
  obtain ⟨d, noted⟩ := note_records_frame cfg h.wal h
  obtain ⟨p, shape⟩ := marked (decidedKeys cfg h.wal) { h with deadlines := d }
  have loaded : loadWal cfg h = { h with deadlines := d, published := p } := by rw [loadWal, noted, shape]
  refine ⟨d, p, loaded, fun k decided => ?_⟩
  have published := (mem_load_published h k).mpr (Or.inl decided)
  rw [loaded] at published
  exact published

/-- A restart cuts the sends off; what the log on disk decides is published again. -/
theorem Kept.restart {h : Hub} (kept : Kept cfg h) (compacted : Bool)
    (cutOff : ∀ k ∈ inFlight h, Decided cfg h.wal k) : Kept cfg (restart cfg h compacted) := by
  have loaded : Kept cfg (loadWal cfg
      (Hub.started h.wal ((inFlight h).map Mark.paid ++ h.log) h.forgotten)) := by
    obtain ⟨d, p, shape, inside⟩ := load_frame cfg
      (Hub.started h.wal ((inFlight h).map Mark.paid ++ h.log) h.forgotten)
    rw [shape]
    refine ⟨paid_once_cut kept.once _, kept.flights.cut, ?_, ?_⟩
    · intro k paid
      rcases status_cut paid with cut | before
      · have decided := cutOff k cut
        exact Or.inl ⟨inside k decided, decided⟩
      · rcases kept.spent k before with ⟨-, decided⟩ | gone
        · exact Or.inl ⟨inside k decided, decided⟩
        · exact Or.inr gone
    · intro k member
      exact absurd member (by simp [inFlight, occupied, Hub.started])
  unfold Relay.restart start
  split
  · exact loaded.compact compacted
  · exact loaded

end Invariant

section Waiting
variable {cfg : Params}

/- The keys of the finalized rounds are in lower case. -/
def Lowered (cfg : Params) (wire : Leg → OrderedMap String Entry) : Prop :=
  ∀ leg, ∀ rid ∈ (wire leg).keys, cfg.toLowerCase rid = rid

theorem Lowered.set {wire : Leg → OrderedMap String Entry} (lowered : Lowered cfg wire) (leg : Leg)
    (rid : String) (entry : Entry) :
    Lowered cfg (Function.update wire leg ((wire leg).set (cfg.toLowerCase rid) entry)) := by
  intro other key member
  by_cases same : other = leg
  · rw [same, Function.update_self, OrderedMap.mem_keys_set] at member
    rcases member with new | old
    · rw [new, cfg.lower_idem]
    · exact lowered leg key old
  · rw [Function.update_of_ne same] at member
    exact lowered other key member

theorem mem_keys_erase {m : OrderedMap String Entry} {rid key : String}
    (member : key ∈ (m.erase rid).keys) : key ∈ m.keys := by
  obtain ⟨entry, inside⟩ := OrderedMap.mem_keys.mp member
  exact OrderedMap.mem_keys.mpr ⟨entry, List.mem_of_mem_filter inside⟩

theorem Lowered.erase {wire : Leg → OrderedMap String Entry} (lowered : Lowered cfg wire) (leg : Leg)
    (rid : String) : Lowered cfg (Function.update wire leg ((wire leg).erase rid)) := by
  intro other key member
  by_cases same : other = leg
  · rw [same, Function.update_self] at member
    exact lowered leg key (mem_keys_erase member)
  · rw [Function.update_of_ne same] at member
    exact lowered other key member

theorem append_wal_wire (h : Hub) (outcome : Append) (rec : Record) :
    (appendWal cfg h outcome rec).wire = h.wire := by
  cases outcome <;> rfl

theorem broadcast_wire (env : Env) (h : Hub) (k : Key) :
    (broadcast env cfg h k).1.wire = h.wire := by
  unfold broadcast
  rcases prepare_cases env h k with same | ⟨-, d, same | ⟨entry, same⟩⟩ <;> rw [same] <;> rfl

theorem start_wire (h : Hub) (compacted : Bool) : (start cfg h compacted).wire = h.wire := by
  obtain ⟨d, p, shape, -⟩ := load_frame cfg h
  unfold start compactWal
  split
  · split <;> rw [shape]
  · rw [shape]

theorem evict_expired_lowered {h : Hub} (lowered : Lowered cfg h.wire) (compacted : Bool) :
    Lowered cfg (evictExpired cfg h compacted).wire := by
  have all : ∀ (rids : List String) (g : Hub), Lowered cfg g.wire →
      Lowered cfg (rids.foldl evict g).wire := by
    intro rids
    induction rids with
    | nil => exact fun g keeps => keeps
    | cons rid rids ih =>
      exact fun g keeps => ih (evict g rid) (fun leg key member =>
        keeps leg key (mem_keys_erase member))
  unfold evictExpired compactWal
  split
  · exact lowered
  · split
    · exact all _ h lowered
    · exact all _ h lowered

theorem step_lowered {h : Hub} (lowered : Lowered cfg h.wire) (ev : Event) :
    Lowered cfg (step cfg h ev).wire := by
  cases ev with
  | finalized env row sigs =>
    simp only [step, onRoundFinalized]
    split
    · exact lowered
    · rename_i leg _
      split
      · exact lowered
      · split
        · exact lowered
        · split
          · rw [broadcast_wire]
            exact lowered.set leg row.requestId _
          · exact lowered.set leg row.requestId _
  | sweepStart =>
    simp only [step]
    split <;> exact lowered
  | sweepVisit env rid =>
    simp only [step]
    split
    · exact lowered
    · rename_i leg _
      unfold sweepVisit
      split
      · exact lowered
      · split
        · exact lowered.erase leg rid
        · split
          · simp only [broadcast_wire]
            exact lowered
          · exact lowered
  | sweepNext =>
    simp only [step]
    split <;> exact lowered
  | sweepEnd compacted =>
    simp only [step]
    split
    · exact evict_expired_lowered (h := { h with sweep := none }) lowered compacted
    · exact lowered
  | settled n error append =>
    simp only [step, settle]
    split
    · exact lowered
    · rename_i send _
      cases error with
      | none =>
        simp only [noteLegSent, append_wal_wire]
        exact lowered.erase send.key.1 send.key.2
      | some error =>
        simp only [noteLegSendFailed]
        split <;> rw [append_wal_wire] <;> exact lowered
  | deadline coin rid block =>
    obtain ⟨d, same⟩ := note_deadline_frame cfg h coin rid block
    simp only [step, same]
    exact lowered
  | tip coin height => exact lowered
  | restart compacted =>
    simp only [step, restart, start_wire]
    intro leg key member
    exact absurd member OrderedSet.not_mem_empty

end Waiting

section Runs
variable {cfg : Params}

theorem handed_finalized (h : Hub) (env : Env) {row : Row} {sigs : List Sig} {leg : Leg}
    (known : Leg.ofPhase row.phase = some leg) (signed : sigs ≠ [])
    (fits : ¬ (wireFault cfg leg row sigs.length).isSome)
    (leads : myRank cfg (cfg.toLowerCase row.requestId) sigs = some 0) :
    handed cfg h (.finalized env row sigs) = some (leg, cfg.toLowerCase row.requestId) := by
  have none' : wireFault cfg leg row sigs.length = none := by
    rw [Option.isSome_iff_ne_none, not_not] at fits
    exact fits
  simp only [handed, known]
  rw [if_pos ⟨signed, none', leads⟩]

/-- The step lemma. -/
theorem step_kept {h : Hub} (kept : Kept cfg h) (lowered : Lowered cfg h.wire) {ev : Event}
    (guarded : Guarded cfg h ev) : Kept cfg (step cfg h ev) := by
  obtain ⟨named, alone, recorded⟩ := guarded
  cases ev with
  | finalized env row sigs =>
    simp only [step, onRoundFinalized]
    split
    · exact kept
    · rename_i leg known
      split
      · exact kept
      · rename_i signed
        split
        · exact kept
        · rename_i fits
          have stored : ∀ wire, Kept cfg { h with wire := wire } :=
            fun wire => kept.rest rfl rfl rfl rfl rfl
          split
          · rename_i leads
            have goes := handed_finalized h env known signed fits leads
            exact (stored _).broadcast env (k := (leg, cfg.toLowerCase row.requestId))
              ⟨named _ goes, cfg.lower_idem _⟩ (alone _ goes)
          · exact stored _
  | sweepStart =>
    simp only [step]
    split
    · exact kept
    · exact kept.rest rfl rfl rfl rfl rfl
  | sweepVisit env rid =>
    simp only [step]
    split
    · exact kept
    · rename_i leg at'
      unfold sweepVisit
      split
      · exact kept
      · rename_i entry found
        split
        · exact kept.rest rfl rfl rfl rfl rfl
        · rename_i waits
          rw [not_or] at waits
          split
          · rename_i due
            have goes : handed cfg h (.sweepVisit env rid) = some (leg, rid) := by
              simp only [handed, at', found]
              rw [if_pos (by simp [due, waits.2])]
            have lower : cfg.toLowerCase rid = rid :=
              lowered leg rid (OrderedMap.mem_keys.mpr ⟨entry, OrderedMap.mem_of_get found⟩)
            have sent := kept.broadcast env (k := (leg, rid)) ⟨named _ goes, lower⟩ (alone _ goes)
            exact sent.rest rfl rfl rfl rfl rfl
          · exact kept
  | sweepNext =>
    simp only [step]
    split
    · exact kept.rest rfl rfl rfl rfl rfl
    · exact kept
  | sweepEnd compacted =>
    simp only [step]
    split
    · have ended : Kept cfg { h with sweep := none } := kept.rest rfl rfl rfl rfl rfl
      exact ended.evictExpired compacted
    · exact kept
  | settled n error append =>
    refine kept.settle n error append (fun lost => ?_)
    rw [lost] at recorded
    exact recorded
  | deadline coin rid block =>
    obtain ⟨d, same⟩ := note_deadline_frame cfg h coin rid block
    simp only [step, same]
    exact kept.rest rfl rfl rfl rfl rfl
  | tip coin height => exact kept.rest rfl rfl rfl rfl rfl
  | restart compacted => exact kept.restart compacted recorded

/- A relay that has just been started over what the log on disk holds. -/
def fresh (cfg : Params) (wal : List Record) (compacted : Bool) : Hub :=
  start cfg (Hub.started wal [] []) compacted

theorem fresh_kept (wal : List Record) (compacted : Bool) : Kept cfg (fresh cfg wal compacted) := by
  have empty : Kept cfg (Hub.started wal [] []) :=
    ⟨trivial, under_way_nil, fun k paid => absurd paid (by simp [Hub.started, status]),
      fun k member => absurd member (by simp [inFlight, occupied, Hub.started])⟩
  have restarted := empty.restart compacted
    (fun k member => absurd member (by simp [inFlight, occupied, Hub.started]))
  exact restarted

/-- In a run whose steps keep the guard, no leg is handed to the broadcaster while a send of
    it is under way, nor after one that may have landed. -/
theorem leg_paid_once {wal : List Record} {compacted : Bool} {evs : List Event}
    (guarded : Admitted (step cfg) (Guarded cfg) (fresh cfg wal compacted) evs) :
    PaidOnce (run (step cfg) (fresh cfg wal compacted) evs).log := by
  have kept := run_invariant (fun h => Kept cfg h ∧ Lowered cfg h.wire)
    (fun h ev both ok => ⟨step_kept both.1 both.2 ok, step_lowered both.2 ev⟩)
    ⟨fresh_kept wal compacted, by
      rw [fresh, start_wire]
      exact fun leg key member => absurd member OrderedSet.not_mem_empty⟩ guarded
  exact kept.1.once

end Runs

section Sample

def sampleParams : Params where
  network := "regtest"
  pubkey := some "aa"
  failoverWindowMs := 1200000
  evictGraceBlocks := 144
  confirmations := fun _ => 6
  sha256 := id
  toLowerCase := id
  lower_idem := fun _ => rfl

def sampleEnv : Env where
  now := 0
  rail := fun _ => true
  budget := true
  append := .written
  homePending := []
  homeRelayed := []
  originPending := fun _ => none

def sampleFinalized : Event :=
  .finalized sampleEnv { phase := "request", requestId := zeros 64, originChain := "LTC" }
    [⟨"aa", "bb"⟩]

def sentTwice : { events : List Event //
    ¬ PaidOnce (run (step sampleParams) (fresh sampleParams [] false) events).log } :=
  ⟨[sampleFinalized, sampleFinalized], by decide +kernel⟩

/-- A leg finalized again while its send is awaited is sent a second time. -/
theorem leg_sent_beside_its_send :
    ¬ PaidOnce (run (step sampleParams) (fresh sampleParams [] false)
      [sampleFinalized, sampleFinalized]).log :=
  sentTwice.property

/- Sent, finalized again, and once more after a restart. -/
@[irreducible] def sampleRun : List Event :=
  [sampleFinalized, .settled 0 none .written, sampleFinalized, .restart true, sampleFinalized]

/- The run with its guard and the payment in it. -/
def sentOnce : { events : List Event //
    Admitted (step sampleParams) (Guarded sampleParams) (fresh sampleParams [] false) events ∧
      .paid (.request, zeros 64) ∈
        (run (step sampleParams) (fresh sampleParams [] false) events).log } :=
  ⟨sampleRun, by decide +kernel⟩

theorem sample_leg_paid_once :
    .paid (.request, zeros 64) ∈ (run (step sampleParams) (fresh sampleParams [] false) sampleRun).log ∧
    PaidOnce (run (step sampleParams) (fresh sampleParams [] false) sampleRun).log :=
  ⟨sentOnce.property.2, leg_paid_once sentOnce.property.1⟩

end Sample

end XChainHub.Attestation.Relay
