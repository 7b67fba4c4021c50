import XChainHub.Library.GuardedRuns
import XChainHub.Anchor.Publisher.PublishBundle

/-!
When an anchor is paid for at most once. A send that may have landed leaves an
intent no older than the one it was armed with, unless its window has passed; so
the next bundle with that section is held, or let past the intent as mined. What
happens past the intent decides whether it is paid for again.
-/
namespace XChainHub.Anchor.Publisher
open GuardedRuns

/- Anything but a definitive failure that sent nothing. -/
def Send.mayHaveLanded (send : Send) : Prop := send.outcome ≠ .neverSent

def groupKeys (group : List Section) : List MarkerKey := group.map Section.markerKey

/- Newest first: no later send has a section of an earlier one that may have landed, within
   the window of the intent recorded for the earlier one. -/
def AtMostOnce (cfg : Config) (sends : List Send) : Prop :=
  sends.Pairwise (fun later earlier => earlier.mayHaveLanded →
    ∀ e ∈ earlier.armed, e.1 ∈ groupKeys later.group → e.2 + cfg.anchorIntentTtlMs ≤ later.sentAt)

/- Every section that was sent had an intent recorded before. -/
def AllArmed (sends : List Send) : Prop :=
  ∀ send ∈ sends, ∀ key ∈ groupKeys send.group, ∃ at', (key, at') ∈ send.armed

/- A bundle let past a holding intent is then adopted: the spend guard grants its budget,
   and the existence check before the send answers, and finds it mined as the hold check did. -/
def adoptsHeld (st : State) (ev : Event) : Bool :=
  match st.call with
  | none => true
  | some c =>
    match c.overHold, c.phase, ev with
    | true, .entering, .budget granted => granted
    | true, .looking look, .indexerReply answered =>
      match look.reply st.mined answered with
      | .done .undetermined => false
      | .done .absent => false
      | _ => true
    | _, _, _ => true

def AdoptsHeld (st : State) (ev : Event) : Prop := adoptsHeld st ev = true

instance (st : State) (ev : Event) : Decidable (AdoptsHeld st ev) :=
  inferInstanceAs (Decidable (_ = true))

section Invariant
variable (cfg : Config)

/- The marker dates from the given moment or later. -/
def Marker.since (marker : Marker) (at' : ℕ) : Prop := ∀ intentAt ∈ marker.intentAt, at' ≤ intentAt

/- The window of a recorded intent has passed, or an intent that covers it is in the table. -/
def Covered (now : ℕ) (markers : Markers) (e : MarkerKey × ℕ) : Prop :=
  e.2 + cfg.anchorIntentTtlMs ≤ now ∨ ∃ marker, markers.get e.1 = some marker ∧ marker.since e.2

/- Every send of the section that may have landed is out of its window. -/
def Fresh (now : ℕ) (sends : List Send) (key : MarkerKey) : Prop :=
  ∀ send ∈ sends, send.mayHaveLanded →
    ∀ at', (key, at') ∈ send.armed → at' + cfg.anchorIntentTtlMs ≤ now

def FreshGroup (now : ℕ) (sends : List Send) (group : List Section) : Prop :=
  ∀ key ∈ groupKeys group, Fresh cfg now sends key

/- What the call may go on with: past an intent, or with every section fresh. -/
def MaySend (st : State) (c : Call) : Prop :=
  c.overHold = true ∨ FreshGroup cfg st.now st.sends c.group

def ArmedBut (c : Call) (todo : List Section) : Prop :=
  ∀ key ∈ groupKeys c.group, key ∈ groupKeys todo ∨ ∃ at', (key, at') ∈ c.armed

structure IntentsKept (now : ℕ) (markers : Markers) (armed : List (MarkerKey × ℕ)) : Prop where
  past : ∀ e ∈ armed, e.2 ≤ now
  covered : ∀ e ∈ armed, Covered cfg now markers e

/- The newest send is still with the broadcaster. -/
def Running (sends : List Send) : Prop :=
  ∃ send rest, sends = send :: rest ∧ send.outcome = .running

/- While the broadcaster runs, the sections were fresh before its send. -/
def PhaseOk (st : State) (c : Call) : Phase → Prop
  | .reading todo => c.armed = [] ∧
      ∀ key ∈ groupKeys c.group, key ∈ groupKeys todo ∨ Fresh cfg st.now st.sends key
  | .holdLookup _ => c.armed = []
  | .preparing => c.armed = [] ∧ MaySend cfg st c
  | .arming todo => MaySend cfg st c ∧ IntentsKept cfg st.now st.markers c.armed ∧ ArmedBut c todo
  | .entering | .looking _ =>
    MaySend cfg st c ∧ IntentsKept cfg st.now st.markers c.armed ∧ ArmedBut c []
  | .broadcasting => Running st.sends ∧ FreshGroup cfg st.now st.sends.tail c.group ∧
    IntentsKept cfg st.now st.markers c.armed ∧ ArmedBut c []
  | .withdrawing todo => FreshGroup cfg st.now st.sends todo
  | .polling _ _ | .marking _ _ | .stamping _ _ => True

structure SendsKept (st : State) : Prop where
  once : AtMostOnce cfg st.sends
  armed : AllArmed st.sends
  past : ∀ send ∈ st.sends, ∀ e ∈ send.armed, e.2 ≤ st.now
  covered : ∀ send ∈ st.sends, send.mayHaveLanded → ∀ e ∈ send.armed,
    Covered cfg st.now st.markers e

structure Kept (st : State) : Prop where
  sends : SendsKept cfg st
  call : ∀ c, st.call = some c → PhaseOk cfg st c c.phase

end Invariant

section Cover
variable {cfg : Config} {now : ℕ} {markers : Markers} {e : MarkerKey × ℕ}

theorem covered_later (ms : ℕ) (cover : Covered cfg now markers e) :
    Covered cfg (now + ms) markers e := by
  rcases cover with passed | held
  · exact Or.inl (by omega)
  · exact Or.inr held

theorem covered_set (key : MarkerKey) (past : e.2 ≤ now) (cover : Covered cfg now markers e) :
    Covered cfg now (setAnchorPublishedCheckpoint now markers key) e := by
  rcases cover with passed | ⟨marker, found, since⟩
  · exact Or.inl passed
  · by_cases same : e.1 = key
    · refine Or.inr ⟨⟨some now, none⟩, ?_, ?_⟩
      · rw [setAnchorPublishedCheckpoint, same, OrderedMap.get_set_same]
      · intro intentAt stamp
        cases stamp
        exact past
    · refine Or.inr ⟨marker, ?_, since⟩
      rw [setAnchorPublishedCheckpoint, OrderedMap.get_set_other same]
      exact found

/-- A freshly armed intent covers its own moment. -/
theorem covered_armed (key : MarkerKey) :
    Covered cfg now (setAnchorPublishedCheckpoint now markers key) (key, now) := by
  refine Or.inr ⟨⟨some now, none⟩, ?_, ?_⟩
  · rw [setAnchorPublishedCheckpoint, OrderedMap.get_set_same]
  · intro intentAt stamp
    cases stamp
    exact le_refl now

theorem covered_update (key : MarkerKey) (cover : Covered cfg now markers e) :
    Covered cfg now (updateAnchorPublishedCheckpoint now markers key) e := by
  rcases cover with passed | ⟨marker, found, since⟩
  · exact Or.inl passed
  · unfold updateAnchorPublishedCheckpoint
    cases old : markers.get key with
    | none => exact Or.inr ⟨marker, found, since⟩
    | some row =>
      by_cases same : e.1 = key
      · rw [same, old] at found
        cases found
        refine Or.inr ⟨{ marker with sentAt := some now }, ?_, since⟩
        rw [same, OrderedMap.get_set_same]
      · refine Or.inr ⟨marker, ?_, since⟩
        rw [OrderedMap.get_set_other same]
        exact found

/-- A withdrawn intent uncovers nothing whose window has passed. -/
theorem covered_delete {key : MarkerKey} (passed : e.1 = key → e.2 + cfg.anchorIntentTtlMs ≤ now)
    (cover : Covered cfg now markers e) :
    Covered cfg now (deleteAnchorPublishedCheckpoint markers key) e := by
  by_cases same : e.1 = key
  · exact Or.inl (passed same)
  · rcases cover with old | ⟨marker, found, since⟩
    · exact Or.inl old
    · refine Or.inr ⟨marker, ?_, since⟩
      unfold deleteAnchorPublishedCheckpoint
      split
      · exact found
      · split
        · rw [OrderedMap.get_erase_other same]
          exact found
        · exact found

theorem retention_window_floor (cfg : Config) : cfg.anchorIntentTtlMs ≤ retentionWindow cfg := by
  unfold retentionWindow anchorMarkerRetentionTtlSafety
  omega

/-- A pruned marker is out of every window it covered. -/
theorem covered_prune (key : MarkerKey) (cover : Covered cfg now markers e) :
    Covered cfg now (pruneMarker cfg now markers key) e := by
  have floor := retention_window_floor cfg
  rcases cover with passed | ⟨marker, found, since⟩
  · exact Or.inl passed
  · unfold pruneMarker
    cases old : markers.get key with
    | none => exact Or.inr ⟨marker, found, since⟩
    | some row =>
      simp only
      split
      next intentAt _ stamp =>
        split
        next expired =>
          by_cases same : e.1 = key
          · rw [same, old] at found
            cases found
            have dated := since intentAt stamp
            exact Or.inl (by omega)
          · refine Or.inr ⟨marker, ?_, since⟩
            rw [OrderedMap.get_erase_other same]
            exact found
        next => exact Or.inr ⟨marker, found, since⟩
      next => exact Or.inr ⟨marker, found, since⟩

/-- Where the intent does not hold, the sends of the section are out of their windows. -/
theorem fresh_of_released {sends : List Send} {key : MarkerKey}
    (past : ∀ send ∈ sends, ∀ e ∈ send.armed, e.2 ≤ now)
    (covered : ∀ send ∈ sends, send.mayHaveLanded → ∀ e ∈ send.armed, Covered cfg now markers e)
    (released : anchorIntentHolds cfg now (markers.get key) = false) :
    Fresh cfg now sends key := by
  intro send listed landed at' armed
  rcases covered send listed landed (key, at') armed with passed | ⟨marker, found, since⟩
  · exact passed
  · simp only at found
    rw [found] at released
    unfold anchorIntentHolds at released
    simp only at released
    cases stamp : marker.intentAt with
    | none =>
      rw [stamp] at released
      cases released
    | some intentAt =>
      rw [stamp] at released
      simp only [decide_eq_false_iff_not, not_lt] at released
      have dated := since intentAt stamp
      have old := past send listed (key, at') armed
      simp only at dated old ⊢
      omega

theorem fresh_later {sends : List Send} {key : MarkerKey} (ms : ℕ)
    (fresh : Fresh cfg now sends key) : Fresh cfg (now + ms) sends key := by
  intro send listed landed at' armed
  have passed := fresh send listed landed at' armed
  omega

end Cover

section World
variable {cfg : Config} {st : State}

theorem phase_ok_at (c : Call) (phase : Phase) :
    PhaseOk cfg (st.at c phase) { c with phase := phase } phase = PhaseOk cfg st c phase := by
  cases phase <;> rfl

theorem kept_at {c : Call} {phase : Phase} (sends : SendsKept cfg st)
    (ok : PhaseOk cfg st c phase) : Kept cfg (st.at c phase) := by
  constructor
  · exact ⟨sends.once, sends.armed, sends.past, sends.covered⟩
  · intro c' running
    cases running
    rw [phase_ok_at]
    exact ok

theorem kept_end (sends : SendsKept cfg st) : Kept cfg st.endCall := by
  constructor
  · exact ⟨sends.once, sends.armed, sends.past, sends.covered⟩
  · intro c running
    cases running

/-- Markers that keep every cover keep the sends. -/
theorem sends_kept_markers {markers : Markers} (sends : SendsKept cfg st)
    (keeps : ∀ send ∈ st.sends, send.mayHaveLanded → ∀ e ∈ send.armed, e.2 ≤ st.now →
      Covered cfg st.now st.markers e → Covered cfg st.now markers e) :
    SendsKept cfg { st with markers := markers } := by
  refine ⟨sends.once, sends.armed, sends.past, ?_⟩
  intro send listed landed e armed
  exact keeps send listed landed e armed (sends.past send listed e armed)
    (sends.covered send listed landed e armed)

theorem tick_kept (ms : ℕ) (kept : Kept cfg st) : Kept cfg { st with now := st.now + ms } := by
  constructor
  · refine ⟨kept.sends.once, kept.sends.armed, ?_, ?_⟩
    · intro send listed e armed
      have past := kept.sends.past send listed e armed
      simp only
      omega
    · intro send listed landed e armed
      exact covered_later ms (kept.sends.covered send listed landed e armed)
  · intro c running
    have ok := kept.call c running
    have group : ∀ {sends : List Send}, FreshGroup cfg st.now sends c.group →
        FreshGroup cfg (st.now + ms) sends c.group :=
      fun fresh key listed => fresh_later ms (fresh key listed)
    have may : MaySend cfg st c → MaySend cfg { st with now := st.now + ms } c := by
      rintro (overHeld | fresh)
      · exact Or.inl overHeld
      · exact Or.inr (group fresh)
    have intents : IntentsKept cfg st.now st.markers c.armed →
        IntentsKept cfg (st.now + ms) st.markers c.armed := by
      intro intents
      constructor
      · intro e armed
        have past := intents.past e armed
        omega
      · intro e armed
        exact covered_later ms (intents.covered e armed)
    revert ok
    cases c.phase with
    | reading todo =>
      rintro ⟨bare, read⟩
      refine ⟨bare, ?_⟩
      intro key listed
      exact (read key listed).imp id (fresh_later ms)
    | holdLookup look => exact id
    | preparing => exact fun ok => ⟨ok.1, may ok.2⟩
    | arming todo => exact fun ok => ⟨may ok.1, intents ok.2.1, ok.2.2⟩
    | entering => exact fun ok => ⟨may ok.1, intents ok.2.1, ok.2.2⟩
    | looking look => exact fun ok => ⟨may ok.1, intents ok.2.1, ok.2.2⟩
    | broadcasting => exact fun ok => ⟨ok.1, group ok.2.1, intents ok.2.2.1, ok.2.2.2⟩
    | polling left look => exact id
    | withdrawing todo => exact fun fresh key listed => fresh_later ms (fresh key listed)
    | marking txid todo => exact id
    | stamping txid todo => exact id

theorem prune_kept (key : MarkerKey) (kept : Kept cfg st) :
    Kept cfg { st with markers := pruneMarker cfg st.now st.markers key } := by
  constructor
  · exact sends_kept_markers kept.sends (fun _ _ _ _ _ _ cover => covered_prune key cover)
  · intro c running
    have ok := kept.call c running
    have intents : IntentsKept cfg st.now st.markers c.armed →
        IntentsKept cfg st.now (pruneMarker cfg st.now st.markers key) c.armed :=
      fun intents => ⟨intents.past, fun e armed => covered_prune key (intents.covered e armed)⟩
    revert ok
    cases c.phase with
    | arming todo => exact fun ok => ⟨ok.1, intents ok.2.1, ok.2.2⟩
    | entering => exact fun ok => ⟨ok.1, intents ok.2.1, ok.2.2⟩
    | looking look => exact fun ok => ⟨ok.1, intents ok.2.1, ok.2.2⟩
    | broadcasting => exact fun ok => ⟨ok.1, ok.2.1, intents ok.2.2.1, ok.2.2.2⟩
    | _ => exact id

/-- The world around the hub has no part in the intents. -/
theorem world_kept {st' : State} (kept : Kept cfg st) (now : st'.now = st.now)
    (markers : st'.markers = st.markers) (sends : st'.sends = st.sends)
    (call : st'.call = st.call) : Kept cfg st' := by
  obtain ⟨n', m', k', a', p', c', s'⟩ := st'
  simp only at now markers sends call
  subst now markers sends call
  exact ⟨⟨kept.sends.once, kept.sends.armed, kept.sends.past, kept.sends.covered⟩, by
    intro c running
    have ok := kept.call c running
    revert ok
    cases c.phase <;> exact id⟩

end World

section Calls
variable {cfg : Config} {st : State} {c : Call}

theorem start_call_kept (group : List Section) (kept : Kept cfg st) :
    Kept cfg (startCall st group) := by
  unfold startCall
  split
  · constructor
    · exact ⟨kept.sends.once, kept.sends.armed, kept.sends.past, kept.sends.covered⟩
    · intro c running
      cases running
      exact ⟨rfl, fun key listed => Or.inl listed⟩
  · exact kept

theorem read_intent_kept (ok : Bool) {todo : List Section} (sends : SendsKept cfg st)
    (reading : PhaseOk cfg st c (.reading todo)) : Kept cfg (readIntent cfg st c ok todo) := by
  obtain ⟨bare, read⟩ := reading
  cases todo with
  | nil =>
    apply kept_at sends
    refine ⟨bare, Or.inr ?_⟩
    intro key listed
    rcases read key listed with pending | fresh
    · cases pending
    · exact fresh
  | cons s rest =>
    rw [readIntent]
    split
    · exact kept_end sends
    · split
      · exact kept_at sends bare
      next released =>
        apply kept_at sends
        refine ⟨bare, ?_⟩
        intro key listed
        rcases read key listed with pending | fresh
        · rcases List.mem_cons.mp pending with same | later
          · have free : anchorIntentHolds cfg st.now (st.markers.get s.markerKey) = false := by
              simpa using released
            rw [same]
            exact Or.inr (fresh_of_released sends.past sends.covered free)
          · exact Or.inl later
        · exact Or.inr fresh

theorem hold_looked_kept (looked : Looked) (sends : SendsKept cfg st) (bare : c.armed = []) :
    Kept cfg (holdLooked st c looked) := by
  cases looked with
  | more rest => exact kept_at sends bare
  | done found =>
    cases found with
    | mined txid =>
      have overHeld : PhaseOk cfg st { c with overHold := true } .preparing := ⟨bare, Or.inl rfl⟩
      exact kept_at sends overHeld
    | undetermined => exact kept_end sends
    | absent => exact kept_end sends

theorem prepared_kept (archiveBatch : Option ℕ) (sends : SendsKept cfg st)
    (preparing : PhaseOk cfg st c .preparing) :
    Kept cfg (st.at { c with archiveBatch := archiveBatch } (.arming c.group)) := by
  obtain ⟨bare, may⟩ := preparing
  have arming : PhaseOk cfg st { c with archiveBatch := archiveBatch } (.arming c.group) := by
    refine ⟨may, ⟨?_, ?_⟩, fun key listed => Or.inl listed⟩
    · intro e armed
      rw [bare] at armed
      cases armed
    · intro e armed
      rw [bare] at armed
      cases armed
  exact kept_at sends arming

theorem arm_intent_kept (ok : Bool) {todo : List Section} (sends : SendsKept cfg st)
    (arming : PhaseOk cfg st c (.arming todo)) : Kept cfg (armIntent st c ok todo) := by
  cases todo with
  | nil =>
    rw [armIntent]
    split
    · exact kept_end sends
    · exact kept_at sends arming
  | cons s rest =>
    obtain ⟨may, intents, armed⟩ := arming
    rw [armIntent]
    split
    · exact kept_end sends
    · have kept : SendsKept cfg
          { st with markers := setAnchorPublishedCheckpoint st.now st.markers s.markerKey } :=
        sends_kept_markers sends (fun _ _ _ e _ past cover => covered_set s.markerKey past cover)
      have next' : PhaseOk cfg
          { st with markers := setAnchorPublishedCheckpoint st.now st.markers s.markerKey }
          { c with armed := (s.markerKey, st.now) :: c.armed } (.arming rest) := by
        refine ⟨may, ⟨?_, ?_⟩, ?_⟩
        · intro e listed
          cases listed with
          | head => exact le_refl st.now
          | tail _ old => exact intents.past e old
        · intro e listed
          cases listed with
          | head => exact covered_armed s.markerKey
          | tail _ old => exact covered_set s.markerKey (intents.past e old) (intents.covered e old)
        · intro key listed
          rcases armed key listed with pending | ⟨at', old⟩
          · rcases List.mem_cons.mp pending with same | later
            · exact Or.inr ⟨st.now, same ▸ List.mem_cons_self⟩
            · exact Or.inl later
          · exact Or.inr ⟨at', List.mem_cons_of_mem _ old⟩
      exact kept_at kept next'

theorem withdraw_intent_kept (ok : Bool) {todo : List Section} (sends : SendsKept cfg st)
    (fresh : FreshGroup cfg st.now st.sends todo) : Kept cfg (withdrawIntent st c ok todo) := by
  cases todo with
  | nil => exact kept_end sends
  | cons s rest =>
    have first : Fresh cfg st.now st.sends s.markerKey := fresh s.markerKey List.mem_cons_self
    have later : FreshGroup cfg st.now st.sends rest :=
      fun key listed => fresh key (List.mem_cons_of_mem _ listed)
    rw [withdrawIntent]
    cases ok with
    | false => exact kept_at sends later
    | true =>
      have kept : SendsKept cfg
          { st with markers := deleteAnchorPublishedCheckpoint st.markers s.markerKey } := by
        apply sends_kept_markers sends
        intro send listed landed e armed _ cover
        apply covered_delete _ cover
        intro same
        exact first send listed landed e.2 (same ▸ armed)
      exact kept_at kept later

theorem mark_sent_kept (txid : String) (ok : Bool) (todo : List Section)
    (sends : SendsKept cfg st) : Kept cfg (markSent st c txid ok todo) := by
  cases todo with
  | nil => exact kept_at sends trivial
  | cons s rest =>
    rw [markSent]
    cases ok with
    | false => exact kept_at sends trivial
    | true =>
      have kept : SendsKept cfg
          { st with markers := updateAnchorPublishedCheckpoint st.now st.markers s.markerKey } :=
        sends_kept_markers sends (fun _ _ _ _ _ _ cover => covered_update s.markerKey cover)
      exact kept_at kept trivial

theorem stamp_section_kept (txid : String) (ok : Bool) (todo : List Section)
    (sends : SendsKept cfg st) : Kept cfg (stampSection st c txid ok todo) := by
  cases todo with
  | nil => exact kept_end sends
  | cons s rest =>
    rw [stampSection]
    cases ok with
    | false => exact kept_end sends
    | true =>
      have kept : SendsKept cfg { st with stamped := s :: st.stamped } :=
        ⟨sends.once, sends.armed, sends.past, sends.covered⟩
      exact kept_at kept trivial

end Calls

section Sending
variable {cfg : Config} {st : State} {c : Call}

theorem withdraw_all_kept (sends : SendsKept cfg st)
    (fresh : FreshGroup cfg st.now st.sends c.group) :
    Kept cfg (st.at c (.withdrawing c.group)) := kept_at sends fresh

/-- The newest send puts nothing in the window of an earlier one. -/
theorem send_pushed (sends : SendsKept cfg st) (fresh : FreshGroup cfg st.now st.sends c.group)
    (intents : IntentsKept cfg st.now st.markers c.armed) (armed : ArmedBut c []) :
    SendsKept cfg { st with sends := ⟨c.group, c.armed, st.now, .running⟩ :: st.sends } := by
  constructor
  · apply List.Pairwise.cons _ sends.once
    intro earlier listed landed e member same
    exact fresh e.1 same earlier listed landed e.2 member
  · intro send listed key wanted
    cases listed with
    | head =>
      rcases armed key wanted with pending | found
      · cases pending
      · exact found
    | tail _ old => exact sends.armed send old key wanted
  · intro send listed
    cases listed with
    | head => exact intents.past
    | tail _ old => exact sends.past send old
  · intro send listed
    cases listed with
    | head => exact fun _ => intents.covered
    | tail _ old => exact sends.covered send old

theorem attempt_send_kept (sends : SendsKept cfg st)
    (fresh : FreshGroup cfg st.now st.sends c.group)
    (intents : IntentsKept cfg st.now st.markers c.armed) (armed : ArmedBut c []) :
    Kept cfg (attemptSend st c) := by
  unfold attemptSend
  split
  · split
    · exact kept_end sends
    · exact withdraw_all_kept sends fresh
  · apply kept_at (send_pushed sends fresh intents armed)
    exact ⟨⟨_, _, rfl, rfl⟩, fresh, intents, armed⟩

/-- Past an intent the lookup adopts; elsewhere the sections were fresh. -/
theorem send_looked_kept {looked : Looked} (sends : SendsKept cfg st)
    (looking : PhaseOk cfg st c .entering)
    (adopts : c.overHold = true → looked ≠ .done .undetermined ∧ looked ≠ .done .absent) :
    Kept cfg (sendLooked st c looked) := by
  obtain ⟨may, intents, armed⟩ := looking
  have fresh : looked = .done .undetermined ∨ looked = .done .absent →
      FreshGroup cfg st.now st.sends c.group := by
    intro missed
    rcases may with overHeld | fresh
    · obtain ⟨notUndetermined, notAbsent⟩ := adopts overHeld
      rcases missed with undetermined | absent
      · exact absurd undetermined notUndetermined
      · exact absurd absent notAbsent
    · exact fresh
  cases looked with
  | more rest =>
    have looking : PhaseOk cfg st c (.looking rest) := ⟨may, intents, armed⟩
    exact kept_at sends looking
  | done found =>
    cases found with
    | mined txid => exact kept_at sends trivial
    | undetermined =>
      rw [sendLooked]
      split
      · exact kept_end sends
      · exact attempt_send_kept sends (fresh (Or.inl rfl)) intents armed
    | absent => exact attempt_send_kept sends (fresh (Or.inr rfl)) intents armed

theorem settle_send_kept (outcome : Outcome) (sends : SendsKept cfg st)
    (running : Running st.sends) :
    SendsKept cfg { st with sends := settleSend outcome st.sends } := by
  obtain ⟨send, rest, shape, state⟩ := running
  obtain ⟨once, armed, past, covered⟩ := sends
  rw [shape] at once armed past covered
  rw [shape, settleSend]
  obtain ⟨head, tail⟩ := List.pairwise_cons.mp once
  constructor
  · exact List.Pairwise.cons head tail
  · intro other listed
    cases listed with
    | head => exact armed send List.mem_cons_self
    | tail _ old => exact armed other (List.mem_cons_of_mem _ old)
  · intro other listed
    cases listed with
    | head => exact past send List.mem_cons_self
    | tail _ old => exact past other (List.mem_cons_of_mem _ old)
  · intro other listed landed
    cases listed with
    | head =>
      have before : send.mayHaveLanded := by
        unfold Send.mayHaveLanded
        rw [state]
        decide
      exact covered send List.mem_cons_self before
    | tail _ old => exact covered other (List.mem_cons_of_mem _ old) landed

theorem send_returned_kept (txid : Option String) (sends : SendsKept cfg st)
    (running : Running st.sends) : Kept cfg (sendReturned st c txid) := by
  have settled := settle_send_kept .returned sends running
  cases txid with
  | none => exact kept_end settled
  | some txid => exact kept_at settled trivial

/-- A send that failed definitively leaves its sections as fresh as they were. -/
theorem never_sent_fresh (running : Running st.sends)
    (before : FreshGroup cfg st.now st.sends.tail c.group) :
    FreshGroup cfg st.now (settleSend .neverSent st.sends) c.group := by
  obtain ⟨send, rest, shape, state⟩ := running
  rw [shape] at before ⊢
  intro key listed other member landed
  cases member with
  | head => exact absurd rfl landed
  | tail _ old => exact before key listed other old landed

theorem send_threw_kept (failure : SendFailure) (sends : SendsKept cfg st)
    (broadcasting : PhaseOk cfg st c .broadcasting) : Kept cfg (sendThrew cfg st c failure) := by
  obtain ⟨running, before, intents, armed⟩ := broadcasting
  cases landed : failure.mayHaveLanded with
  | true =>
    have settled := settle_send_kept .ambiguous sends running
    unfold sendThrew sendFailed
    simp only [landed, if_true]
    split
    · exact kept_end settled
    · exact kept_at settled trivial
  | false =>
    have settled := settle_send_kept .neverSent sends running
    have fresh := never_sent_fresh running before
    have withdrawn := withdraw_all_kept settled fresh
    have again : ∀ c' : Call, c'.group = c.group → c'.armed = c.armed →
        Kept cfg (retry { st with sends := settleSend .neverSent st.sends } c' failure) := by
      intro c' group same
      apply kept_at settled
      refine ⟨Or.inr ?_, ?_, ?_⟩
      · exact group ▸ fresh
      · exact same ▸ intents
      · intro key listed
        rw [group] at listed
        rw [same]
        exact armed key listed
    unfold sendThrew sendFailed
    simp only [landed]
    split
    · exact withdrawn
    · rw [if_neg (by decide)]
      split
      · split
        · exact withdrawn
        · exact again _ rfl rfl
      · split
        · exact again _ rfl rfl
        · exact withdrawn

theorem poll_looked_kept (left : ℕ) (looked : Looked) (sends : SendsKept cfg st) :
    Kept cfg (pollLooked st c left looked) := by
  cases looked with
  | more rest => exact kept_at sends trivial
  | done found =>
    cases found with
    | mined txid => exact kept_at sends trivial
    | undetermined =>
      rw [pollLooked]
      split
      · exact kept_end sends
      · exact kept_at sends trivial
      · intro txid same
        cases same
    | absent =>
      rw [pollLooked]
      split
      · exact kept_end sends
      · exact kept_at sends trivial
      · intro txid same
        cases same

end Sending

section Runs
variable {cfg : Config} {st : State}

theorem enter_broadcast_kept {c : Call} (granted : Bool) (sends : SendsKept cfg st)
    (entering : PhaseOk cfg st c .entering) (adopts : c.overHold = true → granted = true) :
    Kept cfg (enterBroadcast st c granted) := by
  obtain ⟨may, intents, armed⟩ := entering
  unfold enterBroadcast
  split
  · have looking : PhaseOk cfg st c (.looking (findExisting c.group c.archiveBatch)) :=
      ⟨may, intents, armed⟩
    exact kept_at sends looking
  next refused =>
    rcases may with overHeld | fresh
    · exact absurd (adopts overHeld) refused
    · exact withdraw_all_kept sends fresh

theorem adopts_budget {c : Call} {granted : Bool} (held : st.call = some c)
    (phase : c.phase = .entering) (adopts : AdoptsHeld st (.budget granted)) :
    c.overHold = true → granted = true := by
  intro overHeld
  unfold AdoptsHeld adoptsHeld at adopts
  rw [held] at adopts
  simpa [overHeld, phase] using adopts

theorem adopts_lookup {c : Call} {look : Lookup} {answered : Bool} (held : st.call = some c)
    (phase : c.phase = .looking look) (adopts : AdoptsHeld st (.indexerReply answered)) :
    c.overHold = true → look.reply st.mined answered ≠ .done .undetermined ∧
      look.reply st.mined answered ≠ .done .absent := by
  intro overHeld
  unfold AdoptsHeld adoptsHeld at adopts
  rw [held] at adopts
  simp only [overHeld, phase] at adopts
  constructor
  · intro missed
    rw [missed] at adopts
    cases adopts
  · intro missed
    rw [missed] at adopts
    cases adopts

theorem call_step_kept {c : Call} (ev : Event) (kept : Kept cfg st) (held : st.call = some c)
    (adopts : AdoptsHeld st ev) : Kept cfg (callStep cfg st c ev) := by
  have ok := kept.call c held
  unfold callStep
  split
  next todo ok' phase => exact read_intent_kept ok' kept.sends (phase ▸ ok)
  next look answered phase =>
    rw [phase] at ok
    exact hold_looked_kept _ kept.sends ok
  next archiveBatch phase => exact prepared_kept archiveBatch kept.sends (phase ▸ ok)
  next => exact kept_end kept.sends
  next todo ok' phase => exact arm_intent_kept ok' kept.sends (phase ▸ ok)
  next granted phase =>
    exact enter_broadcast_kept granted kept.sends (phase ▸ ok) (adopts_budget held phase adopts)
  next look answered phase =>
    rw [phase] at ok
    exact send_looked_kept kept.sends ok (adopts_lookup held phase adopts)
  next txid phase =>
    rw [phase] at ok
    exact send_returned_kept txid kept.sends ok.1
  next failure phase => exact send_threw_kept failure kept.sends (phase ▸ ok)
  next left look answered phase =>
    split
    · exact kept_end kept.sends
    · exact poll_looked_kept left _ kept.sends
  next todo ok' phase =>
    rw [phase] at ok
    exact withdraw_intent_kept ok' kept.sends ok
  next txid todo ok' phase => exact mark_sent_kept txid ok' todo kept.sends
  next txid todo ok' phase => exact stamp_section_kept txid ok' todo kept.sends
  next => exact kept

theorem crash_call_kept (kept : Kept cfg st) : Kept cfg (crashCall st) := by
  unfold crashCall
  split
  · exact kept
  next c held =>
    have ok := kept.call c held
    split
    next phase =>
      rw [phase] at ok
      exact kept_end (settle_send_kept .crashed kept.sends ok.1)
    next => exact kept_end kept.sends

theorem step_kept (ev : Event) (kept : Kept cfg st) (adopts : AdoptsHeld st ev) :
    Kept cfg (step cfg st ev) := by
  cases ev with
  | tick ms => exact tick_kept ms kept
  | mine tx => exact world_kept kept rfl rfl rfl rfl
  | pause on => exact world_kept kept rfl rfl rfl rfl
  | stamp s => exact world_kept kept rfl rfl rfl rfl
  | unstamp s => exact world_kept kept rfl rfl rfl rfl
  | prune key => exact prune_kept key kept
  | crash => exact crash_call_kept kept
  | start group => exact start_call_kept group kept
  | _ =>
    simp only [step]
    split
    · exact kept
    next c held => exact call_step_kept _ kept held adopts

/-- On every run that adopts what it lets past a holding intent, a section is sent once within
    the window of its intent, and never without one. -/
theorem anchor_sent_at_most_once (cfg : Config) {st : State} {es : List Event}
    (idle : st.call = none) (unsent : st.sends = [])
    (adopted : Admitted (step cfg) AdoptsHeld st es) :
    AtMostOnce cfg (run (step cfg) st es).sends ∧ AllArmed (run (step cfg) st es).sends := by
  have start : Kept cfg st := by
    constructor
    · refine ⟨?_, ?_, ?_, ?_⟩
      · rw [AtMostOnce, unsent]
        exact List.Pairwise.nil
      · intro send listed
        rw [unsent] at listed
        cases listed
      · intro send listed
        rw [unsent] at listed
        cases listed
      · intro send listed
        rw [unsent] at listed
        cases listed
    · intro c running
      rw [idle] at running
      cases running
  have kept :=
    run_invariant (Kept cfg) (fun s e kept adopts => step_kept e kept adopts) start adopted
  exact ⟨kept.sends.once, kept.sends.armed⟩

section Sample

instance (send : Send) : Decidable send.mayHaveLanded := inferInstanceAs (Decidable (_ ≠ _))

instance (cfg : Config) (sends : List Send) : Decidable (AtMostOnce cfg sends) :=
  inferInstanceAs (Decidable (sends.Pairwise _))

def sampleConfig : Config := ⟨21600000, 3, 3, 2592000000⟩

def sampleSection : Section := ⟨"BTC", "mainnet", 900000, 9000⟩

def idleState : State := ⟨0, [], .empty, [], false, none, []⟩

/- A first call whose send returns and is marked, and whose stamp fails; it is mined, and the
   section, still pending, comes up again within the hour. -/
def paidOnce : List Event :=
  [.start [sampleSection], .dbReply true, .dbReply true, .prepared none, .dbReply true,
    .dbReply true, .budget true, .indexerReply true, .returned (some "t1"), .dbReply true,
    .dbReply true, .dbReply false, .mine ⟨"t1", [sampleSection], none⟩, .tick 3600000,
    .start [sampleSection], .dbReply true, .indexerReply true, .indexerReply true,
    .prepared none, .dbReply true, .dbReply true, .budget true]

/- The hold check saw the mined anchor, the indexer fails the check before the send, and the
   section is paid for again. -/
theorem unanswered_lookup_pays_twice :
    ¬ AtMostOnce sampleConfig
      (run (step sampleConfig) idleState (paidOnce ++ [.indexerReply false])).sends := by
  decide

theorem answered_lookup_pays_once :
    AtMostOnce sampleConfig
        (run (step sampleConfig) idleState
          (paidOnce ++ [.indexerReply true, .indexerReply true])).sends ∧
      AllArmed
        (run (step sampleConfig) idleState
          (paidOnce ++ [.indexerReply true, .indexerReply true])).sends :=
  anchor_sent_at_most_once sampleConfig rfl rfl (by decide)

end Sample

end Runs

end XChainHub.Anchor.Publisher
