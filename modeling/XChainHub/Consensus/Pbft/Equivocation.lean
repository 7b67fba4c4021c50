import XChainHub.Library.GuardedRuns
import XChainHub.Consensus.Pbft.Actions

/-!
The durable votes one hub signs. Every opened record contributes one vote, every
signature repeats the vote of some record, so a hub signs two digests in one slot
exactly when it opens two records with different digests there.
-/
namespace XChainHub.Pbft
open GuardedRuns

variable {Config : Type}

def Output.signature : Output Config → Option EquivVote
  | .broadcast _ equiv => equiv
  | _ => none

def signatures (h : Hub Config) : List EquivVote := h.trace.filterMap Output.signature

/- The votes the records of the heap stand for, in the order of opening. -/
def recordVotes (cfg : Params Config) (h : Hub Config) : List EquivVote :=
  h.proposals.filterMap (Proposal.vote cfg)

def SlotsAgree (votes : List EquivVote) : Prop :=
  ∀ v ∈ votes, ∀ w ∈ votes, v.seq = w.seq → v.view = w.view → v.digest = w.digest

/- The step opens no record in a slot where an earlier record has another digest. -/
def SlotKept (cfg : Params Config) (h : Hub Config) (m : Env × Event Config) : Prop :=
  ∀ p v, opens cfg h m = some p → p.vote cfg = some v →
    ∀ w ∈ recordVotes cfg h, w.seq = v.seq → w.view = v.view → w.digest = v.digest

def anyEnvelope (_ : Envelope Config) : Prop := True

section
variable {cfg : Params Config} {env : Env}

theorem same_round_vote {p q : Proposal Config} (same : p.SameRound q) :
    q.vote cfg = p.vote cfg := by
  simp only [Proposal.vote, same.seq, same.view, same.digest, same.height]

theorem filter_map_modify {A B : Type} (g : A → Option B) {f : A → A}
    (same : ∀ a, g (f a) = g a) (as : List A) (i : ℕ) :
    (as.modify i f).filterMap g = as.filterMap g := by
  induction as generalizing i with
  | nil => simp
  | cons a as ih =>
    cases i with
    | zero => simp [List.filterMap_cons, same]
    | succ i => simp [List.filterMap_cons, ih]

theorem modify_record_votes {h : Hub Config} {pid : ℕ} {f : Proposal Config → Proposal Config}
    (same : ∀ p : Proposal Config, p.SameRound (f p)) :
    recordVotes cfg (h.modify pid f) = recordVotes cfg h :=
  filter_map_modify _ (fun p => same_round_vote (same p)) h.proposals pid

theorem act_record_votes {seen : Envelope Config → Prop} {a b : Hub Config}
    (act : Act cfg env seen a b) : recordVotes cfg b = recordVotes cfg a := by
  cases act with
  | quiet heap map said parked last votes => simp only [recordVotes, heap]
  | park admitted => rfl
  | finish tid => rfl
  | forget seq => rfl
  | mark pid marks => exact modify_record_votes marks.same
  | say silent => rfl
  | sign held kind => rfl
  | sendCommit held fresh met =>
    exact modify_record_votes (fun _ => ⟨rfl, rfl, rfl, rfl, rfl, rfl, rfl, rfl⟩)
  | countPrepare held round counts => exact modify_record_votes round
  | countCommit held vote known data =>
    exact modify_record_votes (fun _ => ⟨rfl, rfl, rfl, rfl, rfl, rfl, rfl, rfl⟩)
  | startApply held fresh met nonempty =>
    exact modify_record_votes (fun _ => ⟨rfl, rfl, rfl, rfl, rfl, rfl, rfl, rfl⟩)
  | finishConfig held running =>
    exact modify_record_votes (fun _ => ⟨rfl, rfl, rfl, rfl, rfl, rfl, rfl, rfl⟩)
  | finishSeq held running =>
    exact modify_record_votes (fun _ => ⟨rfl, rfl, rfl, rfl, rfl, rfl, rfl, rfl⟩)

theorem act_trace {seen : Envelope Config → Prop} {a b : Hub Config}
    (act : Act cfg env seen a b) : a.trace <+: b.trace := by
  cases act with
  | quiet heap map said parked last votes => rw [said]
  | park admitted => exact List.prefix_refl _
  | finish tid => exact List.prefix_refl _
  | forget seq => exact List.prefix_refl _
  | mark pid marks => exact List.prefix_refl _
  | say silent => exact List.prefix_append _ _
  | sign held kind => exact List.prefix_append _ _
  | sendCommit held fresh met => exact List.prefix_append _ _
  | countPrepare held round counts => exact List.prefix_refl _
  | countCommit held vote known data => exact List.prefix_refl _
  | startApply held fresh met nonempty => exact List.prefix_refl _
  | finishConfig held running => exact List.prefix_append _ _
  | finishSeq held running => exact List.prefix_refl _

theorem pending_vote_listed {h : Hub Config} {seq : ℚ} {pid : ℕ} {p : Proposal Config}
    {v : EquivVote} (held : h.pending seq = some (pid, p)) (vote : p.vote cfg = some v) :
    v ∈ recordVotes cfg h :=
  List.mem_filterMap.mpr ⟨p, List.mem_of_getElem? (pending_eq_some.mp held).2, vote⟩

theorem acts_record_votes {seen : Envelope Config → Prop} {a b : Hub Config}
    (path : Relation.ReflTransGen (Act cfg env seen) a b) :
    recordVotes cfg b = recordVotes cfg a := by
  induction path with
  | refl => rfl
  | tail _ last ih => rw [act_record_votes last, ih]

theorem acts_trace {seen : Envelope Config → Prop} {a b : Hub Config}
    (path : Relation.ReflTransGen (Act cfg env seen) a b) : a.trace <+: b.trace := by
  induction path with
  | refl => exact List.prefix_refl _
  | tail _ last ih => exact ih.trans (act_trace last)

/- Every signature is the vote of a record. -/
def SignaturesRecorded (cfg : Params Config) (h : Hub Config) : Prop :=
  ∀ v ∈ signatures h, v ∈ recordVotes cfg h

theorem emit_signatures (h : Hub Config) (o : Output Config) :
    signatures (h.emit o) = signatures h ++ o.signature.toList := by
  cases found : o.signature <;> simp [signatures, Hub.emit, found]

theorem act_signatures_recorded {seen : Envelope Config → Prop} {a b : Hub Config}
    (act : Act cfg env seen a b) (recorded : SignaturesRecorded cfg a) :
    SignaturesRecorded cfg b := by
  have same := act_record_votes act
  have grown : ∀ o : Output Config, (∀ v, o.signature = some v → v ∈ recordVotes cfg a) →
      ∀ v ∈ signatures a ++ o.signature.toList, v ∈ recordVotes cfg a := by
    intro o new v member
    rcases List.mem_append.mp member with old | last
    · exact recorded v old
    · exact new v (by simpa using last)
  intro v member
  rw [same]
  cases act with
  | quiet heap map said parked last votes =>
    exact recorded v (by simpa [signatures, said] using member)
  | park admitted => exact recorded v member
  | finish tid => exact recorded v member
  | forget seq => exact recorded v member
  | mark pid marks => exact recorded v member
  | say silent =>
    rename_i o
    rw [emit_signatures] at member
    refine grown o (fun w signed => ?_) v member
    cases o with
    | broadcast data equiv => exact absurd signed (by simp [Output.signature, silent.2])
    | applied seq digest => exact absurd signed (by simp [Output.signature])
    | appliedDirect digest => exact absurd signed (by simp [Output.signature])
    | settled seq ok => exact absurd signed (by simp [Output.signature])
  | sign held kind =>
    rw [emit_signatures] at member
    refine grown _ (fun w vote => ?_) v member
    exact pending_vote_listed held vote
  | sendCommit held fresh met =>
    rw [emit_signatures] at member
    refine grown _ (fun w vote => ?_) v member
    exact pending_vote_listed held vote
  | countPrepare held round counts => exact recorded v member
  | countCommit held vote known data => exact recorded v member
  | startApply held fresh met nonempty => exact recorded v member
  | finishConfig held running =>
    rw [emit_signatures] at member
    exact grown _ (fun w vote => absurd vote (by simp [Output.signature])) v member
  | finishSeq held running => exact recorded v member

theorem acts_signatures_recorded {seen : Envelope Config → Prop} {a b : Hub Config}
    (path : Relation.ReflTransGen (Act cfg env seen) a b)
    (recorded : SignaturesRecorded cfg a) : SignaturesRecorded cfg b := by
  induction path with
  | refl => exact recorded
  | tail _ last ih => exact act_signatures_recorded last ih

end

section
variable {cfg : Params Config} {h : Hub Config} {m : Env × Event Config}

theorem delivered_any : ∀ e, m.2 = .deliver e → isKnownSender cfg m.1 e = true →
    anyEnvelope e := fun _ _ _ => trivial

theorem step_acts (ready : Ready anyEnvelope h) :
    Relation.ReflTransGen (Act cfg m.1 anyEnvelope) (h.opened (opens cfg h m)) (step cfg h m) :=
  (step_leads h m delivered_any (ready.opened _)).1

theorem opened_record_votes : recordVotes cfg (h.opened (opens cfg h m)) =
    recordVotes cfg h ++ ((opens cfg h m).bind (Proposal.vote cfg)).toList := by
  cases found : opens cfg h m with
  | none => simp [Hub.opened]
  | some p =>
    cases vote : p.vote cfg <;> simp [Hub.opened, recordVotes, Hub.openRecord, vote]

/-- A step adds to the votes of the heap exactly the vote of the record it opens. -/
theorem step_record_votes (ready : Ready anyEnvelope h) : recordVotes cfg (step cfg h m) =
    recordVotes cfg h ++ ((opens cfg h m).bind (Proposal.vote cfg)).toList := by
  rw [← opened_record_votes, acts_record_votes (step_acts ready)]

theorem step_trace (ready : Ready anyEnvelope h) : h.trace <+: (step cfg h m).trace := by
  have opened : (h.opened (opens cfg h m)).trace = h.trace := by
    cases opens cfg h m <;> rfl
  rw [← opened]
  exact acts_trace (step_acts ready)

theorem signed_kept {a b : Hub Config} (grown : a.trace <+: b.trace) {v : EquivVote}
    (member : v ∈ signatures a) : v ∈ signatures b := by
  obtain ⟨o, said, signed⟩ := List.mem_filterMap.mp member
  exact List.mem_filterMap.mpr ⟨o, grown.subset said, signed⟩

theorem leads_trace {env : Env} {a b : Hub Config} (leads : Leads cfg env anyEnvelope a b)
    (ready : Ready anyEnvelope a) : a.trace <+: b.trace :=
  acts_trace (leads ready).1

theorem cast_prepare_signs {h : Hub Config} (ready : Ready anyEnvelope h) {env : Env} {seq : ℚ}
    {pid : ℕ} {p : Proposal Config} (envelope : Envelope Config)
    (held : h.pending seq = some (pid, p)) {v : EquivVote} (vote : p.vote cfg = some v) :
    v ∈ signatures (castPrepare cfg env h envelope seq p.digest) := by
  have same := ready.pending_seq held
  have marked := ready.modify (f := Proposal.castPrepare cfg env envelope) pid (fun _ => rfl)
  simp only [castPrepare, held, ne_eq, not_true_eq_false, if_false]
  have rest (g : Hub Config) : Leads cfg env anyEnvelope g
      (replayEarlyVotes cfg env (checkPrepareQuorum cfg g seq) seq) :=
    (check_prepare_quorum_leads g seq).trans (replay_early_votes_leads _ seq)
  refine signed_kept (leads_trace (rest _) (marked.emit _)) ?_
  rw [emit_signatures]
  refine List.mem_append_right _ ?_
  rw [Proposal.vote, same] at vote
  simp [Output.signature, vote]

theorem announce_round_signs {h : Hub Config} (ready : Ready anyEnvelope h) {pid : ℕ}
    {p : Proposal Config} (env : Env) {v : EquivVote} (vote : p.vote cfg = some v) :
    v ∈ signatures (announceRound cfg h pid p) := by
  have marked := ready.modify (f := Proposal.castOwn cfg) pid (fun _ => rfl)
  have rest (g : Hub Config) : Leads cfg env anyEnvelope g (checkPrepareQuorum cfg g p.seq) :=
    check_prepare_quorum_leads g p.seq
  refine signed_kept (leads_trace (rest _) (marked.emit _)) ?_
  rw [emit_signatures]
  refine List.mem_append_right _ ?_
  rw [Proposal.vote] at vote
  simp [Output.signature, vote]

theorem follower_record_fields {env : Env} {envelope : Envelope Config} {seq view : ℚ}
    {digest : String} {config : Config} {height myTip : Option ℚ} {tipBound : Bool}
    {reply : LockReply} {p : Proposal Config}
    (record : followerRecord cfg env envelope seq view digest config height tipBound myTip reply =
      some p) : p.seq = seq ∧ p.view = view ∧ p.digest = digest := by
  simp only [followerRecord] at record
  split at record
  · simp at record
  · obtain ⟨round, -, rfl⟩ := Option.map_eq_some_iff.mp record
    exact ⟨rfl, rfl, rfl⟩

/-- Opening a record signs its vote in the same step. -/
theorem step_signs_opened (ready : Ready anyEnvelope h) {p : Proposal Config} {v : EquivVote}
    (record : opens cfg h m = some p) (vote : p.vote cfg = some v) :
    v ∈ signatures (step cfg h m) := by
  obtain ⟨tid, tip, reply, locked, ⟨envelope, _, _, _, _, _, _, found, follows⟩ | ⟨_, found, outcome⟩⟩ :=
    opens_cases record
  all_goals have finished := ready.finish tid
  · simp only [step, locked, resume, found, follows]
    obtain ⟨same, -, agrees⟩ := follower_record_fields follows
    rw [← same, ← agrees]
    exact cast_prepare_signs (finished.open p) envelope (open_pending _ p) vote
  · simp only [step, locked, resume, found, outcome]
    have slot : Ready anyEnvelope ((h.finishTask tid).takeSlot p.seq) :=
      ⟨finished.linked, finished.buffered, finished.parked⟩
    exact announce_round_signs (slot.open p) m.1 vote

/- Signatures and record votes are the same votes. -/
structure Accounted (cfg : Params Config) (h : Hub Config) : Prop where
  ready : Ready anyEnvelope h
  recorded : SignaturesRecorded cfg h
  signed : ∀ v ∈ recordVotes cfg h, v ∈ signatures h

theorem step_accounted (before : Accounted cfg h) : Accounted cfg (step cfg h m) := by
  refine ⟨step_ready before.ready delivered_any, ?_, ?_⟩
  · refine acts_signatures_recorded (step_acts before.ready) ?_
    intro v member
    rw [opened_record_votes]
    have old : signatures (h.opened (opens cfg h m)) = signatures h := by
      cases opens cfg h m <;> rfl
    rw [old] at member
    exact List.mem_append_left _ (before.recorded v member)
  · intro v member
    rw [step_record_votes before.ready] at member
    rcases List.mem_append.mp member with old | new
    · exact signed_kept (step_trace before.ready) (before.signed v old)
    · obtain ⟨p, record, vote⟩ := Option.bind_eq_some_iff.mp (Option.mem_toList.mp new)
      exact step_signs_opened before.ready record vote

theorem started_accounted (seq : ℚ) : Accounted cfg (Hub.started seq) := by
  refine ⟨started_ready seq, ?_, ?_⟩
  · intro v member
    exact absurd member (by simp [signatures, Hub.started])
  · intro v member
    exact absurd member (by simp [recordVotes, Hub.started])

theorem run_accounted (cfg : Params Config) (seq : ℚ) (ms : List (Env × Event Config)) :
    Accounted cfg (run (step cfg) (Hub.started seq) ms) :=
  run_preserves (Accounted cfg) (fun _ _ before => step_accounted before)
    (started_accounted seq) ms

theorem slots_agree_append {votes more : List EquivVote} : SlotsAgree (votes ++ more) ↔
    SlotsAgree votes ∧ SlotsAgree more ∧
      ∀ v ∈ more, ∀ w ∈ votes, w.seq = v.seq → w.view = v.view → w.digest = v.digest := by
  constructor
  · intro agree
    refine ⟨?_, ?_, ?_⟩
    · exact fun v hv w hw => agree v (List.mem_append_left _ hv) w (List.mem_append_left _ hw)
    · exact fun v hv w hw => agree v (List.mem_append_right _ hv) w (List.mem_append_right _ hw)
    · exact fun v hv w hw => agree w (List.mem_append_left _ hw) v (List.mem_append_right _ hv)
  · rintro ⟨old, new, across⟩ v hv w hw seq view
    rcases List.mem_append.mp hv with hv | hv <;> rcases List.mem_append.mp hw with hw | hw
    · exact old v hv w hw seq view
    · exact across w hw v hv seq view
    · exact (across v hv w hw seq.symm view.symm).symm
    · exact new v hv w hw seq view

theorem slots_agree_single (v : Option EquivVote) : SlotsAgree v.toList := by
  intro a ha b hb _ _
  simp only [Option.mem_toList] at ha hb
  rw [ha] at hb
  rw [Option.some.inj hb]

theorem step_slots_agree (ready : Ready anyEnvelope h) :
    SlotsAgree (recordVotes cfg (step cfg h m)) ↔
      SlotsAgree (recordVotes cfg h) ∧ SlotKept cfg h m := by
  rw [step_record_votes ready, slots_agree_append]
  constructor
  · rintro ⟨old, -, across⟩
    refine ⟨old, fun p v record vote => across v ?_⟩
    exact Option.mem_toList.mpr (Option.bind_eq_some_iff.mpr ⟨p, record, vote⟩)
  · rintro ⟨old, kept⟩
    refine ⟨old, slots_agree_single _, fun v new => ?_⟩
    obtain ⟨p, record, vote⟩ := Option.bind_eq_some_iff.mp (Option.mem_toList.mp new)
    exact kept p v record vote

end

/-- Over every run of one hub: no two of its signatures share a slot and differ in
    the digest exactly when no step opened a record in a slot where an earlier
    record carries another digest. -/
theorem config_equivocation_iff (cfg : Params Config) (seq : ℚ) (ms : List (Env × Event Config)) :
    SlotsAgree (signatures (run (step cfg) (Hub.started seq) ms)) ↔
      Admitted (step cfg) (SlotKept cfg) (Hub.started seq) ms := by
  have same : SlotsAgree (signatures (run (step cfg) (Hub.started seq) ms)) ↔
      SlotsAgree (recordVotes cfg (run (step cfg) (Hub.started seq) ms)) := by
    have accounted := run_accounted cfg seq ms
    constructor
    · exact fun agree v hv w hw => agree v (accounted.signed v hv) w (accounted.signed w hw)
    · exact fun agree v hv w hw => agree v (accounted.recorded v hv) w (accounted.recorded w hw)
  rw [same]
  clear same
  induction ms using List.reverseRecOn with
  | nil => simp [run, Admitted, recordVotes, Hub.started, SlotsAgree]
  | append_singleton front m ih =>
    have accounted := run_accounted cfg seq front
    rw [run_append, run_singleton, admitted_append, step_slots_agree accounted.ready]
    simp only [Admitted, and_true]
    exact and_congr ih Iff.rfl

/- Four hubs h0..h3 with keys k0..k3, locked at height 100; the config is its own digest. -/
def fourMembers : Snapshot :=
  ⟨some 4, some [⟨"k0", some "s0", some "1"⟩, ⟨"k1", some "s1", some "1"⟩,
    ⟨"k2", some "s2", some "1"⟩, ⟨"k3", some "s3", some "1"⟩], false⟩

def fourHubs : Env :=
  ⟨some [("h0", "k0"), ("h1", "k1"), ("h2", "k2"), ("h3", "k3")], none,
    [⟨"h0", some "k0"⟩, ⟨"h1", some "k1"⟩, ⟨"h2", some "k2"⟩, ⟨"h3", some "k3"⟩], 3, 0⟩

def countParams (addr key : String) : Params String where
  validatorAddr := addr
  identity := some key
  minValidators := 4
  seedNodes := 3
  snapshotToleranceBlocks := 10
  timeout := 30000
  capabilitySnapshot := true
  digest := id
  toLowerCase := StakeWeightedQuorum.asciiLower
  federatedHubActive := fun _ => false
  stakeWeightedActive := fun _ => false
  equivHeaderActive := fun height => height.isSome

def fourLock : LockReply := ⟨some 100, some fourMembers⟩

def prePrepareFrom (addr key config : String) (seq view : ℚ) : Envelope String :=
  ⟨addr, some key, .prePrepare (some seq) (some view) (some config) (some config) (some 100)⟩

/- The slot leader k1 proposes A, the record expires, k1 proposes B in the same slot. -/
def expiredSlotRun : List (Env × Event String) :=
  [(fourHubs, .deliver (prePrepareFrom "h1" "k1" "A" 1 0)),
   (fourHubs, .locked 0 (some 100) fourLock),
   (fourHubs, .followerExpiry 0),
   (fourHubs, .deliver (prePrepareFrom "h1" "k1" "B" 1 0)),
   (fourHubs, .locked 1 (some 100) fourLock)]

/-- An honest follower signs A and then B for the slot (1, 0). -/
theorem expired_slot_signed_twice :
    ¬ SlotsAgree
      (signatures (run (step (countParams "h0" "k0")) (Hub.started 0) expiredSlotRun)) := by
  have both : signatures (run (step (countParams "h0" "k0")) (Hub.started 0) expiredSlotRun) =
      [⟨1, 0, some 100, "A"⟩, ⟨1, 0, some 100, "B"⟩] := by
    decide +kernel
  rw [both]
  intro agree
  exact absurd (agree ⟨1, 0, some 100, "A"⟩ (by simp) ⟨1, 0, some 100, "B"⟩ (by simp) rfl rfl)
    (by decide)

end XChainHub.Pbft
