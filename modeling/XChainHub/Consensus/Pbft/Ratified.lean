import XChainHub.Consensus.Pbft.Equivocation

/-!
Who ratifies a config in count mode. The quorum is sized from the locked snapshot and
the votes are counted by key, whoever the admission check lets in; while it lets in
members only, a COMMIT rests on a quorum of members and an apply on another.
-/
namespace XChainHub.Pbft
open GuardedRuns BftQuorum

variable {Config : Type}

def Task.envelope : Task Config → Option (Envelope Config)
  | .prePrepare envelope _ _ _ _ _ _ => some envelope
  | .propose _ => none

def Event.envelope : Event Config → Option (Envelope Config)
  | .deliver envelope => some envelope
  | _ => none

/- The envelopes a step may count: delivered now, buffered, or parked at a lock. -/
def heard (h : Hub Config) (m : Env × Event Config) : List (Envelope Config) :=
  m.2.envelope.toList ++ h.earlyVotes.flatMap EarlyBucket.votes ++
    h.tasks.filterMap (fun t => t.bind Task.envelope)

def Envelope.commits (cfg : Params Config) (env : Env) (e : Envelope Config) (seq : ℚ)
    (digest : String) : Bool :=
  match e.data with
  | .commit s d => s = some seq && d = some digest && isKnownSender cfg env e
  | _ => false

def Envelope.votes (cfg : Params Config) (env : Env) (e : Envelope Config)
    (p : Proposal Config) : Bool :=
  e.prepares cfg env p.seq p.digest || e.commits cfg env p.seq p.digest

/- The votes a count-mode round may count, this hub's own among them, are members'. -/
def Proposal.MembersVote (cfg : Params Config) (env : Env) (now : List (Envelope Config))
    (p : Proposal Config) : Prop :=
  p.weighted = false → ∀ members ∈ p.memberPubkeys,
    (∀ k ∈ selfPubkey cfg, k ∈ members) ∧
      ∀ e ∈ now, e.votes cfg env p = true → ∀ k ∈ provenPubkey cfg e, k ∈ members

/- So it is in every round that is open once the step has opened its own. -/
def CountsMembers (cfg : Params Config) (h : Hub Config) (m : Env × Event Config) : Prop :=
  ∀ seq ∈ (h.opened (opens cfg h m)).pendingProposals.keys,
    ∀ found ∈ (h.opened (opens cfg h m)).pending seq,
      found.2.MembersVote cfg m.1 (heard h m)

/- Delivered to this hub while its sender was admitted. -/
def Delivered (cfg : Params Config) (past : List (Env × Event Config)) (e : Envelope Config) :
    Prop := ∃ m ∈ past, m.2 = .deliver e ∧ isKnownSender cfg m.1 e = true

/- The key voted PREPARE: its envelope says so, or it is this hub's own. -/
def PrepareVoter (cfg : Params Config) (seen : Envelope Config → Prop) (p : Proposal Config)
    (k : String) : Prop :=
  selfPubkey cfg = some k ∨ ∃ e, seen e ∧ provenPubkey cfg e = some k ∧
    ((e.data = .prepare (some p.seq) (some p.digest)) ∨
      ∃ view config height, e.data = .prePrepare (some p.seq) view (some p.digest) config height)

def CommitVoter (cfg : Params Config) (seen : Envelope Config → Prop) (p : Proposal Config)
    (k : String) : Prop :=
  selfPubkey cfg = some k ∨ ∃ e, seen e ∧ provenPubkey cfg e = some k ∧
    e.data = .commit (some p.seq) (some p.digest)

/- At least a quorum of the round's members, where it has a locked snapshot. -/
def Proposal.Ratified (p : Proposal Config) (voter : String → Prop) : Prop :=
  p.weighted = false → ∀ members ∈ p.memberPubkeys,
    ∃ voters : Finset String, p.quorum ≤ voters.card ∧ ∀ k ∈ voters, k ∈ members ∧ voter k

/- Every key in a record's tallies voted and, in count mode, is a member; a record with
   a COMMIT or an apply behind it met its quorum by keys. -/
structure Proposal.Tallied (cfg : Params Config) (seen : Envelope Config → Prop)
    (p : Proposal Config) : Prop where
  prepared : ∀ k ∈ p.preparePubkeys, PrepareVoter cfg seen p k
  committed : ∀ k ∈ p.commitPubkeys, CommitVoter cfg seen p k
  members : p.weighted = false → ∀ members ∈ p.memberPubkeys,
    (∀ k ∈ p.preparePubkeys, k ∈ members) ∧ ∀ k ∈ p.commitPubkeys, k ∈ members
  preparers : 0 < p.preparePubkeys.size ∨ ∀ a ∈ p.prepares, a = cfg.validatorAddr
  committers : 0 < p.commitPubkeys.size ∨ ∀ a ∈ p.commits, a = cfg.validatorAddr
  several : p.quorum ≠ 1
  sent : p.commitSent = true → p.weighted = false → p.quorum ≤ p.preparePubkeys.size
  applying : p.chain ≠ .idle ∨ p.applied = true → p.weighted = false →
    p.quorum ≤ p.commitPubkeys.size

/- What a hub said rests on a record that is tallied. -/
structure Tallies (cfg : Params Config) (seen : Envelope Config → Prop) (h : Hub Config) :
    Prop where
  records : ∀ p ∈ h.proposals, p.Tallied cfg seen
  commits : ∀ seq digest e, .broadcast (.commit (some seq) (some digest)) e ∈ h.trace →
    ∃ p ∈ h.proposals, p.seq = seq ∧ p.digest = digest ∧ p.commitSent = true
  applies : ∀ seq digest, .applied seq digest ∈ h.trace →
    ∃ p ∈ h.proposals, p.seq = seq ∧ p.digest = digest ∧
      (p.weighted = false → p.quorum ≤ p.commitPubkeys.size)

section Records
variable {cfg : Params Config} {env : Env} {seen : Envelope Config → Prop} {p q : Proposal Config}

theorem Proposal.SameRound.prepare_voter (same : p.SameRound q) {k : String}
    (voter : PrepareVoter cfg seen p k) : PrepareVoter cfg seen q k := by
  simpa only [PrepareVoter, same.seq, same.digest] using voter

theorem Proposal.SameRound.commit_voter (same : p.SameRound q) {k : String}
    (voter : CommitVoter cfg seen p k) : CommitVoter cfg seen q k := by
  simpa only [CommitVoter, same.seq, same.digest] using voter

theorem PrepareVoter.mono {more : Envelope Config → Prop} {k : String}
    (voter : PrepareVoter cfg seen p k) (wider : ∀ e, seen e → more e) :
    PrepareVoter cfg more p k := by
  rcases voter with own | ⟨e, among, vote⟩
  · exact Or.inl own
  · exact Or.inr ⟨e, wider e among, vote⟩

theorem CommitVoter.mono {more : Envelope Config → Prop} {k : String}
    (voter : CommitVoter cfg seen p k) (wider : ∀ e, seen e → more e) :
    CommitVoter cfg more p k := by
  rcases voter with own | ⟨e, among, vote⟩
  · exact Or.inl own
  · exact Or.inr ⟨e, wider e among, vote⟩

theorem Tallies.mono {more : Envelope Config → Prop} {h : Hub Config}
    (tallies : Tallies cfg seen h) (wider : ∀ e, seen e → more e) : Tallies cfg more h := by
  refine ⟨fun p member => ?_, tallies.commits, tallies.applies⟩
  have tallied := tallies.records p member
  exact { tallied with
    prepared := fun k among => (tallied.prepared k among).mono wider
    committed := fun k among => (tallied.committed k among).mono wider }

/- One address makes no quorum of two, so a met quorum was met by keys. -/
theorem met_by_keys {quorum : ℕ} {validators : StakeWeightedQuorum.Snapshot}
    {addrs keys : OrderedSet String} {own : String} (several : quorum ≠ 1)
    (keyed : 0 < keys.size ∨ ∀ a ∈ addrs, a = own)
    (met : quorumMet cfg quorum false validators addrs keys = true) : quorum ≤ keys.size := by
  simp only [quorumMet, Bool.false_eq_true, if_false, decide_eq_true_eq] at met
  by_cases counted : 0 < keys.size
  · simpa only [counted, if_true] using met
  · have alone : addrs.size ≤ 1 := by
      rcases keyed with keyed | only
      · exact absurd keyed counted
      · have within : addrs.toFinset ⊆ {own} := by
          intro a member
          rw [Finset.mem_singleton]
          exact only a (OrderedSet.mem_to_finset.mp member)
        have small := Finset.card_le_card within
        rwa [OrderedSet.card_to_finset, Finset.card_singleton] at small
    rw [if_neg counted] at met
    omega

theorem Proposal.Tallied.same (tallied : p.Tallied cfg seen) (round : p.SameRound q)
    (votes : p.SameVotes q)
    (busy : q.chain ≠ .idle → q.chain = p.chain) : q.Tallied cfg seen := by
  refine ⟨?_, ?_, ?_, ?_, ?_, ?_, ?_, ?_⟩
  · rw [votes.prepares]
    exact fun k member => round.prepare_voter (tallied.prepared k member)
  · rw [votes.commits]
    exact fun k member => round.commit_voter (tallied.committed k member)
  · rw [votes.prepares, votes.commits, round.weighted, round.members]
    exact tallied.members
  · rw [votes.prepares, votes.preparers]
    exact tallied.preparers
  · rw [votes.commits, votes.committers]
    exact tallied.committers
  · rw [round.quorum]
    exact tallied.several
  · rw [votes.sent, round.weighted, round.quorum, votes.prepares]
    exact tallied.sent
  · rw [round.weighted, round.quorum, votes.commits, votes.applied]
    rintro (running | done)
    · exact tallied.applying (Or.inl (by rw [← busy running]; exact running))
    · exact tallied.applying (Or.inr done)

/- A record as the handlers open it. -/
structure Proposal.Opened (p : Proposal Config) : Prop where
  preparers : p.prepares = .empty
  committers : p.commits = .empty
  prepares : p.preparePubkeys = .empty
  commits : p.commitPubkeys = .empty
  sent : p.commitSent = false
  applied : p.applied = false
  chain : p.chain = .idle
  several : p.quorum ≠ 1

theorem Proposal.Opened.tallied (opened : p.Opened) : p.Tallied cfg seen := by
  refine ⟨?_, ?_, ?_, ?_, ?_, opened.several, ?_, ?_⟩
  · rw [opened.prepares]
    exact fun k member => absurd member OrderedSet.not_mem_empty
  · rw [opened.commits]
    exact fun k member => absurd member OrderedSet.not_mem_empty
  · rw [opened.prepares, opened.commits]
    exact fun _ members _ => ⟨fun k member => absurd member OrderedSet.not_mem_empty,
      fun k member => absurd member OrderedSet.not_mem_empty⟩
  · rw [opened.preparers]
    exact Or.inr (fun a member => absurd member OrderedSet.not_mem_empty)
  · rw [opened.committers]
    exact Or.inr (fun a member => absurd member OrderedSet.not_mem_empty)
  · intro sent
    rw [opened.sent] at sent
    exact absurd sent (by simp)
  · rw [opened.chain, opened.applied]
    simp

theorem quorum_not_one (n : ℕ) : bftQuorumOrSingle n 0 ≠ 1 := by
  simp only [bftQuorumOrSingle, bftQuorum]
  split <;> omega

theorem round_quorum_not_one (env : Env) (snapshot : Option Snapshot) :
    roundQuorum env snapshot ≠ 1 := by
  cases snapshot with
  | none => exact quorum_not_one _
  | some s => exact quorum_not_one _

theorem Proposal.SameRound.members_vote {now : List (Envelope Config)} (same : p.SameRound q)
    (members : p.MembersVote cfg env now) : q.MembersVote cfg env now := by
  simpa only [Proposal.MembersVote, Envelope.votes, same.weighted, same.members, same.seq,
    same.digest] using members

theorem prepares_voter {e : Envelope Config} {k : String} (among : seen e)
    (vote : e.prepares cfg env p.seq p.digest = true) (proven : provenPubkey cfg e = some k) :
    PrepareVoter cfg seen p k := by
  refine Or.inr ⟨e, among, proven, ?_⟩
  simp only [Envelope.prepares] at vote
  split at vote
  · rename_i s d data
    simp only [Bool.and_eq_true, decide_eq_true_eq] at vote
    exact Or.inl (by rw [data, vote.1.1, vote.1.2])
  · rename_i s view d config height data
    simp only [Bool.and_eq_true, decide_eq_true_eq] at vote
    exact Or.inr ⟨view, config, height, by rw [data, vote.1, vote.2]⟩
  · simp at vote

variable {now : List (Envelope Config)} {more : Envelope Config → Prop}

theorem Proposal.Tallied.count_prepare (tallied : p.Tallied cfg more)
    (within : ∀ e, seen e → e ∈ now ∧ more e) (permits : p.MembersVote cfg env now)
    (round : p.SameRound q) (counts : p.PrepareCounted cfg env seen q) : q.Tallied cfg more := by
  refine ⟨?_, ?_, ?_, ?_, ?_, ?_, ?_, ?_⟩
  · intro k member
    refine round.prepare_voter ?_
    rcases counts.counted k member with old | own | ⟨e, among, vote, proven⟩
    · exact tallied.prepared k old
    · exact Or.inl own
    · exact prepares_voter (within e among).2 vote proven
  · rw [counts.commits]
    exact fun k member => round.commit_voter (tallied.committed k member)
  · rw [round.weighted, round.members, counts.commits]
    intro count members locked
    obtain ⟨own, others⟩ := permits count members locked
    refine ⟨fun k member => ?_, (tallied.members count members locked).2⟩
    rcases counts.counted k member with old | self | ⟨e, among, vote, proven⟩
    · exact (tallied.members count members locked).1 k old
    · exact own k self
    · exact others e (within e among).1 (by simp [Envelope.votes, vote]) k proven
  · rcases counts.keyed with keyed | alone
    · exact Or.inl keyed
    · rcases tallied.preparers with keyed | only
      · have kept := OrderedSet.size_le_of_subset counts.kept
        exact Or.inl (by omega)
      · refine Or.inr (fun a member => ?_)
        rcases alone a member with old | self
        · exact only a old
        · exact self
  · rw [counts.commits, counts.committers]
    exact tallied.committers
  · rw [round.quorum]
    exact tallied.several
  · rw [counts.sent, round.weighted, round.quorum]
    intro sent count
    exact (tallied.sent sent count).trans (OrderedSet.size_le_of_subset counts.kept)
  · rw [counts.chain, counts.applied, round.weighted, round.quorum, counts.commits]
    exact tallied.applying

theorem Proposal.Tallied.count_commit (tallied : p.Tallied cfg more) {e : Envelope Config}
    (within : ∀ e, seen e → e ∈ now ∧ more e) (permits : p.MembersVote cfg env now)
    (among : seen e)
    (known : isKnownSender cfg env e = true)
    (data : e.data = .commit (some p.seq) (some p.digest)) :
    (p.countCommit cfg env e).Tallied cfg more := by
  have counted : ∀ k ∈ (p.countCommit cfg env e).commitPubkeys,
      k ∈ p.commitPubkeys ∨ provenPubkey cfg e = some k := by
    intro k member
    rcases (add_sender_pubkey_mem cfg env).mp member with new | old
    · exact Or.inr (sender_key (known_proven known) new)
    · exact Or.inl old
  refine { tallied with committed := ?_, members := ?_, committers := ?_, applying := ?_ }
  · intro k member
    rcases counted k member with old | new
    · exact tallied.committed k old
    · exact Or.inr ⟨e, (within e among).2, new, data⟩
  · intro count members locked
    refine ⟨(tallied.members count members locked).1, fun k member => ?_⟩
    rcases counted k member with old | new
    · exact (tallied.members count members locked).2 k old
    · refine (permits count members locked).2 e (within e among).1 ?_ k new
      simp [Envelope.votes, Envelope.commits, data, known]
  · exact Or.inl (sender_added (known_proven known) p.commitPubkeys)
  · intro busy count
    refine (tallied.applying busy count).trans (OrderedSet.size_le_of_subset ?_)
    exact fun k member => (add_sender_pubkey_mem cfg env).mpr (Or.inr member)

theorem Proposal.Tallied.send_commit (tallied : p.Tallied cfg seen)
    (permits : p.MembersVote cfg env now)
    (met : quorumMet cfg p.quorum p.weighted p.validators p.prepares p.preparePubkeys = true) :
    (p.sendCommit cfg).Tallied cfg seen := by
  refine { tallied with
    committed := ?_
    members := ?_
    committers := ?_
    sent := ?_
    applying := ?_ }
  · intro k member
    rcases (add_self_pubkey_mem cfg).mp member with own | old
    · exact Or.inl own
    · exact tallied.committed k old
  · intro count members locked
    refine ⟨(tallied.members count members locked).1, fun k member => ?_⟩
    rcases (add_self_pubkey_mem cfg).mp member with own | old
    · exact (permits count members locked).1 k own
    · exact (tallied.members count members locked).2 k old
  · rcases tallied.committers with keyed | only
    · refine Or.inl (lt_of_lt_of_le keyed (OrderedSet.size_le_of_subset ?_))
      exact fun k member => (add_self_pubkey_mem cfg).mpr (Or.inr member)
    · refine Or.inr (fun a member => ?_)
      rcases OrderedSet.mem_add.mp member with self | old
      · exact self
      · exact only a old
  · intro _ count
    have count : p.weighted = false := count
    rw [count] at met
    exact met_by_keys tallied.several tallied.preparers met
  · intro busy count
    refine (tallied.applying busy count).trans (OrderedSet.size_le_of_subset ?_)
    exact fun k member => (add_self_pubkey_mem cfg).mpr (Or.inr member)

theorem Proposal.Tallied.begin_apply (tallied : p.Tallied cfg seen)
    (met : quorumMet cfg p.quorum p.weighted p.validators p.commits p.commitPubkeys = true) :
    p.beginApply.Tallied cfg seen := by
  refine { tallied with applying := fun _ count => ?_ }
  have count : p.weighted = false := count
  rw [count] at met
  exact met_by_keys tallied.several tallied.committers met

end Records
section Acts
variable {cfg : Params Config} {env : Env} {seen : Envelope Config → Prop} {h a b : Hub Config}

theorem Tallies.modify (tallies : Tallies cfg seen h) {pid : ℕ}
    {f : Proposal Config → Proposal Config} (round : ∀ q : Proposal Config, q.SameRound (f q))
    (changed : ∀ q, h.proposals[pid]? = some q → (f q).Tallied cfg seen ∧
      (q.commitSent = true → (f q).commitSent = true) ∧
      q.commitPubkeys.size ≤ (f q).commitPubkeys.size) : Tallies cfg seen (h.modify pid f) := by
  have moved : ∀ p ∈ h.proposals, ∃ q ∈ (h.modify pid f).proposals, p.SameRound q ∧
      (p.commitSent = true → q.commitSent = true) ∧
      p.commitPubkeys.size ≤ q.commitPubkeys.size := by
    intro p member
    obtain ⟨i, found⟩ := List.mem_iff_getElem?.mp member
    by_cases here : pid = i
    · subst here
      refine ⟨f p, List.mem_of_getElem? (by rw [modify_record, found]; simp), round p, ?_⟩
      exact (changed p found).2
    · refine ⟨p, List.mem_of_getElem? (i := i) (by rw [modify_record, found]; simp [here]),
        same_round_refl p, id, le_refl _⟩
  refine ⟨fun p member => ?_, fun seq digest e said => ?_, fun seq digest said => ?_⟩
  · rcases modify_member member with old | ⟨q, stored, rfl⟩
    · exact tallies.records p old
    · exact (changed q stored).1
  · obtain ⟨p, member, rfl, rfl, sent⟩ := tallies.commits seq digest e said
    obtain ⟨q, among, same, kept, -⟩ := moved p member
    exact ⟨q, among, same.seq, same.digest, kept sent⟩
  · obtain ⟨p, member, rfl, rfl, enough⟩ := tallies.applies seq digest said
    obtain ⟨q, among, same, -, grown⟩ := moved p member
    refine ⟨q, among, same.seq, same.digest, fun count => ?_⟩
    rw [same.quorum]
    exact (enough (by rw [← same.weighted]; exact count)).trans grown

theorem Tallies.emit (tallies : Tallies cfg seen h) {o : Output Config}
    (commits : ∀ seq digest e, o = .broadcast (.commit (some seq) (some digest)) e →
      ∃ p ∈ h.proposals, p.seq = seq ∧ p.digest = digest ∧ p.commitSent = true)
    (applies : ∀ seq digest, o = .applied seq digest → ∃ p ∈ h.proposals, p.seq = seq ∧
      p.digest = digest ∧ (p.weighted = false → p.quorum ≤ p.commitPubkeys.size)) :
    Tallies cfg seen (h.emit o) := by
  refine ⟨tallies.records, fun seq digest e said => ?_, fun seq digest said => ?_⟩
  · rcases List.mem_append.mp said with old | new
    · exact tallies.commits seq digest e old
    · exact commits seq digest e (List.mem_singleton.mp new).symm
  · rcases List.mem_append.mp said with old | new
    · exact tallies.applies seq digest old
    · exact applies seq digest (List.mem_singleton.mp new).symm

/- The rounds open now take in members' votes only. -/
def Permits (cfg : Params Config) (env : Env) (now : List (Envelope Config)) (h : Hub Config) :
    Prop :=
  ∀ seq pid p, h.pending seq = some (pid, p) → p.MembersVote cfg env now

theorem act_permits {now : List (Envelope Config)} (act : Act cfg env seen a b)
    (permits : Permits cfg env now a) : Permits cfg env now b := by
  intro seq pid q held
  obtain ⟨p, before, round⟩ := act_pending act held
  exact round.members_vote (permits seq pid p before)

theorem act_tallies {now : List (Envelope Config)} {more : Envelope Config → Prop}
    (within : ∀ e, seen e → e ∈ now ∧ more e) (permits : Permits cfg env now a)
    (act : Act cfg env seen a b) (tallies : Tallies cfg more a) : Tallies cfg more b := by
  cases act with
  | quiet heap map said parked last votes =>
    refine ⟨?_, ?_, ?_⟩
    · rw [heap]; exact tallies.records
    · rw [heap, said]; exact tallies.commits
    · rw [heap, said]; exact tallies.applies
  | park admitted => exact ⟨tallies.records, tallies.commits, tallies.applies⟩
  | finish tid => exact ⟨tallies.records, tallies.commits, tallies.applies⟩
  | forget seq => exact ⟨tallies.records, tallies.commits, tallies.applies⟩
  | mark pid marks =>
    refine tallies.modify marks.same (fun q stored => ⟨?_, ?_, ?_⟩)
    · exact (tallies.records q (List.mem_of_getElem? stored)).same (marks.same q) (marks.votes q)
        (fun busy => (marks.busy q busy).1)
    · rw [(marks.votes q).sent]
      exact id
    · rw [(marks.votes q).commits]
  | say silent =>
    refine tallies.emit ?_ ?_
    · rintro seq digest e rfl
      exact absurd silent.1 (by simp [Message.isCommit])
    · rintro seq digest rfl
      exact absurd silent id
  | sign held kind =>
    refine tallies.emit ?_ ?_
    · intro seq digest e same
      simp only [Output.broadcast.injEq] at same
      rw [same.1] at kind
      exact absurd kind (by simp [Message.isCommit])
    · intro seq digest same
      exact absurd same (by simp)
  | sendCommit held fresh met =>
    rename_i seq pid p
    obtain ⟨-, record⟩ := pending_eq_some.mp held
    have permitted := permits seq pid p held
    have tallied := tallies.records p (List.mem_of_getElem? record)
    have moved : Tallies cfg more (a.modify pid (Proposal.sendCommit cfg)) := by
      refine tallies.modify (fun _ => ⟨rfl, rfl, rfl, rfl, rfl, rfl, rfl, rfl⟩) ?_
      intro q stored
      rw [record, Option.some.injEq] at stored
      subst stored
      refine ⟨tallied.send_commit permitted met, fun _ => rfl,
        OrderedSet.size_le_of_subset ?_⟩
      exact fun k member => (add_self_pubkey_mem cfg).mpr (Or.inr member)
    refine moved.emit ?_ ?_
    · intro s digest e same
      simp only [Output.broadcast.injEq, Message.commit.injEq, Option.some.injEq] at same
      obtain ⟨⟨rfl, rfl⟩, -⟩ := same
      refine ⟨Proposal.sendCommit cfg p, ?_, rfl, rfl, rfl⟩
      exact List.mem_of_getElem? (pending_eq_some.mp (modify_pending held)).2
    · intro s digest same
      exact absurd same (by simp)
  | countPrepare held round counts =>
    rename_i seq pid p f
    obtain ⟨-, record⟩ := pending_eq_some.mp held
    refine tallies.modify round ?_
    intro q stored
    rw [record, Option.some.injEq] at stored
    subst stored
    refine ⟨(tallies.records p (List.mem_of_getElem? record)).count_prepare within
      (permits seq pid p held) (round p) counts, ?_, ?_⟩
    · rw [counts.sent]
      exact id
    · rw [counts.commits]
  | countCommit held vote known data =>
    rename_i seq pid p envelope
    obtain ⟨-, record⟩ := pending_eq_some.mp held
    refine tallies.modify (fun _ => ⟨rfl, rfl, rfl, rfl, rfl, rfl, rfl, rfl⟩) ?_
    intro q stored
    rw [record, Option.some.injEq] at stored
    subst stored
    refine ⟨(tallies.records p (List.mem_of_getElem? record)).count_commit within
      (permits seq pid p held) vote known data, id, OrderedSet.size_le_of_subset ?_⟩
    exact fun k member => (add_sender_pubkey_mem cfg env).mpr (Or.inr member)
  | startApply held fresh met nonempty =>
    rename_i seq pid p
    obtain ⟨-, record⟩ := pending_eq_some.mp held
    refine tallies.modify (fun _ => ⟨rfl, rfl, rfl, rfl, rfl, rfl, rfl, rfl⟩) ?_
    intro q stored
    rw [record, Option.some.injEq] at stored
    subst stored
    exact ⟨(tallies.records p (List.mem_of_getElem? record)).begin_apply met, id, le_refl _⟩
  | finishConfig held running =>
    rename_i pid p
    have tallied := tallies.records p (List.mem_of_getElem? held)
    have enough := tallied.applying (Or.inl (by rw [running]; simp))
    have moved : Tallies cfg more (a.modify pid Proposal.awaitSeq) := by
      refine tallies.modify (fun _ => ⟨rfl, rfl, rfl, rfl, rfl, rfl, rfl, rfl⟩) ?_
      intro q stored
      rw [held, Option.some.injEq] at stored
      subst stored
      exact ⟨{ tallied with applying := fun _ => enough }, id, le_refl _⟩
    refine moved.emit ?_ ?_
    · intro seq digest e same
      exact absurd same (by simp)
    · intro seq digest same
      simp only [Output.applied.injEq] at same
      obtain ⟨rfl, rfl⟩ := same
      refine ⟨Proposal.awaitSeq p, ?_, rfl, rfl, enough⟩
      exact List.mem_of_getElem? (i := pid) (by rw [modify_record, held]; simp)
  | finishSeq held running =>
    rename_i pid p
    have tallied := tallies.records p (List.mem_of_getElem? held)
    have enough := tallied.applying (Or.inl (by rw [running]; simp))
    have moved : Tallies cfg more (a.modify pid Proposal.markApplied) := by
      refine tallies.modify (fun _ => ⟨rfl, rfl, rfl, rfl, rfl, rfl, rfl, rfl⟩) ?_
      intro q stored
      rw [held, Option.some.injEq] at stored
      subst stored
      exact ⟨{ tallied with applying := fun _ => enough }, id, le_refl _⟩
    exact ⟨moved.records, moved.commits, moved.applies⟩

end Acts
section Runs
variable {cfg : Params Config} {h : Hub Config} {m : Env × Event Config}

theorem opens_opened {p : Proposal Config} (record : opens cfg h m = some p) : p.Opened := by
  obtain ⟨leader, view, config, weighted, snapshot, height, shape⟩ := opens_record record
  rw [shape]
  exact ⟨rfl, rfl, rfl, rfl, rfl, rfl, rfl, round_quorum_not_one m.1 snapshot⟩

theorem Tallies.opened {seen : Envelope Config → Prop} (tallies : Tallies cfg seen h) :
    Tallies cfg seen (h.opened (opens cfg h m)) := by
  cases record : opens cfg h m with
  | none => exact tallies
  | some p =>
    refine ⟨fun q member => ?_, fun seq digest e said => ?_, fun seq digest said => ?_⟩
    · rcases List.mem_append.mp member with old | new
      · exact tallies.records q old
      · rw [List.mem_singleton.mp new]
        exact (opens_opened record).tallied
    · obtain ⟨q, member, rest⟩ := tallies.commits seq digest e said
      exact ⟨q, List.mem_append_left _ member, rest⟩
    · obtain ⟨q, member, rest⟩ := tallies.applies seq digest said
      exact ⟨q, List.mem_append_left _ member, rest⟩

theorem Delivered.later {past : List (Env × Event Config)} {e : Envelope Config}
    (delivered : Delivered cfg past e) : Delivered cfg (past ++ [m]) e := by
  obtain ⟨before, among, event⟩ := delivered
  exact ⟨before, List.mem_append_left _ among, event⟩

/- What is buffered or parked is heard by the next step. -/
theorem ready_heard {past : List (Env × Event Config)} (ready : Ready (Delivered cfg past) h) :
    Ready (fun e => e ∈ heard h m ∧ Delivered cfg (past ++ [m]) e) h := by
  refine ⟨ready.linked, fun b member e vote => ⟨?_, (ready.buffered b member e vote).later⟩, ?_⟩
  · refine List.mem_append_left _ (List.mem_append_right _ ?_)
    exact List.mem_flatMap.mpr ⟨b, member, vote⟩
  · intro tid t held
    obtain ⟨last, admitted⟩ := ready.parked tid t held
    refine ⟨last, ?_⟩
    cases t with
    | propose config => trivial
    | prePrepare envelope seq view digest config height tipBound =>
      obtain ⟨delivered, rest⟩ := admitted
      have among := List.mem_of_getElem? (Option.join_eq_some_iff.mp held)
      exact ⟨⟨List.mem_append_right _ (List.mem_filterMap.mpr ⟨_, among, rfl⟩),
        delivered.later⟩, rest⟩

theorem counts_permits (counts : CountsMembers cfg h m) :
    Permits cfg m.1 (heard h m) (h.opened (opens cfg h m)) := by
  intro seq pid p held
  have key : seq ∈ (h.opened (opens cfg h m)).pendingProposals.keys :=
    AList.lookup_isSome.mp (by rw [(pending_eq_some.mp held).1]; rfl)
  exact counts seq key (pid, p) held

/-- One step: what was tallied stays tallied, and what it counts is a member's vote. -/
theorem step_tallies {past : List (Env × Event Config)} (counts : CountsMembers cfg h m)
    (before : Ready (Delivered cfg past) h ∧ Tallies cfg (Delivered cfg past) h) :
    Ready (Delivered cfg (past ++ [m])) (step cfg h m) ∧
      Tallies cfg (Delivered cfg (past ++ [m])) (step cfg h m) := by
  let seen (e : Envelope Config) : Prop := e ∈ heard h m ∧ Delivered cfg (past ++ [m]) e
  have ready : Ready seen h := ready_heard before.1
  have delivered : ∀ e, m.2 = .deliver e → isKnownSender cfg m.1 e = true → seen e := by
    intro e event known
    refine ⟨List.mem_append_left _ (List.mem_append_left _ ?_), m, by simp, event, known⟩
    rw [event]
    simp [Event.envelope]
  have wider : ∀ e, seen e → Delivered cfg (past ++ [m]) e := fun e among => among.2
  obtain ⟨path, after⟩ := step_leads h m delivered (ready.opened _)
  refine ⟨after.mono wider, ?_⟩
  have start : Tallies cfg (Delivered cfg (past ++ [m])) (h.opened (opens cfg h m)) :=
    (before.2.mono (fun e among => among.later)).opened
  have kept : ∀ g, Relation.ReflTransGen (Act cfg m.1 seen) (h.opened (opens cfg h m)) g →
      Permits cfg m.1 (heard h m) g ∧ Tallies cfg (Delivered cfg (past ++ [m])) g := by
    intro g along
    induction along with
    | refl => exact ⟨counts_permits counts, start⟩
    | tail _ last ih =>
      exact ⟨act_permits last ih.1, act_tallies (fun e among => among) ih.1 last ih.2⟩
  exact (kept _ path).2

theorem run_tallies (cfg : Params Config) (seq : ℚ) {ms : List (Env × Event Config)}
    (admitted : Admitted (step cfg) (CountsMembers cfg) (Hub.started seq) ms) :
    Tallies cfg (Delivered cfg ms) (run (step cfg) (Hub.started seq) ms) := by
  refine (run_history (fun past h => Ready (Delivered cfg past) h ∧
    Tallies cfg (Delivered cfg past) h) ?_ ⟨started_ready seq, ?_⟩ admitted).2
  · exact fun past h m before counts => step_tallies counts before
  · refine ⟨fun p member => ?_, fun s d e said => ?_, fun s d said => ?_⟩
    · exact absurd member (by simp [Hub.started])
    · exact absurd said (by simp [Hub.started])
    · exact absurd said (by simp [Hub.started])

theorem Proposal.Tallied.ratified_prepare {seen : Envelope Config → Prop} {p : Proposal Config}
    (tallied : p.Tallied cfg seen) (sent : p.commitSent = true) :
    p.Ratified (PrepareVoter cfg seen p) := by
  intro count members locked
  refine ⟨p.preparePubkeys.toFinset, ?_, fun k voter => ?_⟩
  · rw [OrderedSet.card_to_finset]
    exact tallied.sent sent count
  · have member := OrderedSet.mem_to_finset.mp voter
    exact ⟨(tallied.members count members locked).1 k member, tallied.prepared k member⟩

theorem Proposal.Tallied.ratified_commit {seen : Envelope Config → Prop} {p : Proposal Config}
    (tallied : p.Tallied cfg seen) (enough : p.weighted = false → p.quorum ≤ p.commitPubkeys.size) :
    p.Ratified (CommitVoter cfg seen p) := by
  intro count members locked
  refine ⟨p.commitPubkeys.toFinset, ?_, fun k voter => ?_⟩
  · rw [OrderedSet.card_to_finset]
    exact enough count
  · have member := OrderedSet.mem_to_finset.mp voter
    exact ⟨(tallied.members count members locked).2 k member, tallied.committed k member⟩

end Runs

/-- Over every run of one hub: while each round counts only members' votes, this hub's own
    included, a COMMIT it sent has a quorum of members' PREPAREs behind it, and an apply it
    started or completed a quorum of members' COMMITs. -/
theorem members_ratify (cfg : Params Config) (seq : ℚ) {ms : List (Env × Event Config)}
    (admitted : Admitted (step cfg) (CountsMembers cfg) (Hub.started seq) ms) :
    (∀ s d e, .broadcast (.commit (some s) (some d)) e ∈
        (run (step cfg) (Hub.started seq) ms).trace →
      ∃ p ∈ (run (step cfg) (Hub.started seq) ms).proposals, p.seq = s ∧ p.digest = d ∧
        p.commitSent = true ∧ p.Ratified (PrepareVoter cfg (Delivered cfg ms) p)) ∧
    (∀ p ∈ (run (step cfg) (Hub.started seq) ms).proposals, p.chain ≠ .idle ∨ p.applied = true →
      p.Ratified (CommitVoter cfg (Delivered cfg ms) p)) ∧
    ∀ s d, .applied s d ∈ (run (step cfg) (Hub.started seq) ms).trace →
      ∃ p ∈ (run (step cfg) (Hub.started seq) ms).proposals, p.seq = s ∧ p.digest = d ∧
        p.Ratified (CommitVoter cfg (Delivered cfg ms) p) := by
  have tallies := run_tallies cfg seq admitted
  refine ⟨fun s d e said => ?_, fun p member busy => ?_, fun s d said => ?_⟩
  · obtain ⟨p, member, slot, digest, sent⟩ := tallies.commits s d e said
    exact ⟨p, member, slot, digest, sent, (tallies.records p member).ratified_prepare sent⟩
  · have tallied := tallies.records p member
    exact tallied.ratified_commit (tallied.applying busy)
  · obtain ⟨p, member, slot, digest, enough⟩ := tallies.applies s d said
    exact ⟨p, member, slot, digest, (tallies.records p member).ratified_commit enough⟩

section Decide
variable (cfg : Params Config) (env : Env) (now : List (Envelope Config)) (p : Proposal Config)

instance : Decidable (p.MembersVote cfg env now) :=
  inferInstanceAs (Decidable (_ → ∀ members ∈ p.memberPubkeys, _ ∧ ∀ e ∈ now, _ → ∀ k ∈ _, _))

instance (h : Hub Config) (m : Env × Event Config) : Decidable (CountsMembers cfg h m) :=
  inferInstanceAs (Decidable (∀ seq ∈ (h.opened (opens cfg h m)).pendingProposals.keys, _))

end Decide

section Samples

def voteFrom (addr key : String) (data : Message String) : Event String :=
  .deliver ⟨addr, some key, data⟩

/- Beside the four members the registry still holds two keys that stake nothing. -/
def sixRegistered : Env :=
  { fourHubs with validatorPubkeys := some [("h0", "k0"), ("h1", "k1"), ("h2", "k2"),
      ("h3", "k3"), ("h4", "k4"), ("h5", "k5")] }

/- h0 opens k1's round and takes the PREPAREs and COMMITs of two voters. -/
def ratifyRun (env : Env) (second third : String × String) : List (Env × Event String) :=
  [(env, .deliver (prePrepareFrom "h1" "k1" "A" 1 0)),
   (env, .locked 0 (some 100) fourLock),
   (env, voteFrom second.1 second.2 (.prepare (some 1) (some "A"))),
   (env, voteFrom second.1 second.2 (.commit (some 1) (some "A"))),
   (env, voteFrom third.1 third.2 (.commit (some 1) (some "A"))),
   (env, .configApplied 0 true)]

/- The voters of a tally that the round's snapshot holds. -/
def memberVotes (p : Proposal Config) (keys : OrderedSet String) : ℕ :=
  (keys.items.filter (fun k => p.memberPubkeys.any (fun members => k ∈ members))).length

/-- k4 and k5 stake nothing: with a quorum of three, h0 sends COMMIT after two members'
    PREPAREs and applies the config after one member's COMMIT, its own. -/
theorem registered_keys_ratify :
    let h := run (step (countParams "h0" "k0")) (Hub.started 0)
      (ratifyRun sixRegistered ("h4", "k4") ("h5", "k5"))
    (h.trace.any fun o => match o with
      | .broadcast (.commit (some s) (some d)) _ => s = 1 && d = "A"
      | _ => false) = true ∧
    .applied 1 "A" ∈ h.trace ∧
    h.proposals.map (fun p => (p.weighted, p.quorum, memberVotes p p.preparePubkeys,
      memberVotes p p.commitPubkeys)) = [(false, 3, 2, 1)] := by
  decide +kernel

/-- With members' votes only: three PREPAREs and three COMMITs of members. -/
theorem three_members_ratify :
    ∃ p ∈ (run (step (countParams "h0" "k0")) (Hub.started 0)
        (ratifyRun fourHubs ("h2", "k2") ("h3", "k3"))).proposals,
      p.seq = 1 ∧ p.digest = "A" ∧ p.Ratified (CommitVoter (countParams "h0" "k0")
        (Delivered (countParams "h0" "k0") (ratifyRun fourHubs ("h2", "k2") ("h3", "k3"))) p) :=
  (members_ratify (countParams "h0" "k0") 0 (by decide +kernel)).2.2 1 "A" (by decide +kernel)

end Samples
end XChainHub.Pbft
