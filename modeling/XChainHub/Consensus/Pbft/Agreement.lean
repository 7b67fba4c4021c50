import XChainHub.Consensus.Pbft.Equivocation

/-!
Agreement of config-PBFT over a federation of honest hubs and any number of
faulty signers. Every applied digest is backed by a vote set that met the round's
quorum; two such sets meet in an honest hub, which commits to one digest a seq as
long as no step opens a record against a commit it already sent.
-/
namespace XChainHub.Pbft
open GuardedRuns BftQuorum

variable {Config : Type}

def Output.message : Output Config → Option (Message Config)
  | .broadcast data _ => some data
  | _ => none

def broadcasts (h : Hub Config) : List (Message Config) := h.trace.filterMap Output.message

def CommitSent (h : Hub Config) (seq : ℚ) (digest : String) : Prop :=
  .commit (some seq) (some digest) ∈ broadcasts h

/- The record was opened over this snapshot in this quorum mode. -/
def OpenOver (cfg : Params Config) (s : Snapshot) (weighted : Bool) (p : Proposal Config) : Prop :=
  p.quorum = getQuorum (some s) ∧ p.weighted = weighted ∧
    p.validators = normalizeValidators cfg (some s) weighted

section Lock

/- A hub's pending record for a seq agrees with every COMMIT it sent for it. -/
structure Locked (h : Hub Config) : Prop where
  pending : ∀ seq pid p, h.pending seq = some (pid, p) → ∀ d, CommitSent h seq d → d = p.digest
  single : ∀ seq d e, CommitSent h seq d → CommitSent h seq e → d = e

theorem commit_sent_emit {h : Hub Config} {o : Output Config} {seq : ℚ} {digest : String} :
    CommitSent (h.emit o) seq digest ↔
      CommitSent h seq digest ∨ ∃ e, o = .broadcast (.commit (some seq) (some digest)) e := by
  have last : o.message = some (.commit (some seq) (some digest)) ↔
      ∃ e, o = .broadcast (.commit (some seq) (some digest)) e := by
    cases o <;> simp [Output.message]
  rw [← last]
  simp [CommitSent, broadcasts, Hub.emit, List.mem_filterMap]

theorem broadcasts_mono {a b : Hub Config} (grown : a.trace <+: b.trace) :
    broadcasts a ⊆ broadcasts b := by
  intro data member
  obtain ⟨o, said, message⟩ := List.mem_filterMap.mp member
  exact List.mem_filterMap.mpr ⟨o, grown.subset said, message⟩

theorem commit_sent_mono {a b : Hub Config} (grown : a.trace <+: b.trace) {seq : ℚ}
    {digest : String} (sent : CommitSent a seq digest) : CommitSent b seq digest :=
  broadcasts_mono grown sent

theorem Locked.modify {h : Hub Config} (locked : Locked h) (pid : ℕ)
    {f : Proposal Config → Proposal Config} (same : ∀ q : Proposal Config, q.SameRound (f q)) :
    Locked (h.modify pid f) := by
  refine ⟨?_, locked.single⟩
  intro seq other p held d sent
  obtain ⟨q, before, round⟩ := pending_of_modify same held
  rw [round.digest]
  exact locked.pending seq other q before d sent

theorem Locked.emit {h : Hub Config} (locked : Locked h) {o : Output Config}
    (other : ∀ seq digest e, o ≠ .broadcast (.commit (some seq) (some digest)) e) :
    Locked (h.emit o) := by
  have same : ∀ seq d, CommitSent (h.emit o) seq d → CommitSent h seq d := by
    intro seq d sent
    rcases commit_sent_emit.mp sent with old | ⟨e, new⟩
    · exact old
    · exact absurd new (other seq d e)
  exact ⟨fun seq pid p held d sent => locked.pending seq pid p held d (same seq d sent),
    fun seq d e first second => locked.single seq d e (same seq d first) (same seq e second)⟩

/-- A COMMIT goes out for the pending record, so it repeats any earlier one. -/
theorem Locked.commit {h : Hub Config} (locked : Locked h) {pid : ℕ} {p : Proposal Config}
    (held : h.pending p.seq = some (pid, p)) (equiv : Option EquivVote) :
    Locked (h.emit (.broadcast (.commit (some p.seq) (some p.digest)) equiv)) := by
  have cases : ∀ seq d, CommitSent (h.emit (.broadcast (.commit (some p.seq) (some p.digest))
      equiv)) seq d → CommitSent h seq d ∨ (seq = p.seq ∧ d = p.digest) := by
    intro seq d sent
    rcases commit_sent_emit.mp sent with old | ⟨e, new⟩
    · exact Or.inl old
    · simp only [Output.broadcast.injEq, Message.commit.injEq, Option.some.injEq] at new
      exact Or.inr ⟨new.1.1.symm, new.1.2.symm⟩
  refine ⟨?_, ?_⟩
  · intro seq other q found d sent
    rw [emit_pending] at found
    rcases cases seq d sent with old | ⟨rfl, rfl⟩
    · exact locked.pending seq other q found d old
    · rw [held, Option.some.injEq, Prod.mk.injEq] at found
      rw [found.2]
  · intro seq d e first second
    rcases cases seq d first with old | ⟨rfl, rfl⟩
    · rcases cases seq e second with older | ⟨rfl, rfl⟩
      · exact locked.single seq d e old older
      · exact locked.pending p.seq pid p held d old
    · rcases cases p.seq e second with older | ⟨-, rfl⟩
      · exact (locked.pending p.seq pid p held e older).symm
      · rfl

variable {cfg : Params Config} {env : Env} {seen : Envelope Config → Prop}

theorem silent_not_commit {o : Output Config} (silent : o.Silent) (seq : ℚ) (digest : String)
    (e : Option EquivVote) : o ≠ .broadcast (.commit (some seq) (some digest)) e := by
  rintro rfl
  exact absurd silent.1 (by simp [Message.isCommit])

theorem act_locked {a b : Hub Config} (ready : Ready seen a) (act : Act cfg env seen a b)
    (locked : Locked a) : Locked b := by
  cases act with
  | quiet heap map said parked last votes =>
    refine ⟨?_, ?_⟩
    · intro seq pid p held d sent
      rw [Hub.pending, heap, map] at held
      rw [CommitSent, broadcasts, said] at sent
      exact locked.pending seq pid p held d sent
    · intro seq d e first second
      rw [CommitSent, broadcasts, said] at first second
      exact locked.single seq d e first second
  | park admitted => exact ⟨locked.pending, locked.single⟩
  | finish tid => exact ⟨locked.pending, locked.single⟩
  | forget seq =>
    refine ⟨?_, locked.single⟩
    intro s pid p held d sent
    obtain ⟨found, record⟩ := pending_eq_some.mp held
    by_cases same : s = seq
    · subst same
      exact absurd (found.symm.trans (AList.lookup_erase s a.pendingProposals)) (by simp)
    · simp only [Hub.forget, AList.lookup_erase_ne same] at found
      exact locked.pending s pid p (pending_eq_some.mpr ⟨found, record⟩) d sent
  | mark pid marks => exact locked.modify pid marks.same
  | say silent => exact locked.emit (silent_not_commit silent)
  | sign held kind =>
    refine locked.emit ?_
    rintro seq digest e same
    simp only [Output.broadcast.injEq] at same
    rw [same.1] at kind
    exact absurd kind (by simp [Message.isCommit])
  | sendCommit held fresh met =>
    rename_i seq pid p
    have same := ready.pending_seq held
    have moved := locked.modify (f := Proposal.sendCommit cfg) pid
      (fun _ => ⟨rfl, rfl, rfl, rfl, rfl, rfl, rfl, rfl⟩)
    rw [← same] at held
    exact moved.commit (p := Proposal.sendCommit cfg p) (modify_pending held) _
  | countPrepare held round counts => exact locked.modify _ round
  | countCommit held vote known data =>
    exact locked.modify _ (fun _ => ⟨rfl, rfl, rfl, rfl, rfl, rfl, rfl, rfl⟩)
  | startApply held fresh met nonempty =>
    exact locked.modify _ (fun _ => ⟨rfl, rfl, rfl, rfl, rfl, rfl, rfl, rfl⟩)
  | finishConfig held running =>
    refine (locked.modify _ ?_).emit ?_
    · exact fun _ => ⟨rfl, rfl, rfl, rfl, rfl, rfl, rfl, rfl⟩
    · exact fun _ _ _ => by simp
  | finishSeq held running =>
    rename_i pid p
    have marked := locked.modify (f := Proposal.markApplied) pid
      (fun _ => ⟨rfl, rfl, rfl, rfl, rfl, rfl, rfl, rfl⟩)
    exact ⟨marked.pending, marked.single⟩

theorem Locked.open {h : Hub Config} (ready : Ready seen h) (locked : Locked h)
    {p : Proposal Config} (kept : ∀ d, CommitSent h p.seq d → d = p.digest) :
    Locked (h.openRecord p) := by
  refine ⟨?_, locked.single⟩
  intro s pid q held d sent
  by_cases same : s = p.seq
  · subst same
    rw [open_pending, Option.some.injEq, Prod.mk.injEq] at held
    rw [← held.2]
    exact kept d sent
  · rw [open_pending_other ready same] at held
    exact locked.pending s pid q held d sent

end Lock

section Certificates
variable (cfg : Params Config) (voted : String → ℚ → String → Prop)

/- The key's COMMIT for the digest is accounted for: as a vote taken in, or as this
   hub's own. -/
def Voted (h : Hub Config) (key : String) (seq : ℚ) (digest : String) : Prop :=
  voted key seq digest ∨ (selfPubkey cfg = some key ∧ CommitSent h seq digest)

/- A vote set that met the quorum of a round over the snapshot. -/
def Certified (s : Snapshot) (weighted : Bool) (h : Hub Config) (seq : ℚ) (digest : String) :
    Prop :=
  ∃ addrs keys : OrderedSet String, 0 < keys.size ∧
    quorumMet cfg (getQuorum (some s)) weighted (normalizeValidators cfg (some s) weighted)
      addrs keys = true ∧
    ∀ k ∈ keys, Voted cfg voted h k seq digest

/- What the records and the applies of one hub rest on. -/
structure Backed (s : Snapshot) (weighted : Bool) (h : Hub Config) : Prop where
  onSnapshot : ∀ p ∈ h.proposals, OpenOver cfg s weighted p
  counted : ∀ p ∈ h.proposals, ∀ k ∈ p.commitPubkeys, Voted cfg voted h k p.seq p.digest
  running : ∀ p ∈ h.proposals, p.chain = .configInFlight →
    Certified cfg voted s weighted h p.seq p.digest
  applied : ∀ seq digest, Output.applied seq digest ∈ h.trace →
    Certified cfg voted s weighted h seq digest

variable {cfg voted} {s : Snapshot} {weighted : Bool}

theorem Voted.mono {a b : Hub Config} (grown : a.trace <+: b.trace) {k : String} {seq : ℚ}
    {digest : String} (vote : Voted cfg voted a k seq digest) : Voted cfg voted b k seq digest := by
  rcases vote with taken | ⟨own, sent⟩
  · exact Or.inl taken
  · exact Or.inr ⟨own, commit_sent_mono grown sent⟩

theorem Certified.mono {a b : Hub Config} (grown : a.trace <+: b.trace) {seq : ℚ}
    {digest : String} (certified : Certified cfg voted s weighted a seq digest) :
    Certified cfg voted s weighted b seq digest := by
  obtain ⟨addrs, keys, nonempty, met, votes⟩ := certified
  exact ⟨addrs, keys, nonempty, met, fun k member => (votes k member).mono grown⟩

theorem OpenOver.same_round {p q : Proposal Config} (same : p.SameRound q)
    (onSnapshot : OpenOver cfg s weighted p) : OpenOver cfg s weighted q := by
  obtain ⟨quorum, mode, rows⟩ := onSnapshot
  exact ⟨by rw [same.quorum, quorum], by rw [same.weighted, mode], by rw [same.validators, rows]⟩

/-- Backing survives a change of one record that keeps its round, if the votes and
    the running apply of the changed record are backed again. -/
theorem Backed.modify {h after : Hub Config} (backed : Backed cfg voted s weighted h) (pid : ℕ)
    {f : Proposal Config → Proposal Config} (same : ∀ q : Proposal Config, q.SameRound (f q))
    (heap : after.proposals = (h.modify pid f).proposals) (grown : h.trace <+: after.trace)
    (said : ∀ seq digest, Output.applied seq digest ∈ after.trace →
      Output.applied seq digest ∈ h.trace ∨ Certified cfg voted s weighted after seq digest)
    (votes : ∀ q, h.proposals[pid]? = some q → ∀ k ∈ (f q).commitPubkeys,
      Voted cfg voted after k q.seq q.digest)
    (running : ∀ q, h.proposals[pid]? = some q → (f q).chain = .configInFlight →
      Certified cfg voted s weighted after q.seq q.digest) :
    Backed cfg voted s weighted after := by
  refine ⟨?_, ?_, ?_, ?_⟩
  · intro p member
    rw [heap] at member
    rcases modify_member member with old | ⟨q, stored, rfl⟩
    · exact backed.onSnapshot p old
    · exact (backed.onSnapshot q (List.mem_of_getElem? stored)).same_round (same q)
  · intro p member k vote
    rw [heap] at member
    rcases modify_member member with old | ⟨q, stored, rfl⟩
    · exact (backed.counted p old k vote).mono grown
    · rw [(same q).seq, (same q).digest]
      exact votes q stored k vote
  · intro p member chain
    rw [heap] at member
    rcases modify_member member with old | ⟨q, stored, rfl⟩
    · exact (backed.running p old chain).mono grown
    · rw [(same q).seq, (same q).digest]
      exact running q stored chain
  · intro seq digest output
    rcases said seq digest output with old | new
    · exact (backed.applied seq digest old).mono grown
    · exact new

/-- Backing survives outputs other than an apply. -/
theorem Backed.emit {h : Hub Config} (backed : Backed cfg voted s weighted h) {o : Output Config}
    (other : ∀ seq digest, o ≠ .applied seq digest) : Backed cfg voted s weighted (h.emit o) := by
  have grown : h.trace <+: (h.emit o).trace := List.prefix_append _ _
  refine ⟨backed.onSnapshot, fun p member k vote => (backed.counted p member k vote).mono grown,
    fun p member chain => (backed.running p member chain).mono grown, ?_⟩
  intro seq digest output
  simp only [Hub.emit, List.mem_append, List.mem_singleton] at output
  rcases output with old | new
  · exact (backed.applied seq digest old).mono grown
  · exact absurd new.symm (other seq digest)

variable {env : Env} {seen : Envelope Config → Prop}

/- Every admitted COMMIT envelope the buffer may hold stands for a vote. -/
def SeenVoted (cfg : Params Config) (voted : String → ℚ → String → Prop)
    (seen : Envelope Config → Prop) : Prop :=
  ∀ e, seen e → ∀ seq digest k, e.data = .commit (some seq) (some digest) →
    provenPubkey cfg e = some k → voted k seq digest

theorem act_backed {a b : Hub Config} (identity : cfg.identity.isSome)
    (sound : SeenVoted cfg voted seen) (act : Act cfg env seen a b)
    (backed : Backed cfg voted s weighted a) : Backed cfg voted s weighted b := by
  have grown := act_trace act
  cases act with
  | quiet heap map said parked last votes =>
    refine ⟨?_, ?_, ?_, ?_⟩
    · rw [heap]; exact backed.onSnapshot
    · rw [heap]; exact fun p member k vote => (backed.counted p member k vote).mono grown
    · rw [heap]; exact fun p member chain => (backed.running p member chain).mono grown
    · rw [said]; exact fun seq digest output => (backed.applied seq digest output).mono grown
  | park admitted => exact ⟨backed.onSnapshot, backed.counted, backed.running, backed.applied⟩
  | finish tid => exact ⟨backed.onSnapshot, backed.counted, backed.running, backed.applied⟩
  | forget seq => exact ⟨backed.onSnapshot, backed.counted, backed.running, backed.applied⟩
  | mark pid marks =>
    refine backed.modify pid marks.same rfl grown (fun _ _ old => Or.inl old) ?_ ?_
    · intro q stored k vote
      rw [(marks.votes q).commits] at vote
      exact (backed.counted q (List.mem_of_getElem? stored) k vote).mono grown
    · intro q stored chain
      have before := (marks.busy q (by rw [chain]; simp)).1
      exact (backed.running q (List.mem_of_getElem? stored) (before.symm.trans chain)).mono grown
  | say silent =>
    refine backed.emit ?_
    rintro seq digest rfl
    exact silent
  | sign held kind => exact backed.emit (fun _ _ => by simp)
  | sendCommit held fresh met =>
    rename_i seq pid p
    obtain ⟨-, record⟩ := pending_eq_some.mp held
    refine backed.modify pid (f := Proposal.sendCommit cfg)
      (fun _ => ⟨rfl, rfl, rfl, rfl, rfl, rfl, rfl, rfl⟩) rfl grown ?_ ?_ ?_
    · intro s d output
      simp only [Hub.emit, List.mem_append, List.mem_singleton, reduceCtorEq, or_false] at output
      exact Or.inl output
    · intro q stored k vote
      rw [record, Option.some.injEq] at stored
      subst stored
      rcases (add_self_pubkey_mem cfg).mp vote with own | old
      · exact Or.inr ⟨own, commit_sent_emit.mpr (Or.inr ⟨_, rfl⟩)⟩
      · exact (backed.counted p (List.mem_of_getElem? record) k old).mono grown
    · intro q stored chain
      exact (backed.running q (List.mem_of_getElem? stored) chain).mono grown
  | countPrepare held round counts =>
    rename_i seq pid p f
    obtain ⟨-, record⟩ := pending_eq_some.mp held
    have member := List.mem_of_getElem? record
    refine backed.modify pid round rfl grown (fun _ _ old => Or.inl old) ?_ ?_
    · intro q stored k vote
      rw [record, Option.some.injEq] at stored
      subst stored
      rw [counts.commits] at vote
      exact (backed.counted p member k vote).mono grown
    · intro q stored chain
      rw [record, Option.some.injEq] at stored
      subst stored
      rw [counts.chain] at chain
      exact (backed.running p member chain).mono grown
  | countCommit held vote known data =>
    rename_i seq pid p envelope
    obtain ⟨-, record⟩ := pending_eq_some.mp held
    refine backed.modify pid (f := Proposal.countCommit cfg env envelope)
      (fun _ => ⟨rfl, rfl, rfl, rfl, rfl, rfl, rfl, rfl⟩) rfl grown (fun _ _ old => Or.inl old) ?_ ?_
    · intro q stored k member
      rw [record, Option.some.injEq] at stored
      subst stored
      rcases (add_sender_pubkey_mem cfg env).mp member with new | old
      · obtain ⟨pk, proven, resolved⟩ := known_sender_key cfg env known
        rw [resolved] at new
        rw [Option.some.inj new] at proven
        exact Or.inl (sound envelope vote _ _ k data proven)
      · exact (backed.counted p (List.mem_of_getElem? record) k old).mono grown
    · intro q stored chain
      exact (backed.running q (List.mem_of_getElem? stored) chain).mono grown
  | startApply held fresh met nonempty =>
    rename_i seq pid p
    obtain ⟨-, record⟩ := pending_eq_some.mp held
    have member := List.mem_of_getElem? record
    refine backed.modify pid (f := Proposal.beginApply)
      (fun _ => ⟨rfl, rfl, rfl, rfl, rfl, rfl, rfl, rfl⟩) rfl grown (fun _ _ old => Or.inl old) ?_ ?_
    · intro q stored k vote
      exact (backed.counted q (List.mem_of_getElem? stored) k vote).mono grown
    · intro q stored _
      rw [record, Option.some.injEq] at stored
      subst stored
      obtain ⟨quorum, mode, rows⟩ := backed.onSnapshot p member
      rw [quorum, mode, rows] at met
      exact ⟨p.commits, p.commitPubkeys, nonempty identity, met,
        fun k vote => (backed.counted p member k vote).mono grown⟩
  | finishConfig held running =>
    rename_i pid p
    have member := List.mem_of_getElem? held
    refine backed.modify pid (f := Proposal.awaitSeq)
      (fun _ => ⟨rfl, rfl, rfl, rfl, rfl, rfl, rfl, rfl⟩) rfl grown ?_ ?_ ?_
    · intro seq digest output
      simp only [Hub.emit, List.mem_append, List.mem_singleton, Output.applied.injEq] at output
      rcases output with old | ⟨rfl, rfl⟩
      · exact Or.inl old
      · exact Or.inr ((backed.running p member running).mono grown)
    · intro q stored k vote
      exact (backed.counted q (List.mem_of_getElem? stored) k vote).mono grown
    · intro q stored chain
      exact absurd chain (by simp [Proposal.awaitSeq])
  | finishSeq held running =>
    rename_i pid p
    refine backed.modify pid (f := Proposal.markApplied)
      (fun _ => ⟨rfl, rfl, rfl, rfl, rfl, rfl, rfl, rfl⟩) rfl grown (fun _ _ old => Or.inl old) ?_ ?_
    · intro q stored k vote
      exact (backed.counted q (List.mem_of_getElem? stored) k vote).mono grown
    · intro q stored chain
      exact absurd chain (by simp [Proposal.markApplied])

end Certificates
section Steps
variable {cfg : Params Config} {h : Hub Config} {m : Env × Event Config}

theorem opens_fresh {p : Proposal Config} (record : opens cfg h m = some p) :
    p.commitPubkeys = .empty ∧ p.chain = .idle := by
  obtain ⟨leader, view, config, weighted, snapshot, height, shape⟩ := opens_record record
  rw [shape]
  exact ⟨rfl, rfl⟩

end Steps
section Federation
variable {ι : Type}

/- The honest hubs over one locked snapshot: their keys, the member keys, and the
   members that are not theirs. -/
structure Federation (Config ι : Type) where
  cfg : ι → Params Config
  key : ι → String
  members : Finset String
  faulty : Finset String
  snapshot : Snapshot
  weighted : Bool

variable (f : Federation Config ι)

structure Federation.Honest : Prop where
  identity : ∀ i, selfPubkey (f.cfg i) = some (f.key i)
  distinct : Function.Injective f.key
  member : ∀ i, f.key i ∈ f.members
  others : ∀ k ∈ f.members, k ∉ f.faulty → ∃ i, f.key i = k

/- Two vote sets of members that meet the round's quorum, each by the rule of some
   honest hub, share a member that is not faulty. -/
def Federation.HonestOverlap : Prop :=
  ∀ i j, ∀ addrs keys others more : OrderedSet String, 0 < keys.size → 0 < more.size →
    (∀ k ∈ keys, k ∈ f.members) → (∀ k ∈ more, k ∈ f.members) →
    quorumMet (f.cfg i) (getQuorum (some f.snapshot)) f.weighted
      (normalizeValidators (f.cfg i) (some f.snapshot) f.weighted) addrs keys = true →
    quorumMet (f.cfg j) (getQuorum (some f.snapshot)) f.weighted
      (normalizeValidators (f.cfg j) (some f.snapshot) f.weighted) others more = true →
    ∃ k, k ∈ keys ∧ k ∈ more ∧ k ∉ f.faulty

abbrev World (Config ι : Type) := ι → Hub Config

abbrev Move (Config ι : Type) := ι × (Env × Event Config)

/- Transport: an envelope proved by an honest hub's key carries what that hub sent. -/
def Federation.Authentic (w : World Config ι) (m : Move Config ι) : Prop :=
  match m.2.2 with
  | .deliver e => ∀ j, provenPubkey (f.cfg m.1) e = some (f.key j) → e.data ∈ broadcasts (w j)
  | _ => True

/- Every round is opened over the one locked snapshot. -/
def Federation.OverSnapshot (w : World Config ι) (m : Move Config ι) : Prop :=
  match opens (f.cfg m.1) (w m.1) m.2 with
  | none => True
  | some p => OpenOver (f.cfg m.1) f.snapshot f.weighted p

/- A COMMIT that a hub admits was signed by a member key. -/
def Federation.MemberCommits (m : Move Config ι) : Prop :=
  match m.2.2 with
  | .deliver e => e.data.isCommit = true → isKnownSender (f.cfg m.1) m.2.1 e = true →
      ∀ k ∈ provenPubkey (f.cfg m.1) e, k ∈ f.members
  | _ => True

def Message.commitDigest (seq : ℚ) : Message Config → Option String
  | .commit (some s) (some d) => if s = seq then some d else none
  | _ => none

/- The COMMIT digests a hub has sent for the seq all equal this one. -/
def CommitsOnly (h : Hub Config) (seq : ℚ) (digest : String) : Prop :=
  ∀ d ∈ (broadcasts h).filterMap (Message.commitDigest seq), d = digest

/- The step opens no record against a COMMIT the hub already sent for its seq. -/
def Federation.KeepsLock (w : World Config ι) (m : Move Config ι) : Prop :=
  match opens (f.cfg m.1) (w m.1) m.2 with
  | none => True
  | some p => CommitsOnly (w m.1) p.seq p.digest

/- What the transport and the shared snapshot promise of every step. -/
structure Federation.Given (w : World Config ι) (m : Move Config ι) : Prop where
  authentic : f.Authentic w m
  onSnapshot : f.OverSnapshot w m

/- Together with the two conditions under which agreement holds. -/
structure Federation.Guard (w : World Config ι) (m : Move Config ι) : Prop where
  given : f.Given w m
  commits : f.MemberCommits m
  lock : f.KeepsLock w m

def startWorld (seq : ι → ℚ) : World Config ι := fun i => Hub.started (seq i)

/- A key's vote as the world knows it: a member's, and for an honest hub a sent COMMIT. -/
def Federation.WorldVote (w : World Config ι) (k : String) (seq : ℚ) (digest : String) : Prop :=
  k ∈ f.members ∧ ∀ j, f.key j = k → CommitSent (w j) seq digest

def Federation.Seen (w : World Config ι) (i : ι) (e : Envelope Config) : Prop :=
  ∀ seq digest k, e.data = .commit (some seq) (some digest) →
    provenPubkey (f.cfg i) e = some k → f.WorldVote w k seq digest

/- What one hub of the federation maintains, relative to the votes of the world. -/
structure Federation.HubInvariant (w : World Config ι) (i : ι) (h : Hub Config) : Prop where
  ready : Ready (f.Seen w i) h
  locked : Locked h
  backed : Backed (f.cfg i) (f.WorldVote w) f.snapshot f.weighted h

variable {f}

section Decide
variable [Fintype ι] [DecidableEq Config] (w : World Config ι) (m : Move Config ι)

instance : Decidable (f.Authentic w m) :=
  match found : m.2.2 with
  | .deliver e =>
    decidable_of_iff
      (∀ j, provenPubkey (f.cfg m.1) e = some (f.key j) → e.data ∈ broadcasts (w j))
      (by simp [Federation.Authentic, found])
  | .propose _ | .locked _ _ _ | .leaderTimeout _ | .followerExpiry _ | .configApplied _ _
  | .seqSaved _ _ => isTrue (by simp [Federation.Authentic, found])

instance (cfg : Params Config) (s : Snapshot) (weighted : Bool) (p : Proposal Config) :
    Decidable (OpenOver cfg s weighted p) := inferInstanceAs (Decidable (_ ∧ _ ∧ _))

instance : Decidable (f.OverSnapshot w m) :=
  match found : opens (f.cfg m.1) (w m.1) m.2 with
  | none => isTrue (by simp [Federation.OverSnapshot, found])
  | some p =>
    decidable_of_iff (OpenOver (f.cfg m.1) f.snapshot f.weighted p)
      (by simp [Federation.OverSnapshot, found])

instance : Decidable (f.MemberCommits m) :=
  match found : m.2.2 with
  | .deliver e =>
    decidable_of_iff
      (e.data.isCommit = true → isKnownSender (f.cfg m.1) m.2.1 e = true →
        ∀ k ∈ provenPubkey (f.cfg m.1) e, k ∈ f.members)
      (by simp [Federation.MemberCommits, found])
  | .propose _ | .locked _ _ _ | .leaderTimeout _ | .followerExpiry _ | .configApplied _ _
  | .seqSaved _ _ => isTrue (by simp [Federation.MemberCommits, found])

instance (h : Hub Config) (seq : ℚ) (digest : String) : Decidable (CommitsOnly h seq digest) :=
  inferInstanceAs (Decidable (∀ d ∈ (_ : List String), _))

instance : Decidable (f.KeepsLock w m) :=
  match found : opens (f.cfg m.1) (w m.1) m.2 with
  | none => isTrue (by simp [Federation.KeepsLock, found])
  | some p =>
    decidable_of_iff (CommitsOnly (w m.1) p.seq p.digest)
      (by simp [Federation.KeepsLock, found])

instance : Decidable (f.Given w m) :=
  decidable_of_iff (f.Authentic w m ∧ f.OverSnapshot w m)
    ⟨fun both => ⟨both.1, both.2⟩, fun given => ⟨given.authentic, given.onSnapshot⟩⟩

instance : Decidable (f.Guard w m) :=
  decidable_of_iff (f.Given w m ∧ f.MemberCommits m ∧ f.KeepsLock w m)
    ⟨fun all => ⟨all.1, all.2.1, all.2.2⟩, fun guard => ⟨guard.given, guard.commits, guard.lock⟩⟩

end Decide

theorem commits_only_sent {h : Hub Config} {seq : ℚ} {digest d : String}
    (only : CommitsOnly h seq digest) (sent : CommitSent h seq d) : d = digest :=
  only d (List.mem_filterMap.mpr ⟨_, sent, by simp [Message.commitDigest]⟩)

theorem hub_step_invariant {w : World Config ι} {m : Move Config ι} (honest : f.Honest)
    (guard : f.Guard w m) (before : f.HubInvariant w m.1 (w m.1)) :
    f.HubInvariant w m.1 (Pbft.step (f.cfg m.1) (w m.1) m.2) := by
  obtain ⟨ready, locked, backed⟩ := before
  have delivered : ∀ e, m.2.2 = .deliver e → isKnownSender (f.cfg m.1) m.2.1 e = true →
      f.Seen w m.1 e := by
    intro e event known seq digest k data proven
    have member := guard.commits
    have sent := guard.given.authentic
    simp only [Federation.MemberCommits, Federation.Authentic, event] at member sent
    refine ⟨member (by rw [data]; rfl) known k proven, fun j same => ?_⟩
    rw [CommitSent, ← data]
    exact sent j (by rw [proven, same])
  have identity : (f.cfg m.1).identity.isSome := by
    have self := honest.identity m.1
    simp only [selfPubkey, Option.map_eq_some_iff] at self
    obtain ⟨pk, known, -⟩ := self
    simp [known]
  have opened : Locked ((w m.1).opened (opens (f.cfg m.1) (w m.1) m.2)) ∧
      Backed (f.cfg m.1) (f.WorldVote w) f.snapshot f.weighted
        ((w m.1).opened (opens (f.cfg m.1) (w m.1) m.2)) := by
    have lock := guard.lock
    have onSnapshot := guard.given.onSnapshot
    simp only [Federation.KeepsLock, Federation.OverSnapshot] at lock onSnapshot
    cases record : opens (f.cfg m.1) (w m.1) m.2 with
    | none => exact ⟨locked, backed⟩
    | some p =>
      simp only [record] at lock onSnapshot
      obtain ⟨empty, idle⟩ := opens_fresh record
      refine ⟨locked.open ready (fun d sent => commits_only_sent lock sent), ?_, ?_, ?_, ?_⟩
      · intro q member
        rcases List.mem_append.mp member with old | new
        · exact backed.onSnapshot q old
        · rw [List.mem_singleton.mp new]; exact onSnapshot
      · intro q member k vote
        rcases List.mem_append.mp member with old | new
        · exact backed.counted q old k vote
        · rw [List.mem_singleton.mp new, empty] at vote
          exact absurd vote OrderedSet.not_mem_empty
      · intro q member chain
        rcases List.mem_append.mp member with old | new
        · exact backed.running q old chain
        · rw [List.mem_singleton.mp new, idle] at chain
          exact absurd chain (by simp)
      · exact backed.applied
  obtain ⟨path, after⟩ := step_leads (w m.1) m.2 delivered (ready.opened _)
  have sound : SeenVoted (f.cfg m.1) (f.WorldVote w) (f.Seen w m.1) :=
    fun e seen seq digest k data proven => seen seq digest k data proven
  obtain ⟨-, keptLock, keptBacking⟩ := acts_keep
    (fun h => Locked h ∧ Backed (f.cfg m.1) (f.WorldVote w) f.snapshot f.weighted h)
    (fun _ a b ready act inv => ⟨act_locked ready act inv.1, act_backed identity sound act inv.2⟩)
    (ready.opened _) opened path
  exact ⟨after, keptLock, keptBacking⟩

theorem world_vote_mono {w v : World Config ι}
    (grown : ∀ j, (w j).trace <+: (v j).trace) {k : String} {seq : ℚ} {digest : String}
    (vote : f.WorldVote w k seq digest) : f.WorldVote v k seq digest :=
  ⟨vote.1, fun j same => commit_sent_mono (grown j) (vote.2 j same)⟩

theorem hub_invariant_mono {w v : World Config ι} (grown : ∀ j, (w j).trace <+: (v j).trace)
    {i : ι} {h : Hub Config} (inv : f.HubInvariant w i h) : f.HubInvariant v i h := by
  obtain ⟨ready, locked, backed⟩ := inv
  have voted : ∀ k seq digest, Voted (f.cfg i) (f.WorldVote w) h k seq digest →
      Voted (f.cfg i) (f.WorldVote v) h k seq digest := by
    rintro k seq digest (taken | own)
    · exact Or.inl (world_vote_mono grown taken)
    · exact Or.inr own
  have certified : ∀ seq digest, Certified (f.cfg i) (f.WorldVote w) f.snapshot f.weighted h seq
      digest → Certified (f.cfg i) (f.WorldVote v) f.snapshot f.weighted h seq digest := by
    rintro seq digest ⟨addrs, keys, nonempty, met, votes⟩
    exact ⟨addrs, keys, nonempty, met, fun k member => voted k seq digest (votes k member)⟩
  refine ⟨ready.mono (fun e seen seq digest k data proven => ?_), locked, backed.onSnapshot,
    ?_, ?_, ?_⟩
  · exact world_vote_mono grown (seen seq digest k data proven)
  · exact fun p member k vote => voted k _ _ (backed.counted p member k vote)
  · exact fun p member chain => certified _ _ (backed.running p member chain)
  · exact fun seq digest output => certified _ _ (backed.applied seq digest output)

theorem hub_trace_grows {w : World Config ι} {i : ι} {h : Hub Config}
    (inv : f.HubInvariant w i h) (m : Env × Event Config) :
    h.trace <+: (Pbft.step (f.cfg i) h m).trace :=
  step_trace (inv.ready.mono (fun _ _ => trivial))

theorem started_invariant (seq : ι → ℚ) (i : ι) :
    f.HubInvariant (startWorld seq) i (startWorld seq i) := by
  refine ⟨started_ready (seq i), ⟨?_, ?_⟩, ?_, ?_, ?_, ?_⟩
  · intro s pid p held
    exact absurd held (by simp [startWorld, Hub.started, Hub.pending])
  · intro s d e sent
    exact absurd sent (by simp [CommitSent, broadcasts, startWorld, Hub.started])
  · intro p member
    exact absurd member (by simp [startWorld, Hub.started])
  · intro p member
    exact absurd member (by simp [startWorld, Hub.started])
  · intro p member
    exact absurd member (by simp [startWorld, Hub.started])
  · intro s d output
    exact absurd output (by simp [startWorld, Hub.started])

/-- The voters behind an apply are members, and the honest ones sent that COMMIT. -/
theorem certificate_votes (honest : f.Honest) {w : World Config ι} {i : ι}
    {seq : ℚ} {digest k : String}
    (vote : Voted (f.cfg i) (f.WorldVote w) (w i) k seq digest) : f.WorldVote w k seq digest := by
  rcases vote with taken | ⟨own, sent⟩
  · exact taken
  · rw [honest.identity i, Option.some.injEq] at own
    subst own
    refine ⟨honest.member i, fun j same => ?_⟩
    rw [honest.distinct same]
    exact sent

/-- In count mode the overlap is a matter of sizes. -/
theorem count_mode_overlap (count : f.weighted = false)
    (large : f.faulty.card + f.members.card < 2 * max (getQuorum (some f.snapshot)) 1) :
    f.HonestOverlap := by
  intro i j addrs keys others more nonempty filled inMembers moreMembers met reached
  simp only [count, quorumMet, Bool.false_eq_true, if_false, nonempty, filled, if_true,
    decide_eq_true_eq] at met reached
  have left : keys.toFinset ⊆ f.members :=
    fun k member => inMembers k (OrderedSet.mem_to_finset.mp member)
  have right : more.toFinset ⊆ f.members :=
    fun k member => moreMembers k (OrderedSet.mem_to_finset.mp member)
  have sizes : f.faulty.card + f.members.card < keys.toFinset.card + more.toFinset.card := by
    rw [keys.card_to_finset, more.card_to_finset]
    omega
  obtain ⟨k, inKeys, inMore, sound⟩ := QuorumSets.overlap_escapes left right sizes
  exact ⟨k, OrderedSet.mem_to_finset.mp inKeys, OrderedSet.mem_to_finset.mp inMore, sound⟩

section Runs
variable [DecidableEq ι]

variable (f) in
def Federation.step : World Config ι → Move Config ι → World Config ι :=
  move (fun i => Pbft.step (f.cfg i))

/-- The step lemma of the federation: one hub moves, every hub keeps its invariant. -/
theorem federation_step_invariant (honest : f.Honest) (w : World Config ι) (m : Move Config ι)
    (all : ∀ i, f.HubInvariant w i (w i)) (guard : f.Guard w m) :
    ∀ i, f.HubInvariant (f.step w m) i (f.step w m i) := by
  have moved : f.step w m m.1 = Pbft.step (f.cfg m.1) (w m.1) m.2 := move_same w m.1 m.2
  have still : ∀ j, j ≠ m.1 → f.step w m j = w j := fun j other => move_other other
  have grown : ∀ j, (w j).trace <+: (f.step w m j).trace := by
    intro j
    by_cases same : j = m.1
    · rw [same, moved]
      exact hub_trace_grows (all m.1) m.2
    · rw [still j same]
  intro i
  refine hub_invariant_mono grown ?_
  by_cases same : i = m.1
  · rw [same, moved]
    exact hub_step_invariant honest guard (all m.1)
  · rw [still i same]
    exact all i

theorem run_hub_invariant (honest : f.Honest) (seq : ι → ℚ) {ms : List (Move Config ι)}
    (admitted : Admitted f.step f.Guard (startWorld seq) ms) (i : ι) :
    f.HubInvariant (run f.step (startWorld seq) ms) i (run f.step (startWorld seq) ms i) :=
  run_invariant (fun w => ∀ i, f.HubInvariant w i (w i))
    (fun w m all guard => federation_step_invariant honest w m all guard)
    (started_invariant seq) admitted i

/-- Agreement over whole runs: while every admitted COMMIT is a member's, any two
    quorums share an honest member, and no hub opens a record against a COMMIT it
    sent, no two honest hubs apply different digests for one seq. -/
theorem config_agreement (honest : f.Honest) (overlap : f.HonestOverlap) (seq : ι → ℚ)
    {ms : List (Move Config ι)} (admitted : Admitted f.step f.Guard (startWorld seq) ms)
    (i j : ι) (slot : ℚ) (d e : String)
    (first : .applied slot d ∈ (run f.step (startWorld seq) ms i).trace)
    (second : .applied slot e ∈ (run f.step (startWorld seq) ms j).trace) : d = e := by
  have inv := run_hub_invariant honest seq admitted
  obtain ⟨addrs, keys, nonempty, met, votes⟩ := (inv i).backed.applied slot d first
  obtain ⟨others, more, filled, reached, backing⟩ := (inv j).backed.applied slot e second
  obtain ⟨k, inKeys, inMore, sound⟩ := overlap i j addrs keys others more nonempty filled
    (fun k member => (certificate_votes honest (votes k member)).1)
    (fun k member => (certificate_votes honest (backing k member)).1) met reached
  have left := certificate_votes honest (votes k inKeys)
  have right := certificate_votes honest (backing k inMore)
  obtain ⟨n, rfl⟩ := honest.others k left.1 sound
  exact (inv n).locked.single slot d e (left.2 n rfl) (right.2 n rfl)

end Runs
end Federation
/- Two honest members, no fault. -/
def twoHubs : Federation String (Fin 2) where
  cfg := fun i => if i = 0 then countParams "h0" "k0" else countParams "h1" "k1"
  key := fun i => if i = 0 then "k0" else "k1"
  members := {"k0", "k1"}
  faulty := ∅
  snapshot := ⟨some 2, some [⟨"k0", some "s0", some "1"⟩, ⟨"k1", some "s1", some "1"⟩], false⟩
  weighted := false

def fromHub (addr key : String) (data : Message String) : Event String :=
  .deliver ⟨addr, some key, data⟩

def at4 {n : ℕ} (i : Fin n) (event : Event String) : Fin n × (Env × Event String) :=
  (i, (fourHubs, event))

/- h1 leads seq 1; both hubs prepare, commit and apply A. -/
def twoHubRun : List (Move String (Fin 2)) :=
  let lock := Event.locked 0 (some 100) ⟨some 100, some twoHubs.snapshot⟩
  [at4 1 (.propose "A"), at4 1 lock,
   at4 0 (.deliver (prePrepareFrom "h1" "k1" "A" 1 0)), at4 0 lock,
   at4 1 (fromHub "h0" "k0" (.prepare (some 1) (some "A"))),
   at4 1 (fromHub "h0" "k0" (.commit (some 1) (some "A"))),
   at4 0 (fromHub "h1" "k1" (.commit (some 1) (some "A"))),
   at4 1 (.configApplied 0 true), at4 0 (.configApplied 0 true)]

theorem two_hubs_honest : twoHubs.Honest := by
  refine ⟨by decide, by decide, by decide, ?_⟩
  intro k member _
  rcases Finset.mem_insert.mp member with rfl | last
  · exact ⟨0, rfl⟩
  · exact ⟨1, (Finset.mem_singleton.mp last).symm⟩

theorem two_hubs_overlap : twoHubs.HonestOverlap :=
  count_mode_overlap rfl (by decide)

/-- Both hubs apply in the run, and what they apply is the same. -/
theorem two_hubs_agree :
    .applied 1 "A" ∈ (run twoHubs.step (startWorld fun _ => 0) twoHubRun 0).trace ∧
    ∀ e, .applied 1 e ∈ (run twoHubs.step (startWorld fun _ => 0) twoHubRun 1).trace →
      "A" = e := by
  have admitted : Admitted twoHubs.step twoHubs.Guard (startWorld fun _ => 0) twoHubRun := by
    decide +kernel
  have first : .applied 1 "A" ∈
      (run twoHubs.step (startWorld fun _ => 0) twoHubRun 0).trace := by
    decide +kernel
  exact ⟨first, fun e second => config_agreement two_hubs_honest two_hubs_overlap (fun _ => 0)
    admitted 0 1 1 "A" e first second⟩

/- Three honest members and the faulty k3. -/
def fourFederation : Federation String (Fin 3) where
  cfg := fun i =>
    if i = 0 then countParams "h0" "k0"
    else if i = 1 then countParams "h1" "k1" else countParams "h2" "k2"
  key := fun i => if i = 0 then "k0" else if i = 1 then "k1" else "k2"
  members := {"k0", "k1", "k2", "k3"}
  faulty := {"k3"}
  snapshot := fourMembers
  weighted := false

/- k1 leads (1, 0) and all three hubs commit A, which only h1 learns and applies; the
   records of h0 and h2 expire; k3 leads (1, 2), where h0 and h2 commit B with it. -/
def expiredLockRun : List (Move String (Fin 3)) :=
  let lock := fun tid => Event.locked tid (some 100) fourLock
  let vote := fun (addr key digest : String) =>
    fromHub addr key (.prepare (some 1) (some digest))
  let commit := fun (addr key digest : String) =>
    fromHub addr key (.commit (some 1) (some digest))
  [at4 1 (.propose "A"), at4 1 (lock 0),
   at4 0 (.deliver (prePrepareFrom "h1" "k1" "A" 1 0)), at4 0 (lock 0),
   at4 2 (.deliver (prePrepareFrom "h1" "k1" "A" 1 0)), at4 2 (lock 0),
   at4 0 (vote "h2" "k2" "A"), at4 2 (vote "h0" "k0" "A"),
   at4 1 (vote "h0" "k0" "A"), at4 1 (vote "h2" "k2" "A"),
   at4 1 (commit "h0" "k0" "A"), at4 1 (commit "h2" "k2" "A"), at4 1 (.configApplied 0 true),
   at4 0 (.followerExpiry 0), at4 2 (.followerExpiry 0),
   at4 0 (.deliver (prePrepareFrom "h3" "k3" "B" 1 2)), at4 0 (lock 1),
   at4 2 (.deliver (prePrepareFrom "h3" "k3" "B" 1 2)), at4 2 (lock 1),
   at4 0 (vote "h2" "k2" "B"), at4 2 (vote "h0" "k0" "B"),
   at4 0 (commit "h2" "k2" "B"), at4 0 (commit "h3" "k3" "B"), at4 0 (.configApplied 1 true)]

/-- One faulty member of four and only delivered, honest or faulty-signed messages:
    h1 applies A and h0 applies B for seq 1. -/
theorem expired_lock_disagrees :
    fourFederation.Honest ∧
    fourFederation.faulty.card ≤ faultBound fourFederation.members.card ∧
    Admitted fourFederation.step fourFederation.Given (startWorld fun _ => 0) expiredLockRun ∧
    .applied 1 "A" ∈ (run fourFederation.step (startWorld fun _ => 0) expiredLockRun 1).trace ∧
    .applied 1 "B" ∈ (run fourFederation.step (startWorld fun _ => 0) expiredLockRun 0).trace := by
  refine ⟨⟨by decide, by decide, by decide, ?_⟩, by decide,
    by decide +kernel, by decide +kernel, by decide +kernel⟩
  intro k member sound
  simp only [fourFederation, Finset.mem_insert, Finset.mem_singleton] at member sound
  rcases member with rfl | rfl | rfl | rfl
  · exact ⟨0, rfl⟩
  · exact ⟨1, rfl⟩
  · exact ⟨2, rfl⟩
  · exact absurd rfl sound

end XChainHub.Pbft
