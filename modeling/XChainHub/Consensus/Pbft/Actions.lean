import XChainHub.Consensus.Pbft.Handlers

/-!
What one engine step can do. After the record it opens, if any, every step is a
sequence of the actions below, so an invariant is checked once an action and
never by unfolding the handlers again.
-/
namespace XChainHub.Pbft

variable {Config : Type}

/- The fields of a record that nothing changes once it is open. -/
structure Proposal.SameRound (p q : Proposal Config) : Prop where
  seq : q.seq = p.seq
  digest : q.digest = p.digest
  view : q.view = p.view
  height : q.btcBlockHeight = p.btcBlockHeight
  quorum : q.quorum = p.quorum
  weighted : q.weighted = p.weighted
  validators : q.validators = p.validators
  members : q.memberPubkeys = p.memberPubkeys

/- What is left of a record's votes and of its apply by a change that touches neither. -/
structure Proposal.SameVotes (p q : Proposal Config) : Prop where
  preparers : q.prepares = p.prepares
  prepares : q.preparePubkeys = p.preparePubkeys
  committers : q.commits = p.commits
  commits : q.commitPubkeys = p.commitPubkeys
  sent : q.commitSent = p.commitSent
  applied : q.applied = p.applied

/- Bookkeeping on a record: neither its votes nor its apply, except to unlock it. -/
structure Marks (f : Proposal Config → Proposal Config) : Prop where
  same : ∀ p : Proposal Config, p.SameRound (f p)
  votes : ∀ p : Proposal Config, p.SameVotes (f p)
  busy : ∀ p, (f p).chain ≠ .idle → (f p).chain = p.chain ∧ (f p).applying = p.applying

def Message.isCommit : Message Config → Bool
  | .commit _ _ => true
  | _ => false

def Output.Silent : Output Config → Prop
  | .broadcast data equiv => data.isCommit = false ∧ equiv = none
  | .applied _ _ => False
  | _ => True

def Proposal.vote (cfg : Params Config) (p : Proposal Config) : Option EquivVote :=
  equivVote cfg p.seq p.view p.digest p.btcBlockHeight

def Buffered (seen : Envelope Config → Prop) (h : Hub Config) : Prop :=
  ∀ b ∈ h.earlyVotes, ∀ e ∈ b.votes, seen e

/- A PREPARE for the digest that is admitted now, or the PRE_PREPARE that proposes it. -/
def Envelope.prepares (cfg : Params Config) (env : Env) (e : Envelope Config) (seq : ℚ)
    (digest : String) : Bool :=
  match e.data with
  | .prepare s d => s = some seq && d = some digest && isKnownSender cfg env e
  | .prePrepare s _ d _ _ => s = some seq && d = some digest
  | _ => false

def Envelope.Proven (e : Envelope Config) : Prop := ∃ pk, e.sigPubkey = some pk ∧ pk ≠ ""

/- A parked handler holds a delivered envelope, of a sequence above the last applied one. -/
def Task.Admitted (seen : Envelope Config → Prop) (last : ℚ) : Task Config → Prop
  | .prePrepare envelope seq view digest config height _ =>
    seen envelope ∧ envelope.Proven ∧ last < seq ∧
      envelope.data = .prePrepare (some seq) (some view) (some digest) (some config) height
  | .propose _ => True

/- Voters for a record's digest are added, this hub's own key or those of seen envelopes. -/
structure Proposal.PrepareCounted (cfg : Params Config) (env : Env)
    (seen : Envelope Config → Prop) (p q : Proposal Config) : Prop where
  commits : q.commitPubkeys = p.commitPubkeys
  sent : q.commitSent = p.commitSent
  applied : q.applied = p.applied
  chain : q.chain = p.chain
  applying : q.applying = p.applying
  committers : q.commits = p.commits
  counted : ∀ k ∈ q.preparePubkeys, k ∈ p.preparePubkeys ∨ selfPubkey cfg = some k ∨
    ∃ e, seen e ∧ e.prepares cfg env p.seq p.digest = true ∧ provenPubkey cfg e = some k
  kept : ∀ k ∈ p.preparePubkeys, k ∈ q.preparePubkeys
  keyed : 0 < q.preparePubkeys.size ∨ ∀ a ∈ q.prepares, a ∈ p.prepares ∨ a = cfg.validatorAddr

/- seen holds of the envelopes delivered so far. -/
inductive Act (cfg : Params Config) (env : Env) (seen : Envelope Config → Prop) :
    Hub Config → Hub Config → Prop where
  | quiet {h after : Hub Config} (heap : after.proposals = h.proposals)
      (map : after.pendingProposals = h.pendingProposals) (said : after.trace = h.trace)
      (parked : after.tasks = h.tasks) (last : after.lastAppliedSeq = h.lastAppliedSeq)
      (votes : Buffered seen after) : Act cfg env seen h after
  | park {h : Hub Config} {t : Task Config} (admitted : t.Admitted seen h.lastAppliedSeq) :
      Act cfg env seen h { h with tasks := h.tasks ++ [some t] }
  | finish {h : Hub Config} (tid : ℕ) : Act cfg env seen h (h.finishTask tid)
  | forget {h : Hub Config} (seq : ℚ) : Act cfg env seen h (h.forget seq)
  | mark {h : Hub Config} (pid : ℕ) {f : Proposal Config → Proposal Config} (marks : Marks f) :
      Act cfg env seen h (h.modify pid f)
  | say {h : Hub Config} {o : Output Config} (silent : o.Silent) : Act cfg env seen h (h.emit o)
  | sign {h : Hub Config} {seq : ℚ} {pid : ℕ} {p : Proposal Config} {data : Message Config}
      (held : h.pending seq = some (pid, p)) (kind : data.isCommit = false) :
      Act cfg env seen h (h.emit (.broadcast data (p.vote cfg)))
  | sendCommit {h : Hub Config} {seq : ℚ} {pid : ℕ} {p : Proposal Config}
      (held : h.pending seq = some (pid, p)) (fresh : p.commitSent = false)
      (met : quorumMet cfg p.quorum p.weighted p.validators p.prepares p.preparePubkeys = true) :
      Act cfg env seen h ((h.modify pid (Proposal.sendCommit cfg)).emit
        (.broadcast (.commit (some p.seq) (some p.digest)) (p.vote cfg)))
  | countPrepare {h : Hub Config} {seq : ℚ} {pid : ℕ} {p : Proposal Config}
      {f : Proposal Config → Proposal Config} (held : h.pending seq = some (pid, p))
      (round : ∀ q : Proposal Config, q.SameRound (f q))
      (counts : p.PrepareCounted cfg env seen (f p)) : Act cfg env seen h (h.modify pid f)
  | countCommit {h : Hub Config} {seq : ℚ} {pid : ℕ} {p : Proposal Config}
      {envelope : Envelope Config} (held : h.pending seq = some (pid, p)) (vote : seen envelope)
      (known : isKnownSender cfg env envelope = true)
      (data : envelope.data = .commit (some p.seq) (some p.digest)) :
      Act cfg env seen h (h.modify pid (Proposal.countCommit cfg env envelope))
  | startApply {h : Hub Config} {seq : ℚ} {pid : ℕ} {p : Proposal Config}
      (held : h.pending seq = some (pid, p)) (fresh : p.applied = false ∧ p.applying = false)
      (met : quorumMet cfg p.quorum p.weighted p.validators p.commits p.commitPubkeys = true)
      (nonempty : cfg.identity.isSome → 0 < p.commitPubkeys.size) :
      Act cfg env seen h (h.modify pid Proposal.beginApply)
  | finishConfig {h : Hub Config} {pid : ℕ} {p : Proposal Config}
      (held : h.proposals[pid]? = some p) (running : p.chain = .configInFlight) :
      Act cfg env seen h ((h.modify pid Proposal.awaitSeq).emit (.applied p.seq p.digest))
  | finishSeq {h : Hub Config} {pid : ℕ} {p : Proposal Config}
      (held : h.proposals[pid]? = some p) (running : p.chain = .seqInFlight) :
      Act cfg env seen h { h.modify pid Proposal.markApplied with
        lastAppliedSeq := max p.seq h.lastAppliedSeq }

/- The map only points at records of its own seq, and only seen envelopes are buffered
   or parked. -/
structure Ready (seen : Envelope Config → Prop) (h : Hub Config) : Prop where
  linked : ∀ seq pid, h.pendingProposals.lookup seq = some pid →
    ∃ p, h.proposals[pid]? = some p ∧ p.seq = seq
  buffered : Buffered seen h
  parked : ∀ tid t, h.task tid = some t → ∃ last, t.Admitted seen last

theorem Task.Admitted.mono {seen more : Envelope Config → Prop} {last : ℚ} {t : Task Config}
    (admitted : t.Admitted seen last) (wider : ∀ e, seen e → more e) : t.Admitted more last := by
  cases t with
  | prePrepare envelope seq view digest config height tipBound =>
    exact ⟨wider _ admitted.1, admitted.2⟩
  | propose config => trivial

theorem Ready.mono {seen more : Envelope Config → Prop} {h : Hub Config} (ready : Ready seen h)
    (wider : ∀ e, seen e → more e) : Ready more h := by
  refine ⟨ready.linked, fun b member e vote => wider e (ready.buffered b member e vote), ?_⟩
  intro tid t held
  obtain ⟨last, admitted⟩ := ready.parked tid t held
  exact ⟨last, admitted.mono wider⟩

theorem pending_eq_some {h : Hub Config} {seq : ℚ} {pid : ℕ} {p : Proposal Config} :
    h.pending seq = some (pid, p) ↔
      h.pendingProposals.lookup seq = some pid ∧ h.proposals[pid]? = some p := by
  simp only [Hub.pending, Option.bind_eq_some_iff, Option.map_eq_some_iff, Prod.mk.injEq]
  constructor
  · rintro ⟨other, found, q, record, rfl, rfl⟩
    exact ⟨found, record⟩
  · rintro ⟨found, record⟩
    exact ⟨pid, found, p, record, rfl, rfl⟩

theorem Ready.pending_seq {seen : Envelope Config → Prop} {h : Hub Config} {seq : ℚ} {pid : ℕ}
    {p : Proposal Config} (ready : Ready seen h) (held : h.pending seq = some (pid, p)) :
    p.seq = seq := by
  obtain ⟨found, record⟩ := pending_eq_some.mp held
  obtain ⟨q, stored, same⟩ := ready.linked seq pid found
  rw [record, Option.some.injEq] at stored
  rw [stored]
  exact same

theorem modify_record {h : Hub Config} {pid other : ℕ} {f : Proposal Config → Proposal Config} :
    (h.modify pid f).proposals[other]? =
      h.proposals[other]?.map (fun p => if pid = other then f p else p) := by
  simp [Hub.modify, List.getElem?_modify]

theorem modify_pending {h : Hub Config} {seq : ℚ} {pid : ℕ} {p : Proposal Config}
    {f : Proposal Config → Proposal Config} (held : h.pending seq = some (pid, p)) :
    (h.modify pid f).pending seq = some (pid, f p) := by
  obtain ⟨found, record⟩ := pending_eq_some.mp held
  exact pending_eq_some.mpr ⟨found, by simp [modify_record, record]⟩

theorem pending_of_modify {h : Hub Config} {other pid : ℕ} {seq : ℚ} {p : Proposal Config}
    {f : Proposal Config → Proposal Config} (same : ∀ q : Proposal Config, q.SameRound (f q))
    (held : (h.modify other f).pending seq = some (pid, p)) :
    ∃ q, h.pending seq = some (pid, q) ∧ q.SameRound p := by
  obtain ⟨found, record⟩ := pending_eq_some.mp held
  rw [modify_record] at record
  obtain ⟨q, stored, rfl⟩ := Option.map_eq_some_iff.mp record
  refine ⟨q, pending_eq_some.mpr ⟨found, stored⟩, ?_⟩
  split
  · exact same q
  · exact ⟨rfl, rfl, rfl, rfl, rfl, rfl, rfl, rfl⟩

theorem modify_member {h : Hub Config} {pid : ℕ} {f : Proposal Config → Proposal Config}
    {p : Proposal Config} (member : p ∈ (h.modify pid f).proposals) :
    p ∈ h.proposals ∨ ∃ q, h.proposals[pid]? = some q ∧ p = f q := by
  obtain ⟨i, found⟩ := List.mem_iff_getElem?.mp member
  rw [modify_record] at found
  obtain ⟨q, stored, rfl⟩ := Option.map_eq_some_iff.mp found
  split
  · rename_i same
    exact Or.inr ⟨q, by rw [same]; exact stored, rfl⟩
  · exact Or.inl (List.mem_of_getElem? stored)

@[simp] theorem emit_pending (h : Hub Config) (o : Output Config) (seq : ℚ) :
    (h.emit o).pending seq = h.pending seq := rfl

section
variable {cfg : Params Config} {env : Env} {seen : Envelope Config → Prop}

theorem Ready.modify {h : Hub Config} (ready : Ready seen h) (pid : ℕ)
    {f : Proposal Config → Proposal Config} (seq : ∀ p, (f p).seq = p.seq) :
    Ready seen (h.modify pid f) := by
  refine ⟨?_, ready.buffered, ready.parked⟩
  intro s other found
  obtain ⟨p, record, same⟩ := ready.linked s other found
  refine ⟨if pid = other then f p else p, by simp [modify_record, record], ?_⟩
  split
  · rw [seq, same]
  · exact same

theorem Ready.emit {h : Hub Config} (ready : Ready seen h) (o : Output Config) :
    Ready seen (h.emit o) := ⟨ready.linked, ready.buffered, ready.parked⟩

theorem Ready.forget {h : Hub Config} (ready : Ready seen h) (seq : ℚ) :
    Ready seen (h.forget seq) := by
  refine ⟨?_, ready.buffered, ready.parked⟩
  intro s pid found
  by_cases same : s = seq
  · subst same
    exact absurd (found.symm.trans (AList.lookup_erase s h.pendingProposals)) (by simp)
  · simp only [Hub.forget, AList.lookup_erase_ne same] at found
    exact ready.linked s pid found

theorem Ready.open {h : Hub Config} (ready : Ready seen h) (p : Proposal Config) :
    Ready seen (h.openRecord p) := by
  refine ⟨?_, ready.buffered, ready.parked⟩
  intro s pid found
  by_cases same : s = p.seq
  · subst same
    simp only [Hub.openRecord, AList.lookup_insert, Option.some.injEq] at found
    subst found
    exact ⟨p, by simp [Hub.openRecord], rfl⟩
  · simp only [Hub.openRecord, AList.lookup_insert_ne same] at found
    obtain ⟨q, record, seq⟩ := ready.linked s pid found
    refine ⟨q, ?_, seq⟩
    simp only [Hub.openRecord]
    rw [List.getElem?_append_left (List.getElem?_eq_some_iff.mp record).1]
    exact record

theorem open_pending_other {h : Hub Config} (ready : Ready seen h) {p : Proposal Config} {seq : ℚ}
    (other : seq ≠ p.seq) : (h.openRecord p).pending seq = h.pending seq := by
  simp only [Hub.pending, Hub.openRecord, AList.lookup_insert_ne other]
  cases found : h.pendingProposals.lookup seq with
  | none => rfl
  | some pid =>
    obtain ⟨q, record, -⟩ := ready.linked seq pid found
    simp only [Option.bind_some]
    rw [List.getElem?_append_left (List.getElem?_eq_some_iff.mp record).1]

theorem finish_task {h : Hub Config} {tid other : ℕ} {t : Task Config}
    (held : (h.finishTask tid).task other = some t) : h.task other = some t := by
  simp only [Hub.task, Hub.finishTask, Option.join_eq_some_iff] at held ⊢
  rw [List.getElem?_set] at held
  split at held
  · split at held <;> simp at held
  · exact held

theorem Ready.finish {h : Hub Config} (ready : Ready seen h) (tid : ℕ) :
    Ready seen (h.finishTask tid) :=
  ⟨ready.linked, ready.buffered, fun other t held => ready.parked other t (finish_task held)⟩

theorem park_task {h : Hub Config} {new t : Task Config} {tid : ℕ}
    (held : Hub.task { h with tasks := h.tasks ++ [some new] } tid = some t) :
    h.task tid = some t ∨ t = new := by
  simp only [Hub.task, Option.join_eq_some_iff] at held ⊢
  rw [List.getElem?_append] at held
  split at held
  · exact Or.inl held
  · rw [List.getElem?_singleton] at held
    split at held
    · exact Or.inr (by simpa using held.symm)
    · simp at held

theorem act_ready {h after : Hub Config} (ready : Ready seen h) (act : Act cfg env seen h after) :
    Ready seen after := by
  cases act with
  | quiet heap map said parked last votes =>
    refine ⟨by rw [heap, map]; exact ready.linked, votes, ?_⟩
    intro tid t held
    exact ready.parked tid t (by rwa [Hub.task, parked] at held)
  | park admitted =>
    refine ⟨ready.linked, ready.buffered, fun tid t held => ?_⟩
    rcases park_task held with old | rfl
    · exact ready.parked tid t old
    · exact ⟨_, admitted⟩
  | finish tid => exact ready.finish tid
  | forget seq => exact ready.forget seq
  | mark pid marks => exact ready.modify pid (fun p => (marks.same p).seq)
  | say silent => exact ready.emit _
  | sign held kind => exact ready.emit _
  | sendCommit held fresh met =>
    refine Ready.emit (ready.modify _ ?_) _
    exact fun _ => rfl
  | countPrepare held round counts => exact ready.modify _ (fun q => (round q).seq)
  | countCommit held vote known data => exact ready.modify _ (fun _ => rfl)
  | startApply held fresh met nonempty => exact ready.modify _ (fun _ => rfl)
  | finishConfig held running =>
    refine Ready.emit (ready.modify _ ?_) _
    exact fun _ => rfl
  | finishSeq held running =>
    rename_i pid p
    have marked := ready.modify (f := Proposal.markApplied) pid (fun _ => rfl)
    exact ⟨marked.linked, marked.buffered, marked.parked⟩

theorem same_round_refl (p : Proposal Config) : p.SameRound p :=
  ⟨rfl, rfl, rfl, rfl, rfl, rfl, rfl, rfl⟩

/-- Actions open no record: what is pending after one was pending before, in its round. -/
theorem act_pending {a b : Hub Config} (act : Act cfg env seen a b) {seq : ℚ} {pid : ℕ}
    {q : Proposal Config} (held : b.pending seq = some (pid, q)) :
    ∃ p, a.pending seq = some (pid, p) ∧ p.SameRound q := by
  cases act with
  | quiet heap map said parked last votes =>
    rw [Hub.pending, heap, map] at held
    exact ⟨q, held, same_round_refl q⟩
  | park admitted => exact ⟨q, held, same_round_refl q⟩
  | finish tid => exact ⟨q, held, same_round_refl q⟩
  | forget other =>
    obtain ⟨found, record⟩ := pending_eq_some.mp held
    by_cases same : seq = other
    · subst same
      exact absurd (found.symm.trans (AList.lookup_erase seq a.pendingProposals)) (by simp)
    · simp only [Hub.forget, AList.lookup_erase_ne same] at found
      exact ⟨q, pending_eq_some.mpr ⟨found, record⟩, same_round_refl q⟩
  | mark pid marks => exact pending_of_modify marks.same held
  | say silent => exact ⟨q, held, same_round_refl q⟩
  | sign record kind => exact ⟨q, held, same_round_refl q⟩
  | sendCommit record fresh met =>
    rw [emit_pending] at held
    exact pending_of_modify (f := Proposal.sendCommit cfg)
      (fun _ => ⟨rfl, rfl, rfl, rfl, rfl, rfl, rfl, rfl⟩) held
  | countPrepare record round counts => exact pending_of_modify round held
  | countCommit record vote known data =>
    exact pending_of_modify (f := Proposal.countCommit cfg env _) (fun _ => ⟨rfl, rfl, rfl, rfl, rfl, rfl, rfl, rfl⟩) held
  | startApply record fresh met nonempty =>
    exact pending_of_modify (f := Proposal.beginApply) (fun _ => ⟨rfl, rfl, rfl, rfl, rfl, rfl, rfl, rfl⟩) held
  | finishConfig record running =>
    rw [emit_pending] at held
    exact pending_of_modify (f := Proposal.awaitSeq)
      (fun _ => ⟨rfl, rfl, rfl, rfl, rfl, rfl, rfl, rfl⟩) held
  | finishSeq record running =>
    exact pending_of_modify (f := Proposal.markApplied)
      (fun _ => ⟨rfl, rfl, rfl, rfl, rfl, rfl, rfl, rfl⟩) held

end

/- From a ready state, actions alone lead from h to after. -/
def Leads (cfg : Params Config) (env : Env) (seen : Envelope Config → Prop)
    (h after : Hub Config) : Prop :=
  Ready seen h → Relation.ReflTransGen (Act cfg env seen) h after ∧ Ready seen after

section
variable {cfg : Params Config} {env : Env} {seen : Envelope Config → Prop}

theorem Leads.refl (h : Hub Config) : Leads cfg env seen h h :=
  fun ready => ⟨Relation.ReflTransGen.refl, ready⟩

theorem Leads.trans {a b c : Hub Config} (first : Leads cfg env seen a b)
    (second : Leads cfg env seen b c) : Leads cfg env seen a c := by
  intro ready
  obtain ⟨there, middle⟩ := first ready
  obtain ⟨onward, final⟩ := second middle
  exact ⟨there.trans onward, final⟩

theorem Act.leads {h after : Hub Config} (act : Act cfg env seen h after) :
    Leads cfg env seen h after :=
  fun ready => ⟨Relation.ReflTransGen.single act, act_ready ready act⟩

/- The readiness of the first state may be used to justify the actions. -/
theorem leads_of_ready {h after : Hub Config} (given : Ready seen h → Leads cfg env seen h after) :
    Leads cfg env seen h after := fun ready => given ready ready

theorem quiet_leads {h after : Hub Config} (heap : after.proposals = h.proposals)
    (map : after.pendingProposals = h.pendingProposals) (said : after.trace = h.trace)
    (parked : after.tasks = h.tasks) (last : after.lastAppliedSeq = h.lastAppliedSeq)
    (votes : Buffered seen h → Buffered seen after) : Leads cfg env seen h after :=
  leads_of_ready (fun ready =>
    (Act.quiet heap map said parked last (votes ready.buffered)).leads)

theorem prune_buffered {h : Hub Config} (buffered : Buffered seen h) (now last : ℚ) :
    ∀ b ∈ pruneEarlyVotes now last h.earlyVotes, ∀ e ∈ b.votes, seen e :=
  fun b member => buffered b (List.mem_of_mem_filter member)

theorem push_votes {b : EarlyBucket Config} {expiresAt : ℚ} {envelope e : Envelope Config}
    (member : e ∈ (b.push expiresAt envelope).votes) : e ∈ b.votes ∨ e = envelope := by
  simp only [EarlyBucket.push] at member
  split at member
  · exact Or.inl member
  · simpa using member

theorem buffer_early_vote_leads {h : Hub Config} {envelope : Envelope Config}
    (vote : seen envelope) (seq : ℚ) :
    Leads cfg env seen h (bufferEarlyVote cfg env h seq envelope) := by
  simp only [bufferEarlyVote]
  split
  · exact Leads.refl h
  · split
    · exact Leads.refl h
    · split
      · exact Leads.refl h
      · refine quiet_leads rfl rfl rfl rfl rfl (fun buffered b member e inBucket => ?_)
        obtain ⟨old, stored, rfl⟩ := List.mem_map.mp member
        have known : ∀ e ∈ old.votes, seen e := by
          split at stored
          · exact prune_buffered buffered _ _ old stored
          · rcases List.mem_append.mp stored with kept | fresh
            · exact prune_buffered buffered _ _ old (List.mem_of_mem_drop kept)
            · rw [List.mem_singleton.mp fresh]
              simp
        split at inBucket
        · rcases push_votes inBucket with old_vote | rfl
          · exact known e old_vote
          · exact vote
        · exact known e inBucket

theorem check_commit_quorum_leads {h : Hub Config} {seq : ℚ}
    (nonempty : cfg.identity.isSome → ∀ pid p, h.pending seq = some (pid, p) →
      0 < p.commitPubkeys.size) : Leads cfg env seen h (checkCommitQuorum cfg h seq) := by
  simp only [checkCommitQuorum]
  split
  · exact Leads.refl h
  · rename_i pid p held
    split
    · exact Leads.refl h
    · split
      · rename_i free met
        have fresh : p.applied = false ∧ p.applying = false := by simpa using free
        exact (Act.startApply held fresh met (fun identity => nonempty identity pid p held)).leads
      · exact Leads.refl h

theorem self_key_counted (identity : cfg.identity.isSome) (keys : OrderedSet String) :
    0 < (addSelfPubkey cfg keys).size := by
  obtain ⟨pk, known⟩ := Option.isSome_iff_exists.mp identity
  simp only [addSelfPubkey, selfPubkey, known, Option.map_some]
  exact OrderedSet.size_add_pos keys _

theorem check_prepare_quorum_leads (h : Hub Config) (seq : ℚ) :
    Leads cfg env seen h (checkPrepareQuorum cfg h seq) := by
  simp only [checkPrepareQuorum]
  split
  · exact Leads.refl h
  · rename_i pid p held
    split
    · exact Leads.refl h
    · split
      · rename_i met
        split
        · exact Leads.refl h
        · rename_i fresh
          refine leads_of_ready (fun ready => ?_)
          have same := ready.pending_seq held
          have sent : Leads cfg env seen h _ :=
            (Act.sendCommit held (by simpa using fresh) met).leads
          rw [Proposal.vote, same] at sent
          refine sent.trans (check_commit_quorum_leads (fun identity other q found => ?_))
          rw [emit_pending, modify_pending held, Option.some.injEq, Prod.mk.injEq] at found
          obtain ⟨-, rfl⟩ := found
          exact self_key_counted identity p.commitPubkeys
      · exact Leads.refl h

theorem proven_resolved (cfg : Params Config) (env : Env) {envelope : Envelope Config} (proven : envelope.Proven) :
    ∃ pk, provenPubkey cfg envelope = some pk ∧ resolveSenderPubkey cfg env envelope = some pk := by
  obtain ⟨pk, signed, nonempty⟩ := proven
  have key : provenPubkey cfg envelope = some (cfg.toLowerCase pk) := by
    simp [provenPubkey, signed, nonempty]
  exact ⟨_, key, by simp [resolveSenderPubkey, key]⟩

theorem known_proven {envelope : Envelope Config} (known : isKnownSender cfg env envelope = true) :
    envelope.Proven := by
  obtain ⟨pk, proven, -⟩ := known_sender_key cfg env known
  simp only [provenPubkey] at proven
  split at proven
  · simp at proven
  · rename_i raw signed
    split at proven
    · simp at proven
    · rename_i nonempty
      exact ⟨raw, signed, nonempty⟩

theorem sender_added {envelope : Envelope Config} (proven : envelope.Proven)
    (keys : OrderedSet String) : 0 < (addSenderPubkey cfg env envelope keys).size := by
  obtain ⟨pk, -, resolved⟩ := proven_resolved cfg env proven
  simp only [addSenderPubkey, resolved]
  exact OrderedSet.size_add_pos keys pk

theorem sender_key {envelope : Envelope Config} (proven : envelope.Proven) {k : String}
    (resolved : resolveSenderPubkey cfg env envelope = some k) :
    provenPubkey cfg envelope = some k := by
  obtain ⟨pk, key, same⟩ := proven_resolved cfg env proven
  rw [key, ← same, resolved]

theorem count_prepare_counts {p : Proposal Config} {envelope : Envelope Config}
    (vote : seen envelope) (proven : envelope.Proven)
    (prepares : envelope.prepares cfg env p.seq p.digest = true) :
    p.PrepareCounted cfg env seen (p.countPrepare cfg env envelope) := by
  refine ⟨rfl, rfl, rfl, rfl, rfl, rfl, fun k member => ?_, fun k member => ?_,
    Or.inl (sender_added proven p.preparePubkeys)⟩
  · rcases (add_sender_pubkey_mem cfg env).mp member with new | old
    · exact Or.inr (Or.inr ⟨envelope, vote, prepares, sender_key proven new⟩)
    · exact Or.inl old
  · exact (add_sender_pubkey_mem cfg env).mpr (Or.inr member)

theorem cast_prepare_counts {p : Proposal Config} {envelope : Envelope Config}
    (vote : seen envelope) (proven : envelope.Proven)
    (prepares : envelope.prepares cfg env p.seq p.digest = true) :
    p.PrepareCounted cfg env seen (p.castPrepare cfg env envelope) := by
  obtain ⟨pk, -, resolved⟩ := proven_resolved cfg env proven
  refine ⟨rfl, rfl, rfl, rfl, rfl, rfl, fun k member => ?_, fun k member => ?_, Or.inl ?_⟩
  · rcases (add_self_pubkey_mem cfg).mp member with own | other
    · exact Or.inr (Or.inl own)
    · rcases (add_sender_pubkey_mem cfg env).mp other with new | old
      · exact Or.inr (Or.inr ⟨envelope, vote, prepares, sender_key proven new⟩)
      · exact Or.inl old
  · exact (add_self_pubkey_mem cfg).mpr (Or.inr ((add_sender_pubkey_mem cfg env).mpr (Or.inr member)))
  · exact OrderedSet.size_pos_of_mem ((add_self_pubkey_mem cfg).mpr
      (Or.inr ((add_sender_pubkey_mem cfg env).mpr (Or.inl resolved))))

theorem cast_own_counts (p : Proposal Config) :
    p.PrepareCounted cfg env seen (p.castOwn cfg) := by
  refine ⟨rfl, rfl, rfl, rfl, rfl, rfl, fun k member => ?_, fun k member => ?_,
    Or.inr (fun a member => ?_)⟩
  · rcases (add_self_pubkey_mem cfg).mp member with own | old
    · exact Or.inr (Or.inl own)
    · exact Or.inl old
  · exact (add_self_pubkey_mem cfg).mpr (Or.inr member)
  · exact (OrderedSet.mem_add.mp member).symm

theorem handle_prepare_leads {h : Hub Config} {envelope : Envelope Config}
    (vote : isKnownSender cfg env envelope = true → seen envelope) {seq : Option ℚ}
    {digest : Option String} (data : envelope.data = .prepare seq digest) :
    Leads cfg env seen h (handlePrepare cfg env h envelope seq digest) := by
  simp only [handlePrepare]
  split
  · split
    · exact Leads.refl h
    · split
      · exact Leads.refl h
      · rename_i known
        have vote := vote (by simpa using known)
        split
        · exact buffer_early_vote_leads vote _
        · rename_i pid p held
          split
          · exact Leads.refl h
          · rename_i agrees
            simp only [ne_eq, not_not] at agrees
            refine leads_of_ready (fun ready => ?_)
            have known : isKnownSender cfg env envelope = true := by simpa using known
            have prepares : envelope.prepares cfg env p.seq p.digest = true := by
              simp [Envelope.prepares, data, ready.pending_seq held, agrees, known]
            have counted : Leads cfg env seen h
                (h.modify pid (Proposal.countPrepare cfg env envelope)) :=
              (Act.countPrepare (f := Proposal.countPrepare cfg env envelope) held
                (fun _ => ⟨rfl, rfl, rfl, rfl, rfl, rfl, rfl, rfl⟩)
                (count_prepare_counts vote (known_proven known) prepares)).leads
            exact counted.trans (check_prepare_quorum_leads _ _)
  · exact Leads.refl h

theorem handle_commit_leads {h : Hub Config} {envelope : Envelope Config}
    (vote : isKnownSender cfg env envelope = true → seen envelope) {seq : Option ℚ}
    {digest : Option String} (data : envelope.data = .commit seq digest) :
    Leads cfg env seen h (handleCommit cfg env h envelope seq digest) := by
  simp only [handleCommit]
  split
  · rename_i s d
    split
    · exact Leads.refl h
    · split
      · exact Leads.refl h
      · rename_i known
        have vote := vote (by simpa using known)
        split
        · exact buffer_early_vote_leads vote _
        · rename_i pid p held
          split
          · exact Leads.refl h
          · rename_i agrees
            simp only [ne_eq, not_not] at agrees
            refine leads_of_ready (fun ready => ?_)
            have same := ready.pending_seq held
            have counted : Leads cfg env seen h _ := (Act.countCommit held vote
              (by simpa using known) (by rw [data, same, agrees])).leads
            refine counted.trans (check_commit_quorum_leads (fun _ other q found => ?_))
            rw [modify_pending held, Option.some.injEq, Prod.mk.injEq] at found
            obtain ⟨-, rfl⟩ := found
            obtain ⟨pk, -, resolved⟩ := known_sender_key cfg env (by simpa using known)
            simp only [Proposal.countCommit, addSenderPubkey, resolved]
            exact OrderedSet.size_add_pos p.commitPubkeys pk
  · exact Leads.refl h

theorem handle_vote_leads {h : Hub Config} {envelope : Envelope Config}
    (vote : isKnownSender cfg env envelope = true → seen envelope) :
    Leads cfg env seen h (handleVote cfg env h envelope) := by
  simp only [handleVote]
  split
  · rename_i seq digest data
    exact handle_prepare_leads vote data
  · rename_i seq digest data
    exact handle_commit_leads vote data
  · exact Leads.refl h

theorem handle_votes_lead {votes : List (Envelope Config)} (all : ∀ e ∈ votes, seen e) :
    ∀ h : Hub Config, Leads cfg env seen h (votes.foldl (handleVote cfg env) h) := by
  induction votes with
  | nil => exact Leads.refl
  | cons e rest ih =>
    intro h
    exact (handle_vote_leads (fun _ => all e List.mem_cons_self)).trans
      (ih (fun other member => all other (List.mem_cons_of_mem e member)) _)

theorem replay_early_votes_leads (h : Hub Config) (seq : ℚ) :
    Leads cfg env seen h (replayEarlyVotes cfg env h seq) := by
  simp only [replayEarlyVotes]
  split
  · exact Leads.refl h
  · rename_i bucket found
    split
    · exact Leads.refl h
    · refine leads_of_ready (fun ready => ?_)
      have all := ready.buffered bucket (List.mem_of_find?_eq_some found)
      have drained : Leads cfg env seen h (h.drain seq) := quiet_leads rfl rfl rfl rfl rfl
        (fun buffered b member => buffered b (List.mem_of_mem_filter member))
      have ended (g : Hub Config) : Leads cfg env seen g g.endReplay :=
        quiet_leads rfl rfl rfl rfl rfl (fun buffered => buffered)
      exact drained.trans ((handle_votes_lead all _).trans (ended _))

theorem cast_prepare_leads (h : Hub Config) {envelope : Envelope Config} {seq : ℚ}
    {digest : String} (vote : seen envelope) (proven : envelope.Proven)
    (prepares : envelope.prepares cfg env seq digest = true) :
    Leads cfg env seen h (castPrepare cfg env h envelope seq digest) := by
  simp only [castPrepare]
  split
  · exact Leads.refl h
  · rename_i pid p held
    split
    · exact Leads.refl h
    · rename_i agrees
      simp only [ne_eq, not_not] at agrees
      refine leads_of_ready (fun ready => ?_)
      have same := ready.pending_seq held
      rw [← same, ← agrees] at prepares
      let cast := Proposal.castPrepare cfg env envelope
      have marked : Leads cfg env seen h (h.modify pid cast) :=
        (Act.countPrepare (f := cast) held (fun _ => ⟨rfl, rfl, rfl, rfl, rfl, rfl, rfl, rfl⟩)
          (cast_prepare_counts vote proven prepares)).leads
      have signed : Leads cfg env seen (h.modify pid cast) ((h.modify pid cast).emit
          (.broadcast (.prepare (some seq) (some digest)) ((cast p).vote cfg))) :=
        (Act.sign (modify_pending held) rfl).leads
      have vote : (cast p).vote cfg =
          equivVote cfg seq p.view p.digest p.btcBlockHeight := by
        rw [← same]
        rfl
      rw [vote] at signed
      exact marked.trans (signed.trans ((check_prepare_quorum_leads _ _).trans
        (replay_early_votes_leads _ _)))

theorem admissible_fields {h : Hub Config} {envelope : Envelope Config} {seq view : Option ℚ}
    {digest : Option String} {config : Option Config} {s v : ℚ} {d : String} {c : Config}
    (admissible : prePrepareAdmissible cfg env h envelope seq view digest config =
      some (s, v, d, c)) :
    isKnownSender cfg env envelope = true ∧ h.lastAppliedSeq < s ∧ 0 < s ∧ seq = some s ∧
      view = some v ∧ digest = some d ∧ config = some c := by
  simp only [prePrepareAdmissible] at admissible
  split at admissible
  · split at admissible
    · simp at admissible
    · rename_i positive
      split at admissible
      · simp at admissible
      · rename_i known
        split at admissible
        · simp at admissible
        · split at admissible
          · simp at admissible
          · rename_i live
            split at admissible
            · simp at admissible
            · simp only [Option.some.injEq, Prod.mk.injEq] at admissible
              obtain ⟨rfl, rfl, rfl, rfl⟩ := admissible
              exact ⟨by simpa using known, not_le.mp live, not_le.mp positive, rfl, rfl, rfl, rfl⟩
  · simp at admissible

theorem handle_pre_prepare_leads (h : Hub Config) {envelope : Envelope Config}
    (vote : isKnownSender cfg env envelope = true → seen envelope) {seq view : Option ℚ}
    {digest : Option String} {config : Option Config} {height : Option ℚ}
    (data : envelope.data = .prePrepare seq view digest config height) :
    Leads cfg env seen h (handlePrePrepare cfg env h envelope seq view digest config height) := by
  simp only [handlePrePrepare]
  split
  · exact Leads.refl h
  · rename_i s v d c admissible
    obtain ⟨known, above, -, rfl, rfl, rfl, rfl⟩ := admissible_fields admissible
    have vote := vote known
    split
    · split
      · exact cast_prepare_leads h vote (known_proven known) (by simp [Envelope.prepares, data])
      · exact Leads.refl h
    · split
      · exact (Act.park (t := .prePrepare envelope s v d c height _)
          ⟨vote, known_proven known, above, data⟩).leads
      · exact Leads.refl h

/- One silent message with any change outside the records, the map and the buffer. -/
theorem say_quiet_leads {h after : Hub Config} {o : Output Config} (silent : o.Silent)
    (heap : after.proposals = h.proposals) (map : after.pendingProposals = h.pendingProposals)
    (said : after.trace = h.trace ++ [o]) (parked : after.tasks = h.tasks)
    (last : after.lastAppliedSeq = h.lastAppliedSeq) (votes : after.earlyVotes = h.earlyVotes) :
    Leads cfg env seen h after := by
  have spoken : Leads cfg env seen h (h.emit o) := (Act.say silent).leads
  refine spoken.trans (quiet_leads heap map said parked last (fun buffered => ?_))
  simpa [Buffered, votes, Hub.emit] using buffered

theorem accept_view_change_leads (h : Hub Config) (view seq : ℚ) (ctx : ViewChangeContext) :
    Leads cfg env seen h (acceptViewChange cfg env h view seq ctx) := by
  simp only [acceptViewChange]
  split
  · exact say_quiet_leads (o := .broadcast (.newView (some view) (some seq)) none) ⟨rfl, rfl⟩
      rfl rfl rfl rfl rfl rfl
  · exact quiet_leads rfl rfl rfl rfl rfl (fun buffered => buffered)

theorem handle_view_change_leads (h : Hub Config) (envelope : Envelope Config)
    (view seq : Option ℚ) :
    Leads cfg env seen h (handleViewChange cfg env h envelope view seq) := by
  simp only [handleViewChange]
  split
  · split
    · exact Leads.refl h
    · split
      · exact Leads.refl h
      · split
        · exact quiet_leads rfl rfl rfl rfl rfl (fun buffered => buffered)
        · split
          · refine Leads.trans ?_ (accept_view_change_leads _ _ _ _)
            exact quiet_leads rfl rfl rfl rfl rfl (fun buffered => buffered)
          · exact quiet_leads rfl rfl rfl rfl rfl (fun buffered => buffered)
  · exact Leads.refl h

theorem handle_new_view_leads (h : Hub Config) (envelope : Envelope Config)
    (view seq : Option ℚ) : Leads cfg env seen h (handleNewView cfg env h envelope view seq) := by
  simp only [handleNewView]
  split
  · split
    · exact Leads.refl h
    · split
      · exact quiet_leads rfl rfl rfl rfl rfl (fun buffered => buffered)
      · exact Leads.refl h
  · exact Leads.refl h

theorem handle_message_leads (h : Hub Config) {envelope : Envelope Config}
    (vote : isKnownSender cfg env envelope = true → seen envelope) :
    Leads cfg env seen h (handleMessage cfg env h envelope) := by
  simp only [handleMessage]
  split
  · rename_i seq view digest config height data
    exact handle_pre_prepare_leads h vote data
  · rename_i seq digest data
    exact handle_prepare_leads vote data
  · rename_i seq digest data
    exact handle_commit_leads vote data
  · exact handle_view_change_leads h envelope _ _
  · exact handle_new_view_leads h envelope _ _

theorem resolve_marks : Marks (Proposal.resolve : Proposal Config → Proposal Config) :=
  ⟨fun _ => ⟨rfl, rfl, rfl, rfl, rfl, rfl, rfl, rfl⟩, fun _ => ⟨rfl, rfl, rfl, rfl, rfl, rfl⟩,
    fun _ _ => ⟨rfl, rfl⟩⟩

theorem unlock_marks : Marks (Proposal.unlock : Proposal Config → Proposal Config) :=
  ⟨fun _ => ⟨rfl, rfl, rfl, rfl, rfl, rfl, rfl, rfl⟩, fun _ => ⟨rfl, rfl, rfl, rfl, rfl, rfl⟩,
    fun _ busy => absurd rfl busy⟩

theorem resolve_leads (h : Hub Config) (pid : ℕ) :
    Leads cfg env seen h (h.modify pid Proposal.resolve) :=
  (Act.mark pid resolve_marks).leads

theorem forget_leads (h : Hub Config) (seq : ℚ) : Leads cfg env seen h (h.forget seq) :=
  (Act.forget seq).leads

theorem settled_leads (h : Hub Config) (seq : ℚ) (ok : Bool) :
    Leads cfg env seen h (h.emit (.settled seq ok)) := by
  have silent : (Output.settled seq ok : Output Config).Silent := trivial
  exact (Act.say silent).leads

theorem initiate_view_change_leads (h : Hub Config) (seq : ℚ) (ctx : ViewChangeContext) :
    Leads cfg env seen h (initiateViewChange cfg h seq ctx) :=
  say_quiet_leads (o := .broadcast (.viewChange (some (h.view + 1)) (some seq)) none)
    ⟨rfl, rfl⟩ rfl rfl rfl rfl rfl rfl

theorem leader_timeout_leads (h : Hub Config) (pid : ℕ) :
    Leads cfg env seen h (leaderTimeout cfg h pid) := by
  simp only [leaderTimeout]
  split
  · exact Leads.refl h
  · split
    · exact Leads.refl h
    · exact (resolve_leads h pid).trans ((forget_leads _ _).trans
        ((initiate_view_change_leads _ _ _).trans (settled_leads _ _ _)))

theorem follower_expiry_leads (h : Hub Config) (pid : ℕ) :
    Leads cfg env seen h (followerExpiry h pid) := by
  simp only [followerExpiry]
  split
  · exact Leads.refl h
  · split
    · exact Leads.refl h
    · exact (resolve_leads h pid).trans (forget_leads _ _)

theorem unlock_failed_apply_leads (h : Hub Config) (pid : ℕ) (p : Proposal Config) :
    Leads cfg env seen h (unlockFailedApply h pid p) := by
  have unlocked : Leads cfg env seen h _ := (Act.mark pid unlock_marks).leads
  simp only [unlockFailedApply]
  split
  · exact unlocked.trans ((resolve_leads _ _).trans ((settled_leads _ _ _).trans
      (forget_leads _ _)))
  · exact unlocked

theorem persist_applied_round_leads {h : Hub Config} {pid : ℕ} {p : Proposal Config}
    (held : h.proposals[pid]? = some p) (running : p.chain = .seqInFlight) :
    Leads cfg env seen h (persistAppliedRound h pid p) := by
  have advanced : Leads cfg env seen h _ := (Act.finishSeq held running).leads
  simp only [persistAppliedRound]
  split
  · exact advanced.trans ((resolve_leads _ _).trans
      ((settled_leads _ _ _).trans (forget_leads _ _)))
  · exact advanced.trans (forget_leads _ _)

theorem config_applied_leads (h : Hub Config) (pid : ℕ) (ok : Bool) :
    Leads cfg env seen h (configApplied h pid ok) := by
  simp only [configApplied]
  split
  · exact Leads.refl h
  · rename_i p held
    split
    · exact Leads.refl h
    · rename_i running
      split
      · exact (Act.finishConfig held (by simpa using running)).leads
      · exact unlock_failed_apply_leads h pid p

theorem seq_saved_leads (h : Hub Config) (pid : ℕ) (ok : Bool) :
    Leads cfg env seen h (seqSaved h pid ok) := by
  simp only [seqSaved]
  split
  · exact Leads.refl h
  · rename_i p held
    split
    · exact Leads.refl h
    · rename_i running
      split
      · exact persist_applied_round_leads held (by simpa using running)
      · exact unlock_failed_apply_leads h pid _

end

/- The state once the step has opened its record, before anything else it does. -/
def Hub.opened (h : Hub Config) (record : Option (Proposal Config)) : Hub Config :=
  match record with
  | none => h
  | some p => h.openRecord p

theorem follower_round_quorum {cfg : Params Config} {env : Env} {seq view : ℚ}
    {envelope : Envelope Config} {lock : Lock} {round : ℕ × Bool}
    (opened : followerRoundQuorum cfg env seq view envelope lock = some round) :
    round = (roundQuorum env lock.snapshot, weightedUsable lock.weighted lock.snapshot) := by
  simp only [followerRoundQuorum] at opened
  split at opened
  · simp at opened
  · split at opened
    · simp at opened
    · split at opened
      · simp at opened
      · split at opened
        · exact (Option.some.inj opened).symm
        · simp at opened

/-- What propose() opens takes the next slot at view 0, and leads it at the current view. -/
theorem propose_round {cfg : Params Config} {env : Env} {h : Hub Config} {config : Config}
    {reply : LockReply} {p : Proposal Config}
    (outcome : proposeOutcome cfg env h config reply = .round p) :
    ∃ weighted height, p = newRecord cfg true (max h.seq h.lastAppliedSeq + 1) 0
        (cfg.digest config) config (roundQuorum env (lockSnapshot cfg none none reply).snapshot)
        weighted (lockSnapshot cfg none none reply).snapshot height ∧
      (∀ leader, leaderAt cfg env p.seq h.view p.memberPubkeys = some leader →
        isLeaderIdentity cfg (some leader) cfg.validatorAddr (selfPubkey cfg) = true) := by
  simp only [proposeOutcome] at outcome
  split at outcome
  · simp at outcome
  · split at outcome
    · split at outcome
      · simp at outcome
      · split at outcome <;> simp at outcome
    · split at outcome
      · simp at outcome
      · rename_i elected
        simp only [ProposeOutcome.round.injEq] at outcome
        subst outcome
        refine ⟨_, _, rfl, fun leader found => ?_⟩
        have found : leaderAt cfg env (max h.seq h.lastAppliedSeq + 1) h.view
            (memberPubkeySet cfg (lockSnapshot cfg none none reply).snapshot) = some leader := found
        rw [found] at elected
        simpa using elected

/-- A record is opened by a parked handler whose lock is answered. -/
theorem opens_cases {cfg : Params Config} {h : Hub Config} {m : Env × Event Config}
    {p : Proposal Config} (record : opens cfg h m = some p) :
    ∃ tid tip reply, m.2 = .locked tid tip reply ∧
      ((∃ envelope seq view digest config height bound,
        h.task tid = some (.prePrepare envelope seq view digest config height bound) ∧
        followerRecord cfg m.1 envelope seq view digest config height bound tip reply = some p) ∨
      ∃ config, h.task tid = some (.propose config) ∧ proposeOutcome cfg m.1 h config reply = .round p) := by
  unfold opens at record
  split at record
  · rename_i tid tip reply locked
    refine ⟨tid, tip, reply, locked, ?_⟩
    split at record
    · rename_i found
      exact Or.inl ⟨_, _, _, _, _, _, _, found, record⟩
    · rename_i found
      split at record
      · rename_i outcome
        rw [Option.some.injEq] at record
        exact Or.inr ⟨_, found, record ▸ outcome⟩
      · cases record
    · cases record
  · cases record

/-- The record a step opens is a new one, over a snapshot that its lock answered. -/
theorem opens_record {cfg : Params Config} {h : Hub Config} {m : Env × Event Config}
    {p : Proposal Config} (record : opens cfg h m = some p) :
    ∃ leader view config weighted snapshot height, p = newRecord cfg leader p.seq view p.digest
      config (roundQuorum m.1 snapshot) weighted snapshot height := by
  obtain ⟨tid, tip, reply, -, ⟨_, _, _, _, _, _, _, found, follows⟩ | ⟨_, found, outcome⟩⟩ :=
    opens_cases record
  · simp only [followerRecord] at follows
    split at follows
    · simp at follows
    · obtain ⟨round, opened, rfl⟩ := Option.map_eq_some_iff.mp follows
      rw [follower_round_quorum opened]
      exact ⟨_, _, _, _, _, _, rfl⟩
  · obtain ⟨weighted, height, rfl, -⟩ := propose_round outcome
    exact ⟨_, _, _, _, _, _, rfl⟩

theorem open_pending (h : Hub Config) (p : Proposal Config) :
    (h.openRecord p).pending p.seq = some (h.proposals.length, p) :=
  pending_eq_some.mpr ⟨AList.lookup_insert h.pendingProposals, by simp [Hub.openRecord]⟩

section
variable {cfg : Params Config} {env : Env} {seen : Envelope Config → Prop}

theorem announce_round_leads {h : Hub Config} {pid : ℕ} {p : Proposal Config}
    (held : h.pending p.seq = some (pid, p)) :
    Leads cfg env seen h (announceRound cfg h pid p) := by
  have marked : Leads cfg env seen h (h.modify pid (Proposal.castOwn cfg)) :=
    (Act.countPrepare (f := Proposal.castOwn cfg) held
      (fun _ => ⟨rfl, rfl, rfl, rfl, rfl, rfl, rfl, rfl⟩) (cast_own_counts p)).leads
  have signed : Leads cfg env seen (h.modify pid (Proposal.castOwn cfg))
      ((h.modify pid (Proposal.castOwn cfg)).emit
        (.broadcast (.prePrepare (some p.seq) (some p.view) (some p.digest) (some p.config)
          p.btcBlockHeight) ((Proposal.castOwn cfg p).vote cfg))) :=
    (Act.sign (modify_pending held) rfl).leads
  exact marked.trans (signed.trans (check_prepare_quorum_leads _ _))

theorem resume_leads (h : Hub Config) (tid : ℕ) (myTip : Option ℚ) (reply : LockReply) :
    Leads cfg env seen (h.opened (opens cfg h (env, .locked tid myTip reply)))
      (resume cfg env h tid myTip reply) := by
  cases found : h.task tid with
  | none =>
    simp only [resume, opens, found]
    exact Leads.refl h
  | some task =>
    cases task with
    | prePrepare envelope seq view digest config height tipBound =>
      simp only [resume, opens, found]
      cases followerRecord cfg env envelope seq view digest config height tipBound myTip reply with
      | none => exact (Act.finish tid).leads
      | some p =>
        refine leads_of_ready (fun ready => ?_)
        obtain ⟨last, vote, proven, -, data⟩ := ready.parked tid _ found
        have finished : Leads cfg env seen (h.openRecord p) ((h.finishTask tid).openRecord p) :=
          (Act.finish tid).leads
        exact finished.trans
          (cast_prepare_leads _ vote proven (by simp [Envelope.prepares, data]))
    | propose config =>
      simp only [resume, opens, found]
      have finished (g : Hub Config) : Leads cfg env seen g (g.finishTask tid) :=
        (Act.finish tid).leads
      cases proposeOutcome cfg env h config reply with
      | refused => exact finished h
      | applyDirect =>
        exact (finished h).trans (say_quiet_leads (o := .appliedDirect (cfg.digest config)) trivial
          rfl rfl rfl rfl rfl rfl)
      | notLeader nextSeq =>
        exact (finished h).trans (quiet_leads rfl rfl rfl rfl rfl (fun buffered => buffered))
      | round p =>
        have slot : Leads cfg env seen ((h.finishTask tid).openRecord p)
            (((h.finishTask tid).takeSlot p.seq).openRecord p) :=
          quiet_leads rfl rfl rfl rfl rfl (fun buffered => buffered)
        exact ((finished (h.openRecord p)).trans slot).trans (announce_round_leads (open_pending
          ((h.finishTask tid).takeSlot p.seq) p))

/-- One step: it opens at most the record `opens` names, and acts from there on. -/
theorem step_leads (h : Hub Config) (m : Env × Event Config)
    (delivered : ∀ e, m.2 = .deliver e → isKnownSender cfg m.1 e = true → seen e) :
    Leads cfg m.1 seen (h.opened (opens cfg h m)) (step cfg h m) := by
  obtain ⟨env, event⟩ := m
  cases event with
  | deliver envelope => exact handle_message_leads h (delivered envelope rfl)
  | propose config => exact (Act.park (t := .propose config) trivial).leads
  | locked task myTip reply => exact resume_leads h task myTip reply
  | leaderTimeout pid => exact leader_timeout_leads h pid
  | followerExpiry pid => exact follower_expiry_leads h pid
  | configApplied pid ok => exact config_applied_leads h pid ok
  | seqSaved pid ok => exact seq_saved_leads h pid ok

theorem Ready.opened {h : Hub Config} (ready : Ready seen h) (record : Option (Proposal Config)) :
    Ready seen (h.opened record) := by
  cases record with
  | none => exact ready
  | some p => exact ready.open p

theorem acts_keep (inv : Hub Config → Prop)
    (act : ∀ env a b, Ready seen a → Act cfg env seen a b → inv a → inv b) {h after : Hub Config}
    (ready : Ready seen h) (start : inv h)
    (path : Relation.ReflTransGen (Act cfg env seen) h after) : Ready seen after ∧ inv after := by
  induction path with
  | refl => exact ⟨ready, start⟩
  | tail _ last ih => exact ⟨act_ready ih.1 last, act _ _ _ ih.1 last ih.2⟩

/-- A property every action keeps holds after the step if it holds once the step's
    record is open. -/
theorem step_keeps (inv : Hub Config → Prop)
    (act : ∀ env a b, Ready seen a → Act cfg env seen a b → inv a → inv b) {h : Hub Config}
    {m : Env × Event Config} (ready : Ready seen h)
    (delivered : ∀ e, m.2 = .deliver e → isKnownSender cfg m.1 e = true → seen e)
    (start : inv (h.opened (opens cfg h m))) :
    inv (step cfg h m) := by
  obtain ⟨path, -⟩ := step_leads h m delivered (ready.opened _)
  exact (acts_keep inv act (ready.opened _) start path).2

theorem step_ready {h : Hub Config} {m : Env × Event Config} (ready : Ready seen h)
    (delivered : ∀ e, m.2 = .deliver e → isKnownSender cfg m.1 e = true → seen e) :
    Ready seen (step cfg h m) :=
  (step_leads h m delivered (ready.opened _)).2

theorem started_ready (seq : ℚ) : Ready seen (Hub.started seq : Hub Config) := by
  refine ⟨?_, ?_, ?_⟩
  · intro s pid found
    exact absurd found (by simp [Hub.started])
  · intro b member
    exact absurd member (by simp [Hub.started])
  · intro tid t held
    exact absurd held (by simp [Hub.started, Hub.task])

end
end XChainHub.Pbft
