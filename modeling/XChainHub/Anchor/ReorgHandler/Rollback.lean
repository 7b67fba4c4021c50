import XChainHub.Anchor.ReorgHandler.Observations

/-!
The federation of reorg handlers: one step of a hub, runs of the whole, and what a
consensus rollback of an honest hub rests on.
-/
namespace XChainHub.Anchor.ReorgHandler
open ScriptValue ChainSignerAdmission JsonText GuardedRuns BftQuorum

section Locking
variable {cfg : Params} {env : Env}

theorem fetched_context {height stamp : ℕ} {reply : LockReply} {members : OrderedSet String}
    {quorum : ℕ} {self : String}
    (active : fetchReorgFederationSnapshot cfg env stamp reply = .active height members quorum self) :
    quorum = snapshotQuorum members ∧ self ∈ members ∧ selfReorgPubkey cfg env = some self := by
  unfold fetchReorgFederationSnapshot at active
  split at active
  · exact Context.noConfusion active
  · split at active
    · exact Context.noConfusion active
    · split at active
      · exact Context.noConfusion active
      · rename_i k own
        split at active
        · rename_i member
          rw [Context.active.injEq] at active
          obtain ⟨-, rfl, rfl, rfl⟩ := active
          exact ⟨rfl, member, own⟩
        · exact Context.noConfusion active

/-- An active context always comes out of the fetch. -/
theorem lock_fetched {v : Value} {inbound : Bool} {reply : LockReply} {height : ℕ}
    {members : OrderedSet String} {quorum : ℕ} {self : String}
    (active : lockReorgFederationSnapshot cfg env v inbound reply =
      .active height members quorum self) :
    ∃ stamp, fetchReorgFederationSnapshot cfg env stamp reply =
      .active height members quorum self := by
  have fetched : ∀ stamp, (if reply.service then fetchReorgFederationSnapshot cfg env stamp reply
      else if isFederatedReorg cfg env then Context.refused else .inactive) =
        .active height members quorum self →
      ∃ stamp, fetchReorgFederationSnapshot cfg env stamp reply =
        .active height members quorum self := by
    intro stamp answer
    split at answer
    · exact ⟨stamp, answer⟩
    · split at answer <;> exact Context.noConfusion answer
  cases inbound with
  | true =>
    simp only [lockReorgFederationSnapshot, if_true] at active
    split at active
    · exact Context.noConfusion active
    · split at active
      · exact Context.noConfusion active
      · split at active
        · exact Context.noConfusion active
        · split at active
          · split at active
            · exact Context.noConfusion active
            · exact fetched _ active
          · exact Context.noConfusion active
  | false =>
    simp only [lockReorgFederationSnapshot, Bool.false_eq_true, if_false] at active
    split at active
    · exact Context.noConfusion active
    · split at active
      · exact Context.noConfusion active
      · split at active
        · exact fetched _ active
        · exact Context.noConfusion active

end Locking

section Federations
variable {ι : Type} (f : Federation ι)

abbrev Move (ι : Type) := ι × (Env × Event)

/- Transport: an envelope is signed by the key it carries, so one with an honest hub's key
   is what that hub sent, and its fields are parsed JSON. A report's arguments are, too. -/
def Federation.Authentic (w : World ι) (m : Move ι) : Prop :=
  match m.2.2 with
  | .deliver e => f.EnvelopeSound w m.1 e ∧ e.data.Parsed
  | .report chain reorgHeight timestamp _ _ => Plain chain ∧ Plain reorgHeight ∧ Plain timestamp
  | _ => True

/- The snapshot of a stamped height is one for the whole federation. -/
def Federation.OverSnapshot (w : World ι) (m : Move ι) : Prop :=
  match m.2.2 with
  | .locked tid reply =>
    match ((w m.1).tasks[tid]?.join).bind Task.lockRequest with
    | some (v, inbound) =>
      match lockReorgFederationSnapshot (f.cfg m.1) m.2.1 v inbound reply with
      | .active height members _ _ => members.items = (f.members height).items
      | _ => True
    | none => True
  | _ => True

structure Federation.Given (w : World ι) (m : Move ι) : Prop where
  authentic : f.Authentic w m
  onSnapshot : f.OverSnapshot w m

variable {f}

theorem lock_context_sound (honest : f.Honest) {w : World ι} {i : ι} {env : Env} {tid : ℕ}
    {reply : LockReply} (given : f.OverSnapshot w (i, (env, .locked tid reply))) {t : Task}
    (parked : (w i).tasks[tid]?.join = some t) {v : Value} {inbound : Bool}
    (asks : t.lockRequest = some (v, inbound)) :
    f.ContextSound i (lockReorgFederationSnapshot (f.cfg i) env v inbound reply) := by
  intro height members quorum self active
  simp only [Federation.OverSnapshot, parked, Option.bind_some, asks, active] at given
  have same : members = f.members height := by
    cases members
    cases shape : f.members height
    rw [shape] at given
    simp only at given
    subst given
    rfl
  obtain ⟨stamp, fetched⟩ := lock_fetched active
  obtain ⟨sized, member, own⟩ := fetched_context fetched
  refine ⟨same, by rw [sized, same]; rfl, member, ?_⟩
  rw [selfReorgPubkey, honest.identity i, Option.some.injEq] at own
  exact own.symm

theorem parked_member {h : Hub} {tid : ℕ} {t : Task} (parked : h.tasks[tid]?.join = some t) :
    some t ∈ h.tasks := by
  cases found : h.tasks[tid]? with
  | none => rw [found] at parked; exact absurd parked (by simp)
  | some slot =>
    rw [found, Option.join_some] at parked
    rw [← parked]
    exact List.mem_of_getElem? found

section Steps
variable {w : World ι} {i : ι} {base : List Output}

theorem Federation.Sound.resume (honest : f.Honest) (env : Env) {h : Hub}
    (sound : f.Sound w i base h) (tid : ℕ) : f.Sound w i base (resume (f.cfg i) env h tid) := by
  unfold ReorgHandler.resume
  split
  · rename_i e g known pid parked
    obtain ⟨checked, probing⟩ := sound.tasks _ (parked_member parked)
    split
    · split
      · rename_i t confirmed
        have observed := confirmed_probe_observed sound probing confirmed
        exact (sound.take tid).alertVerified e checked observed known t
      · exact sound.take tid
    · exact sound
  · rename_i e g known context pid parked
    obtain ⟨vote, checked, probing, locked⟩ := sound.tasks _ (parked_member parked)
    split
    · split
      · rename_i t confirmed
        have observed := confirmed_probe_observed sound probing confirmed
        exact (sound.take tid).prepareVerified env vote checked observed locked t
      · exact sound.take tid
    · exact sound
  · rename_i g now pid parked
    obtain ⟨checked, probing⟩ := sound.tasks _ (parked_member parked)
    split
    · split
      · rename_i t confirmed
        have observed := confirmed_probe_observed sound probing confirmed
        unfold reportVerified
        split
        · exact sound.take tid
        · exact (sound.take tid).park ⟨checked, observed⟩
      · exact sound.take tid
    · exact sound
  · rename_i e g known parked
    have vote := sound.tasks _ (parked_member parked)
    exact (sound.take tid).tally env honest vote g
  · exact sound

theorem Federation.Sound.locked (honest : f.Honest) {env : Env} {base : List Output}
    (sound : f.Sound w i base (w i)) {tid : ℕ} {reply : LockReply}
    (given : f.OverSnapshot w (i, (env, .locked tid reply))) :
    f.Sound w i base (locked (f.cfg i) env (w i) tid reply) := by
  unfold ReorgHandler.locked
  split
  · rename_i e g known t parked
    obtain ⟨checked, observed⟩ := sound.tasks _ (parked_member parked)
    have context := lock_context_sound honest given parked rfl
    unfold alertLocked
    split
    · exact Federation.Sound.initiate env honest (sound.take tid) checked observed context t
    · exact sound.take tid
  · rename_i e g known parked
    obtain ⟨vote, checked⟩ := sound.tasks _ (parked_member parked)
    have context := lock_context_sound honest given parked rfl
    exact Federation.Sound.prepareLocked env (sound.take tid) vote checked context
  · rename_i g now t parked
    obtain ⟨checked, observed⟩ := sound.tasks _ (parked_member parked)
    have context := lock_context_sound honest given parked rfl
    split
    · exact sound.take tid
    · exact Federation.Sound.reportLocked env honest (sound.take tid) checked observed context now t
  · exact sound

theorem Federation.Sound.timeout {h : Hub} (sound : f.Sound w i base h) (rid : ℕ) :
    f.Sound w i base (timeout h rid) := by
  unfold ReorgHandler.timeout
  split
  · exact sound
  · rename_i p stored
    have round := sound.rounds p (List.mem_of_getElem? stored)
    split
    · exact sound
    · have stopped : f.Sound w i base (h.modify rid (fun q => { q with timer := false })) :=
        sound.modify stored ⟨round.plain, round.digest, round.observed, round.legacy, round.stamped,
          round.prepares, round.commits⟩ (fun _ => ⟨rfl, rfl, rfl, Nat.le_refl _⟩)
      simp only
      split
      · split
        · exact stopped
        · exact stopped.forget p.reorgId
      · exact (stopped.quiet (by simp) (by simp)).forget p.reorgId

theorem Federation.Sound.written {h : Hub} (sound : f.Sound w i base h) (tid : ℕ) (ok : Bool) :
    f.Sound w i base (written h tid ok) := by
  unfold ReorgHandler.written
  split
  · rename_i reorgId consensus parked
    simp only
    split
    · have marked : f.Sound w i base
          { h.takeTask tid with processed := (h.takeTask tid).processed.add reorgId } :=
        (sound.take tid).rest rfl rfl rfl (fun _ _ found => found) (fun _ member => Or.inl member)
      exact marked.park trivial
    · split
      · exact (sound.take tid).forget reorgId
      · exact sound.take tid
  · exact sound

theorem Federation.Sound.broadcasted {h : Hub} (sound : f.Sound w i base h) (tid : ℕ) :
    f.Sound w i base (broadcasted h tid) := by
  unfold ReorgHandler.broadcasted
  split
  · rename_i reorgId consensus parked
    have said : f.Sound w i base ((h.takeTask tid).emit (.confirmed reorgId)) :=
      (sound.take tid).quiet (by simp) (by simp)
    simp only
    split
    · exact said.forget reorgId
    · exact said
  · exact sound

/-- The step lemma of one hub. -/
theorem hub_step_sound (honest : f.Honest) {base : List Output} (sound : f.Sound w i base (w i))
    {m : Env × Event} (given : f.Given w (i, m)) :
    f.Sound w i base (step (f.cfg i) (w i) m) := by
  obtain ⟨env, event⟩ := m
  obtain ⟨authentic, onSnapshot⟩ := given
  cases event with
  | deliver e =>
    obtain ⟨signed, parsed⟩ := authentic
    simp only [step, handleMessage]
    cases kind : e.data.kind with
    | alert => exact sound.handleAlert env parsed
    | prepare => exact sound.handlePrepare env honest signed parsed kind
    | commit => exact sound.handleCommit env signed kind
  | report chain reorgHeight timestamp oldHash newHash =>
    exact sound.reportReorg env oldHash newHash authentic.1 authentic.2.1 authentic.2.2
  | tip pid answer =>
    simp only [step]
    split
    · split
      · exact sound.advance (by assumption) _
      · exact sound
    · exact sound
  | block pid answer =>
    simp only [step]
    split
    · split
      · exact sound.advance (by assumption) _
      · exact sound
    · exact sound
  | history pid answer =>
    simp only [step]
    split
    · split
      · exact sound.advance (by assumption) _
      · exact sound
    · exact sound
  | probeOver pid =>
    simp only [step]
    split
    · rename_i p found
      split
      · refine sound.rest rfl rfl rfl ?_ (fun _ member => Or.inl member)
        intro key n stored
        by_cases same : key = p.key
        · rw [same, OrderedMap.get_erase_same] at stored
          exact absurd stored (by simp)
        · rw [OrderedMap.get_erase_other same] at stored
          exact stored
      · exact sound
    · exact sound
  | resume tid => exact sound.resume honest env tid
  | locked tid reply => exact sound.locked honest onSnapshot
  | timeout rid => exact sound.timeout rid
  | written tid ok => exact sound.written tid ok
  | broadcasted tid => exact sound.broadcasted tid

end Steps

section Runs

def startWorld : World ι := fun _ => Hub.started

theorem vouched_world {w v : World ι} (grown : ∀ j, (w j).trace <+: (v j).trace) {i : ι} {h : Hub}
    {kind : Kind} {k digest : String} (vouched : f.Vouched w i h kind k digest) :
    f.Vouched v i h kind k digest := by
  rcases vouched with theirs | own
  · exact Or.inl (fun j same => says_mono (grown j) (theirs j same))
  · exact Or.inr own

theorem envelope_world {w v : World ι} (grown : ∀ j, (w j).trace <+: (v j).trace) {i : ι}
    {e : Envelope} (sound : f.EnvelopeSound w i e) : f.EnvelopeSound v i e :=
  fun pk proven => ⟨(sound pk proven).1,
    fun j same => broadcasts_mono (grown j) ((sound pk proven).2 j same)⟩

theorem vote_world {w v : World ι} (grown : ∀ j, (w j).trace <+: (v j).trace) {i : ι}
    {e : Envelope} {known : Known} (vote : f.VoteTask w i e known) : f.VoteTask v i e known :=
  ⟨envelope_world grown vote.sound, vote.known, vote.kind⟩

theorem round_world {w v : World ι} (grown : ∀ j, (w j).trace <+: (v j).trace) {i : ι} {h : Hub}
    {p : Round} (sound : f.RoundSound w i h p) : f.RoundSound v i h p :=
  ⟨sound.plain, sound.digest, sound.observed, sound.legacy, sound.stamped,
    fun k vote => ⟨(sound.prepares k vote).1, vouched_world grown (sound.prepares k vote).2⟩,
    fun k vote => ⟨(sound.commits k vote).1, vouched_world grown (sound.commits k vote).2⟩⟩

/-- The other hubs only add to what has been said. -/
theorem sound_world {w v : World ι} (grown : ∀ j, (w j).trace <+: (v j).trace) {i : ι} {h : Hub}
    {base : List Output} (sound : f.Sound w i base h) : f.Sound v i h.trace h := by
  refine ⟨List.prefix_rfl, sound.probes, sound.verifying, ?_,
    fun p member => round_world grown (sound.rounds p member), sound.prepared, sound.committed,
    fun p x member => ⟨round_world grown (sound.executed p x member).1,
      (sound.executed p x member).2⟩⟩
  intro t member
  have before := sound.tasks t member
  cases t with
  | prepareLock e g known => exact ⟨vote_world grown before.1, before.2⟩
  | prepareProbe e g known context pid => exact ⟨vote_world grown before.1, before.2⟩
  | prepareTally e g known => exact vote_world grown before
  | _ => exact before

theorem started_sound (i : ι) : f.Sound startWorld i [] Hub.started := by
  have nothing : ∀ {α : Type} {x : α}, x ∉ ([] : List α) := List.not_mem_nil
  refine ⟨List.prefix_rfl, fun p member => absurd member nothing, ?_,
    fun t member => absurd member nothing, fun p member => absurd member nothing, ?_,
    fun m member => absurd member nothing, fun p x member => absurd member nothing⟩
  · intro key pid found
    exact absurd found (by simp [Hub.started])
  · intro front m back split
    exact absurd split (by simp [Hub.started])

variable [DecidableEq ι]

variable (f) in
def Federation.step : World ι → Move ι → World ι := move (fun i => ReorgHandler.step (f.cfg i))

/-- The run lemma: every hub keeps its invariant. -/
theorem run_sound (honest : f.Honest) {ms : List (Move ι)}
    (admitted : Admitted f.step f.Given startWorld ms) (i : ι) :
    f.Sound (run f.step startWorld ms) i (run f.step startWorld ms i).trace
      (run f.step startWorld ms i) := by
  refine run_invariant (fun w => ∀ i, f.Sound w i (w i).trace (w i)) ?_ ?_ admitted i
  · intro w m all given j
    have moved := hub_step_sound honest (all m.1) given
    have grown : ∀ k, (w k).trace <+: (f.step w m k).trace := by
      intro k
      by_cases same : k = m.1
      · rw [same, Federation.step, show m = (m.1, m.2) from rfl, move_same]
        exact moved.grown
      · rw [Federation.step, show m = (m.1, m.2) from rfl, move_other same]
    by_cases same : j = m.1
    · rw [same, Federation.step, show m = (m.1, m.2) from rfl, move_same]
      rw [Federation.step] at grown
      exact sound_world grown moved
    · have still : f.step w m j = w j := by
        rw [Federation.step, show m = (m.1, m.2) from rfl, move_other same]
      rw [still]
      exact sound_world grown (all j)
  · intro j
    exact sound_world (fun _ => List.prefix_rfl) (started_sound j)

end Runs

section Quorums
variable [Fintype ι] [DecidableEq ι]

variable (f) in
/- The members of the stamped snapshot whose keys no hub of the federation holds. -/
def Federation.byzantine (height : ℕ) : Finset String :=
  (f.members height).toFinset.filter (fun k => ∀ i, f.key i ≠ k)

/- A PREPARE for the round's digest went out after the hub's own probe had confirmed the
   round's new hash at its height. -/
def PreparedAfterProbe (h : Hub) (p : Round) : Prop :=
  ∃ front m back oldHash, h.trace = front ++ .broadcast m :: back ∧ m.kind = .prepare ∧
    m.digest = .text p.digest ∧
    .probed p.chain.asText (parseInt p.reorgHeight.asText) oldHash p.newHash ∈ front

omit [Fintype ι] [DecidableEq ι] in
theorem says_of_vouched (honest : f.Honest) {w : World ι} {i j : ι} {kind : Kind}
    {digest : String} (vouched : f.Vouched w i (w i) kind (f.key j) digest) :
    Says (w j) kind digest := by
  rcases vouched with theirs | ⟨own, said⟩
  · exact theirs j rfl
  · rw [honest.distinct own]
    exact said

omit [Fintype ι] [DecidableEq ι] in
/-- Two records of one digest are records of one observation under one stamped snapshot. -/
theorem same_digest_observation (honest : f.Honest) {w : World ι} {i j : ι} {h other : Hub}
    {p q : Round} (round : f.RoundSound w i h p) (more : f.RoundSound w j other q)
    (same : p.digest = q.digest) :
    SameObservation p.fields q.fields ∧ p.btcBlockHeight = q.btcBlockHeight := by
  rw [round.digest, more.digest] at same
  refine digest_observation round.plain more.plain ?_ ?_ same
  · rw [honest.hashed i, honest.hashed j]
  · rw [honest.hashed i]
    exact honest.collisionFree

omit [Fintype ι] [DecidableEq ι] in
theorem prepare_after_probe (honest : f.Honest) {w : World ι} {i j : ι} {base : List Output}
    (sound : f.Sound w j base (w j)) {p : Round} {h : Hub} (round : f.RoundSound w i h p)
    (said : Says (w j) .prepare p.digest) : PreparedAfterProbe (w j) p := by
  obtain ⟨m, member, kind, digest⟩ := said
  obtain ⟨front, back, split⟩ := List.append_of_mem (mem_broadcasts.mp member)
  obtain ⟨g, height, plain, named, probed⟩ := sound.prepared front m back split kind
  rw [digest, Value.text.injEq, round.digest] at named
  obtain ⟨observation, -⟩ := digest_observation round.plain plain
    (by rw [honest.hashed i, honest.hashed j]) (by rw [honest.hashed i]; exact honest.collisionFree)
    named
  have chain : p.chain = g.chain := observation.chain
  have reorgHeight : p.reorgHeight = g.reorgHeight := observation.reorgHeight
  have newHash : p.newHash = g.newHash := observation.newHash
  refine ⟨front, m, back, g.oldHash, split, kind, digest, ?_⟩
  rw [chain, reorgHeight, newHash]
  exact probed

omit [DecidableEq ι] in
/-- Votes of members that are not faulty are votes of hubs here. -/
theorem honest_votes (height : ℕ) (votes : OrderedSet String)
    (members : ∀ k ∈ votes, k ∈ f.members height) :
    votes.size ≤ (Finset.univ.filter (fun j => f.key j ∈ votes)).card +
      (f.byzantine height).card := by
  rw [← votes.card_to_finset]
  have covered : votes.toFinset ⊆
      (Finset.univ.filter (fun j => f.key j ∈ votes)).image f.key ∪ f.byzantine height := by
    intro k vote
    rw [OrderedSet.mem_to_finset] at vote
    rw [Finset.mem_union, Finset.mem_image]
    by_cases held : ∃ j, f.key j = k
    · obtain ⟨j, same⟩ := held
      refine Or.inl ⟨j, Finset.mem_filter.mpr ⟨Finset.mem_univ j, ?_⟩, same⟩
      rw [same]
      exact vote
    · refine Or.inr (Finset.mem_filter.mpr ⟨OrderedSet.mem_to_finset.mpr (members k vote), ?_⟩)
      intro j same
      exact held ⟨j, same⟩
  have counted := Finset.card_le_card covered
  have joined := Finset.card_union_le
    ((Finset.univ.filter (fun j => f.key j ∈ votes)).image f.key) (f.byzantine height)
  have keys : ((Finset.univ.filter (fun j => f.key j ∈ votes)).image f.key).card ≤
      (Finset.univ.filter (fun j => f.key j ∈ votes)).card := Finset.card_image_le
  omega

/-- A consensus rollback of an honest hub under a stamped snapshot: its own probe confirmed
    the observation, and of the round's quorum all but the Byzantine members are hubs that
    sent their PREPARE for the digest after their own probe. -/
theorem rollback_rests_on_probes (honest : f.Honest) {ms : List (Move ι)}
    (admitted : Admitted f.step f.Given startWorld ms) {i : ι} {p : Round} {x : Rollback}
    (executed : .consensusRollback p x ∈ (run f.step startWorld ms i).trace)
    (active : p.snapshotActive = true) :
    Observed (run f.step startWorld ms i) p.fields ∧
    ∃ height, p.btcBlockHeight = some height ∧
      p.quorum = bftQuorumOrSingle (f.members height).size 0 ∧
      ∃ observers : Finset ι, p.quorum - (f.byzantine height).card ≤ observers.card ∧
        ∀ j ∈ observers, f.key j ∈ f.members height ∧
          PreparedAfterProbe (run f.step startWorld ms j) p := by
  have inv := run_sound honest admitted
  obtain ⟨round, met⟩ := (inv i).executed p x executed
  obtain ⟨height, stamp, members, quorum⟩ := round.stamped active
  refine ⟨round.observed, height, stamp, quorum, ?_⟩
  have committers := honest_votes height p.commitPubkeys
    (fun k vote => members ▸ (round.commits k vote).1)
  have enough := met active
  by_cases none : p.quorum ≤ (f.byzantine height).card
  · exact ⟨∅, by omega, fun j member => absurd member (Finset.notMem_empty j)⟩
  · obtain ⟨c, vote⟩ := Finset.card_pos.mp
      (show 0 < (Finset.univ.filter (fun j => f.key j ∈ p.commitPubkeys)).card by omega)
    rw [Finset.mem_filter] at vote
    -- an honest committer, whose own record has met the PREPARE quorum
    obtain ⟨m, said, kind, digest⟩ := says_of_vouched honest (round.commits _ vote.2).2
    obtain ⟨q, held, named, prepared⟩ := (inv c).committed m said kind
    have backing := (inv c).rounds q held
    rw [digest, Value.text.injEq] at named
    obtain ⟨-, sameStamp⟩ := same_digest_observation honest round backing named
    have alike : q.snapshotActive = true := by
      cases mode : q.snapshotActive with
      | true => rfl
      | false =>
        rw [backing.legacy mode, stamp] at sameStamp
        exact absurd sameStamp (by simp)
    obtain ⟨other, otherStamp, otherMembers, otherQuorum⟩ := backing.stamped alike
    rw [stamp, otherStamp, Option.some.injEq] at sameStamp
    subst sameStamp
    have observers := honest_votes height q.preparePubkeys
      (fun k vote => otherMembers ▸ (backing.prepares k vote).1)
    have reached := prepared alike
    refine ⟨Finset.univ.filter (fun j => f.key j ∈ q.preparePubkeys), by omega, ?_⟩
    intro j member
    rw [Finset.mem_filter] at member
    obtain ⟨inside, vouched⟩ := backing.prepares _ member.2
    have prepare := says_of_vouched honest vouched
    rw [← named] at prepare
    exact ⟨otherMembers ▸ inside, prepare_after_probe honest (inv j) round prepare⟩

end Quorums

section Decide
variable [Fintype ι] (w : World ι) (m : Move ι) {i : ι}

instance (e : Envelope) : Decidable (f.EnvelopeSound w i e) :=
  decidable_of_iff
    (∀ pk ∈ provenPubkey (f.cfg i).js.toLowerCase e.sigPubkey,
      isHex64 pk = true ∧ ∀ j, f.key j = pk → e.data ∈ broadcasts (w j))
    Iff.rfl

instance (data : Message) : Decidable data.Parsed :=
  decidable_of_iff
    ((data.chain.isFalsy = true ∨ Plain data.chain) ∧
      (data.reorgHeight.isFalsy = true ∨ Plain data.reorgHeight) ∧
      (data.timestamp.isFalsy = true ∨ Plain data.timestamp))
    ⟨fun parts => ⟨parts.1, parts.2.1, parts.2.2⟩,
      fun parsed => ⟨parsed.chain, parsed.reorgHeight, parsed.timestamp⟩⟩

instance : Decidable (f.Authentic w m) :=
  match shape : m.2.2 with
  | .deliver e => decidable_of_iff (f.EnvelopeSound w m.1 e ∧ e.data.Parsed)
      (by simp only [Federation.Authentic, shape])
  | .report chain reorgHeight timestamp _ _ =>
    decidable_of_iff (Plain chain ∧ Plain reorgHeight ∧ Plain timestamp)
      (by simp only [Federation.Authentic, shape])
  | .tip .. | .block .. | .history .. | .probeOver _ | .resume _ | .locked .. | .timeout _
  | .written .. | .broadcasted _ => isTrue (by simp only [Federation.Authentic, shape])

instance : Decidable (f.OverSnapshot w m) := by
  unfold Federation.OverSnapshot
  repeat' split
  all_goals infer_instance

instance : Decidable (f.Given w m) :=
  decidable_of_iff (f.Authentic w m ∧ f.OverSnapshot w m)
    ⟨fun both => ⟨both.1, both.2⟩, fun given => ⟨given.authentic, given.onSnapshot⟩⟩

end Decide
end Federations

section Sample

def ofDigit (c : Char) : String := String.ofList (List.replicate 64 c)

def sampleFields : Fields :=
  ⟨"BTC:100:1000000", .text "BTC", .number (NumberText.Number.ofNat 100),
    .number (NumberText.Number.ofNat 1000000), ofDigit '3', ofDigit '4'⟩

/- SHA-256 on the payload of the sample round, and no collision elsewhere. -/
def sampleHash (payload : String) : Equiv.Perm String :=
  Equiv.swap payload "3e609a3c52a5e6838439d397295dc62f99d744d5f2c351cf89e74c5e1915062f"

def sampleParams (addr : String) (key : Char) (hash : String → String) : Params where
  validatorAddr := addr
  identityPubkey := some (ofDigit key)
  network := "regtest"
  indexerUrl := fun _ => true
  maxLookbackMs := 86400000
  maxReorgDepth := 2000
  timestampSkewToleranceMs := 10800000
  maxPendingReorgs := 64
  allowUnrecordedOldHash := false
  declaredMinValidators := some 2
  snapshotActivation := some 0
  digestV2ActiveAt := fun _ => true
  sha256 := hash
  js := decimalBuiltins

def samplePayload : String :=
  stringify (digestPayload (sampleParams "h0" '0' id) sampleFields (some 900))

def reporter : Fin 2 := ⟨0, Nat.zero_lt_two⟩

def follower : Fin 2 := ⟨1, Nat.one_lt_two⟩

/- Two members, both hubs of the federation. -/
def twoHubs : Federation (Fin 2) where
  cfg := fun i => if i.val = 0 then sampleParams "h0" '0' (sampleHash samplePayload)
    else sampleParams "h1" '1' (sampleHash samplePayload)
  key := fun i => if i.val = 0 then ofDigit '0' else ofDigit '1'
  members := fun _ => OrderedSet.ofList [ofDigit '0', ofDigit '1']
  hash := sampleHash samplePayload

def sampleEnv : Env where
  signers := ⟨some [("h0", ofDigit '0'), ("h1", ofDigit '1')], some [ofDigit '0', ofDigit '1']⟩
  validatorSet := [some (ofDigit '0'), some (ofDigit '1')]
  openPeers := 1
  now := 1000000

def at2 (i : Fin 2) (event : Event) : Move (Fin 2) := (i, (sampleEnv, event))

def sent (addr : String) (key : Char) (data : Message) : Event :=
  .deliver ⟨addr, some (ofDigit key), data⟩

def servesNew : Option BlockHashes := some ⟨some 100, ofDigit '4', "regtest", some 1000⟩

def sampleReply : LockReply := ⟨some 900, true, some [ofDigit '0', ofDigit '1']⟩

def sampleRound : Round :=
  roundOf (sampleParams "h0" '0' (sampleHash samplePayload)) sampleEnv sampleFields
    (.array ((getAffectedChains (.text "BTC")).map .text))
    "3e609a3c52a5e6838439d397295dc62f99d744d5f2c351cf89e74c5e1915062f" (some 1000000)
    (.active 900 (OrderedSet.ofList [ofDigit '0', ofDigit '1']) 2 (ofDigit '0')) true

def sampleContext : Context :=
  .active 900 (OrderedSet.ofList [ofDigit '0', ofDigit '1']) 2 (ofDigit '0')

/- h0 reports, h1 follows the ALERT; both PREPARE and COMMIT, and h0 rolls back. -/
def sampleRun : List (Move (Fin 2)) :=
  let orphaned := some [⟨some 100, some (ofDigit '3')⟩]
  [at2 reporter (.report (.text "BTC") (.number (NumberText.Number.ofNat 100))
      (.number (NumberText.Number.ofNat 1000000)) (.text (ofDigit '3')) (.text (ofDigit '4'))),
   at2 reporter (.tip 0 servesNew), at2 reporter (.history 0 orphaned), at2 reporter (.resume 0),
   at2 reporter (.locked 1 sampleReply),
   at2 follower (sent "h0" '0' (alertMessage sampleFields sampleContext)),
   at2 follower (.tip 0 servesNew), at2 follower (.history 0 orphaned), at2 follower (.resume 0),
   at2 follower (.locked 1 sampleReply),
   at2 reporter (sent "h1" '1' (prepareMessage sampleRound)),
   at2 follower (sent "h0" '0' (prepareMessage sampleRound)),
   at2 reporter (sent "h1" '1' (commitMessage sampleRound))]

theorem two_hubs_honest : twoHubs.Honest where
  identity := by decide
  distinct := by decide
  hashed := by
    intro i
    show (if i.val = 0 then _ else _ : Params).sha256 = _
    split <;> rfl
  collisionFree := (sampleHash samplePayload).injective

def executedRound : Output → Option (Round × Rollback)
  | .consensusRollback p x => some (p, x)
  | _ => none

theorem executed_round_some {o : Output} {p : Round} {x : Rollback}
    (found : executedRound o = some (p, x)) : o = .consensusRollback p x := by
  cases o with
  | consensusRollback q y =>
    simp only [executedRound, Option.some.injEq, Prod.mk.injEq] at found
    rw [found.1, found.2]
  | _ => exact absurd found (by simp [executedRound])

/- The run with its admission and the rollback at its end. -/
def rolledBack : { events : List (Move (Fin 2)) //
    Admitted twoHubs.step twoHubs.Given startWorld events ∧
      ((run twoHubs.step startWorld events reporter).trace.filterMap executedRound).any
        (fun r => r.1.snapshotActive) = true } :=
  ⟨sampleRun, by decide +kernel⟩

/-- Two hubs without faults reach a rollback, and both sent their PREPARE after a probe. -/
theorem sample_rollback_observed : ∃ p x,
    .consensusRollback p x ∈ (run twoHubs.step startWorld sampleRun reporter).trace ∧
    p.snapshotActive = true ∧ Observed (run twoHubs.step startWorld sampleRun reporter) p.fields ∧
    ∃ height, p.btcBlockHeight = some height ∧
      p.quorum = bftQuorumOrSingle (twoHubs.members height).size 0 ∧
      ∃ observers : Finset (Fin 2), p.quorum - (twoHubs.byzantine height).card ≤ observers.card ∧
        ∀ j ∈ observers, twoHubs.key j ∈ twoHubs.members height ∧
          PreparedAfterProbe (run twoHubs.step startWorld sampleRun j) p := by
  obtain ⟨admitted, rolled⟩ := rolledBack.property
  obtain ⟨⟨p, x⟩, member, active⟩ := List.any_eq_true.mp rolled
  obtain ⟨o, executed, found⟩ := List.mem_filterMap.mp member
  rw [executed_round_some found] at executed
  exact ⟨p, x, executed, active,
    rollback_rests_on_probes two_hubs_honest admitted executed active⟩

end Sample

end XChainHub.Anchor.ReorgHandler
