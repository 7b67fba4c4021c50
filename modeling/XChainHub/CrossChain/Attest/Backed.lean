import XChainHub.CrossChain.Attest.Tallied

/-!
What stands behind a stored attestation, over a federation of honest hubs and faulty
signers. A quorum of the locked snapshot committed to its content, each honest one of them
on its indexer's word or a local request. Where no PROPOSE is counted in a round of another
digest, a quorum prepared that content as well, and where no hub reopens an id it committed
to, two stored contents of it are one.
-/
namespace XChainHub.CrossChain.Attest
open SlotHeap GuardedRuns BftQuorum

variable {C ι : Type}

section Log
variable {cfg : Params C} {h : Hub C} {n : ℕ}

@[simp] theorem check_commit_log {id : String} : (checkCommitQuorum h id).log = h.log := by
  unfold checkCommitQuorum
  split
  · rfl
  · split <;> rfl

theorem check_prepare_log {id : String} : h.log ⊆ (checkPrepareQuorum cfg h id).log := by
  unfold checkPrepareQuorum
  split
  · exact List.Subset.refl _
  · split
    · exact List.Subset.refl _
    · rw [check_commit_log]
      exact List.subset_cons_self _ _

theorem prepare_proposal_log {key : Option String} {p : Proposal C} :
    h.log ⊆ (prepareProposal cfg h key p).log := by
  unfold prepareProposal
  split
  · exact List.Subset.refl _
  · exact fun e member => check_prepare_log (List.mem_cons_of_mem _ member)

@[simp] theorem mark_log {id : String} : (markFinalized cfg h id).log = h.log := by
  unfold markFinalized
  split
  · rfl
  · split <;> rfl

@[simp] theorem evict_log {id : String} {rid : ℕ} : (h.evict id rid).log = h.log := by
  unfold Hub.evict
  split <;> rfl

theorem resume_request_log {reply : Reply} {source dest : String} {index : ℤ} {stage : Requesting} :
    h.log ⊆ (resumeRequest cfg h n reply source index dest stage).log := by
  cases stage with
  | height => exact List.Subset.refl _
  | quorum height =>
    simp only [resumeRequest]
    split <;> exact List.Subset.refl _
  | members height quorum =>
    exact fun e member =>
      check_prepare_log (List.mem_cons_of_mem _ (List.mem_cons_of_mem _ member))
  | sole height =>
    simp only [resumeRequest]
    split <;> exact List.Subset.refl _
  | storing =>
    simp only [resumeRequest]
    cases reply.stored with
    | lost => exact List.Subset.refl _
    | left => exact List.Subset.refl _
    | done => simp [Hub.finish]

theorem resume_propose_log {reply : Reply} {key : Option String} {p : Proposal C} {stage : Proposing} :
    h.log ⊆ (resumePropose cfg h n reply key p stage).log := by
  cases stage with
  | verify =>
    simp only [resumePropose]
    split
    · exact List.Subset.refl _
    · split
      · exact List.Subset.refl _
      · split
        · exact fun e member => prepare_proposal_log (List.mem_cons_of_mem _ member)
        · exact List.subset_cons_self _ _
  | bound =>
    simp only [resumePropose]
    split <;> exact List.Subset.refl _
  | quorum =>
    simp only [resumePropose]
    split <;> exact List.Subset.refl _
  | members quorum =>
    have opened : ((h.finish n).openRound (followerRound cfg p quorum reply.snapshot)).log = h.log := rfl
    exact opened ▸ prepare_proposal_log

/-- A hub's history only grows. -/
theorem act_log (a : Act C) : h.log ⊆ (act cfg h a).log := by
  cases a with
  | request source index dest =>
    simp only [act, requestAttestation]
    split
    · exact List.Subset.refl _
    · split <;> exact List.Subset.refl _
  | deliver key known m =>
    cases m with
    | propose p =>
      simp only [act, handleMessage, handlePropose]
      split <;> exact List.Subset.refl _
    | prepare id digest =>
      simp only [act, handleMessage, handlePrepare]
      split
      · exact List.Subset.refl _
      · split
        · exact List.Subset.refl _
        · rename_i rid _ _ _
          have same : (h.modify rid (fun r => { r with prepares := addVote r.prepares key })).log =
            h.log := rfl
          exact same ▸ check_prepare_log
    | commit id digest =>
      simp only [act, handleMessage, handleCommit]
      split
      · exact List.Subset.refl _
      · split
        · exact List.Subset.refl _
        · rw [check_commit_log]
          exact List.Subset.refl _
  | resume n reply =>
    simp only [act]
    split
    · exact List.Subset.refl _
    · exact resume_request_log
    · exact resume_propose_log
    · unfold storeSettled
      split
      · exact List.Subset.refl _
      · cases reply.stored with
        | done => simp [Hub.finish, Hub.forget, Hub.modify]
        | lost => exact List.Subset.refl _
        | left => exact List.Subset.refl _
  | timeout rid =>
    simp only [act, timeout]
    split
    · exact List.Subset.refl _
    · split
      · exact List.Subset.refl _
      · split
        · exact List.Subset.refl _
        · split
          · split
            · exact List.Subset.refl _
            · simp [Hub.modify]
          · simp [Hub.modify]
  | redrive rid =>
    simp only [act, redrive]
    split
    · exact List.Subset.refl _
    · split
      · exact List.Subset.refl _
      · rw [check_commit_log]
        exact List.Subset.refl _
  | restart => exact List.Subset.refl _

end Log

/- The digest of a COMMIT for the id. -/
def Entry.commitOf (id : String) : Entry C → Option String
  | .sent (.commit own digest) => if own = id then some digest else none
  | _ => none

/- Honest hubs and the keys of the others. -/
structure Federation (C ι : Type) where
  cfg : ι → Params C
  faulty : Finset String
  distinct : ∀ i j, (cfg i).pubkey = (cfg j).pubkey → i = j
  correct : ∀ i, (cfg i).pubkey ∉ faulty
  digests : ∀ i j id c, (cfg i).digest id c = (cfg j).digest id c

/- forged holds what the others signed. -/
structure World (C ι : Type) where
  hubs : ι → Hub C
  forged : List (String × Message C)

inductive Event (C ι : Type) where
  | forge (key : String) (m : Message C)
  | act (i : ι) (a : Act C)

def World.started : World C ι := ⟨fun _ => Hub.started, []⟩

namespace Federation
variable (f : Federation C ι)

def Sent (w : World C ι) (key : String) (m : Message C) : Prop :=
  (key, m) ∈ w.forged ∨ ∃ i, (f.cfg i).pubkey = key ∧ .sent m ∈ (w.hubs i).log

def step [DecidableEq ι] (w : World C ι) : Event C ι → World C ι
  | .forge key m => { w with forged := (key, m) :: w.forged }
  | .act i a => { w with hubs := Function.update w.hubs i (act (f.cfg i) (w.hubs i) a) }

/- A locked snapshot: members, no more of them faulty than n of them bear, and the threshold of
   n. Its other members are honest hubs. -/
def Resolved (quorum : ℕ) : Option (OrderedSet String) → Prop
  | none => False
  | some members =>
    quorum = bftQuorumOrSingle members.size 0 ∧
      (members.toFinset ∩ f.faulty).card ≤ faultBound members.size ∧
      ∀ k ∈ members.items, k ∉ f.faulty → ∃ i, (f.cfg i).pubkey = k

def Heard (w : World C ι) : Act C → Prop
  | .deliver (some key) _ m => f.Sent w key m
  | _ => True

/- The setting: an envelope proves its key, only the others forge, every round locks a snapshot. -/
def Genuine (w : World C ι) : Event C ι → Prop
  | .forge key _ => key ∈ f.faulty
  | .act i a => f.Heard w a ∧
      ∀ r ∈ opens (f.cfg i) (w.hubs i) a, f.Resolved r.quorum r.memberPubkeys

/- No hub counts a PROPOSE in a round of another digest or opens a round against a COMMIT it
   sent, and the rounds of one id lock one snapshot. -/
def Careful (locks : String → OrderedSet String) (w : World C ι) : Event C ι → Prop
  | .forge _ _ => True
  | .act i a => Keeps (f.cfg i) (w.hubs i) a ∧
      ∀ r ∈ opens (f.cfg i) (w.hubs i) a, r.memberPubkeys = some (locks r.attestationId)

variable {f}

section Worlds
variable {w : World C ι} {T : String → ℕ → Option (OrderedSet String) → Prop}

theorem sent_of_vote {i : ι} {key : String} {m : Message C}
    (said : Says (f.cfg i) (f.Sent w) (w.hubs i).log key m) : f.Sent w key m := by
  rcases said with sent | ⟨self, own⟩
  · exact sent
  · exact Or.inr ⟨i, self.symm, own⟩

structure WorldSound (f : Federation C ι) (T : String → ℕ → Option (OrderedSet String) → Prop)
    (w : World C ι) : Prop where
  hubs : ∀ i, Sound (f.cfg i) (f.Sent w) T (w.hubs i)
  forged : ∀ x ∈ w.forged, x.1 ∈ f.faulty

theorem started_world : f.WorldSound T World.started :=
  ⟨fun _ => started_sound, by simp [World.started]⟩

theorem heard_said {a : Act C} (heard : f.Heard w a) :
    ∀ k known m, a = .deliver (some k) known m → f.Sent w k m := by
  rintro k known m rfl
  exact heard

variable [DecidableEq ι] {e : Event C ι}

theorem sent_mono {key : String} {m : Message C} (sent : f.Sent w key m) :
    f.Sent (f.step w e) key m := by
  cases e with
  | forge key' m' => exact sent.imp_left (List.mem_cons_of_mem _)
  | act i a =>
    refine sent.imp_right ?_
    rintro ⟨j, own, said⟩
    refine ⟨j, own, ?_⟩
    show Entry.sent m ∈ (Function.update w.hubs i (act (f.cfg i) (w.hubs i) a) j).log
    by_cases same : j = i
    · subst same
      rw [Function.update_self]
      exact act_log a said
    · rw [Function.update_of_ne same]
      exact said

theorem step_sound (sound : f.WorldSound T w) (genuine : f.Genuine w e)
    (terms : ∀ i a, e = .act i a → ∀ r ∈ opens (f.cfg i) (w.hubs i) a,
      T r.attestationId r.quorum r.memberPubkeys) : f.WorldSound T (f.step w e) := by
  cases e with
  | forge key m =>
    refine ⟨fun i => (sound.hubs i).weaken (fun _ _ => sent_mono (e := .forge key m)), ?_⟩
    intro x member
    rcases List.mem_cons.mp member with rfl | old
    · exact genuine
    · exact sound.forged x old
  | act i a =>
    refine ⟨?_, sound.forged⟩
    intro j
    refine Sound.weaken ?_ (fun _ _ => sent_mono (e := .act i a))
    show Sound (f.cfg j) (f.Sent w) T (Function.update w.hubs i (act (f.cfg i) (w.hubs i) a) j)
    by_cases same : j = i
    · subst same
      rw [Function.update_self]
      exact act_sound (sound.hubs j) a (heard_said genuine.1) (terms j a rfl)
    · rw [Function.update_of_ne same]
      exact sound.hubs j

theorem step_tallied (sound : f.WorldSound T w) (tallied : ∀ i, Tallied (f.cfg i) (f.Sent w) (w.hubs i))
    (genuine : f.Genuine w e) {locks : String → OrderedSet String} (careful : f.Careful locks w e)
    (terms : ∀ i a, e = .act i a → ∀ r ∈ opens (f.cfg i) (w.hubs i) a,
      T r.attestationId r.quorum r.memberPubkeys) :
    ∀ i, Tallied (f.cfg i) (f.Sent (f.step w e)) ((f.step w e).hubs i) := by
  cases e with
  | forge key m => exact fun i => (tallied i).weaken (fun _ _ => sent_mono (e := .forge key m))
  | act i a =>
    intro j
    refine Tallied.weaken ?_ (fun _ _ => sent_mono (e := .act i a))
    show Tallied (f.cfg j) (f.Sent w) (Function.update w.hubs i (act (f.cfg i) (w.hubs i) a) j)
    by_cases same : j = i
    · subst same
      rw [Function.update_self]
      exact act_tallied (tallied j) (sound.hubs j) (heard_said genuine.1) careful.1 (terms j a rfl)
    · rw [Function.update_of_ne same]
      exact tallied j

end Worlds

section Backing
variable (f : Federation C ι) (w : World C ι)

/- The key sent m; an honest hub did so on its indexer's word or a local request. -/
def SentGrounded (key : String) (m : Message C) : Prop :=
  f.Sent w key m ∧ ∀ i, (f.cfg i).pubkey = key → ∀ later earlier,
    (w.hubs i).log = later ++ .sent m :: earlier → Grounded (f.cfg i) earlier m.id

/- A quorum of the round's locked members, each of which did what is asked of a key. -/
def QuorumOf (r : Round C) (did : String → Prop) : Prop :=
  ∃ members ∈ r.memberPubkeys, ∃ keys : Finset String, (∀ k ∈ keys, k ∈ members) ∧
    r.quorum ≤ keys.card ∧ ∀ k ∈ keys, did k

def CommittedBy (r : Round C) : Prop :=
  QuorumOf r (fun k => f.SentGrounded w k (.commit r.attestationId r.digest))

def PreparedBy (r : Round C) : Prop :=
  QuorumOf r (fun k => f.SentGrounded w k (.prepare r.attestationId r.digest) ∨
    ∃ p : Proposal C, p.attestationId = r.attestationId ∧ p.digest = r.digest ∧
      f.SentGrounded w k (.propose p))

end Backing

section Stored
variable {w : World C ι} {T : String → ℕ → Option (OrderedSet String) → Prop} {i : ι} {rid : ℕ}
  {r : Round C}

theorem sent_grounded (sound : f.WorldSound T w) {key : String} {m : Message C}
    (sent : f.Sent w key m) : f.SentGrounded w key m :=
  ⟨sent, fun j _ _ _ split => orderly_before (sound.hubs j).orderly split⟩

/-- What an honest hub's key sent, that hub sent. -/
theorem sent_by (sound : f.WorldSound T w) {j : ι} {m : Message C}
    (sent : f.Sent w (f.cfg j).pubkey m) : .sent m ∈ (w.hubs j).log := by
  rcases sent with forged | ⟨j', same, own⟩
  · exact absurd (sound.forged _ forged) (f.correct j)
  · exact f.distinct j' j same ▸ own

/-- The counted votes of a round are a set of its locked members. -/
theorem counted_quorum (votes : OrderedSet String) (met : r.quorum ≤ (r.counted votes).length)
    {members : OrderedSet String} (locked : r.memberPubkeys = some members) {did : String → Prop}
    (each : ∀ k ∈ votes, did k) :
    ∃ keys : Finset String, (∀ k ∈ keys, k ∈ members) ∧ (∀ k ∈ keys, k ∈ votes) ∧
      r.quorum ≤ keys.card ∧ ∀ k ∈ keys, did k := by
  refine ⟨(r.counted votes).toFinset, ?_, ?_, ?_, ?_⟩
  · intro k member
    exact (mem_counted.mp (List.mem_toFinset.mp member)).2 members locked
  · intro k member
    exact (mem_counted.mp (List.mem_toFinset.mp member)).1
  · rw [List.toFinset_card_of_nodup (counted_nodup r votes)]
    exact met
  · intro k member
    exact each k (mem_counted.mp (List.mem_toFinset.mp member)).1

theorem resolved_members {quorum : ℕ} {ms : Option (OrderedSet String)} (resolved : f.Resolved quorum ms) :
    ∃ members, ms = some members ∧ quorum = bftQuorumOrSingle members.size 0 ∧
      (members.toFinset ∩ f.faulty).card ≤ faultBound members.size ∧
      ∀ k ∈ members, k ∉ f.faulty → ∃ i, (f.cfg i).pubkey = k := by
  cases ms with
  | none => exact absurd resolved id
  | some members => exact ⟨members, rfl, resolved⟩

theorem committed_by (sound : f.WorldSound (fun _ => f.Resolved) w)
    (held : (w.hubs i).round rid = some r) (quorate : Quorate r) : f.CommittedBy w r := by
  have faithful := (sound.hubs i).rounds rid r held
  obtain ⟨members, locked, -⟩ := resolved_members faithful.terms
  obtain ⟨keys, inside, -, met, each⟩ := counted_quorum r.commits quorate locked
    (fun k member => sent_grounded sound (sent_of_vote (faithful.commits k member)))
  exact ⟨members, locked, keys, inside, met, each⟩

theorem quorum_exceeds_faults {n : ℕ} (positive : 0 < bftQuorumOrSingle n 0) :
    2 ≤ n ∧ faultBound n < bftQuorumOrSingle n 0 := by
  have two : 2 ≤ n := by
    by_contra few
    rw [bftQuorumOrSingle, if_pos (by omega)] at positive
    exact absurd positive (lt_irrefl 0)
  refine ⟨two, ?_⟩
  rw [bftQuorumOrSingle, if_neg (by omega), faultBound, bftQuorum]
  omega

variable {locks : String → OrderedSet String}

/- The terms of the rounds of a careful run. -/
def Locked (f : Federation C ι) (locks : String → OrderedSet String) (id : String) (quorum : ℕ)
    (members : Option (OrderedSet String)) : Prop :=
  f.Resolved quorum members ∧ members = some (locks id)

theorem prepared_by (sound : f.WorldSound (f.Locked locks) w)
    (tallied : ∀ i, Tallied (f.cfg i) (f.Sent w) (w.hubs i))
    (held : (w.hubs i).round rid = some r) (quorate : Quorate r) : f.PreparedBy w r := by
  have faithful := (sound.hubs i).rounds rid r held
  obtain ⟨resolved, locked⟩ := faithful.terms
  rw [locked] at resolved
  obtain ⟨size, bound, honest⟩ := resolved
  obtain ⟨keys, inside, -, met, each⟩ := counted_quorum r.commits quorate locked
    (fun k member => sent_of_vote (faithful.commits k member))
  -- more keys committed than can be faulty, so an honest hub did
  have more : ((locks r.attestationId).toFinset ∩ f.faulty).card < keys.card :=
    lt_of_le_of_lt bound (lt_of_lt_of_le (size ▸ (quorum_exceeds_faults (size ▸ faithful.positive)).2) met)
  obtain ⟨k, member, outside⟩ := Finset.exists_mem_notMem_of_card_lt_card more
  have good : k ∉ f.faulty := fun bad => outside
    (Finset.mem_inter.mpr ⟨OrderedSet.mem_to_finset.mpr (inside k member), bad⟩)
  obtain ⟨j, rfl⟩ := honest k (inside k member) good
  obtain ⟨rid', r', held', own, digest, prepared⟩ :=
    (sound.hubs j).committed _ _ (sent_by sound (each _ member))
  obtain ⟨resolved', locked'⟩ := ((sound.hubs j).rounds rid' r' held').terms
  rw [own] at locked'
  rw [locked'] at resolved'
  have quorums : r'.quorum = r.quorum := resolved'.1.trans size.symm
  obtain ⟨keys', inside', -, met', each'⟩ := counted_quorum r'.prepares prepared locked'
    (fun k member => (tallied j).votes rid' r' held' k member)
  refine ⟨locks r.attestationId, locked, keys', inside', quorums ▸ met', ?_⟩
  intro k' member'
  have votes := each' k' member'
  rw [own, digest] at votes
  rcases votes with prepare | ⟨p, named, same, proposed⟩
  · exact Or.inl (sent_grounded sound (sent_of_vote prepare))
  · exact Or.inr ⟨p, named, same, sent_grounded sound (sent_of_vote proposed)⟩

theorem stored_alike (sound : f.WorldSound (f.Locked locks) w)
    (tallied : ∀ i, Tallied (f.cfg i) (f.Sent w) (w.hubs i))
    {j : ι} {rid' : ℕ} {r' : Round C} (held : (w.hubs i).round rid = some r) (quorate : Quorate r)
    (held' : (w.hubs j).round rid' = some r') (quorate' : Quorate r')
    (same : r'.attestationId = r.attestationId)
    (margin : (locks r.attestationId).size % 3 = 1 ∨ (locks r.attestationId).size = 2 ∨
      (locks r.attestationId).size = 3 ∨ (locks r.attestationId).size = 6) :
    r'.confirmations = r.confirmations := by
  have faithful := (sound.hubs i).rounds rid r held
  have faithful' := (sound.hubs j).rounds rid' r' held'
  obtain ⟨resolved, locked⟩ := faithful.terms
  obtain ⟨resolved', locked'⟩ := faithful'.terms
  rw [same] at locked'
  rw [locked] at resolved
  rw [locked'] at resolved'
  obtain ⟨size, bound, honest⟩ := resolved
  obtain ⟨keys, inside, -, met, each⟩ := counted_quorum r.commits quorate locked
    (fun k member => sent_of_vote (faithful.commits k member))
  obtain ⟨keys', inside', -, met', each'⟩ := counted_quorum r'.commits quorate' locked'
    (fun k member => sent_of_vote (faithful'.commits k member))
  have within : ∀ {votes : Finset String}, (∀ k ∈ votes, k ∈ locks r.attestationId) →
      votes ⊆ (locks r.attestationId).toFinset :=
    fun all k member => OrderedSet.mem_to_finset.mpr (all k member)
  obtain ⟨two, -⟩ := quorum_exceeds_faults (size ▸ faithful.positive)
  have large : ((locks r.attestationId).toFinset ∩ f.faulty).card +
      (locks r.attestationId).toFinset.card < keys.card + keys'.card := by
    have room := (fault_margin_iff _ two).mpr margin
    have threshold : bftQuorumOrSingle (locks r.attestationId).size 0 =
        bftQuorum (locks r.attestationId).size := if_neg (by omega)
    rw [OrderedSet.card_to_finset]
    rw [size, threshold] at met
    rw [resolved'.1, threshold] at met'
    omega
  obtain ⟨k, first, second, outside⟩ :=
    QuorumSets.overlap_escapes (within inside) (within inside') large
  have good : k ∉ f.faulty := fun bad => outside
    (Finset.mem_inter.mpr ⟨OrderedSet.mem_to_finset.mpr (inside k first), bad⟩)
  obtain ⟨n, rfl⟩ := honest k (inside k first) good
  have one := sent_by sound (each _ first)
  have other := sent_by sound (each' _ second)
  rw [same] at other
  have digests := (tallied n).single _ _ _ other one
  rw [faithful.digest, faithful'.digest, f.digests j i] at digests
  exact ((f.cfg i).digest_inj _ _ _ _ digests).2

end Stored

section Decide
variable [Fintype ι] [DecidableEq C] (f : Federation C ι) (w : World C ι)

instance (key : String) (m : Message C) : Decidable (f.Sent w key m) :=
  inferInstanceAs (Decidable (_ ∨ _))

instance (quorum : ℕ) : (ms : Option (OrderedSet String)) → Decidable (f.Resolved quorum ms)
  | none => isFalse id
  | some _ => inferInstanceAs (Decidable (_ ∧ _))

instance : (a : Act C) → Decidable (f.Heard w a)
  | .deliver (some key) _ m => inferInstanceAs (Decidable (f.Sent w key m))
  | .deliver none _ _ | .request _ _ _ | .resume _ _ | .timeout _ | .redrive _ | .restart =>
    isTrue trivial

instance : (e : Event C ι) → Decidable (f.Genuine w e)
  | .forge key _ => inferInstanceAs (Decidable (key ∈ f.faulty))
  | .act _ _ => inferInstanceAs (Decidable (_ ∧ _))

instance (h : Hub C) (r : Round C) : Decidable (Reopens h r) :=
  decidable_of_iff (∀ e ∈ h.log, e.commitOf r.attestationId ∈ [none, some r.digest]) (by
    constructor
    · intro all d sent
      simpa [Entry.commitOf] using all _ sent
    · intro again e member
      cases e with
      | sent m =>
        cases m with
        | commit id d =>
          simp only [Entry.commitOf]
          split
          · rename_i same
            simp [again d (same ▸ member)]
          · simp
        | _ => simp [Entry.commitOf]
      | _ => simp [Entry.commitOf])

instance (cfg : Params C) (h : Hub C) (a : Act C) : Decidable (Keeps cfg h a) :=
  decidable_of_iff ((∀ r ∈ opens cfg h a, Reopens h r) ∧ ∀ x ∈ merges h a, x.1.digest = x.2.digest)
    ⟨fun both => ⟨both.1, both.2⟩, fun keeps => ⟨keeps.reopens, keeps.merges⟩⟩

instance (locks : String → OrderedSet String) : (e : Event C ι) → Decidable (f.Careful locks w e)
  | .forge _ _ => isTrue trivial
  | .act _ _ => inferInstanceAs (Decidable (_ ∧ _))

end Decide
end Federation

section Samples

inductive Node where
  | a
  | b
  | c
  deriving DecidableEq

instance : Fintype Node := ⟨{.a, .b, .c}, fun n => by cases n <;> decide⟩

def sampleKey : Node → String
  | .a => "k0"
  | .b => "k1"
  | .c => "k2"

def fourKeys : List String := ["k0", "k1", "k2", "k3"]

/- As many marks as the confirmations, and the id. -/
def sampleDigest (id : String) (confirmations : ℕ) : String :=
  String.ofList (List.replicate confirmations '#' ++ ':' :: id.toList)

theorem sample_digest_inj (a : String) (m : ℕ) (b : String) (n : ℕ)
    (same : sampleDigest a m = sampleDigest b n) : a = b ∧ m = n := by
  have chars := String.ofList_injective same
  clear same
  induction m generalizing n with
  | zero =>
    cases n with
    | zero => exact ⟨String.toList_inj.mp (List.cons.inj chars).2, rfl⟩
    | succ n => exact absurd (List.cons.inj chars).1 (by decide)
  | succ m ih =>
    cases n with
    | zero => exact absurd (List.cons.inj chars).1 (by decide)
    | succ n =>
      obtain ⟨ids, counts⟩ := ih n (List.cons.inj chars).2
      exact ⟨ids, by rw [counts]⟩

def sampleParams (node : Node) : Params ℕ where
  pubkey := sampleKey node
  toLowerCase := id
  allowedChains := ["BTC", "LTC", "DOGE"]
  confirmations := fun _ => 6
  parseInt := fun s => some (s.toList.foldl (fun n c => 10 * n + (c.toNat - '0'.toNat)) 0 : ℕ)
  digest := sampleDigest
  digest_inj := sample_digest_inj
  finalizedMax := 10000

/- Three honest hubs of four members. -/
def threeOfFour : Federation ℕ Node where
  cfg := sampleParams
  faulty := {"k3"}
  distinct := by
    intro i j same
    cases i <;> cases j <;> first | rfl | exact absurd same (by decide)
  correct := by
    intro i
    cases i <;> decide
  digests := fun _ _ _ _ => rfl

def ready : Reply := ⟨some 100, true, some ⟨none, some fourKeys, false⟩, true, .done⟩

def sampleProposal : Proposal ℕ :=
  ⟨"BTC:7:LTC", "BTC", some 7, "LTC", 6, sampleDigest "BTC:7:LTC" 6, some 100⟩

def samplePrepare : Message ℕ := .prepare "BTC:7:LTC" (sampleDigest "BTC:7:LTC" 6)

def sampleCommit : Message ℕ := .commit "BTC:7:LTC" (sampleDigest "BTC:7:LTC" 6)

def hears (node : Node) (key : String) (m : Message ℕ) : Event ℕ Node :=
  .act node (.deliver (some key) true m)

def follows (node : Node) : List (Event ℕ Node) :=
  hears node "k0" (.propose sampleProposal) :: List.replicate 4 (.act node (.resume 0 ready))

/- a leads on a local request, b and c follow, and a stores; the fourth member is silent. -/
def sampleRun : List (Event ℕ Node) :=
  .act .a (.request "BTC" (some 7) "LTC") :: List.replicate 3 (.act .a (.resume 0 ready)) ++
    follows .b ++ follows .c ++
    [hears .a "k1" samplePrepare, hears .a "k2" samplePrepare, hears .b "k2" samplePrepare,
      hears .c "k1" samplePrepare, hears .a "k1" sampleCommit, hears .a "k2" sampleCommit,
      .act .a (.resume 1 ready)]

theorem sample_run_stores :
    Admitted threeOfFour.step threeOfFour.Genuine World.started sampleRun ∧
    Admitted threeOfFour.step (threeOfFour.Careful (fun _ => .ofList fourKeys)) World.started sampleRun ∧
    .round 0 ∈ ((run threeOfFour.step World.started sampleRun).hubs .a).stored := by
  decide

theorem sample_verifiers : ∀ k ∈ fourKeys,
    (threeOfFour.Sent (run threeOfFour.step World.started sampleRun) k sampleCommit ∧
      ∀ i, (threeOfFour.cfg i).pubkey = k →
        .verified "BTC" 7 ∈ ((run threeOfFour.step World.started sampleRun).hubs i).log) →
    k ∈ ["k1", "k2"] := by
  decide

end Samples
end XChainHub.CrossChain.Attest
