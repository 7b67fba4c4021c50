import XChainHub.CrossChain.Attest.Sound

/-!
What holds at one hub that counts no PROPOSE in a round of another digest and reopens no id
against a COMMIT it sent: every vote of a round is for its digest, and the hub commits to one
digest of an id.
-/
namespace XChainHub.CrossChain.Attest
open SlotHeap

variable {C : Type}

section Tally
variable (cfg : Params C) (S : String → Message C → Prop)

/- The key proposed or prepared this digest of the id. -/
def Votes (log : List (Entry C)) (key id digest : String) : Prop :=
  Says cfg S log key (.prepare id digest) ∨
    ∃ p : Proposal C, p.attestationId = id ∧ p.digest = digest ∧ Says cfg S log key (.propose p)

def Told : Task C → Prop
  | .propose key p _ => ∀ k ∈ key, S k (.propose p)
  | _ => True

/- Every vote of a round is for its digest, and the round under an id agrees with every COMMIT
   that the hub sent for it. -/
structure Tallied (h : Hub C) : Prop where
  votes : ∀ rid r, h.round rid = some r → ∀ k ∈ r.prepares,
    Votes cfg S h.log k r.attestationId r.digest
  told : Every (Told S) h.tasks
  locked : ∀ id rid r, h.pending.get id = some rid → h.round rid = some r → ∀ d,
    .sent (.commit id d) ∈ h.log → d = r.digest
  single : ∀ id d e, .sent (.commit id d) ∈ h.log → .sent (.commit id e) ∈ h.log → d = e

end Tally

section Keeps
variable {cfg : Params C} {S : String → Message C → Prop}
  {T : String → ℕ → Option (OrderedSet String) → Prop} {h h' : Hub C} {rid n : ℕ}
  {f : Round C → Round C} {r : Round C} {t u : Task C}

theorem Votes.mono {log more : List (Entry C)} {key id digest : String}
    (votes : Votes cfg S log key id digest) (grown : log ⊆ more) : Votes cfg S more key id digest := by
  rcases votes with prepared | ⟨p, own, same, proposed⟩
  · exact Or.inl (prepared.mono grown)
  · exact Or.inr ⟨p, own, same, proposed.mono grown⟩

theorem Told.weaken {S' : String → Message C → Prop} (more : ∀ k m, S k m → S' k m) (t : Task C)
    (told : Told S t) : Told S' t := by
  cases t with
  | propose key p stage => exact fun k named => more k _ (told k named)
  | _ => trivial

theorem Tallied.weaken {S' : String → Message C → Prop} (tallied : Tallied cfg S h)
    (more : ∀ k m, S k m → S' k m) : Tallied cfg S' h := by
  refine ⟨?_, SlotHeap.every_weaken (Told.weaken more) tallied.told, tallied.locked, tallied.single⟩
  intro rid r held k member
  rcases tallied.votes rid r held k member with prepared | ⟨p, own, same, proposed⟩
  · exact Or.inl (prepared.imp_left (more k _))
  · exact Or.inr ⟨p, own, same, proposed.imp_left (more k _)⟩

theorem Tallied.of_memory (tallied : Tallied cfg S h) (rounds : h'.rounds = h.rounds)
    (log : h'.log = h.log) (told : Every (Told S) h'.tasks)
    (pending : ∀ id rid, h'.pending.get id = some rid → h.pending.get id = some rid) :
    Tallied cfg S h' := by
  have same : ∀ rid, h'.round rid = h.round rid := fun rid => by rw [Hub.round, Hub.round, rounds]
  refine ⟨?_, told, ?_, ?_⟩
  · intro rid r held
    rw [log]
    exact tallied.votes rid r (same rid ▸ held)
  · intro id rid r under held
    rw [log]
    exact tallied.locked id rid r (pending id rid under) (same rid ▸ held)
  · rw [log]
    exact tallied.single

theorem Tallied.await (tallied : Tallied cfg S h) (told : Told S t) : Tallied cfg S (h.await t) :=
  tallied.of_memory rfl rfl (SlotHeap.every_push tallied.told told) (fun _ _ under => under)

theorem Tallied.next (tallied : Tallied cfg S h) (held : slotAt h.tasks n = some u) (told : Told S t) :
    Tallied cfg S (h.next n t) := by
  refine tallied.of_memory rfl rfl (SlotHeap.every_set tallied.told held ?_) (fun _ _ under => under)
  rintro _ ⟨⟩
  exact told

theorem Tallied.finish (tallied : Tallied cfg S h) (held : slotAt h.tasks n = some u) :
    Tallied cfg S (h.finish n) := by
  refine tallied.of_memory rfl rfl (SlotHeap.every_set tallied.told held ?_) (fun _ _ under => under)
  rintro _ ⟨⟩

theorem Tallied.forget (tallied : Tallied cfg S h) (id : String) : Tallied cfg S (h.forget id) := by
  refine tallied.of_memory rfl rfl tallied.told ?_
  intro other rid under
  by_cases same : other = id
  · simp [Hub.forget, same] at under
  · rw [Hub.forget, OrderedMap.get_erase_other same] at under
    exact under

theorem Tallied.evict (tallied : Tallied cfg S h) (id : String) (rid : ℕ) :
    Tallied cfg S (h.evict id rid) := by
  unfold Hub.evict
  split
  · exact tallied.forget id
  · exact tallied

theorem Tallied.mark (tallied : Tallied cfg S h) (id : String) : Tallied cfg S (markFinalized cfg h id) := by
  unfold markFinalized
  split
  · exact tallied
  · split
    · exact tallied.of_memory rfl rfl tallied.told (fun _ _ under => under)
    · exact tallied.of_memory rfl rfl tallied.told (fun _ _ under => under)

theorem Tallied.stored (tallied : Tallied cfg S h) (stored : List (Stored C)) :
    Tallied cfg S { h with stored := stored } :=
  tallied.of_memory rfl rfl tallied.told (fun _ _ under => under)

theorem Tallied.note (tallied : Tallied cfg S h) {e : Entry C} (other : ∀ id d, e ≠ .sent (.commit id d)) :
    Tallied cfg S (h.note e) := by
  have old : ∀ id d, .sent (.commit id d) ∈ (h.note e).log → .sent (.commit id d) ∈ h.log := by
    intro id d sent
    rcases List.mem_cons.mp sent with new | before
    · exact absurd new.symm (other id d)
    · exact before
  refine ⟨?_, tallied.told, ?_, ?_⟩
  · intro rid r held k member
    exact (tallied.votes rid r held k member).mono (List.subset_cons_self _ _)
  · intro id rid r under held d sent
    exact tallied.locked id rid r under held d (old id d sent)
  · intro id d e' first second
    exact tallied.single id d e' (old id d first) (old id e' second)

theorem Tallied.modify (tallied : Tallied cfg S h) (grows : ∀ r, Grows r (f r))
    (votes : ∀ r, h.round rid = some r → ∀ k ∈ (f r).prepares, k ∈ r.prepares ∨
      Votes cfg S h.log k r.attestationId r.digest) : Tallied cfg S (h.modify rid f) := by
  refine ⟨?_, tallied.told, ?_, tallied.single⟩
  · intro m r' found k member
    obtain ⟨r, stored, ⟨rfl, -⟩ | ⟨rfl, rfl⟩⟩ := round_of_modify found
    · exact tallied.votes m r' stored k member
    · rw [(grows r).attestationId, (grows r).digest]
      rcases votes r stored k member with old | new
      · exact tallied.votes rid r stored k old
      · exact new
  · intro id m r' under found d sent
    obtain ⟨r, stored, ⟨rfl, -⟩ | ⟨rfl, rfl⟩⟩ := round_of_modify found
    · exact tallied.locked id m r' under stored d sent
    · rw [(grows r).digest]
      exact tallied.locked id rid r under stored d sent

/- A hub does not open a round of an id against a COMMIT it sent for it. -/
def Reopens (h : Hub C) (r : Round C) : Prop :=
  ∀ d, .sent (.commit r.attestationId d) ∈ h.log → d = r.digest

theorem Tallied.open (tallied : Tallied cfg S h) (sound : Sound cfg S T h) (again : Reopens h r)
    (votes : ∀ k ∈ r.prepares, Votes cfg S h.log k r.attestationId r.digest) :
    Tallied cfg S (h.openRound r) := by
  refine ⟨?_, tallied.told, ?_, tallied.single⟩
  · intro m q found
    rcases open_round found with old | ⟨-, rfl⟩
    · exact tallied.votes m q old
    · exact votes
  · intro id m q under found d sent
    by_cases same : id = r.attestationId
    · rw [Hub.openRound, same, OrderedMap.get_set_same] at under
      obtain rfl := Option.some.inj under
      obtain rfl : r = q := Option.some.inj (open_round_new.symm.trans found)
      exact again d (same ▸ sent)
    · rw [Hub.openRound, OrderedMap.get_set_other same] at under
      obtain ⟨q₀, held, -⟩ := sound.pending id m under
      obtain rfl : q₀ = q := Option.some.inj ((open_round_old held).symm.trans found)
      exact tallied.locked id m q₀ under held d sent

theorem Tallied.check_commit (tallied : Tallied cfg S h) {id : String} :
    Tallied cfg S (checkCommitQuorum h id) := by
  unfold checkCommitQuorum
  split
  · exact tallied
  · split
    · exact tallied
    · refine Tallied.await (tallied.modify ?_ ?_) (t := .store _) trivial
      · exact fun _ => ⟨rfl, rfl, rfl, rfl, rfl, fun _ member => member, fun _ member => member,
          fun sent => sent⟩
      · exact fun _ _ _ member => Or.inl member

theorem Tallied.commit (tallied : Tallied cfg S h) {id : String}
    (found : h.pendingRound id = some (rid, r)) :
    Tallied cfg S ((h.modify rid (Round.sendCommit cfg)).note (.sent (.commit id r.digest))) := by
  obtain ⟨under, held⟩ := pending_round_iff.mp found
  have kept : ∀ m q', (h.modify rid (Round.sendCommit cfg)).round m = some q' →
      ∃ q, h.round m = some q ∧ q'.attestationId = q.attestationId ∧ q'.digest = q.digest ∧
        q'.prepares = q.prepares := by
    intro m q' now
    obtain ⟨q, stored, ⟨rfl, -⟩ | ⟨rfl, -⟩⟩ := round_of_modify now
    · exact ⟨q', stored, rfl, rfl, rfl⟩
    · exact ⟨q, stored, rfl, rfl, rfl⟩
  refine ⟨?_, tallied.told, ?_, ?_⟩
  · intro m q' now k member
    obtain ⟨q, stored, own, digest, prepares⟩ := kept m q' now
    rw [own, digest]
    exact (tallied.votes m q stored k (prepares ▸ member)).mono (List.subset_cons_self _ _)
  · intro id' m q' under' now d sent
    obtain ⟨q, stored, -, digest, -⟩ := kept m q' now
    rw [digest]
    rcases List.mem_cons.mp sent with new | old
    · obtain ⟨rfl, rfl⟩ : id' = id ∧ d = r.digest := by simpa using new
      obtain rfl : m = rid := Option.some.inj (under'.symm.trans under)
      obtain rfl : q = r := Option.some.inj (stored.symm.trans held)
      rfl
    · exact tallied.locked id' m q under' stored d old
  · intro id' d e first second
    have before : ∀ d', .sent (.commit id d') ∈ h.log → d' = r.digest :=
      fun d' sent => tallied.locked id rid r under held d' sent
    rcases List.mem_cons.mp first with new | old
    · obtain ⟨rfl, rfl⟩ : id' = id ∧ d = r.digest := by simpa using new
      rcases List.mem_cons.mp second with new' | old'
      · obtain ⟨-, rfl⟩ : id' = id' ∧ e = r.digest := by simpa using new'
        rfl
      · exact (before e old').symm
    · rcases List.mem_cons.mp second with new' | old'
      · obtain ⟨rfl, rfl⟩ : id' = id ∧ e = r.digest := by simpa using new'
        exact before d old
      · exact tallied.single id' d e old old'

theorem Tallied.check_prepare (tallied : Tallied cfg S h) {id : String} :
    Tallied cfg S (checkPrepareQuorum cfg h id) := by
  unfold checkPrepareQuorum
  split
  · exact tallied
  · rename_i found
    split
    · exact tallied
    · exact (tallied.commit found).check_commit

/-- A PROPOSE is counted in a round of its own digest. -/
theorem Tallied.prepare_proposal (tallied : Tallied cfg S h) (sound : Sound cfg S T h)
    {key : Option String} {p : Proposal C} (told : ∀ k ∈ key, S k (.propose p))
    (own : ∀ x ∈ h.pendingRound p.attestationId, x.2.digest = p.digest) :
    Tallied cfg S (prepareProposal cfg h key p) := by
  unfold prepareProposal
  split
  · exact tallied
  · rename_i rid r found
    obtain ⟨under, held⟩ := pending_round_iff.mp found
    obtain ⟨r₀, held₀, named⟩ := sound.pending _ rid under
    obtain rfl : r₀ = r := Option.some.inj (held₀.symm.trans held)
    have digest : r₀.digest = p.digest := own (rid, r₀) found
    have noted : Tallied cfg S (h.note (.sent (.prepare p.attestationId p.digest))) :=
      tallied.note (by simp)
    refine Tallied.check_prepare ?_
    apply noted.modify
    · exact grows_prepares (fun s => (addVote s key).add cfg.pubkey)
        (fun s k member => OrderedSet.mem_add.mpr (Or.inr (add_vote_old member)))
    · intro q stored k member
      obtain rfl : q = r₀ := Option.some.inj (stored.symm.trans held)
      rcases OrderedSet.mem_add.mp member with self | voted
      · refine Or.inr (Or.inl (Or.inr ⟨self, ?_⟩))
        rw [named, digest]
        exact List.mem_cons_self
      · rcases add_vote_cases voted with old | new
        · exact Or.inl old
        · exact Or.inr (Or.inr ⟨p, named.symm, digest.symm, Or.inl (told k new)⟩)

end Keeps

section Acts
variable {cfg : Params C} {S : String → Message C → Prop}
  {T : String → ℕ → Option (OrderedSet String) → Prop} {h : Hub C} {n : ℕ}

/- The round in which an act counts a PROPOSE that finds one open, and that PROPOSE. -/
def merges (h : Hub C) : Act C → Option (Round C × Proposal C)
  | .resume n reply =>
    match slotAt h.tasks n with
    | some (.propose _ p .verify) =>
      if reply.verified then (h.pendingRound p.attestationId).map (fun x => (x.2, p)) else none
    | _ => none
  | _ => none

/- No round is opened against a COMMIT of this hub, and a PROPOSE joins a round of its digest. -/
structure Keeps (cfg : Params C) (h : Hub C) (a : Act C) : Prop where
  reopens : ∀ r ∈ opens cfg h a, Reopens h r
  merges : ∀ x ∈ merges h a, x.1.digest = x.2.digest

theorem resume_request_tallied (tallied : Tallied cfg S h) (sound : Sound cfg S T h) {reply : Reply}
    {source dest : String} {index : ℤ} {stage : Requesting}
    (held : slotAt h.tasks n = some (.request source index dest stage))
    (reopens : ∀ r ∈ opens cfg h (.resume n reply), Reopens h r) :
    Tallied cfg S (resumeRequest cfg h n reply source index dest stage) := by
  cases stage with
  | height => exact tallied.next held trivial
  | quorum height =>
    simp only [resumeRequest]
    split
    · exact tallied.finish held
    · exact tallied.next held trivial
    · exact tallied.next held trivial
  | members height quorum =>
    simp only [resumeRequest]
    have again := reopens
      (leaderRound cfg source index dest quorum (height.bind (fun _ => reply.snapshot)))
      (by rw [opens, held]; rfl)
    have requested := (tallied.finish held).note (e := .requested (attestationId source index dest))
      (by simp)
    have proposed := requested.note
      (e := .sent (.propose (leaderProposal cfg source index dest height))) (by simp)
    have grounded := (sound.finish held).note (e := .requested (attestationId source index dest))
      (by simp) (by simp)
    have speaking := grounded.note
      (e := .sent (.propose (leaderProposal cfg source index dest height)))
      (by rintro m ⟨⟩; exact Or.inl List.mem_cons_self) (by simp)
    refine Tallied.check_prepare (proposed.open speaking ?_ ?_)
    · intro d sent
      refine again d ?_
      simpa [Hub.note, Hub.finish] using sent
    · intro k member
      have self : k = cfg.pubkey := by
        rcases OrderedSet.mem_add.mp member with self | none'
        · exact self
        · exact absurd none' OrderedSet.not_mem_empty
      exact Or.inr ⟨leaderProposal cfg source index dest height, rfl, rfl,
        Or.inr ⟨self, List.mem_cons_self⟩⟩
  | sole height =>
    simp only [resumeRequest]
    split
    · exact tallied.finish held
    · exact tallied.next held trivial
  | storing =>
    simp only [resumeRequest]
    cases reply.stored with
    | lost => exact tallied.finish held
    | left => exact (tallied.stored _).finish held
    | done =>
      refine ((tallied.stored _).mark _).finish (u := .request source index dest .storing) ?_
      rw [mark_tasks]
      exact held

theorem resume_propose_tallied (tallied : Tallied cfg S h) (sound : Sound cfg S T h) {reply : Reply}
    {key : Option String} {p : Proposal C} {stage : Proposing}
    (held : slotAt h.tasks n = some (.propose key p stage)) (keeps : Keeps cfg h (.resume n reply))
    (terms : ∀ r ∈ opens cfg h (.resume n reply), T r.attestationId r.quorum r.memberPubkeys) :
    Tallied cfg S (resumePropose cfg h n reply key p stage) := by
  have told := tallied.told n _ held
  have holds := sound.tasks n _ held
  cases stage with
  | verify =>
    simp only [resumePropose]
    split
    · exact tallied.finish held
    · rename_i index named
      split
      · exact tallied.finish held
      · rename_i checks
        have noted := tallied.note (e := .verified p.sourceChain index) (by simp)
        have grounded := sound.note (e := .verified p.sourceChain index) (by simp) (by simp)
        split
        · refine Tallied.prepare_proposal (noted.finish held) (grounded.finish held) told ?_
          intro x found
          refine keeps.merges (x.2, p) ?_
          simp only [Bool.or_eq_true, not_or, Bool.not_eq_true', Bool.not_eq_false] at checks
          rw [merges, held]
          simp only [checks.2, if_true]
          exact Option.mem_map.mpr ⟨x, found, rfl⟩
        · exact noted.next held told
  | bound =>
    simp only [resumePropose]
    split
    · exact tallied.next held told
    · exact tallied.finish held
  | quorum =>
    simp only [resumePropose]
    split
    · exact tallied.finish held
    · exact tallied.finish held
    · exact tallied.next held told
  | members quorum =>
    obtain ⟨formed, grounded, nonzero⟩ := holds
    have opened : followerRound cfg p quorum reply.snapshot ∈ opens cfg h (.resume n reply) := by
      rw [opens, held]
      rfl
    have faithful := follower_faithful (S := S) formed nonzero (terms _ opened) grounded
    refine Tallied.prepare_proposal ((tallied.finish held).open (sound.finish held)
      (keeps.reopens _ opened) ?_) ((sound.finish held).open faithful) told ?_
    · exact fun k member => absurd member (by simp [followerRound])
    · rintro ⟨rid, r⟩ found
      obtain ⟨under, stored⟩ := pending_round_iff.mp found
      rw [Hub.openRound, show (followerRound cfg p quorum reply.snapshot).attestationId =
        p.attestationId from rfl, OrderedMap.get_set_same] at under
      obtain rfl := Option.some.inj under
      obtain rfl : followerRound cfg p quorum reply.snapshot = r :=
        Option.some.inj (open_round_new.symm.trans stored)
      rfl

theorem store_settled_tallied (tallied : Tallied cfg S h) {rid : ℕ}
    (held : slotAt h.tasks n = some (.store rid)) (reply : StoreReply) :
    Tallied cfg S (storeSettled cfg h n rid reply) := by
  have changed : ∀ f : Round C → Round C, (∀ q, Grows q (f q)) → (∀ q, (f q).prepares = q.prepares) →
      Tallied cfg S (h.modify rid f) := by
    intro f grew same
    exact tallied.modify grew (fun q _ k member => Or.inl (same q ▸ member))
  unfold storeSettled
  split
  · exact tallied.finish held
  · rename_i r stored
    cases reply with
    | done =>
      have stopped := changed (fun q => { q with timer := false })
        (fun q => ⟨rfl, rfl, rfl, rfl, rfl, fun _ m => m, fun _ m => m, fun s => s⟩) (fun _ => rfl)
      refine (((stopped.stored _).mark r.attestationId).forget _).finish (u := .store rid) ?_
      rw [Hub.forget, mark_tasks]
      exact held
    | lost =>
      exact (changed (fun q => { q with finalized := false })
        (fun q => ⟨rfl, rfl, rfl, rfl, rfl, fun _ m => m, fun _ m => m, fun s => s⟩)
        (fun _ => rfl)).finish held
    | left =>
      exact ((changed (fun q => { q with finalized := false })
        (fun q => ⟨rfl, rfl, rfl, rfl, rfl, fun _ m => m, fun _ m => m, fun s => s⟩)
        (fun _ => rfl)).stored _).finish held

theorem timeout_tallied (tallied : Tallied cfg S h) (rid : ℕ) : Tallied cfg S (timeout h rid) := by
  have changed : ∀ {k : Hub C} (f : Round C → Round C), Tallied cfg S k → (∀ q, Grows q (f q)) →
      (∀ q, (f q).prepares = q.prepares) → Tallied cfg S (k.modify rid f) := by
    intro k f before grew same
    exact before.modify grew (fun q _ _ member => Or.inl (same q ▸ member))
  have stopped : Tallied cfg S (h.modify rid (fun r => { r with timer := false })) :=
    changed _ tallied (fun q => ⟨rfl, rfl, rfl, rfl, rfl, fun _ m => m, fun _ m => m, fun s => s⟩)
      (fun _ => rfl)
  unfold timeout
  split
  · exact tallied
  · split
    · exact tallied
    · simp only
      split
      · exact stopped
      · split
        · split
          · exact stopped
          · exact (changed (fun q => { q with finalized := true }) stopped
              (fun q => ⟨rfl, rfl, rfl, rfl, rfl, fun _ m => m, fun _ m => m, fun s => s⟩)
              (fun _ => rfl)).evict _ _
        · exact stopped.evict _ _

theorem handle_message_tallied (tallied : Tallied cfg S h) (sound : Sound cfg S T h)
    {key : Option String} {known : Bool} {m : Message C} (said : ∀ k ∈ key, S k m) :
    Tallied cfg S (handleMessage cfg h key known m) := by
  cases m with
  | propose p =>
    simp only [handleMessage, handlePropose]
    split
    · exact tallied
    · exact tallied.await said
  | prepare id digest =>
    simp only [handleMessage, handlePrepare]
    split
    · exact tallied
    · rename_i rid r found
      split
      · exact tallied
      · rename_i checks
        have digests : r.digest = digest := by
          simp only [Bool.or_eq_true, decide_eq_true_eq, not_or, not_not] at checks
          exact checks.2
        obtain ⟨under, stored⟩ := pending_round_iff.mp found
        obtain ⟨r₀, held, own⟩ := sound.pending id rid under
        obtain rfl : r₀ = r := Option.some.inj (held.symm.trans stored)
        refine Tallied.check_prepare (tallied.modify ?_ ?_)
        · exact grows_prepares (fun s => addVote s key) (fun s k member => add_vote_old member)
        · intro q at' k member
          obtain rfl : q = r₀ := Option.some.inj (at'.symm.trans held)
          rcases add_vote_cases member with old | new
          · exact Or.inl old
          · refine Or.inr (Or.inl (Or.inl ?_))
            rw [own, digests]
            exact said k new
  | commit id digest =>
    simp only [handleMessage, handleCommit]
    split
    · exact tallied
    · split
      · exact tallied
      · refine Tallied.check_commit (tallied.modify ?_ ?_)
        · exact fun q => ⟨rfl, rfl, rfl, rfl, rfl, fun _ member => member,
            fun k member => add_vote_old member, fun sent => sent⟩
        · exact fun _ _ _ member => Or.inl member

theorem act_tallied (tallied : Tallied cfg S h) (sound : Sound cfg S T h) {a : Act C}
    (said : ∀ k known m, a = .deliver (some k) known m → S k m) (keeps : Keeps cfg h a)
    (terms : ∀ r ∈ opens cfg h a, T r.attestationId r.quorum r.memberPubkeys) :
    Tallied cfg S (act cfg h a) := by
  cases a with
  | request source index dest =>
    simp only [act, requestAttestation]
    split
    · exact tallied
    · split
      · exact tallied
      · exact tallied.await trivial
  | deliver key known m =>
    refine handle_message_tallied tallied sound ?_
    rintro k named
    exact said k known m (by rw [Option.mem_def.mp named])
  | resume n reply =>
    simp only [act]
    split
    · exact tallied
    · rename_i held
      exact resume_request_tallied tallied sound held keeps.reopens
    · rename_i held
      exact resume_propose_tallied tallied sound held keeps terms
    · rename_i held
      exact store_settled_tallied tallied held reply.stored
  | timeout rid => exact timeout_tallied tallied rid
  | redrive rid =>
    simp only [act, redrive]
    split
    · exact tallied
    · split
      · exact tallied
      · exact tallied.check_commit
  | restart =>
    refine tallied.of_memory rfl rfl (SlotHeap.every_done ?_) ?_
    · intro slot member
      obtain ⟨-, -, rfl⟩ := List.mem_map.mp member
      rfl
    · intro id rid under
      exact absurd under (by simp [act, restart])

theorem started_tallied : Tallied cfg S (Hub.started : Hub C) := by
  refine ⟨?_, SlotHeap.every_nil, ?_, ?_⟩
  · intro rid r found
    simp [Hub.started, Hub.round] at found
  · intro id rid r under
    simp [Hub.started] at under
  · intro id d e sent
    exact absurd sent (by simp [Hub.started])

end Acts
end XChainHub.CrossChain.Attest
