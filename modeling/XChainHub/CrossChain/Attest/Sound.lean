import XChainHub.CrossChain.Attest.Rounds

/-!
What holds at one hub whatever it is sent: its rounds' votes were cast for the round's
digest, what it commits to had the PREPARE quorum, and it says nothing about an id before
its indexer confirmed the source action or a local request asked for it.
-/
namespace XChainHub.CrossChain.Attest
open SlotHeap

variable {C : Type}

def Message.id : Message C → String
  | .propose p => p.attestationId
  | .prepare id _ => id
  | .commit id _ => id

def Quorate (r : Round C) : Prop := r.quorum ≤ (r.counted r.commits).length

def Prepared (r : Round C) : Prop := r.quorum ≤ (r.counted r.prepares).length

/- The round kept its terms and lost no vote. -/
structure Grows (r r' : Round C) : Prop where
  attestationId : r'.attestationId = r.attestationId
  confirmations : r'.confirmations = r.confirmations
  digest : r'.digest = r.digest
  quorum : r'.quorum = r.quorum
  memberPubkeys : r'.memberPubkeys = r.memberPubkeys
  prepares : ∀ k ∈ r.prepares, k ∈ r'.prepares
  commits : ∀ k ∈ r.commits, k ∈ r'.commits
  commitSent : r.commitSent = true → r'.commitSent = true

theorem grows_refl (r : Round C) : Grows r r :=
  ⟨rfl, rfl, rfl, rfl, rfl, fun _ member => member, fun _ member => member, fun sent => sent⟩

theorem mem_counted {r : Round C} {votes : OrderedSet String} {k : String} :
    k ∈ r.counted votes ↔ k ∈ votes ∧ ∀ members ∈ r.memberPubkeys, k ∈ members := by
  unfold Round.counted
  cases r.memberPubkeys with
  | none => simp [OrderedSet.mem_items]
  | some members => simp [OrderedSet.mem_items]

theorem counted_nodup (r : Round C) (votes : OrderedSet String) : (r.counted votes).Nodup := by
  unfold Round.counted
  split
  · exact votes.nodup
  · exact votes.nodup.filter _

theorem counted_grows {r r' : Round C} {votes more : OrderedSet String}
    (members : r'.memberPubkeys = r.memberPubkeys) (grown : ∀ k ∈ votes, k ∈ more) :
    (r.counted votes).length ≤ (r'.counted more).length := by
  refine List.Subperm.length_le ((counted_nodup r votes).subperm ?_)
  intro k member
  rw [mem_counted] at member ⊢
  exact ⟨grown k member.1, members ▸ member.2⟩

theorem Quorate.grows {r r' : Round C} (quorate : Quorate r) (grown : Grows r r') : Quorate r' := by
  rw [Quorate, grown.quorum]
  exact quorate.trans (counted_grows grown.memberPubkeys grown.commits)

theorem Prepared.grows {r r' : Round C} (prepared : Prepared r) (grown : Grows r r') : Prepared r' := by
  rw [Prepared, grown.quorum]
  exact prepared.trans (counted_grows grown.memberPubkeys grown.prepares)

section Log
variable (cfg : Params C)

/- Why a hub may speak of an id: a local request, or its own indexer. -/
def Grounded (log : List (Entry C)) (id : String) : Prop :=
  .requested id ∈ log ∨
    ∃ source index dest, idParts cfg id = some (source, index, dest) ∧ .verified source index ∈ log

def Orderly : List (Entry C) → Prop
  | [] => True
  | e :: log => (∀ m, e = .sent m → Grounded cfg log m.id) ∧ Orderly log

variable {cfg}

theorem Grounded.mono {log more : List (Entry C)} {id : String} (grounded : Grounded cfg log id)
    (grown : log ⊆ more) : Grounded cfg more id := by
  rcases grounded with requested | ⟨source, index, dest, parts, verified⟩
  · exact Or.inl (grown requested)
  · exact Or.inr ⟨source, index, dest, parts, grown verified⟩

/-- In an orderly log every message stands after what grounds it. -/
theorem orderly_before {log later earlier : List (Entry C)} {m : Message C} (orderly : Orderly cfg log)
    (split : log = later ++ .sent m :: earlier) : Grounded cfg earlier m.id := by
  induction later generalizing log with
  | nil =>
    subst split
    exact orderly.1 m rfl
  | cons e later ih =>
    subst split
    exact ih orderly.2 rfl

end Log

section Hub
variable (cfg : Params C) (S : String → Message C → Prop)
  (T : String → ℕ → Option (OrderedSet String) → Prop)

/- The key said m: another party's key, by S, or the hub's own. -/
def Says (log : List (Entry C)) (key : String) (m : Message C) : Prop :=
  S key m ∨ key = cfg.pubkey ∧ .sent m ∈ log

/- T is what every round of an id is asked of its quorum and its members. -/
structure Faithful (log : List (Entry C)) (r : Round C) : Prop where
  digest : r.digest = cfg.digest r.attestationId r.confirmations
  positive : 0 < r.quorum
  terms : T r.attestationId r.quorum r.memberPubkeys
  grounded : Grounded cfg log r.attestationId
  commits : ∀ k ∈ r.commits, Says cfg S log k (.commit r.attestationId r.digest)

/- What a call holds on to while it waits. -/
def Holds (h : Hub C) : Task C → Prop
  | .request _ _ _ (.members _ quorum) => quorum ≠ 0
  | .request _ _ _ _ => True
  | .propose _ p .verify => wellFormed cfg p = true
  | .propose _ p (.members quorum) =>
    wellFormed cfg p = true ∧ Grounded cfg h.log p.attestationId ∧ quorum ≠ 0
  | .propose _ p _ => wellFormed cfg p = true ∧ Grounded cfg h.log p.attestationId
  | .store rid => ∃ r, h.round rid = some r ∧ Quorate r

structure Sound (h : Hub C) : Prop where
  rounds : ∀ rid r, h.round rid = some r → Faithful cfg S T h.log r
  tasks : Every (Holds cfg h) h.tasks
  stored : ∀ rid, .round rid ∈ h.stored → ∃ r, h.round rid = some r ∧ Quorate r
  orderly : Orderly cfg h.log
  committed : ∀ id d, .sent (.commit id d) ∈ h.log → ∃ rid r, h.round rid = some r ∧
    r.attestationId = id ∧ r.digest = d ∧ Prepared r
  pending : ∀ id rid, h.pending.get id = some rid → ∃ r, h.round rid = some r ∧ r.attestationId = id

end Hub

section Rounds
variable {h : Hub C} {rid : ℕ} {f : Round C → Round C} {r : Round C}

theorem pending_round_iff {id : String} :
    h.pendingRound id = some (rid, r) ↔ h.pending.get id = some rid ∧ h.round rid = some r := by
  unfold Hub.pendingRound
  constructor
  · intro found
    obtain ⟨held, under, mapped⟩ := Option.bind_eq_some_iff.mp found
    obtain ⟨q, stored, same⟩ := Option.map_eq_some_iff.mp mapped
    obtain ⟨rfl, rfl⟩ := Prod.mk.inj same
    exact ⟨under, stored⟩
  · rintro ⟨under, stored⟩
    rw [under, Option.bind_some, stored, Option.map_some]

theorem modify_round {m : ℕ} :
    (h.modify rid f).round m = if rid = m then (h.round m).map f else h.round m := by
  rw [Hub.modify, Hub.round, Hub.round, List.getElem?_modify]
  split <;> simp

theorem round_of_modify {m : ℕ} {r' : Round C} (found : (h.modify rid f).round m = some r') :
    ∃ r, h.round m = some r ∧ (r' = r ∧ rid ≠ m ∨ r' = f r ∧ rid = m) := by
  rw [modify_round] at found
  split at found
  · rename_i same
    obtain ⟨r, stored, rfl⟩ := Option.map_eq_some_iff.mp found
    exact ⟨r, stored, Or.inr ⟨rfl, same⟩⟩
  · rename_i other
    exact ⟨r', found, Or.inl ⟨rfl, other⟩⟩

theorem modify_keeps (grows : ∀ r, Grows r (f r)) {m : ℕ} (stored : h.round m = some r) :
    ∃ r', (h.modify rid f).round m = some r' ∧ Grows r r' := by
  rw [modify_round]
  split
  · exact ⟨f r, by rw [stored, Option.map_some], grows r⟩
  · exact ⟨r, stored, grows_refl r⟩

theorem open_round {m : ℕ} {q : Round C} (found : (h.openRound r).round m = some q) :
    h.round m = some q ∨ m = h.rounds.length ∧ q = r := by
  rw [Hub.openRound, Hub.round, List.getElem?_append] at found
  split at found
  · exact Or.inl found
  · rename_i outside
    have last : m - h.rounds.length = 0 := by
      by_contra more
      rw [List.getElem?_eq_none (by simp; omega)] at found
      exact absurd found (by simp)
    rw [last, List.getElem?_cons_zero] at found
    exact Or.inr ⟨by omega, (Option.some.inj found).symm⟩

theorem open_round_old {m : ℕ} {q : Round C} (stored : h.round m = some q) :
    (h.openRound r).round m = some q := by
  rw [Hub.round] at stored
  have inside : m < h.rounds.length := by
    by_contra outside
    rw [List.getElem?_eq_none (by omega)] at stored
    exact absurd stored (by simp)
  rw [Hub.openRound, Hub.round, List.getElem?_append_left inside, stored]

theorem open_round_new : (h.openRound r).round h.rounds.length = some r := by
  simp [Hub.openRound, Hub.round]

end Rounds

section Keeps
variable {cfg : Params C} {S : String → Message C → Prop}
  {T : String → ℕ → Option (OrderedSet String) → Prop} {h h' : Hub C} {rid n : ℕ}
  {f : Round C → Round C} {r : Round C} {t u : Task C}

theorem Says.mono {log more : List (Entry C)} {key : String} {m : Message C}
    (said : Says cfg S log key m) (grown : log ⊆ more) : Says cfg S more key m :=
  Or.imp_right (fun own => ⟨own.1, grown own.2⟩) said

theorem Faithful.mono {log more : List (Entry C)} (faithful : Faithful cfg S T log r)
    (grown : log ⊆ more) : Faithful cfg S T more r :=
  ⟨faithful.digest, faithful.positive, faithful.terms, faithful.grounded.mono grown,
    fun k member => (faithful.commits k member).mono grown⟩

/- What a step leaves of the hub's history and its rounds. -/
structure Extends (h h' : Hub C) : Prop where
  log : h.log ⊆ h'.log
  rounds : ∀ rid r, h.round rid = some r → ∃ r', h'.round rid = some r' ∧ Grows r r'

theorem Holds.mono (holds : Holds cfg h t) (grown : Extends h h') : Holds cfg h' t := by
  cases t with
  | request source index dest stage => cases stage <;> exact holds
  | propose key p stage =>
    cases stage with
    | verify => exact holds
    | bound => exact ⟨holds.1, holds.2.mono grown.log⟩
    | quorum => exact ⟨holds.1, holds.2.mono grown.log⟩
    | members quorum => exact ⟨holds.1, holds.2.1.mono grown.log, holds.2.2⟩
  | store rid =>
    obtain ⟨r, stored, quorate⟩ := holds
    obtain ⟨r', now, grows⟩ := grown.rounds rid r stored
    exact ⟨r', now, quorate.grows grows⟩

theorem Sound.weaken {S' : String → Message C → Prop} (sound : Sound cfg S T h)
    (more : ∀ k m, S k m → S' k m) : Sound cfg S' T h := by
  refine ⟨?_, sound.tasks, sound.stored, sound.orderly, sound.committed, sound.pending⟩
  intro rid r stored
  have faithful := sound.rounds rid r stored
  exact ⟨faithful.digest, faithful.positive, faithful.terms, faithful.grounded,
    fun k member => (faithful.commits k member).imp_left (more k _)⟩

/-- A change of what is neither history nor rounds nor calls. -/
theorem Sound.of_memory (sound : Sound cfg S T h) (rounds : h'.rounds = h.rounds) (log : h'.log = h.log)
    (stored : h'.stored = h.stored) (tasks : Every (Holds cfg h) h'.tasks)
    (pending : ∀ id rid, h'.pending.get id = some rid → h.pending.get id = some rid) :
    Sound cfg S T h' := by
  have same : ∀ rid, h'.round rid = h.round rid := fun rid => by rw [Hub.round, Hub.round, rounds]
  have grown : Extends h h' :=
    ⟨by rw [log]; exact List.Subset.refl _, fun rid r held => ⟨r, (same rid).trans held, grows_refl r⟩⟩
  refine ⟨?_, SlotHeap.every_weaken (fun t holds => Holds.mono holds grown) tasks, ?_, ?_, ?_, ?_⟩
  · intro rid r held
    exact log ▸ sound.rounds rid r (same rid ▸ held)
  · intro rid member
    rw [same]
    exact sound.stored rid (stored ▸ member)
  · exact log ▸ sound.orderly
  · intro id d sent
    obtain ⟨rid, r, held, facts⟩ := sound.committed id d (log ▸ sent)
    exact ⟨rid, r, (same rid).trans held, facts⟩
  · intro id rid under
    rw [same]
    exact sound.pending id rid (pending id rid under)

theorem Sound.await (sound : Sound cfg S T h) (holds : Holds cfg h t) : Sound cfg S T (h.await t) :=
  sound.of_memory rfl rfl rfl (SlotHeap.every_push sound.tasks holds) (fun _ _ under => under)

theorem Sound.next (sound : Sound cfg S T h) (held : slotAt h.tasks n = some u) (holds : Holds cfg h t) :
    Sound cfg S T (h.next n t) := by
  refine sound.of_memory rfl rfl rfl (SlotHeap.every_set sound.tasks held ?_) (fun _ _ under => under)
  rintro _ ⟨⟩
  exact holds

theorem Sound.finish (sound : Sound cfg S T h) (held : slotAt h.tasks n = some u) :
    Sound cfg S T (h.finish n) := by
  refine sound.of_memory rfl rfl rfl (SlotHeap.every_set sound.tasks held ?_) (fun _ _ under => under)
  rintro _ ⟨⟩

theorem Sound.forget (sound : Sound cfg S T h) (id : String) : Sound cfg S T (h.forget id) := by
  refine sound.of_memory rfl rfl rfl sound.tasks ?_
  intro other rid under
  by_cases same : other = id
  · simp [Hub.forget, same] at under
  · rw [Hub.forget, OrderedMap.get_erase_other same] at under
    exact under

theorem Sound.evict (sound : Sound cfg S T h) (id : String) (rid : ℕ) : Sound cfg S T (h.evict id rid) := by
  unfold Hub.evict
  split
  · exact sound.forget id
  · exact sound

theorem Sound.mark (sound : Sound cfg S T h) (id : String) : Sound cfg S T (markFinalized cfg h id) := by
  unfold markFinalized
  split
  · exact sound
  · split
    · exact sound.of_memory rfl rfl rfl sound.tasks (fun _ _ under => under)
    · exact sound.of_memory rfl rfl rfl sound.tasks (fun _ _ under => under)

theorem mark_tasks {id : String} : (markFinalized cfg h id).tasks = h.tasks := by
  unfold markFinalized
  split
  · rfl
  · split <;> rfl

/-- A message other than a COMMIT may follow what grounds it; other entries may come any time. -/
theorem Sound.note (sound : Sound cfg S T h) {e : Entry C}
    (grounded : ∀ m, e = .sent m → Grounded cfg h.log m.id)
    (other : ∀ id d, e ≠ .sent (.commit id d)) : Sound cfg S T (h.note e) := by
  have grown : Extends h (h.note e) :=
    ⟨List.subset_cons_self _ _, fun rid r held => ⟨r, held, grows_refl r⟩⟩
  refine ⟨?_, SlotHeap.every_weaken (fun t holds => Holds.mono holds grown) sound.tasks, sound.stored,
    ⟨grounded, sound.orderly⟩, ?_, sound.pending⟩
  · intro rid r held
    exact (sound.rounds rid r held).mono grown.log
  · intro id d sent
    rcases List.mem_cons.mp sent with new | old
    · exact absurd new.symm (other id d)
    · exact sound.committed id d old

theorem extends_modify (grows : ∀ r, Grows r (f r)) : Extends h (h.modify rid f) :=
  ⟨List.Subset.refl _, fun _ _ stored => modify_keeps grows stored⟩

theorem Sound.modify (sound : Sound cfg S T h) (grows : ∀ r, Grows r (f r))
    (votes : ∀ r, h.round rid = some r → ∀ k ∈ (f r).commits, k ∈ r.commits ∨
      Says cfg S h.log k (.commit r.attestationId r.digest)) : Sound cfg S T (h.modify rid f) := by
  have grown : Extends h (h.modify rid f) := extends_modify grows
  refine ⟨?_, SlotHeap.every_weaken (fun t holds => Holds.mono holds grown) sound.tasks, ?_,
    sound.orderly, ?_, ?_⟩
  · intro m r' found
    obtain ⟨r, stored, ⟨rfl, -⟩ | ⟨rfl, rfl⟩⟩ := round_of_modify found
    · exact sound.rounds m r' stored
    · have faithful := sound.rounds rid r stored
      have kept := grows r
      refine ⟨?_, ?_, ?_, ?_, ?_⟩
      · rw [kept.digest, kept.attestationId, kept.confirmations]
        exact faithful.digest
      · rw [kept.quorum]
        exact faithful.positive
      · rw [kept.attestationId, kept.quorum, kept.memberPubkeys]
        exact faithful.terms
      · rw [kept.attestationId]
        exact faithful.grounded
      · intro k member
        rw [kept.attestationId, kept.digest]
        rcases votes r stored k member with old | new
        · exact faithful.commits k old
        · exact new
  · intro m member
    obtain ⟨r, held, quorate⟩ := sound.stored m member
    obtain ⟨r', now, grew⟩ := grown.rounds m r held
    exact ⟨r', now, quorate.grows grew⟩
  · intro id d sent
    obtain ⟨m, r, held, own, digest, prepared⟩ := sound.committed id d sent
    obtain ⟨r', now, grew⟩ := grown.rounds m r held
    exact ⟨m, r', now, grew.attestationId.trans own, grew.digest.trans digest, prepared.grows grew⟩
  · intro id m under
    obtain ⟨r, held, own⟩ := sound.pending id m under
    obtain ⟨r', now, grew⟩ := grown.rounds m r held
    exact ⟨r', now, grew.attestationId.trans own⟩

/-- The store of a quorate round. -/
theorem Sound.store (sound : Sound cfg S T h) (held : h.round rid = some r) (quorate : Quorate r) :
    Sound cfg S T { h with stored := .round rid :: h.stored } := by
  refine ⟨sound.rounds, sound.tasks, ?_, sound.orderly, sound.committed, sound.pending⟩
  intro m member
  rcases List.mem_cons.mp member with new | old
  · obtain rfl := Stored.round.inj new
    exact ⟨r, held, quorate⟩
  · exact sound.stored m old

theorem Sound.store_sole (sound : Sound cfg S T h) (id : String) (c : C) :
    Sound cfg S T { h with stored := .sole id c :: h.stored } := by
  refine ⟨sound.rounds, sound.tasks, ?_, sound.orderly, sound.committed, sound.pending⟩
  intro m member
  rcases List.mem_cons.mp member with new | old
  · exact absurd new (by simp)
  · exact sound.stored m old

theorem Sound.open (sound : Sound cfg S T h) (faithful : Faithful cfg S T h.log r) :
    Sound cfg S T (h.openRound r) := by
  have grown : Extends h (h.openRound r) :=
    ⟨List.Subset.refl _, fun m q held => ⟨q, open_round_old held, grows_refl q⟩⟩
  refine ⟨?_, SlotHeap.every_weaken (fun t holds => Holds.mono holds grown) sound.tasks, ?_,
    sound.orderly, ?_, ?_⟩
  · intro m q found
    rcases open_round found with old | ⟨-, rfl⟩
    · exact sound.rounds m q old
    · exact faithful
  · intro m member
    obtain ⟨q, held, quorate⟩ := sound.stored m member
    exact ⟨q, open_round_old held, quorate⟩
  · intro id d sent
    obtain ⟨m, q, held, facts⟩ := sound.committed id d sent
    exact ⟨m, q, open_round_old held, facts⟩
  · intro id m under
    by_cases same : id = r.attestationId
    · rw [Hub.openRound, same, OrderedMap.get_set_same] at under
      obtain rfl := Option.some.inj under
      exact ⟨r, open_round_new, same.symm⟩
    · rw [Hub.openRound, OrderedMap.get_set_other same] at under
      obtain ⟨q, held, own⟩ := sound.pending id m under
      exact ⟨q, open_round_old held, own⟩

end Keeps

section Quorums
variable {cfg : Params C} {S : String → Message C → Prop}
  {T : String → ℕ → Option (OrderedSet String) → Prop} {h : Hub C} {id : String}

theorem Sound.check_commit (sound : Sound cfg S T h) : Sound cfg S T (checkCommitQuorum h id) := by
  unfold checkCommitQuorum
  split
  · exact sound
  · rename_i rid r found
    split
    · exact sound
    · rename_i reached
      rw [Bool.or_eq_true, not_or, decide_eq_true_eq, Nat.not_lt] at reached
      have held := (pending_round_iff.mp found).2
      have grows : ∀ q : Round C, Grows q { q with finalized := true, quorate := true } :=
        fun q => ⟨rfl, rfl, rfl, rfl, rfl, fun _ member => member, fun _ member => member, fun sent => sent⟩
      refine (sound.modify grows (fun _ _ _ member => Or.inl member)).await ?_
      obtain ⟨r', now, grew⟩ := modify_keeps grows held
      exact ⟨r', now, Quorate.grows reached.2 grew⟩

/-- The hub's COMMIT, sent once its round has the PREPARE quorum. -/
theorem Sound.commit (sound : Sound cfg S T h) {rid : ℕ} {r : Round C} (found : h.pendingRound id = some (rid, r))
    (prepared : Prepared r) :
    Sound cfg S T ((h.modify rid (Round.sendCommit cfg)).note (.sent (.commit id r.digest))) := by
  obtain ⟨under, held⟩ := pending_round_iff.mp found
  obtain ⟨r₀, held₀, own⟩ := sound.pending id rid under
  obtain rfl : r₀ = r := Option.some.inj (held₀.symm.trans held)
  have grows : ∀ q : Round C, Grows q (q.sendCommit cfg) := fun q =>
    ⟨rfl, rfl, rfl, rfl, rfl, fun _ member => member,
      fun k member => OrderedSet.mem_add.mpr (Or.inr member), fun _ => rfl⟩
  have log : h.log ⊆ .sent (.commit id r₀.digest) :: h.log := List.subset_cons_self _ _
  have grown : Extends h ((h.modify rid (Round.sendCommit cfg)).note (.sent (.commit id r₀.digest))) :=
    ⟨log, fun _ _ stored => modify_keeps grows stored⟩
  refine ⟨?_, SlotHeap.every_weaken (fun t holds => Holds.mono holds grown) sound.tasks, ?_, ?_, ?_, ?_⟩
  · intro m r' now
    obtain ⟨q, stored, ⟨rfl, -⟩ | ⟨rfl, rfl⟩⟩ := round_of_modify now
    · exact (sound.rounds m r' stored).mono log
    · obtain rfl : q = r₀ := Option.some.inj (stored.symm.trans held)
      have faithful := (sound.rounds rid q stored).mono log
      refine ⟨faithful.digest, faithful.positive, faithful.terms, faithful.grounded, ?_⟩
      intro k member
      rcases OrderedSet.mem_add.mp member with self | old
      · refine Or.inr ⟨self, ?_⟩
        show Entry.sent (.commit q.attestationId q.digest) ∈ _
        rw [own]
        exact List.mem_cons_self
      · exact faithful.commits k old
  · intro m member
    obtain ⟨q, stored, quorate⟩ := sound.stored m member
    obtain ⟨q', now, grew⟩ := grown.rounds m q stored
    exact ⟨q', now, quorate.grows grew⟩
  · refine ⟨?_, sound.orderly⟩
    rintro m ⟨⟩
    exact own ▸ (sound.rounds rid r₀ held).grounded
  · intro id' d sent
    rcases List.mem_cons.mp sent with new | old
    · obtain ⟨rfl, rfl⟩ : id' = id ∧ d = r₀.digest := by simpa using new
      obtain ⟨r', now, grew⟩ := grown.rounds rid r₀ held
      exact ⟨rid, r', now, grew.attestationId.trans own, grew.digest, prepared.grows grew⟩
    · obtain ⟨m, q, stored, own', digest, prepared'⟩ := sound.committed id' d old
      obtain ⟨q', now, grew⟩ := grown.rounds m q stored
      exact ⟨m, q', now, grew.attestationId.trans own', grew.digest.trans digest, prepared'.grows grew⟩
  · intro id' m under'
    obtain ⟨q, stored, own'⟩ := sound.pending id' m under'
    obtain ⟨q', now, grew⟩ := grown.rounds m q stored
    exact ⟨q', now, grew.attestationId.trans own'⟩

theorem Sound.check_prepare (sound : Sound cfg S T h) : Sound cfg S T (checkPrepareQuorum cfg h id) := by
  unfold checkPrepareQuorum
  split
  · exact sound
  · rename_i rid r found
    split
    · exact sound
    · rename_i reached
      rw [Bool.or_eq_true, Bool.or_eq_true, not_or, not_or, decide_eq_true_eq, Nat.not_lt] at reached
      exact (sound.commit found reached.1.2).check_commit

end Quorums

section Acts
variable {cfg : Params C} {S : String → Message C → Prop}
  {T : String → ℕ → Option (OrderedSet String) → Prop} {h : Hub C} {n : ℕ}

theorem grows_prepares (votes : OrderedSet String → OrderedSet String)
    (more : ∀ s, ∀ k ∈ s, k ∈ votes s) (r : Round C) :
    Grows r { r with prepares := votes r.prepares } :=
  ⟨rfl, rfl, rfl, rfl, rfl, more r.prepares, fun _ member => member, fun sent => sent⟩

theorem add_vote_old {votes : OrderedSet String} {key : Option String} {k : String} (member : k ∈ votes) :
    k ∈ addVote votes key := by
  cases key with
  | none => exact member
  | some key => exact OrderedSet.mem_add.mpr (Or.inr member)

theorem add_vote_cases {votes : OrderedSet String} {key : Option String} {k : String}
    (member : k ∈ addVote votes key) : k ∈ votes ∨ key = some k := by
  cases key with
  | none => exact Or.inl member
  | some key =>
    rcases OrderedSet.mem_add.mp member with same | old
    · exact Or.inr (congrArg some same.symm)
    · exact Or.inl old

theorem Sound.prepare_proposal (sound : Sound cfg S T h) {key : Option String} {p : Proposal C}
    (grounded : Grounded cfg h.log p.attestationId) : Sound cfg S T (prepareProposal cfg h key p) := by
  unfold prepareProposal
  split
  · exact sound
  · refine Sound.check_prepare (Sound.note (sound.modify ?_ ?_) ?_ ?_)
    · exact grows_prepares (fun s => (addVote s key).add cfg.pubkey)
        (fun s k member => OrderedSet.mem_add.mpr (Or.inr (add_vote_old member)))
    · exact fun _ _ _ member => Or.inl member
    · rintro m ⟨⟩
      exact grounded
    · simp

theorem follower_faithful {p : Proposal C} {quorum : ℕ} {s : Option Snapshot} {log : List (Entry C)}
    (formed : wellFormed cfg p = true) (positive : quorum ≠ 0)
    (terms : T p.attestationId quorum (memberPubkeySet cfg s))
    (grounded : Grounded cfg log p.attestationId) : Faithful cfg S T log (followerRound cfg p quorum s) := by
  refine ⟨?_, Nat.pos_of_ne_zero positive, terms, grounded,
     fun k member => absurd member (by simp [followerRound])⟩
  unfold wellFormed at formed
  split at formed
  · exact absurd formed (by simp)
  · simp only [Bool.and_eq_true, decide_eq_true_eq] at formed
    exact formed.1.1.1.2.symm

theorem verified_grounds {p : Proposal C} {index : ℤ} (formed : wellFormed cfg p = true)
    (named : p.sourceActionIndex = some index) (log : List (Entry C)) :
    Grounded cfg (.verified p.sourceChain index :: log) p.attestationId := by
  unfold wellFormed at formed
  split at formed
  · exact absurd formed (by simp)
  · rename_i source i dest parts
    simp only [Bool.and_eq_true, decide_eq_true_eq] at formed
    refine Or.inr ⟨source, i, dest, parts, ?_⟩
    obtain ⟨⟨⟨-, chain⟩, -⟩, same⟩ := formed
    obtain rfl : i = index := by simpa [named] using same.symm
    rw [chain]
    exact List.mem_cons_self

/- The round an act opens. -/
def opens (cfg : Params C) (h : Hub C) : Act C → Option (Round C)
  | .resume n reply =>
    match slotAt h.tasks n with
    | some (.request source index dest (.members height quorum)) =>
      some (leaderRound cfg source index dest quorum (height.bind (fun _ => reply.snapshot)))
    | some (.propose _ p (.members quorum)) => some (followerRound cfg p quorum reply.snapshot)
    | _ => none
  | _ => none

theorem resume_request_sound (sound : Sound cfg S T h) {reply : Reply} {source dest : String} {index : ℤ}
    {stage : Requesting} (held : slotAt h.tasks n = some (.request source index dest stage))
    (terms : ∀ r ∈ opens cfg h (.resume n reply), T r.attestationId r.quorum r.memberPubkeys) :
    Sound cfg S T (resumeRequest cfg h n reply source index dest stage) := by
  have holds := sound.tasks n _ held
  cases stage with
  | height => exact sound.next held trivial
  | quorum height =>
    simp only [resumeRequest]
    split
    · exact sound.finish held
    · exact sound.next held trivial
    · rename_i quorum nonzero _
      exact sound.next held nonzero
  | members height quorum =>
    simp only [resumeRequest]
    have requested := (sound.finish held).note (e := .requested (attestationId source index dest))
      (by simp) (by simp)
    refine Sound.check_prepare (Sound.note (requested.open ?_) ?_ (by simp))
    · exact ⟨rfl, Nat.pos_of_ne_zero holds, terms _ (by rw [opens, held]; rfl), Or.inl List.mem_cons_self,
        fun k member => absurd member (by simp [leaderRound])⟩
    · rintro m ⟨⟩
      exact Or.inl List.mem_cons_self
  | sole height =>
    simp only [resumeRequest]
    split
    · exact sound.finish held
    · exact sound.next held trivial
  | storing =>
    simp only [resumeRequest]
    cases reply.stored with
    | lost => exact sound.finish held
    | left => exact (sound.store_sole _ _).finish held
    | done =>
      refine ((sound.store_sole _ _).mark _).finish (u := .request source index dest .storing) ?_
      rw [mark_tasks]
      exact held

theorem resume_propose_sound (sound : Sound cfg S T h) {reply : Reply} {key : Option String}
    {p : Proposal C} {stage : Proposing} (held : slotAt h.tasks n = some (.propose key p stage))
    (terms : ∀ r ∈ opens cfg h (.resume n reply), T r.attestationId r.quorum r.memberPubkeys) :
    Sound cfg S T (resumePropose cfg h n reply key p stage) := by
  have holds := sound.tasks n _ held
  cases stage with
  | verify =>
    simp only [resumePropose]
    split
    · exact sound.finish held
    · rename_i index named
      split
      · exact sound.finish held
      · have noted := sound.note (e := .verified p.sourceChain index) (by simp) (by simp)
        have grounded := verified_grounds holds named h.log
        split
        · exact Sound.prepare_proposal (noted.finish held) grounded
        · exact noted.next held ⟨holds, grounded⟩
  | bound =>
    simp only [resumePropose]
    split
    · exact sound.next held holds
    · exact sound.finish held
  | quorum =>
    simp only [resumePropose]
    split
    · exact sound.finish held
    · exact sound.finish held
    · rename_i quorum nonzero _
      exact sound.next held ⟨holds.1, holds.2, nonzero⟩
  | members quorum =>
    obtain ⟨formed, grounded, nonzero⟩ := holds
    have opened := terms (followerRound cfg p quorum reply.snapshot) (by rw [opens, held]; rfl)
    exact Sound.prepare_proposal
      ((sound.finish held).open (follower_faithful formed nonzero opened grounded)) grounded

theorem store_settled_sound (sound : Sound cfg S T h) {rid : ℕ} (held : slotAt h.tasks n = some (.store rid))
    (reply : StoreReply) : Sound cfg S T (storeSettled cfg h n rid reply) := by
  obtain ⟨r, stored, quorate⟩ := sound.tasks n _ held
  have grows : ∀ timer finalized, ∀ q : Round C, Grows q { q with timer := timer, finalized := finalized } :=
    fun _ _ q => ⟨rfl, rfl, rfl, rfl, rfl, fun _ member => member, fun _ member => member, fun sent => sent⟩
  have changed : ∀ f : Round C → Round C, (∀ q, Grows q (f q)) → (∀ q, (f q).commits = q.commits) →
      Sound cfg S T (h.modify rid f) ∧ Sound cfg S T { h.modify rid f with stored := .round rid :: h.stored } := by
    intro f grew same
    have modified : Sound cfg S T (h.modify rid f) :=
      sound.modify grew (fun q _ k member => Or.inl (same q ▸ member))
    obtain ⟨r', now, more⟩ := modify_keeps grew stored
    exact ⟨modified, modified.store now (quorate.grows more)⟩
  unfold storeSettled
  rw [stored]
  cases reply with
  | done =>
    have modified := (changed (fun q => { q with timer := false })
      (fun q => grows false q.finalized q) (fun _ => rfl)).2
    refine ((modified.mark r.attestationId).forget _).finish (u := .store rid) ?_
    rw [Hub.forget, mark_tasks]
    exact held
  | lost =>
    exact (changed (fun q => { q with finalized := false }) (fun q => grows q.timer false q)
      (fun _ => rfl)).1.finish held
  | left =>
    exact (changed (fun q => { q with finalized := false }) (fun q => grows q.timer false q)
      (fun _ => rfl)).2.finish held

theorem timeout_sound (sound : Sound cfg S T h) (rid : ℕ) : Sound cfg S T (timeout h rid) := by
  have changed : ∀ {k : Hub C} (f : Round C → Round C), Sound cfg S T k → (∀ q, Grows q (f q)) →
      (∀ q, (f q).commits = q.commits) → Sound cfg S T (k.modify rid f) := by
    intro k f before grew same
    exact before.modify grew (fun q _ _ member => Or.inl (same q ▸ member))
  have stopped : Sound cfg S T (h.modify rid (fun r => { r with timer := false })) :=
    changed _ sound (fun q => ⟨rfl, rfl, rfl, rfl, rfl, fun _ m => m, fun _ m => m, fun s => s⟩) (fun _ => rfl)
  unfold timeout
  split
  · exact sound
  · split
    · exact sound
    · simp only
      split
      · exact stopped
      · split
        · split
          · exact stopped
          · exact (changed (fun q => { q with finalized := true }) stopped (fun q => ⟨rfl, rfl, rfl, rfl, rfl, fun _ m => m, fun _ m => m,
              fun s => s⟩) (fun _ => rfl)).evict _ _
        · exact stopped.evict _ _

theorem handle_message_sound (sound : Sound cfg S T h) {key : Option String} {known : Bool} {m : Message C}
    (said : ∀ k ∈ key, S k m) : Sound cfg S T (handleMessage cfg h key known m) := by
  cases m with
  | propose p =>
    simp only [handleMessage, handlePropose]
    split
    · exact sound
    · rename_i checks
      refine sound.await ?_
      simp only [Bool.or_eq_true, not_or, Bool.not_eq_true', Bool.not_eq_false] at checks
      exact checks.2
  | prepare id digest =>
    simp only [handleMessage, handlePrepare]
    split
    · exact sound
    · split
      · exact sound
      · refine Sound.check_prepare (sound.modify ?_ ?_)
        · exact grows_prepares (fun s => addVote s key) (fun s k member => add_vote_old member)
        · exact fun _ _ _ member => Or.inl member
  | commit id digest =>
    simp only [handleMessage, handleCommit]
    split
    · exact sound
    · rename_i rid r found
      split
      · exact sound
      · rename_i checks
        have digests : r.digest = digest := by
          simp only [Bool.or_eq_true, decide_eq_true_eq, not_or, not_not] at checks
          exact checks.2
        obtain ⟨under, stored⟩ := pending_round_iff.mp found
        obtain ⟨r₀, held, own⟩ := sound.pending id rid under
        obtain rfl : r₀ = r := Option.some.inj (held.symm.trans stored)
        refine Sound.check_commit (sound.modify ?_ ?_)
        · exact fun q => ⟨rfl, rfl, rfl, rfl, rfl, fun _ member => member,
            fun k member => add_vote_old member, fun sent => sent⟩
        · intro q at' k member
          obtain rfl : q = r₀ := Option.some.inj (at'.symm.trans held)
          rcases add_vote_cases member with old | new
          · exact Or.inl old
          · refine Or.inr (Or.inl ?_)
            rw [own, digests]
            exact said k new

/-- Every act keeps the hub sound, if what it is told was said and the round it opens has the
    terms asked of it. -/
theorem act_sound (sound : Sound cfg S T h) (a : Act C)
    (said : ∀ k known m, a = .deliver (some k) known m → S k m)
    (terms : ∀ r ∈ opens cfg h a, T r.attestationId r.quorum r.memberPubkeys) : Sound cfg S T (act cfg h a) := by
  cases a with
  | request source index dest =>
    simp only [act, requestAttestation]
    split
    · exact sound
    · split
      · exact sound
      · exact sound.await trivial
  | deliver key known m =>
    refine handle_message_sound sound ?_
    rintro k named
    exact said k known m (by rw [Option.mem_def.mp named])
  | resume n reply =>
    simp only [act]
    split
    · exact sound
    · rename_i held
      exact resume_request_sound sound held terms
    · rename_i held
      exact resume_propose_sound sound held terms
    · rename_i held
      exact store_settled_sound sound held reply.stored
  | timeout rid => exact timeout_sound sound rid
  | redrive rid =>
    simp only [act, redrive]
    split
    · exact sound
    · split
      · exact sound
      · exact sound.check_commit
  | restart =>
    refine sound.of_memory rfl rfl rfl (SlotHeap.every_done ?_) ?_
    · intro slot member
      obtain ⟨-, -, rfl⟩ := List.mem_map.mp member
      rfl
    · intro id rid under
      exact absurd under (by simp [act, restart])

theorem started_sound : Sound cfg S T (Hub.started : Hub C) := by
  refine ⟨?_, SlotHeap.every_nil, ?_, trivial, ?_, ?_⟩
  · intro rid r found
    simp [Hub.started, Hub.round] at found
  · intro rid member
    exact absurd member (by simp [Hub.started])
  · intro id d sent
    exact absurd sent (by simp [Hub.started])
  · intro id rid under
    simp [Hub.started] at under

end Acts
end XChainHub.CrossChain.Attest
