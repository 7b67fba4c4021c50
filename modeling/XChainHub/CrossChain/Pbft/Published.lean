import XChainHub.Library.GuardedRuns
import XChainHub.CrossChain.Dex.Canonical
import XChainHub.CrossChain.Pbft.Actions

/-!
What a match:finalized event proves to its reader. Every vote set of a live round
is backed by verifying signatures over the round's canonical; the event is
verifiable as published where the canonical is still the one of its row and view.
-/
namespace XChainHub.CrossChain
open GuardedRuns
open StakeWeightedQuorum (meetsStakeThreshold verdict_extends)

variable {R : Type}

def Binding.memberSigners (b : Binding) (signatures : List (String × String)) :
    OrderedSet String :=
  .ofList ((signatures.map Prod.fst).filter b.isMember)

/- The test a FINAL_SYNC proof has to pass: a lone validator still has to sign. -/
def Binding.proves (cfg : Params R) (b : Binding) (signers : OrderedSet String) : Bool :=
  if b.weighted then meetsQuorum cfg b signers else max b.quorum 1 ≤ signers.size

/- The listed signatures verify over the row and view of the event, and the members
   among the signers meet the quorum of the set the round was bound to. -/
structure Finalized.Verifiable (cfg : Params R) (f : Finalized R) : Prop where
  signatures : ∃ c, cfg.engine.canonicalMatch f.row f.view = some c ∧
    ∀ s ∈ f.signatures, cfg.verify c s.2 s.1 = true
  quorum : f.binding.proves cfg (f.binding.memberSigners f.signatures) = true

/- The canonical is the one of this row and this view, and this hub may be counted. -/
def Aligned (cfg : Params R) (row : R) (canonical : String) (view : ℚ) (b : Binding) : Prop :=
  cfg.engine.canonicalMatch row view = some canonical ∧
    (b.weighted = true ∨ (b.isMember cfg.pubkey = true ∧ 0 < b.quorum))

/- The lone validator of a sole-operator round is this hub, with the stake to decide. -/
def SoleAligned (cfg : Params R) (row : R) (canonical : String) (view : ℚ) (b : Binding) : Prop :=
  cfg.engine.canonicalMatch row view = some canonical ∧ b.isMember cfg.pubkey = true ∧
    b.proves cfg (.ofList [cfg.pubkey]) = true

def alignedPolicy (cfg : Params R) : Policy R where
  soles := True
  names := fun _ _ => True
  fit := Aligned cfg
  admits := fun _ _ _ => True
  binds := fun _ => True
  synced := fun _ _ => True
  soleFit := SoleAligned cfg
  voted := fun _ _ => True

/- The votes of a live round and the signatures behind them. -/
structure Backed (cfg : Params R) (p : Round R) : Prop where
  lowered : ∀ v ∈ p.binding.validators, cfg.toLowerCase v.pubkey = v.pubkey
  signers : ∀ k ∈ p.signatures.keys, cfg.toLowerCase k = k
  signed : ∀ k s, (k, s) ∈ p.signatures.entries → cfg.verify p.canonical s k = true
  prepared : ∀ k ∈ p.prepares, k ∈ p.signatures.keys
  committed : ∀ k ∈ p.commits, k ∈ p.signatures.keys ∨ (k = cfg.pubkey ∧ p.commitSent = true)
  committers : ∀ k ∈ p.commits, p.binding.isMember k = true ∨ k = cfg.pubkey
  sent : p.commitSent = true → meetsQuorum cfg p.binding p.prepares = true

/- A hub that has not signed itself has counted only members' prepares. -/
structure Supported (cfg : Params R) (p : Round R) : Prop extends Backed cfg p where
  preparers : cfg.pubkey ∈ p.signatures.keys ∨ ∀ k ∈ p.prepares, p.binding.isMember k = true

section Quorum
variable {cfg : Params R}

theorem mem_member_signers {b : Binding} {signatures : OrderedMap String String} {k : String} :
    k ∈ b.memberSigners signatures.entries ↔ k ∈ signatures.keys ∧ b.isMember k = true := by
  rw [Binding.memberSigners, OrderedSet.mem_of_list, List.mem_filter]
  rfl

theorem is_member_iff {b : Binding} {k : String} :
    b.isMember k = true ↔ ∃ v ∈ b.validators, v.pubkey = k := by
  simp [Binding.isMember]

/-- A vote set meets no less once members are added, and needs no non-member if it
    is weighed by stake. -/
theorem meets_quorum_extends {b : Binding} {votes more : OrderedSet String}
    (lowered : ∀ v ∈ b.validators, cfg.toLowerCase v.pubkey = v.pubkey)
    (keys : ∀ k ∈ votes, cfg.toLowerCase k = k)
    (sub : ∀ k ∈ votes, b.weighted = false ∨ b.isMember k = true → k ∈ more)
    (met : meetsQuorum cfg b votes = true) : meetsQuorum cfg b more = true := by
  simp only [meetsQuorum] at met ⊢
  split
  · rename_i weighted
    simp only [weighted, if_true] at met
    refine verdict_extends ?_ met
    rintro k member ⟨v, row, same⟩
    rw [lowered v row, keys k member] at same
    exact sub k member (Or.inr (is_member_iff.mpr ⟨v, row, same⟩))
  · rename_i count
    simp only [count, if_false, decide_eq_true_eq, Bool.false_eq_true] at met ⊢
    refine met.trans (OrderedSet.size_le_of_subset (fun k member => ?_))
    exact sub k member (Or.inl (by simpa using count))

theorem proves_of_meets {b : Binding} {signers : OrderedSet String}
    (met : meetsQuorum cfg b signers = true) (plural : b.weighted = true ∨ 0 < b.quorum) :
    b.proves cfg signers = true := by
  simp only [Binding.proves]
  split
  · exact met
  · rename_i count
    simp only [meetsQuorum, count, if_false, decide_eq_true_eq, Bool.false_eq_true] at met
    rcases plural with weighted | positive
    · exact absurd weighted count
    · exact decide_eq_true (by omega)

theorem proves_extends {b : Binding} {signers more : OrderedSet String}
    (enough : b.proves cfg signers = true) (sub : ∀ k ∈ signers, k ∈ more) :
    b.proves cfg more = true := by
  simp only [Binding.proves] at enough ⊢
  split
  · rename_i weighted
    simp only [weighted, if_true, meetsQuorum] at enough ⊢
    exact verdict_extends (fun k member _ => sub k member) enough
  · rename_i count
    simp only [count, Bool.false_eq_true, if_false, decide_eq_true_eq] at enough ⊢
    exact enough.trans (OrderedSet.size_le_of_subset sub)

/-- The members among the signers of a supported round whose commit votes meet its
    quorum meet it themselves. -/
theorem Supported.signers_meet {p : Round R} (supported : Supported cfg p)
    (met : meetsQuorum cfg p.binding p.commits = true)
    (seated : p.binding.weighted = true ∨ p.binding.isMember cfg.pubkey = true) :
    meetsQuorum cfg p.binding (p.binding.memberSigners p.sigs) = true := by
  have kept : ∀ votes : OrderedSet String, (∀ k ∈ votes, k ∈ p.signatures.keys) →
      (∀ k ∈ votes, p.binding.weighted = false → p.binding.isMember k = true) →
      meetsQuorum cfg p.binding votes = true →
      meetsQuorum cfg p.binding (p.binding.memberSigners p.sigs) = true := by
    intro votes signed members enough
    refine meets_quorum_extends supported.lowered
      (fun k member => supported.signers k (signed k member)) (fun k member side => ?_) enough
    refine mem_member_signers.mpr ⟨signed k member, ?_⟩
    rcases side with count | inside
    · exact members k member count
    · exact inside
  have own : ∀ k, k = cfg.pubkey → p.binding.weighted = false →
      p.binding.isMember k = true := by
    rintro k rfl count
    rcases seated with weighted | member
    · exact absurd weighted (by simp [count])
    · exact member
  have committers : ∀ k ∈ p.commits, p.binding.weighted = false →
      p.binding.isMember k = true := by
    intro k member count
    rcases supported.committers k member with inside | self
    · exact inside
    · exact own k self count
  by_cases present : cfg.pubkey ∈ p.signatures.keys
  · refine kept p.commits (fun k member => ?_) committers met
    rcases supported.committed k member with signed | ⟨rfl, -⟩
    · exact signed
    · exact present
  · cases sent : p.commitSent with
    | true =>
      have members := supported.preparers.resolve_left present
      exact kept p.prepares supported.prepared (fun k member _ => members k member)
        (supported.sent sent)
    | false =>
      refine kept p.commits (fun k member => ?_) committers met
      rcases supported.committed k member with signed | ⟨-, later⟩
      · exact signed
      · exact absurd (later.symm.trans sent) (by simp)

end Quorum

section Votes
variable {cfg : Params R}

theorem Supported.same_votes {p q : Round R} (supported : Supported cfg p)
    (same : p.SameVotes q) : Supported cfg q := by
  obtain ⟨-, -, canonical, binding, prepares, commits, signatures, -, commitSent⟩ := same
  refine ⟨⟨?_, ?_, ?_, ?_, ?_, ?_, ?_⟩, ?_⟩
  · rw [binding]; exact supported.lowered
  · rw [signatures]; exact supported.signers
  · rw [signatures, canonical]; exact supported.signed
  · rw [prepares, signatures]; exact supported.prepared
  · rw [commits, signatures, commitSent]; exact supported.committed
  · rw [commits, binding]; exact supported.committers
  · rw [commitSent, binding, prepares]; exact supported.sent
  · rw [prepares, signatures, binding]; exact supported.preparers

/-- A round without votes is supported over any lowered membership. -/
theorem supported_blank {p : Round R} (signatures : p.signatures = .empty)
    (prepares : p.prepares = .empty) (commits : p.commits = .empty)
    (unsent : p.commitSent = false)
    (lowered : ∀ v ∈ p.binding.validators, cfg.toLowerCase v.pubkey = v.pubkey) :
    Supported cfg p := by
  refine ⟨⟨lowered, ?_, ?_, ?_, ?_, ?_, ?_⟩, ?_⟩
  · intro k member
    simp [signatures] at member
  · intro k s member
    simp [signatures, OrderedMap.empty] at member
  · intro k member
    simp [prepares] at member
  · intro k member
    simp [commits] at member
  · intro k member
    simp [commits] at member
  · intro sent
    simp [unsent] at sent
  · exact Or.inr (fun k member => by simp [prepares] at member)

theorem Backed.collect {p : Round R} (backed : Backed cfg p) {key sig : String}
    (lowered : cfg.toLowerCase key = key) (verified : cfg.verify p.canonical sig key = true) :
    Backed cfg (p.collect key sig) := by
  have grown : ∀ k ∈ p.signatures.keys, k ∈ (p.signatures.set key sig).keys :=
    fun k member => OrderedMap.mem_keys_set.mpr (Or.inr member)
  refine ⟨backed.lowered, ?_, ?_, ?_, ?_, backed.committers, backed.sent⟩
  · intro k member
    rcases OrderedMap.mem_keys_set.mp member with rfl | old
    · exact lowered
    · exact backed.signers k old
  · intro k s member
    rcases OrderedMap.mem_set member with ⟨rfl, rfl⟩ | ⟨-, old⟩
    · exact verified
    · exact backed.signed k s old
  · exact fun k member => grown k (backed.prepared k member)
  · exact fun k member => (backed.committed k member).imp_left (grown k)

theorem Backed.countPrepare {p : Round R} (backed : Backed cfg p) {key sig : String}
    (lowered : cfg.toLowerCase key = key) (verified : cfg.verify p.canonical sig key = true) :
    Backed cfg (p.countPrepare key sig) := by
  have collected := backed.collect lowered verified
  refine ⟨collected.lowered, collected.signers, collected.signed, ?_, collected.committed,
    collected.committers, ?_⟩
  · intro k member
    rcases OrderedSet.mem_add.mp member with rfl | old
    · exact OrderedMap.mem_keys_set.mpr (Or.inl rfl)
    · exact collected.prepared k old
  · intro sent
    refine meets_quorum_extends collected.lowered (fun k vote => ?_) (fun k vote _ => ?_)
      (collected.sent sent)
    · exact collected.signers k (collected.prepared k vote)
    · exact OrderedSet.mem_add.mpr (Or.inr vote)

theorem Backed.countCommit {p : Round R} (backed : Backed cfg p) {key sig : String}
    (lowered : cfg.toLowerCase key = key) (verified : cfg.verify p.canonical sig key = true)
    (member : p.binding.isMember key = true) : Backed cfg (p.countCommit key sig) := by
  have collected := backed.collect lowered verified
  refine ⟨collected.lowered, collected.signers, collected.signed, collected.prepared, ?_, ?_,
    collected.sent⟩
  · intro k vote
    rcases OrderedSet.mem_add.mp vote with rfl | old
    · exact Or.inl (OrderedMap.mem_keys_set.mpr (Or.inl rfl))
    · exact collected.committed k old
  · intro k vote
    rcases OrderedSet.mem_add.mp vote with rfl | old
    · exact Or.inl member
    · exact collected.committers k old

theorem Backed.sendCommit {p : Round R} (backed : Backed cfg p)
    (met : meetsQuorum cfg p.binding p.prepares = true) : Backed cfg (p.sendCommit cfg) := by
  refine ⟨backed.lowered, backed.signers, backed.signed, backed.prepared, ?_, ?_, fun _ => met⟩
  · intro k vote
    rcases OrderedSet.mem_add.mp vote with rfl | old
    · exact Or.inr ⟨rfl, rfl⟩
    · exact (backed.committed k old).imp_right (fun own => ⟨own.1, rfl⟩)
  · intro k vote
    rcases OrderedSet.mem_add.mp vote with rfl | old
    · exact Or.inr rfl
    · exact backed.committers k old

/-- Collecting a signature keeps whatever the prepares rested on. -/
theorem Supported.collect {p : Round R} (supported : Supported cfg p) {key sig : String}
    (lowered : cfg.toLowerCase key = key) (verified : cfg.verify p.canonical sig key = true) :
    Supported cfg (p.collect key sig) :=
  ⟨supported.toBacked.collect lowered verified, supported.preparers.imp_left
    (fun own => OrderedMap.mem_keys_set.mpr (Or.inr own))⟩

theorem Supported.countPrepare {p : Round R} (supported : Supported cfg p) {key sig : String}
    (lowered : cfg.toLowerCase key = key) (verified : cfg.verify p.canonical sig key = true)
    (member : p.binding.isMember key = true) : Supported cfg (p.countPrepare key sig) := by
  refine ⟨supported.toBacked.countPrepare lowered verified, ?_⟩
  rcases supported.preparers with own | members
  · exact Or.inl (OrderedMap.mem_keys_set.mpr (Or.inr own))
  · refine Or.inr (fun k vote => ?_)
    rcases OrderedSet.mem_add.mp vote with rfl | old
    · exact member
    · exact members k old

theorem Backed.castOwn {p : Round R} (backed : Backed cfg p) {canonical : String}
    (agrees : p.canonical = canonical) : Supported cfg (p.castOwn cfg canonical) := by
  have verified : cfg.verify p.canonical (cfg.sign canonical) cfg.pubkey = true := by
    rw [agrees]
    exact cfg.sign_verifies canonical
  exact ⟨backed.countPrepare cfg.pubkey_lower verified,
    Or.inl (OrderedMap.mem_keys_set.mpr (Or.inl rfl))⟩

/-- The leader's vote and this hub's own: whoever the leader is, this hub has signed
    once both are counted. -/
theorem Supported.countProposal {p : Round R} (supported : Supported cfg p) {o : Offer R}
    (agrees : p.canonical = o.canonical) (sound : o.Sound cfg) :
    Supported cfg (p.countProposal cfg o) := by
  have raised := raise_view_votes o.view p
  have verified : cfg.verify (p.raiseView o.view).canonical o.sig o.senderPubkey = true := by
    rw [raised.canonical, agrees]
    exact sound.signed
  have led : Backed cfg (p.countLeader o) :=
    (supported.same_votes raised).toBacked.countPrepare sound.sender verified
  simp only [Round.countProposal]
  split
  · rename_i own
    exact ⟨led, Or.inl (OrderedMap.has_iff_mem_keys.mp own)⟩
  · exact led.castOwn ((count_leader_canonical o p).trans agrees)

end Votes

section Proof
variable {cfg : Params R}

theorem collect_verified_fold (cfg : Params R) (canonical : String) (b : Binding)
    (offered : List (String × String)) :
    ∀ s ∈ (offered.foldl (collectVerified cfg canonical b) .empty).entries,
      b.isMember s.1 = true ∧ cfg.verify canonical s.2 s.1 = true := by
  induction offered using List.reverseRecOn with
  | nil => simp [OrderedMap.empty]
  | append_singleton offered last ih =>
    rw [List.foldl_append]
    simp only [List.foldl_cons, List.foldl_nil, collectVerified]
    split
    · rename_i passes
      rw [Bool.and_eq_true] at passes
      rintro ⟨k, sig⟩ member
      rcases OrderedMap.mem_set member with ⟨rfl, rfl⟩ | ⟨-, old⟩
      · exact passes
      · exact ih (k, sig) old
    · exact ih

theorem verified_sync_cases {canonical : String} {offered : List (String × String)} {b : Binding}
    {verified : OrderedMap String String}
    (proof : verifiedSyncSignatures cfg canonical offered b = some verified) :
    offered.foldl (collectVerified cfg canonical b) .empty = verified ∧
      b.proves cfg verified.keys = true := by
  have sizes : verified.keys.size = verified.size := by
    simp [OrderedMap.size, OrderedMap.keys, OrderedSet.size]
  simp only [verifiedSyncSignatures, Option.ite_none_right_eq_some, Option.some.injEq] at proof
  obtain ⟨enough, same⟩ := proof
  rw [same] at enough
  refine ⟨same, ?_⟩
  rw [Binding.proves, sizes]
  simpa using enough

/-- A FINAL_SYNC proof that is adopted proves the membership it was measured against. -/
theorem sync_proof_verifies {canonical : String} {offered : List (String × String)} {b : Binding}
    {verified : OrderedMap String String}
    (proof : verifiedSyncSignatures cfg canonical offered b = some verified) :
    (∀ s ∈ verified.entries, cfg.verify canonical s.2 s.1 = true) ∧
      b.proves cfg (b.memberSigners verified.entries) = true := by
  obtain ⟨same, enough⟩ := verified_sync_cases proof
  have checked := collect_verified_fold cfg canonical b offered
  rw [same] at checked
  have all : ∀ k, k ∈ verified.keys → k ∈ b.memberSigners verified.entries := by
    intro k member
    obtain ⟨sig, entry⟩ := OrderedMap.mem_keys.mp member
    exact mem_member_signers.mpr ⟨member, (checked (k, sig) entry).1⟩
  exact ⟨fun s member => (checked s member).2, proves_extends enough all⟩

end Proof

section Runs
variable {cfg : Params R}

/- The invariant of a hub: live rounds are supported, events are verifiable. -/
structure Sealed (cfg : Params R) (h : Hub R) : Prop where
  rounds : ∀ p ∈ h.rounds, p.finalized = false → Supported cfg p
  events : ∀ f, .finalized f ∈ h.trace → f.Verifiable cfg

theorem Sealed.modify {h after : Hub R} (sealed : Sealed cfg h) {rid : ℕ}
    {f : Round R → Round R} (heap : after.rounds = (h.modify rid f).rounds)
    (said : ∀ e, .finalized e ∈ after.trace → .finalized e ∈ h.trace ∨ e.Verifiable cfg)
    (kept : ∀ p, h.rounds[rid]? = some p → (f p).finalized = false → Supported cfg (f p)) :
    Sealed cfg after := by
  refine ⟨?_, fun e output => (said e output).elim (sealed.events e) id⟩
  intro p member live
  rw [heap] at member
  rcases modify_members member with old | ⟨q, stored, rfl⟩
  · exact sealed.rounds p old live
  · exact kept q stored live

theorem Sealed.modify_round {h : Hub R} (sealed : Sealed cfg h) {rid : ℕ} {p : Round R}
    {f : Round R → Round R} (record : h.rounds[rid]? = some p)
    (kept : (f p).finalized = false → Supported cfg (f p)) : Sealed cfg (h.modify rid f) := by
  refine sealed.modify rfl (fun _ output => Or.inl output) (fun q stored live => ?_)
  rw [record, Option.some.injEq] at stored
  subst stored
  exact kept live

theorem Sealed.emit {h : Hub R} (sealed : Sealed cfg h) {o : Output R}
    (other : ∀ f, o ≠ .finalized f) : Sealed cfg (h.emit o) := by
  refine ⟨sealed.rounds, fun f output => ?_⟩
  rcases List.mem_append.mp output with old | new
  · exact sealed.events f old
  · exact absurd (List.mem_singleton.mp new).symm (other f)

theorem silent_not_finalized {o : Output R} (silent : o.Silent cfg) (f : Finalized R) :
    o ≠ .finalized f := by
  rintro rfl
  exact silent

/-- Finalizing a round whose event is verifiable keeps the invariant. -/
theorem Sealed.finalized_as {h : Hub R} (sealed : Sealed cfg h) (id : String) (rid : ℕ)
    {p : Round R} (verifiable : (p.event id).Verifiable cfg) :
    Sealed cfg (finalizedAs cfg h id rid p) := by
  refine sealed.modify (finalized_as_rounds cfg h id rid p) (fun e output => ?_)
    (fun q _ live => absurd live (by simp [Round.finalize]))
  rw [finalized_as_trace] at output
  rcases List.mem_append.mp output with old | new
  · exact Or.inl old
  · rw [Output.finalized.inj (List.mem_singleton.mp new)]
    exact Or.inr verifiable

theorem event_verifiable {p : Round R} (id : String) (supported : Supported cfg p)
    (aligned : cfg.engine.canonicalMatch p.row p.view = some p.canonical)
    (quorum : p.binding.proves cfg (p.binding.memberSigners p.sigs) = true) :
    (p.event id).Verifiable cfg :=
  ⟨⟨p.canonical, aligned, fun s member => supported.signed s.1 s.2 member⟩, quorum⟩

theorem act_sealed {a b : Hub R} (act : Act cfg (alignedPolicy cfg) a b)
    (sealed : Sealed cfg a) : Sealed cfg b := by
  have held_supported : ∀ {id : String} {rid : ℕ} {p : Round R},
      a.pendingRound id = some (rid, p) → p.finalized = false → Supported cfg p := by
    intro id rid p held live
    exact sealed.rounds p (List.mem_of_getElem? (pending_round_iff.mp held).2) live
  have supported : ∀ {rid : ℕ} {p : Round R}, a.rounds[rid]? = some p → p.finalized = false →
      Supported cfg p := by
    intro rid p record live
    exact sealed.rounds p (List.mem_of_getElem? record) live
  cases act with
  | quiet heap map said tasks =>
    refine ⟨?_, ?_⟩
    · rw [heap]; exact sealed.rounds
    · rw [said]; exact sealed.events
  | park sound => exact ⟨sealed.rounds, sealed.events⟩
  | forget id => exact ⟨sealed.rounds, sealed.events⟩
  | say silent => exact sealed.emit (silent_not_finalized silent)
  | «open» opened bound named permit =>
    refine ⟨fun q member live => ?_, sealed.events⟩
    rcases List.mem_append.mp member with old | new
    · exact sealed.rounds q old live
    · rw [List.mem_singleton.mp new]
      exact supported_blank opened.signatures opened.prepares opened.commits opened.commitSent
        bound.lowered
  | mark rid same =>
    refine sealed.modify rfl (fun _ output => Or.inl output) (fun q stored live => ?_)
    rw [(same q).finalized] at live
    exact (supported stored live).same_votes (same q)
  | restamp rid t =>
    refine sealed.modify rfl (fun _ output => Or.inl output) (fun q stored live => ?_)
    have before := supported stored live
    exact ⟨⟨before.lowered, before.signers, before.signed, before.prepared, before.committed,
      before.committers, before.sent⟩, before.preparers⟩
  | rebuild record built permit =>
    refine sealed.modify_round record (fun live => ?_)
    exact supported_blank rfl rfl rfl rfl (supported record live).lowered
  | adopt held live sound bound permit =>
    rename_i o rebound p
    refine sealed.modify_round (pending_round_iff.mp held).2 (fun _ => ?_)
    refine supported_blank rfl rfl rfl rfl ?_
    cases rebound with
    | none => exact (held_supported held live).lowered
    | some b => exact (bound b rfl).lowered
  | countProposal record agrees sound =>
    refine sealed.modify_round record (fun live => ?_)
    rw [count_proposal_finalized] at live
    exact (supported record live).countProposal agrees sound
  | castOwn record =>
    exact sealed.modify_round record (fun live => (supported record live).toBacked.castOwn rfl)
  | collect record lowered signed =>
    exact sealed.modify_round record
      (fun live => (supported record live).collect lowered (signed live))
  | countPrepare record lowered signed member =>
    exact sealed.modify_round record
      (fun live => (supported record live).countPrepare lowered signed member)
  | countCommit record lowered signed member vote =>
    refine sealed.modify_round record (fun live => ?_)
    have before := supported record live
    exact ⟨before.toBacked.countCommit lowered signed member, before.preparers.imp_left
      (fun own => OrderedMap.mem_keys_set.mpr (Or.inr own))⟩
  | sendCommit held live fresh met =>
    have record := (pending_round_iff.mp held).2
    have before := held_supported held live
    have moved : Sealed cfg (a.modify _ (Round.sendCommit cfg)) :=
      sealed.modify_round record (fun _ => ⟨before.toBacked.sendCommit met, before.preparers⟩)
    refine (moved.emit ?_).emit ?_
    · exact fun _ => by simp
    · exact fun _ => by simp
  | finalize held live met fits =>
    have before := held_supported held live
    obtain ⟨aligned, seated⟩ := fits
    have meets := before.signers_meet met (seated.imp_right And.left)
    exact sealed.finalized_as _ _ (event_verifiable _ before aligned
      (proves_of_meets meets (seated.imp_right And.right)))
  | finalizeSole held live own fits =>
    have before := held_supported held live
    obtain ⟨aligned, member, enough⟩ := fits
    refine sealed.finalized_as _ _ (event_verifiable _ before aligned ?_)
    refine proves_extends enough (fun k vote => ?_)
    rw [OrderedSet.mem_of_list, List.mem_singleton] at vote
    rw [vote]
    exact mem_member_signers.mpr ⟨own, member⟩
  | @catchUp s p c verified held live sound bound proof synced =>
    obtain ⟨verifies, enough⟩ := sync_proof_verifies proof
    have verifiable : ((p.catchUp s c verified).event s.matchId).Verifiable cfg :=
      ⟨⟨s.canonical, sound.canonical, verifies⟩, enough⟩
    have heap : (finalizedAs cfg (a.modify s.rid (Round.catchUp s c verified)) s.matchId s.rid
        (p.catchUp s c verified)).rounds =
          (a.modify s.rid (Round.finalize ∘ Round.catchUp s c verified)).rounds := by
      rw [finalized_as_rounds, modify_twice]
    refine sealed.modify heap (fun e output => ?_)
      (fun q _ live => absurd live (by simp [Round.finalize]))
    rw [finalized_as_trace] at output
    rcases List.mem_append.mp output with old | new
    · exact Or.inl old
    · rw [Output.finalized.inj (List.mem_singleton.mp new)]
      exact Or.inr verifiable

/- Votes that complete a commit quorum find the round aligned. -/
def VotesAligned (cfg : Params R) (h : Hub R) (e : Event R) : Prop :=
  ∀ p ∈ finalizing cfg h e, Aligned cfg p.row p.canonical p.view p.binding

/- A sole-operator settle finds its own round, aligned and unmoved. -/
def SoleUnmoved (cfg : Params R) (h : Hub R) (e : Event R) : Prop :=
  ∀ s ∈ settlesSole h e,
    (∀ p ∈ h.rounds[s.2.1]?, p.finalized = false → p.canonical = s.2.2) ∧
    ∀ q ∈ h.pendingRound s.1, q.2.finalized = false →
      q.1 = s.2.1 ∧ SoleAligned cfg q.2.row q.2.canonical q.2.view q.2.binding

/- The condition on one step, on the state it starts from. -/
def FinalizesAligned (cfg : Params R) (h : Hub R) (m : Env × Event R) : Prop :=
  ∀ e ∈ due h m.2, VotesAligned cfg h.shift e ∧ SoleUnmoved cfg h.shift e

instance (row : R) (canonical : String) (view : ℚ) (b : Binding) :
    Decidable (Aligned cfg row canonical view b) := inferInstanceAs (Decidable (_ ∧ _))

instance (row : R) (canonical : String) (view : ℚ) (b : Binding) :
    Decidable (SoleAligned cfg row canonical view b) := inferInstanceAs (Decidable (_ ∧ _ ∧ _))

instance (h : Hub R) (m : Env × Event R) : Decidable (FinalizesAligned cfg h m) := by
  unfold FinalizesAligned VotesAligned SoleUnmoved
  infer_instance

theorem aligned_obeys {h : Hub R} {m : Env × Event R} (guard : FinalizesAligned cfg h m) :
    ∀ e, due h m.2 = some e → Obeys cfg (alignedPolicy cfg) m.1 h.shift e := by
  intro e found
  obtain ⟨votes, sole⟩ := guard e found
  refine ⟨fun _ _ _ _ _ => trivial, fun _ _ _ _ => trivial, votes, fun _ _ _ => trivial,
    fun _ _ => trivial, fun _ _ => trivial, ?_, fun _ _ _ _ _ _ _ _ _ _ => trivial⟩
  intro _ id rid canonical settles
  obtain ⟨unmoved, own⟩ := sole (id, rid, canonical) settles
  exact ⟨unmoved, fun held p pending => own (held, p) pending⟩

/-- Over whole runs: while no votes complete the commit quorum of a round whose row or
    view has left its canonical behind, and a sole operator settles its own unmoved
    round, every finalized event is verifiable as published. -/
theorem finalized_events_verifiable {ms : List (Env × Event R)}
    (admitted : Admitted (step cfg) (FinalizesAligned cfg) Hub.started ms) (f : Finalized R)
    (emitted : .finalized f ∈ (run (step cfg) Hub.started ms).trace) : f.Verifiable cfg := by
  have kept : Ready cfg True (run (step cfg) Hub.started ms) ∧
      Sealed cfg (run (step cfg) Hub.started ms) := by
    refine run_invariant (fun h => Ready cfg True h ∧ Sealed cfg h) ?_ ?_ admitted
    · intro h m inv guard
      exact step_keeps (Sealed cfg) (fun _ _ _ act => act_sealed act) (aligned_obeys guard) inv
    · refine ⟨started_ready, ?_, ?_⟩
      · intro p member
        exact absurd member (by simp [Hub.started])
      · intro f output
        exact absurd output (by simp [Hub.started])
  exact kept.2.events f emitted

end Runs

section Fixtures
open EquivocationHeader Dex
open StakeWeightedQuorum (asciiLower)

def naturalText (q : ℚ) : String := String.ofList (Nat.toDigits 10 q.num.toNat)

theorem natural_text_plain (q : ℚ) : Plain (naturalText q) := by
  intro member
  rw [naturalText, String.toList_ofList] at member
  have digit := Nat.isDigit_of_mem_toDigits (by decide) (by decide) member
  exact absurd digit (by decide)

/- Header active on testnet, every other gate off. -/
def headerGates : Gates where
  royaltyActive := fun _ _ => false
  admissionEra := fun _ _ => false
  equivActivation := fun network => if network = "testnet" then some 0 else none
  parseBlock := fun s => if s = "100" then some 100 else none
  stakeWeightedActive := fun _ _ => false
  numberText := naturalText
  plainNumber := natural_text_plain

/- A signature that names its key and quotes its payload. -/
def sealOf (key payload : String) : String := key ++ ":" ++ payload

def dexParams (key : String) (lower : asciiLower key = key) : Params MatchRow where
  engine := dexEngine headerGates
  toLowerCase := asciiLower
  lower_idem := StakeWeightedQuorum.ascii_lower_idem
  pubkey := key
  pubkey_lower := lower
  sign := sealOf key
  verify := fun payload sig k => sig = sealOf k payload
  sign_verifies := fun _ => decide_eq_true rfl
  finalizedMax := 10000
  earlyMessageMaxDistinctIds := 512
  earlyMessageMaxBytes := 131072
  wireSize := fun _ => 1
  roundMaxLifetimeMs := 120000

def legOf (chain payout : String) : Leg :=
  ⟨chain, "1", some "XCHAIN", "5", "0", payout, some "order", some "0", none⟩

def rowAt (effectiveTime : String) : MatchRow where
  matchId := "0000000a"
  plainId := by decide
  snapshotBlock := "100"
  network := some "testnet"
  a := legOf "BTC" "pa"
  b := legOf "LTC" "pb"
  effectiveTime := effectiveTime
  admitColumns := ⟨none, none, none⟩
  admitBlocks := none

def bytesOf (effectiveTime : String) (view : ℚ) : String :=
  (canonicalMatch headerGates (rowAt effectiveTime) view).getD ""

def fourKeys : StakeWeightedQuorum.Snapshot :=
  ⟨[⟨"k0", some "s0", some "1"⟩, ⟨"k1", some "s1", some "1"⟩, ⟨"k2", some "s2", some "1"⟩,
    ⟨"k3", some "s3", some "1"⟩], false⟩

def quietEnv : Env := ⟨0, 0, .threw⟩

def proposeFrom (key effectiveTime : String) (view : ℚ) : Message MatchRow :=
  .propose "0000000a" (some view) (some (rowAt effectiveTime)) key
    (some (sealOf key (bytesOf effectiveTime view)))

def prepareFrom (key effectiveTime : String) (view : ℚ) : Message MatchRow :=
  .prepare "0000000a" (some view) key (some (sealOf key (bytesOf effectiveTime view)))

def commitFrom (key effectiveTime : String) (view : ℚ) : Message MatchRow :=
  .commit "0000000a" (some view) key (some (sealOf key (bytesOf effectiveTime view)))
    (some (sealOf key ("XDEX_MATCH_COMMIT|PHASEV1|" ++ bytesOf effectiveTime view)))

def hubK1 : Params MatchRow := dexParams "k1" (by decide)

/- k1 opens the round of leader k2, prepares with k2 and k3 and sends its COMMIT. -/
def committedRun : List (Env × Event MatchRow) :=
  [(quietEnv, .propose "0000000a" (rowAt "1000") fourKeys),
   (quietEnv, .deliver (proposeFrom "k2" "1000" 0)), (quietEnv, .validated 0 true),
   (quietEnv, .deliver (prepareFrom "k3" "1000" 0))]

def commitVotes : List (Env × Event MatchRow) :=
  [(quietEnv, .deliver (commitFrom "k2" "1000" 0)), (quietEnv, .deliver (commitFrom "k3" "1000" 0))]

def publishedAt (view : ℚ) : Finalized MatchRow :=
  ⟨"0000000a", rowAt "1000", ["k2", "k1", "k3"].map (fun k => (k, sealOf k (bytesOf "1000" 0))),
    view, bindingOf hubK1 fourKeys.rows false⟩

/-- The commit votes reach the round at view 0. -/
theorem same_view_verifiable :
    .finalized (publishedAt 0) ∈ (run (step hubK1) .started (committedRun ++ commitVotes)).trace ∧
      (publishedAt 0).Verifiable hubK1 := by
  have emitted : .finalized (publishedAt 0) ∈
      (run (step hubK1) .started (committedRun ++ commitVotes)).trace := by decide +kernel
  have admitted : Admitted (step hubK1) (FinalizesAligned hubK1) .started
      (committedRun ++ commitVotes) := by decide +kernel
  exact ⟨emitted, finalized_events_verifiable admitted (publishedAt 0) emitted⟩

/-- The round timer moves the round to view 1 before the same commit votes arrive: the
    event names view 1, its signatures cover view 0. -/
theorem rotated_view_unverifiable :
    .finalized (publishedAt 1) ∈ (run (step hubK1) .started
      (committedRun ++ (quietEnv, .roundTimeout "0000000a") :: commitVotes)).trace ∧
      ¬ (publishedAt 1).Verifiable hubK1 := by
  refine ⟨by decide +kernel, ?_⟩
  rintro ⟨⟨c, built, verified⟩, -⟩
  have canonical : hubK1.engine.canonicalMatch (publishedAt 1).row 1 = some (bytesOf "1000" 1) := by
    decide
  have same : c = bytesOf "1000" 1 := Option.some.inj (built.symm.trans canonical)
  have refused : hubK1.verify (bytesOf "1000" 1) (sealOf "k2" (bytesOf "1000" 0)) "k2" = false := by
    decide
  have accepted := verified ("k2", sealOf "k2" (bytesOf "1000" 0)) List.mem_cons_self
  rw [same, refused] at accepted
  exact absurd accepted (by simp)

end Fixtures

end XChainHub.CrossChain
