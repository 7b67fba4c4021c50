import XChainHub.CrossChain.Pbft.Standing

/-!
A federation of honest hubs and any number of faulty signers, and what stands behind
the votes its hubs count: each COMMIT vote of an unfinished round is a member's, whose
hub, where it is an honest one, signed a COMMIT for that round's content.
-/
namespace XChainHub.CrossChain
open GuardedRuns EquivocationHeader
open BftQuorum (faultBound bftQuorumOrSingle)

variable {R ι : Type}

abbrev World (R ι : Type) := ι → Hub R
abbrev Move (R ι : Type) := ι × (Env × Event R)

/- Honest hubs over one snapshot, which every one of them binds its rounds to. -/
structure Federation (R ι : Type) where
  engine : Engine R
  toLowerCase : String → String
  cfg : ι → Params R
  faulty : Finset String
  binding : Binding

def Output.signedBytes (engine : Engine R) : Output R → Option String
  | .signed _ payload => some (payload.bytes engine)
  | _ => none

def Signed (engine : Engine R) (h : Hub R) (bytes : String) : Prop :=
  ∃ o ∈ h.trace, o.signedBytes engine = some bytes

/- This hub signed a COMMIT for the content in the round id. -/
def CommittedTo (h : Hub R) (id : String) (content : Option String) : Prop :=
  ∃ c ∈ commitsSigned h id, content = some (contentOf c)

instance (engine : Engine R) (h : Hub R) (bytes : String) : Decidable (Signed engine h bytes) :=
  inferInstanceAs (Decidable (∃ o ∈ h.trace, _))

instance (h : Hub R) (id : String) (content : Option String) :
    Decidable (CommittedTo h id content) := inferInstanceAs (Decidable (∃ c ∈ _, _))

theorem CommittedTo.mono {a b : Hub R} (grown : a.trace <+: b.trace) {id : String}
    {content : Option String} (committed : CommittedTo a id content) :
    CommittedTo b id content := by
  obtain ⟨c, signed, same⟩ := committed
  exact ⟨c, commits_signed_mono grown id signed, same⟩

namespace Federation
variable (f : Federation R ι)

def members : List String := f.binding.validators.map (fun v => v.pubkey)

structure Honest : Prop where
  engine : ∀ i, (f.cfg i).engine = f.engine
  lower : ∀ i, (f.cfg i).toLowerCase = f.toLowerCase
  member : ∀ i, (f.cfg i).pubkey ∈ f.members
  distinct : ∀ i j, (f.cfg i).pubkey = (f.cfg j).pubkey → i = j
  others : ∀ k ∈ f.members, k ∉ f.faulty → ∃ i, (f.cfg i).pubkey = k
  plural : 0 < f.binding.quorum

/- Any two vote sets of members that meet the round's quorum share an honest member. -/
def HonestOverlap : Prop :=
  ∀ i j (votes more : OrderedSet String), (∀ k ∈ votes, k ∈ f.members) →
    (∀ k ∈ more, k ∈ f.members) → meetsQuorum (f.cfg i) f.binding votes = true →
    meetsQuorum (f.cfg j) f.binding more = true → ∃ k ∈ votes, k ∈ more ∧ k ∉ f.faulty

section Conditions
variable (id : String) (w : World R ι) (i : ι) (env : Env) (h : Hub R) (e : Event R)

/- Unforgeability, asked where a hub checks a commit_sig: what verifies under an honest
   hub's key that hub has signed. -/
def Authentic : Prop :=
  match e with
  | .deliver (.commit matchId _ key _ (some s)) =>
    ∀ q ∈ h.pendingRound (f.toLowerCase matchId),
      (f.cfg i).verify (commitPayload f.engine q.2.canonical) s (f.toLowerCase key) = true →
      ∀ j, (f.cfg j).pubkey = f.toLowerCase key →
        Signed f.engine (w j) (commitPayload f.engine q.2.canonical)
  | _ => True

/- The engine opens a round with a row of its own id. -/
def OwnRow : Prop :=
  match e with
  | .propose matchId row _ => f.toLowerCase (f.engine.matchId row) = f.toLowerCase matchId
  | _ => True

def OneSnapshot : Prop := ∀ b ∈ binds (f.cfg i) h e, b = f.binding

/- What the setting gives: signatures are not forged, rounds open on their own row,
   every membership is the one snapshot's. -/
structure Given : Prop where
  authentic : f.Authentic w i h e
  ownRow : f.OwnRow e
  oneSnapshot : f.OneSnapshot i h e

/- The members whose hub, where it is an honest one, committed to the content. -/
def backers [Fintype ι] (content : Option String) : OrderedSet String :=
  .ofList (f.members.filter
    (fun k => ∀ j, (f.cfg j).pubkey = k → CommittedTo (w j) id content))

/- A FINAL_SYNC row is adopted once a commit quorum stands behind its content. -/
def SyncsCommitted [Fintype ι] : Prop :=
  ∀ s ∈ syncs (f.cfg i) h e, s.matchId = id →
    meetsQuorum (f.cfg i) f.binding (f.backers id w (f.engine.content s.row)) = true

end Conditions

def Setting (w : World R ι) (m : Move R ι) : Prop :=
  ∀ e ∈ due (w m.1) m.2.2, f.Given w m.1 (w m.1).shift e

variable {f}

/- The canonical is a row's of this round id, at some view. -/
def Rooted (f : Federation R ι) (id c : String) : Prop :=
  ∃ r v, f.engine.canonicalMatch r v = some c ∧ f.toLowerCase (f.engine.matchId r) = id

/- A COMMIT vote for the content: a member's, whose hub signed it, or this hub's own. -/
def Voted (f : Federation R ι) (w : World R ι) (i : ι) (h : Hub R) (k id : String)
    (content : Option String) : Prop :=
  (k ∈ f.members ∧ ∀ j, (f.cfg j).pubkey = k → CommittedTo (w j) id content) ∨
  ((f.cfg i).pubkey = k ∧ CommittedTo h id content)

def Certified (f : Federation R ι) (w : World R ι) (i : ι) (h : Hub R) (id : String)
    (content : Option String) : Prop :=
  ∃ votes : OrderedSet String, meetsQuorum (f.cfg i) f.binding votes = true ∧
    ∀ k ∈ votes, f.Voted w i h k id content

structure RoundKept (f : Federation R ι) (w : World R ι) (i : ι) (h : Hub R) (p : Round R) :
    Prop where
  bound : p.binding = f.binding
  named : f.toLowerCase (f.engine.matchId p.row) = p.matchId
  rooted : f.Rooted p.matchId p.canonical
  votes : p.finalized = false → ∀ k ∈ p.commits,
    f.Voted w i h k p.matchId (some (contentOf p.canonical))

/- What the COMMIT signatures in a trace stand for: each is made over the canonical of
   its round, and nothing else has its bytes. -/
structure TraceKept (f : Federation R ι) (h : Hub R) : Prop where
  rooted : ∀ id c, c ∈ commitsSigned h id → f.Rooted id c
  commits : ∀ o ∈ h.trace, ∀ c, o.signedBytes f.engine = some (commitPayload f.engine c) →
    ∃ id, o = .signed id (.commit c)

/- The rounds of a hub with what stands behind their votes. -/
structure Backing (f : Federation R ι) (w : World R ι) (i : ι) (h : Hub R) : Prop
    extends f.TraceKept h where
  rounds : ∀ p ∈ h.rounds, f.RoundKept w i h p

/- A policy that gives what the setting gives. -/
structure Regular (f : Federation R ι) (w : World R ι) (pol : Policy R) : Prop where
  names : ∀ matchId row, pol.names matchId row → f.toLowerCase (f.engine.matchId row) = matchId
  binds : ∀ b, pol.binds b → b = f.binding
  voted : ∀ key c, pol.voted key c →
    ∀ j, (f.cfg j).pubkey = key → Signed f.engine (w j) (commitPayload f.engine c)

section Mono
variable {w v : World R ι} {i : ι} {a b : Hub R}

theorem Voted.mono (grown : a.trace <+: b.trace) (all : ∀ j, (w j).trace <+: (v j).trace)
    {k id : String} {content : Option String} (vote : f.Voted w i a k id content) :
    f.Voted v i b k id content := by
  rcases vote with ⟨member, signed⟩ | ⟨own, committed⟩
  · exact Or.inl ⟨member, fun j key => (signed j key).mono (all j)⟩
  · exact Or.inr ⟨own, committed.mono grown⟩

theorem Certified.mono (grown : a.trace <+: b.trace) (all : ∀ j, (w j).trace <+: (v j).trace)
    {id : String} {content : Option String} (certified : f.Certified w i a id content) :
    f.Certified v i b id content := by
  obtain ⟨votes, met, backing⟩ := certified
  exact ⟨votes, met, fun k member => (backing k member).mono grown all⟩

theorem RoundKept.mono (grown : a.trace <+: b.trace) (all : ∀ j, (w j).trace <+: (v j).trace)
    {p : Round R} (kept : f.RoundKept w i a p) : f.RoundKept v i b p :=
  ⟨kept.bound, kept.named, kept.rooted,
    fun live k member => (kept.votes live k member).mono grown all⟩

theorem Backing.mono (all : ∀ j, (w j).trace <+: (v j).trace) (backing : f.Backing w i a) :
    f.Backing v i a :=
  ⟨backing.toTraceKept, fun p member => (backing.rounds p member).mono (List.prefix_refl _) all⟩

end Mono

section Acts
variable {w : World R ι} {i : ι} {a b : Hub R}

theorem still (w : World R ι) : ∀ j, (w j).trace <+: (w j).trace := fun _ => List.prefix_refl _

/-- Backing is about the rounds and the trace. -/
theorem Backing.same (backing : f.Backing w i a) (heap : b.rounds = a.rounds)
    (said : b.trace = a.trace) : f.Backing w i b := by
  have grown : a.trace <+: b.trace := by rw [said]
  have commits : commitsSigned b = commitsSigned a := by
    funext other
    rw [commitsSigned, said, commitsSigned]
  refine ⟨⟨?_, ?_⟩, ?_⟩
  · rw [commits]
    exact backing.rooted
  · rw [said]
    exact backing.commits
  · rw [heap]
    exact fun p member => (backing.rounds p member).mono grown (still w)

theorem Backing.modify (backing : f.Backing w i a) {rid : ℕ} {g : Round R → Round R}
    (kept : ∀ p, a.rounds[rid]? = some p → f.RoundKept w i a (g p)) :
    f.Backing w i (a.modify rid g) := by
  have same : a.trace <+: (a.modify rid g).trace := List.prefix_refl _
  refine ⟨⟨backing.rooted, backing.commits⟩, ?_⟩
  intro p member
  rcases modify_members member with old | ⟨q, stored, rfl⟩
  · exact (backing.rounds p old).mono same (still w)
  · exact (kept q stored).mono same (still w)

/- A change that leaves row id, canonical, membership and progress of a round alone. -/
structure SameVote (engine : Engine R) (p q : Round R) : Prop where
  binding : q.binding = p.binding
  matchId : q.matchId = p.matchId
  rowId : engine.matchId q.row = engine.matchId p.row
  canonical : q.canonical = p.canonical
  finalized : q.finalized = p.finalized

theorem Backing.modify_votes (backing : f.Backing w i a) {rid : ℕ} {g : Round R → Round R}
    (same : ∀ p, a.rounds[rid]? = some p → SameVote f.engine p (g p))
    (votes : ∀ p, a.rounds[rid]? = some p → p.finalized = false → ∀ k ∈ (g p).commits,
      k ∈ p.commits ∨ f.Voted w i a k p.matchId (some (contentOf p.canonical))) :
    f.Backing w i (a.modify rid g) := by
  refine backing.modify (fun p stored => ?_)
  have kept := backing.rounds p (List.mem_of_getElem? stored)
  obtain ⟨binding, matchId, rowId, canonical, finalized⟩ := same p stored
  refine ⟨by rw [binding, kept.bound], by rw [rowId, matchId, kept.named],
    by rw [matchId, canonical]; exact kept.rooted, fun live k member => ?_⟩
  rw [matchId, canonical]
  rw [finalized] at live
  rcases votes p stored live k member with old | new
  · exact kept.votes live k old
  · exact new

theorem Backing.emit (backing : f.Backing w i a) {o : Output R}
    (engine : (f.cfg i).engine = f.engine) (silent : o.Silent (f.cfg i)) :
    f.Backing w i (a.emit o) := by
  have signed : commitsSigned (a.emit o) = commitsSigned a := commits_signed_silent silent
  have grown : a.trace <+: (a.emit o).trace := List.prefix_append _ _
  refine ⟨⟨?_, ?_⟩, fun p member => (backing.rounds p member).mono grown (still w)⟩
  · rw [signed]
    exact backing.rooted
  · intro out member c bytes
    rcases List.mem_append.mp member with old | new
    · exact backing.commits out old c bytes
    · rw [List.mem_singleton.mp new] at bytes
      cases o with
      | signed matchId payload =>
        cases payload with
        | artifact canonical =>
          obtain ⟨r, v, built⟩ := silent
          rw [engine] at built
          simp only [Output.signedBytes, Payload.bytes, Option.some.injEq] at bytes
          rw [bytes] at built
          exact absurd built (f.engine.commit_apart r v c)
        | commit canonical => exact silent.elim
        | control tag round view =>
          simp only [Output.signedBytes, Payload.bytes, Option.some.injEq] at bytes
          simp only [Output.Silent, engine] at silent
          exact absurd bytes (f.engine.control_apart tag silent round view c)
      | broadcast m => simp [Output.signedBytes] at bytes
      | finalized e => exact silent.elim
      | abandoned matchId => simp [Output.signedBytes] at bytes

/-- A COMMIT for the canonical of the round it is signed in. -/
theorem Backing.sign_commit (backing : f.Backing w i a) {matchId : String} {rid : ℕ}
    {p : Round R} (held : a.pendingRound matchId = some (rid, p)) (named : p.matchId = matchId) :
    f.Backing w i (a.sign matchId (.commit p.canonical)) := by
  have kept := backing.rounds p (List.mem_of_getElem? (pending_round_iff.mp held).2)
  have grown : a.trace <+: (a.sign matchId (.commit p.canonical)).trace := List.prefix_append _ _
  refine ⟨⟨?_, ?_⟩, fun q member => (backing.rounds q member).mono grown (still w)⟩
  · intro other c member
    rw [Hub.sign, commits_signed_emit] at member
    rcases List.mem_append.mp member with old | new
    · exact backing.rooted other c old
    · simp only [Output.committed, Option.mem_toList, Option.ite_none_right_eq_some,
        Option.some.injEq] at new
      rw [← new.1, ← new.2, ← named]
      exact kept.rooted
  · intro o member c bytes
    rcases List.mem_append.mp member with old | new
    · exact backing.commits o old c bytes
    · rw [List.mem_singleton.mp new] at bytes ⊢
      have same := commit_payload_inj (Option.some.inj bytes)
      exact ⟨matchId, by rw [same]⟩

/-- A round that ends up finalized has no votes to answer for. -/
theorem Backing.settle (backing : f.Backing w i a) {rid : ℕ} {g : Round R → Round R}
    (done : ∀ q, (g q).finalized = true)
    (kept : ∀ q, a.rounds[rid]? = some q → (g q).binding = f.binding ∧
      f.toLowerCase (f.engine.matchId (g q).row) = (g q).matchId ∧
      f.Rooted (g q).matchId (g q).canonical) : f.Backing w i (a.modify rid g) := by
  refine backing.modify (fun q stored => ?_)
  obtain ⟨bound, named, rooted⟩ := kept q stored
  exact ⟨bound, named, rooted, fun live => absurd ((done q).symm.trans live) (by simp)⟩

theorem Backing.finalized_as {matchId : String} {rid : ℕ} {p : Round R}
    (settled : f.Backing w i (a.modify rid Round.finalize)) :
    f.Backing w i (finalizedAs (f.cfg i) a matchId rid p) := by
  have heap := finalized_as_rounds (f.cfg i) a matchId rid p
  have said := finalized_as_trace (f.cfg i) a matchId rid p
  have grown : (a.modify rid Round.finalize).trace <+:
      (finalizedAs (f.cfg i) a matchId rid p).trace := by
    rw [said]
    exact List.prefix_append _ _
  refine ⟨⟨?_, ?_⟩, ?_⟩
  · rw [commits_signed_finalized]
    exact settled.rooted
  · intro o member c bytes
    rw [said] at member
    rcases List.mem_append.mp member with old | new
    · exact settled.commits o old c bytes
    · rw [List.mem_singleton.mp new] at bytes
      simp [Output.signedBytes] at bytes
  · rw [heap]
    exact fun q member => (settled.rounds q member).mono grown (still w)

theorem Backing.open (backing : f.Backing w i a) {p : Round R}
    (engine : (f.cfg i).engine = f.engine) (opened : p.Opened (f.cfg i))
    (bound : p.binding = f.binding) (named : f.toLowerCase (f.engine.matchId p.row) = p.matchId) :
    f.Backing w i (a.openRound p) := by
  have same : a.trace <+: (a.openRound p).trace := List.prefix_refl _
  have built := opened.canonical
  rw [engine] at built
  refine ⟨⟨backing.rooted, backing.commits⟩, ?_⟩
  intro q member
  rcases List.mem_append.mp member with old | new
  · exact (backing.rounds q old).mono same (still w)
  · rw [List.mem_singleton.mp new]
    refine ⟨bound, named, ⟨p.row, 0, built, named⟩, fun _ k vote => ?_⟩
    rw [opened.commits] at vote
    exact absurd vote OrderedSet.not_mem_empty

/-- A round whose votes are dropped for another row or view. -/
theorem Backing.replace (backing : f.Backing w i a) {rid : ℕ} {p : Round R}
    {g : Round R → Round R} (record : a.rounds[rid]? = some p)
    (bound : (g p).binding = f.binding) (sameId : (g p).matchId = p.matchId)
    (named : f.toLowerCase (f.engine.matchId (g p).row) = p.matchId)
    (built : ∃ v, f.engine.canonicalMatch (g p).row v = some (g p).canonical)
    (blank : (g p).commits = .empty) : f.Backing w i (a.modify rid g) := by
  obtain ⟨v, built⟩ := built
  refine backing.modify (fun q stored => ?_)
  rw [record, Option.some.injEq] at stored
  subst stored
  refine ⟨bound, by rw [sameId, named], ⟨_, v, built, by rw [sameId, named]⟩, fun _ k vote => ?_⟩
  rw [blank] at vote
  exact absurd vote OrderedSet.not_mem_empty

/-- A commit_sig of an honest hub over this canonical is its COMMIT of this round. -/
theorem committed_of_signed (world : ∀ j, f.TraceKept (w j)) {matchId c : String}
    (rooted : f.Rooted matchId c) {j : ι}
    (signed : Signed f.engine (w j) (commitPayload f.engine c)) :
    CommittedTo (w j) matchId (some (contentOf c)) := by
  obtain ⟨o, member, bytes⟩ := signed
  obtain ⟨other, rfl⟩ := (world j).commits o member c bytes
  have committed : c ∈ commitsSigned (w j) other :=
    List.mem_filterMap.mpr ⟨_, member, by simp [Output.committed]⟩
  obtain ⟨r, v, built, here⟩ := rooted
  obtain ⟨s, u, again, there⟩ := (world j).rooted other c committed
  have same : other = matchId := by
    rw [← there, ← here, f.engine.canonical_id s r u v c again built]
  exact ⟨c, by rw [← same]; exact committed, rfl⟩

/-- Every action keeps the backing, given that of every hub in the world. -/
theorem act_backed {pol : Policy R} (honest : f.Honest) (world : ∀ j, f.TraceKept (w j))
    (regular : f.Regular w pol) (ready : Ready (f.cfg i) pol.soles a)
    (act : Act (f.cfg i) pol a b) (backing : f.Backing w i a) : f.Backing w i b := by
  have engine := honest.engine i
  have named : ∀ matchId rid p, a.pendingRound matchId = some (rid, p) → p.matchId = matchId :=
    fun matchId rid p held => ready.pending_named held
  have unvoted : ∀ {rid : ℕ} {g : Round R → Round R},
      (∀ p, a.rounds[rid]? = some p → SameVote f.engine p (g p)) →
      (∀ p, (g p).commits = p.commits) → f.Backing w i (a.modify rid g) := by
    intro rid g same commits
    refine backing.modify_votes same (fun p _ _ k member => Or.inl ?_)
    rw [commits] at member
    exact member
  have settled : ∀ {matchId : String} {rid : ℕ} {p : Round R},
      f.Backing w i (finalizedAs (f.cfg i) a matchId rid p) := by
    intro matchId rid p
    refine Backing.finalized_as (backing.settle (fun _ => rfl) (fun q stored => ?_))
    have before := backing.rounds q (List.mem_of_getElem? stored)
    exact ⟨before.bound, before.named, before.rooted⟩
  cases act with
  | quiet heap map said tasks => exact backing.same heap said
  | park sound => exact backing.same rfl rfl
  | forget matchId => exact backing.same rfl rfl
  | say silent => exact backing.emit engine silent
  | «open» opened bound matchNamed permit =>
    exact backing.open engine opened (regular.binds _ bound.admitted) (regular.names _ _ matchNamed)
  | mark rid same =>
    refine unvoted (fun p _ => ?_) (fun p => (same p).commits)
    exact ⟨(same p).binding, (same p).matchId, by rw [(same p).row], (same p).canonical,
      (same p).finalized⟩
  | restamp rid t =>
    refine unvoted (fun p _ => ⟨rfl, rfl, ?_, rfl, rfl⟩) (fun _ => rfl)
    rw [← engine]
    exact (f.cfg i).engine.stamp_keeps_id p.row t
  | rebuild record built permit =>
    have kept := backing.rounds _ (List.mem_of_getElem? record)
    rw [engine] at built
    exact backing.replace record kept.bound rfl kept.named ⟨_, built⟩ rfl
  | @adopt o rebound p held live sound bound permit =>
    have record := (pending_round_iff.mp held).2
    have kept := backing.rounds p (List.mem_of_getElem? record)
    have here := named o.matchId o.rid p held
    have built := sound.canonical
    have rowNamed := sound.named
    rw [engine] at built
    rw [engine, honest.lower i] at rowNamed
    refine backing.replace record ?_ rfl ?_ ⟨o.view, built⟩ rfl
    · cases rebound with
      | none => exact kept.bound
      | some b => exact regular.binds _ (bound b rfl).admitted
    · rw [here]
      exact rowNamed
  | @countProposal o p record agrees sound =>
    refine unvoted (fun p _ => ?_) (fun p => ?_)
    · exact ⟨count_proposal_binding o p, count_proposal_named o p,
        by rw [count_proposal_row o p], count_proposal_canonical o p, count_proposal_finalized o p⟩
    · exact count_proposal_commits o p
  | castOwn record => exact unvoted (fun _ _ => ⟨rfl, rfl, rfl, rfl, rfl⟩) (fun _ => rfl)
  | collect record lowered signed =>
    exact unvoted (fun _ _ => ⟨rfl, rfl, rfl, rfl, rfl⟩) (fun _ => rfl)
  | countPrepare record lowered signed member =>
    exact unvoted (fun _ _ => ⟨rfl, rfl, rfl, rfl, rfl⟩) (fun _ => rfl)
  | @countCommit rid p key sig record lowered signed member vote =>
    refine backing.modify_votes (fun _ _ => ⟨rfl, rfl, rfl, rfl, rfl⟩) (fun q stored _ k counted => ?_)
    have kept := backing.rounds p (List.mem_of_getElem? record)
    rw [record, Option.some.injEq] at stored
    subst stored
    rcases OrderedSet.mem_add.mp counted with rfl | old
    · rw [kept.bound, is_member_iff] at member
      exact Or.inr (Or.inl ⟨List.mem_map.mpr member,
        fun j same => committed_of_signed world kept.rooted (regular.voted _ _ vote j same)⟩)
    · exact Or.inl old
  | @sendCommit matchId rid p held live fresh met =>
    have here := named matchId rid p held
    have record := (pending_round_iff.mp held).2
    have signed := backing.sign_commit held here
    have cast : f.Backing w i
        ((a.sign matchId (.commit p.canonical)).modify rid (Round.sendCommit (f.cfg i))) := by
      refine signed.modify_votes (fun _ _ => ⟨rfl, rfl, rfl, rfl, rfl⟩)
        (fun q stored _ k counted => ?_)
      have same : some p = some q := record.symm.trans stored
      rw [Option.some.injEq] at same
      subst same
      rcases OrderedSet.mem_add.mp counted with rfl | old
      · refine Or.inr (Or.inr ⟨rfl, p.canonical, ?_, rfl⟩)
        rw [here, Hub.sign, commits_signed_emit]
        simp [Output.committed]
      · exact Or.inl old
    exact cast.emit engine trivial
  | finalize held live met fits => exact settled
  | finalizeSole held live mine fits => exact settled
  | @catchUp s p c verified held live sound bound proof synced =>
    have record := (pending_round_iff.mp held).2
    have here := named s.matchId s.rid p held
    have kept := backing.rounds p (List.mem_of_getElem? record)
    have seated : c = f.binding := by
      rcases bound with same | rebound
      · rw [same, kept.bound]
      · exact regular.binds _ rebound.admitted
    have built := sound.canonical
    have rowNamed := sound.named
    rw [engine] at built
    rw [engine, honest.lower i] at rowNamed
    refine Backing.finalized_as ?_
    rw [modify_twice]
    refine backing.settle (fun _ => rfl) (fun q stored => ?_)
    rw [record, Option.some.injEq] at stored
    subst stored
    exact ⟨seated, by rw [← here] at rowNamed; exact rowNamed, s.row, s.view, built,
      by rw [← here] at rowNamed; exact rowNamed⟩

end Acts

section Ends
variable {w : World R ι}

theorem started_backing {i : ι} : f.Backing w i .started := by
  refine ⟨⟨?_, ?_⟩, ?_⟩
  · intro other c signed
    exact absurd signed (by simp [commitsSigned, Hub.started])
  · intro o member
    exact absurd member (by simp [Hub.started])
  · intro p member
    exact absurd member (by simp [Hub.started])

def started : World R ι := fun _ => .started

/-- Between events every vote behind a certificate is a member's, and the honest members
    among the voters signed. -/
theorem certified_votes (honest : f.Honest) {i : ι} {k id : String} {content : Option String}
    (vote : f.Voted w i (w i) k id content) :
    k ∈ f.members ∧ ∀ j, (f.cfg j).pubkey = k → CommittedTo (w j) id content := by
  rcases vote with member | ⟨rfl, committed⟩
  · exact member
  · refine ⟨honest.member i, fun j same => ?_⟩
    rw [honest.distinct j i same]
    exact committed

/-- In count mode the overlap is a matter of sizes. -/
theorem count_mode_overlap (count : f.binding.weighted = false)
    (large : f.faulty.card + f.members.toFinset.card < 2 * f.binding.quorum) :
    f.HonestOverlap := by
  intro i j votes more inMembers moreMembers met reached
  simp only [meetsQuorum, count, Bool.false_eq_true, if_false, decide_eq_true_eq] at met reached
  have left : votes.toFinset ⊆ f.members.toFinset := by
    intro k member
    exact List.mem_toFinset.mpr (inMembers k (OrderedSet.mem_to_finset.mp member))
  have right : more.toFinset ⊆ f.members.toFinset := by
    intro k member
    exact List.mem_toFinset.mpr (moreMembers k (OrderedSet.mem_to_finset.mp member))
  have sizes : f.faulty.card + f.members.toFinset.card <
      votes.toFinset.card + more.toFinset.card := by
    rw [votes.card_to_finset, more.card_to_finset]
    omega
  obtain ⟨k, inVotes, inMore, sound⟩ := QuorumSets.overlap_escapes left right sizes
  exact ⟨k, OrderedSet.mem_to_finset.mp inVotes, OrderedSet.mem_to_finset.mp inMore, sound⟩

/-- The bound of a third suffices exactly where the threshold leaves its margin. -/
theorem third_bound_overlap (count : f.binding.weighted = false) (two : 2 ≤ f.members.length)
    (taken : f.binding.quorum = bftQuorumOrSingle f.members.length 0)
    (third : f.faulty.card ≤ faultBound f.members.length)
    (margin : f.members.length % 3 = 1 ∨ f.members.length = 2 ∨ f.members.length = 3 ∨
      f.members.length = 6) : f.HonestOverlap := by
  refine count_mode_overlap count ?_
  have enough := (BftQuorum.fault_margin_iff f.members.length two).mpr margin
  have distinct := List.toFinset_card_le f.members
  rw [taken, bftQuorumOrSingle, if_neg (by omega)]
  omega

end Ends

section Sizes
variable [Fintype ι] {w : World R ι}

theorem certified_of_backers {id : String} {i : ι} {h : Hub R} {content : Option String}
    (met : meetsQuorum (f.cfg i) f.binding (f.backers id w content) = true) :
    f.Certified w i h id content := by
  refine ⟨f.backers id w content, met, fun k member => Or.inl ?_⟩
  rw [backers, OrderedSet.mem_of_list, List.mem_filter, decide_eq_true_eq] at member
  exact member

end Sizes

section Steps
variable [DecidableEq ι]

variable (f) in
def step : World R ι → Move R ι → World R ι := move (fun i => CrossChain.step (f.cfg i))

/-- What one hub's move keeps of it, and time keeps of the others, a step keeps of all. -/
theorem step_all (kept : World R ι → ι → Hub R → Prop) {w : World R ι} {m : Move R ι}
    (moved : kept w m.1 (CrossChain.step (f.cfg m.1) (w m.1) m.2))
    (grown : (w m.1).trace <+: (CrossChain.step (f.cfg m.1) (w m.1) m.2).trace)
    (mono : ∀ v i, (∀ j, (w j).trace <+: (v j).trace) → ∀ h, kept w i h → kept v i h)
    (before : ∀ i, kept w i (w i)) : ∀ i, kept (f.step w m) i (f.step w m i) := by
  have same : f.step w m m.1 = CrossChain.step (f.cfg m.1) (w m.1) m.2 := move_same w m.1 m.2
  have still : ∀ j, j ≠ m.1 → f.step w m j = w j := fun j other => move_other other
  have longer : ∀ j, (w j).trace <+: (f.step w m j).trace := by
    intro j
    by_cases here : j = m.1
    · rw [here, same]
      exact grown
    · rw [still j here]
  intro i
  by_cases here : i = m.1
  · rw [here, same]
    exact mono _ _ longer _ moved
  · rw [still i here]
    exact mono _ _ longer _ (before i)

end Steps

section Decide
variable [Fintype ι] (f : Federation R ι) (w : World R ι) (i : ι) (h : Hub R) (e : Event R)

instance : Decidable (f.Authentic w i h e) := by
  unfold Authentic
  split
  · infer_instance
  · infer_instance

instance : Decidable (f.OwnRow e) := by
  unfold OwnRow
  split
  · infer_instance
  · infer_instance

instance : Decidable (f.Given w i h e) :=
  decidable_of_iff (f.Authentic w i h e ∧ f.OwnRow e ∧ ∀ b ∈ binds (f.cfg i) h e, b = f.binding)
    ⟨fun all => ⟨all.1, all.2.1, all.2.2⟩,
      fun given => ⟨given.authentic, given.ownRow, given.oneSnapshot⟩⟩

instance (m : Move R ι) : Decidable (f.Setting w m) :=
  inferInstanceAs (Decidable (∀ e ∈ due (w m.1) m.2.2, _))

end Decide
end Federation
end XChainHub.CrossChain
