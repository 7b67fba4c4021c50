import XChainHub.CrossChain.Pbft.Backing

/-!
Agreement across round ids. Rows of one version may run in several rounds at once,
since a round id takes in the leader's snapshot block. An honest hub signs COMMITs for
one digest of a version as long as it puts no second one in flight beside a round that
is open or a COMMIT that is signed; two certificates of a version then meet in an
honest hub that signed for both.
-/
namespace XChainHub.CrossChain
open GuardedRuns EquivocationHeader

variable {R ι V D : Type}

/- The version of a row and what it says of it, and how a signed content shows both. A
   tabular row is one whose signed columns the content keeps apart. -/
structure Reading (V D : Type) (engine : Engine R) where
  version : R → V
  digest : R → D
  tabular : R → Bool
  shows : String → Option (V × D)
  stamp_keeps : ∀ r t, version (engine.setEffectiveTime r t) = version r ∧
    digest (engine.setEffectiveTime r t) = digest r
  canonical_shows : ∀ r v c, tabular r = true → engine.canonicalMatch r v = some c →
    shows (contentOf c) = some (version r, digest r)

def Reading.of {engine : Engine R} (reading : Reading V D engine) (r : R) : V × D :=
  (reading.version r, reading.digest r)

/- A canonical of the row's version says what the row says. -/
def Reading.Agrees {engine : Engine R} (reading : Reading V D engine) (c : String) (row : R) :
    Prop :=
  ∀ s ∈ reading.shows (contentOf c), s.1 = reading.version row → s.2 = reading.digest row

/- Canonicals of one version say the same of it. -/
def SameDigest {engine : Engine R} (reading : Reading V D engine) (x y : String × String) : Prop :=
  ∀ s ∈ reading.shows (contentOf x.2), ∀ t ∈ reading.shows (contentOf y.2), s.1 = t.1 → s.2 = t.2

/- The canonicals this hub signed a COMMIT for in any round. -/
def allCommitsSigned (h : Hub R) : List String :=
  h.trace.filterMap (fun o =>
    match o with
    | .signed _ (.commit c) => some c
    | _ => none)

theorem mem_all_commits {h : Hub R} {id c : String} (signed : c ∈ commitsSigned h id) :
    c ∈ allCommitsSigned h := by
  obtain ⟨o, member, found⟩ := List.mem_filterMap.mp signed
  refine List.mem_filterMap.mpr ⟨o, member, ?_⟩
  cases o with
  | signed matchId payload =>
    cases payload with
    | commit canonical =>
      simp only [Output.committed, Option.ite_none_right_eq_some] at found
      exact found.2
    | artifact canonical => simp [Output.committed] at found
    | control tag round view => simp [Output.committed] at found
  | broadcast m => simp [Output.committed] at found
  | finalized e => simp [Output.committed] at found
  | abandoned matchId => simp [Output.committed] at found

namespace Federation
variable (f : Federation R ι) (reading : Reading V D f.engine)

section Conditions
variable (w : World R ι) (i : ι) (env : Env) (h : Hub R) (e : Event R)

/- The rows an event opens, adopts, re-proposes or takes from a FINAL_SYNC are tabular. -/
def KeepsApart : Prop :=
  (∀ x ∈ installs (f.cfg i) env h e, reading.tabular x.2 = true) ∧
    ∀ s ∈ syncs (f.cfg i) h e, reading.tabular s.row = true

/- No row is put in flight for a version of which this hub signed a COMMIT, or holds
   another unfinished round, with another digest. -/
def OneInFlight : Prop :=
  ∀ x ∈ installs (f.cfg i) env h e,
    (∀ c ∈ allCommitsSigned h, reading.Agrees c x.2) ∧
    ∀ id ∈ h.pending.keys.items, id ≠ x.1 → ∀ q ∈ h.pendingRound id, q.2.finalized = false →
      reading.Agrees q.2.canonical x.2

/- A FINAL_SYNC row is adopted once a commit quorum stands behind its content. -/
def SyncsBacked [Fintype ι] : Prop :=
  ∀ s ∈ syncs (f.cfg i) h e,
    meetsQuorum (f.cfg i) f.binding (f.backers s.matchId w (f.engine.content s.row)) = true

structure Careful [Fintype ι] : Prop extends f.Given w i h e where
  apart : f.KeepsApart reading i env h e
  single : f.OneInFlight reading i env h e
  synced : f.SyncsBacked w i h e

end Conditions

def VersionGuard [Fintype ι] (w : World R ι) (m : Move R ι) : Prop :=
  ∀ e ∈ due (w m.1) m.2.2, f.Careful reading w m.1 m.2.1 (w m.1).shift e

variable {f}

def versionPolicy (f : Federation R ι) (reading : Reading V D f.engine) (w : World R ι) (i : ι)
    (env : Env) (h : Hub R) (e : Event R) : Policy R where
  soles := False
  names := fun matchId row => f.toLowerCase (f.engine.matchId row) = matchId
  fit := fun _ _ _ _ => True
  admits := fun commits id row => installs (f.cfg i) env h e = some (id, row) ∧
    reading.tabular row = true ∧ ∀ other, ∀ c ∈ commits other, reading.Agrees c row
  binds := fun b => b = f.binding
  synced := fun matchId row => reading.tabular row = true ∧
    ∀ h, f.Certified w i h matchId (f.engine.content row)
  soleFit := fun _ _ _ _ => False
  voted := fun key c =>
    ∀ j, (f.cfg j).pubkey = key → Signed f.engine (w j) (commitPayload f.engine c)

/- Rounds show what their rows say, what stands agrees on every version, and what was
   finalized is certified. -/
structure Versioned (f : Federation R ι) (reading : Reading V D f.engine) (w : World R ι) (i : ι)
    (h : Hub R) : Prop extends f.Backing w i h where
  shown : ∀ p ∈ h.rounds, reading.shows (contentOf p.canonical) = some (reading.of p.row)
  locked : Locked (SameDigest reading) h
  events : ∀ e, .finalized e ∈ h.trace → ∃ content, f.Certified w i h e.matchId (some content) ∧
    reading.shows content = some (reading.of e.row)

section Acts
variable {reading : Reading V D f.engine} {w : World R ι} {i : ι} {a b : Hub R}

theorem Versioned.mono {v : World R ι} (all : ∀ j, (w j).trace <+: (v j).trace)
    (inv : f.Versioned reading w i a) : f.Versioned reading v i a := by
  refine ⟨inv.toBacking.mono all, inv.shown, inv.locked, fun e output => ?_⟩
  obtain ⟨content, certified, shows⟩ := inv.events e output
  exact ⟨content, certified.mono (List.prefix_refl _) all, shows⟩

theorem same_digest_refl (x : String × String) : SameDigest reading x x := by
  intro s left t right _
  rw [Option.mem_def] at left right
  rw [left] at right
  rw [Option.some.inj right]

theorem same_digest_symm (x y : String × String) (same : SameDigest reading x y) :
    SameDigest reading y x :=
  fun s left t right versions => (same t right s left versions.symm).symm

theorem same_digest_of_agrees {row : R} {id other c d : String}
    (shows : reading.shows (contentOf c) = some (reading.of row)) (agrees : reading.Agrees d row) :
    SameDigest reading (other, d) (id, c) := by
  intro s left t right versions
  rw [Option.mem_def, shows, Option.some.injEq] at right
  subst right
  exact agrees s left versions

variable {env : Env} {h : Hub R} {e : Event R}

/-- Every row an action puts beside a canonical is shown by it. -/
theorem act_shown (honest : f.Honest)
    (act : Act (f.cfg i) (f.versionPolicy reading w i env h e) a b)
    (shown : ∀ p ∈ a.rounds, reading.shows (contentOf p.canonical) = some (reading.of p.row)) :
    ∀ p ∈ b.rounds, reading.shows (contentOf p.canonical) = some (reading.of p.row) := by
  have engine := honest.engine i
  have changed : ∀ {rid : ℕ} {g : Round R → Round R},
      (∀ p ∈ a.rounds[rid]?, reading.shows (contentOf (g p).canonical) = some (reading.of (g p).row)) →
      ∀ p ∈ (a.modify rid g).rounds,
        reading.shows (contentOf p.canonical) = some (reading.of p.row) := by
    intro rid g new p member
    rcases modify_members member with old | ⟨q, stored, rfl⟩
    · exact shown p old
    · exact new q stored
  have kept : ∀ {rid : ℕ} {g : Round R → Round R},
      (∀ p : Round R, (g p).canonical = p.canonical ∧ (g p).row = p.row) →
      ∀ p ∈ (a.modify rid g).rounds,
        reading.shows (contentOf p.canonical) = some (reading.of p.row) := by
    intro rid g same
    refine changed (fun p stored => ?_)
    rw [(same p).1, (same p).2]
    exact shown p (List.mem_of_getElem? stored)
  have placed : ∀ {rid : ℕ} {g : Round R → Round R} {row : R} {v : ℚ} {c : String},
      reading.tabular row = true → f.engine.canonicalMatch row v = some c →
      (∀ p ∈ a.rounds[rid]?, (g p).canonical = c ∧ (g p).row = row) →
      ∀ p ∈ (a.modify rid g).rounds,
        reading.shows (contentOf p.canonical) = some (reading.of p.row) := by
    intro rid g row v c tabular built shape
    refine changed (fun p stored => ?_)
    rw [(shape p stored).1, (shape p stored).2]
    exact reading.canonical_shows row v c tabular built
  cases act with
  | quiet heap map said tasks =>
    rw [heap]
    exact shown
  | park sound => exact shown
  | forget matchId => exact shown
  | say silent => exact shown
  | @«open» p opened bound named permit =>
    have built := opened.canonical
    rw [engine] at built
    intro q member
    rcases List.mem_append.mp member with old | new
    · exact shown q old
    · rw [List.mem_singleton.mp new]
      exact reading.canonical_shows p.row 0 p.canonical permit.2.1 built
  | mark rid same => exact kept (fun p => ⟨(same p).canonical, (same p).row⟩)
  | restamp rid t =>
    refine changed (fun p stored => ?_)
    obtain ⟨version, digest⟩ := reading.stamp_keeps p.row t
    have before := shown p (List.mem_of_getElem? stored)
    simp only [Round.restamp, engine, Reading.of, version, digest]
    exact before
  | rebuild record built permit =>
    rw [engine] at built
    refine placed permit.2.1 built (fun q stored => ?_)
    rw [Option.mem_def, record, Option.some.injEq] at stored
    subst stored
    exact ⟨rfl, rfl⟩
  | adopt held live sound bound permit =>
    have built := sound.canonical
    rw [engine] at built
    exact placed permit.2.1 built (fun q stored => ⟨rfl, rfl⟩)
  | countProposal record agrees sound =>
    exact kept (fun p => ⟨count_proposal_canonical _ p, count_proposal_row _ p⟩)
  | castOwn record => exact kept (fun p => ⟨rfl, rfl⟩)
  | collect record lowered signed => exact kept (fun p => ⟨rfl, rfl⟩)
  | countPrepare record lowered signed member => exact kept (fun p => ⟨rfl, rfl⟩)
  | countCommit record lowered signed member vote => exact kept (fun p => ⟨rfl, rfl⟩)
  | @sendCommit matchId rid p held live fresh met =>
    exact kept (g := Round.sendCommit (f.cfg i)) (fun p => ⟨rfl, rfl⟩)
  | finalize held live met fits =>
    rw [finalized_as_rounds]
    exact kept (fun p => ⟨rfl, rfl⟩)
  | finalizeSole held live mine fits =>
    rw [finalized_as_rounds]
    exact kept (fun p => ⟨rfl, rfl⟩)
  | catchUp held live sound bound proof synced =>
    have built := sound.canonical
    rw [engine] at built
    rw [finalized_as_rounds, modify_twice]
    exact placed synced.1 built (fun q stored => ⟨rfl, rfl⟩)

/-- The step lemma of one action. -/
theorem act_versioned [Fintype ι] (honest : f.Honest) (world : ∀ j, f.TraceKept (w j))
    (careful : f.Careful reading w i env h e) (ready : Ready (f.cfg i) False a)
    (act : Act (f.cfg i) (f.versionPolicy reading w i env h e) a b)
    (inv : f.Versioned reading w i a)
    (elsewhere : ∀ id c, Live a id c → Live h id c ∨ ∃ row, installs (f.cfg i) env h e = some (id, row)) :
    f.Versioned reading w i b := by
  have grown := act_trace act
  have engine := honest.engine i
  have regular : f.Regular w (f.versionPolicy reading w i env h e) :=
    ⟨fun _ _ named => named, fun _ bound => bound, fun _ _ voted => voted⟩
  have backing := act_backed honest world regular ready act inv.toBacking
  refine ⟨backing, act_shown honest act inv.shown, ?_, fun d output => ?_⟩
  · refine inv.locked.act same_digest_refl same_digest_symm ready act ?_
    rintro id row ⟨here, tabular, commits⟩ v c built
    rw [engine] at built
    have shows := reading.canonical_shows row v c tabular built
    refine ⟨fun other d signed => ?_, fun other d apart live => ?_⟩
    · exact same_digest_of_agrees shows (commits other d signed)
    · refine same_digest_of_agrees shows ?_
      rcases elsewhere other d live with ⟨rid, p, held, unfinished, rfl⟩ | ⟨another, there⟩
      · have known : other ∈ h.pending.keys.items := OrderedMap.mem_keys.mpr
          ⟨rid, OrderedMap.get_eq_some_iff.mp (pending_round_iff.mp held).1⟩
        exact (careful.single (id, row) here).2 other known apart (rid, p) held unfinished
      · rw [here, Option.some.injEq, Prod.mk.injEq] at there
        exact absurd there.1.symm apart
  · have certified : ∃ content, f.Certified w i a d.matchId (some content) ∧
        reading.shows content = some (reading.of d.row) := by
      rcases act_finalized act output with old | new
      · exact inv.events d old
      · cases new with
        | @votes matchId rid p held live met fits =>
          have member := List.mem_of_getElem? (pending_round_iff.mp held).2
          have kept := inv.rounds p member
          have named := ready.pending_named held
          refine ⟨contentOf p.canonical, ⟨p.commits, by rw [← kept.bound]; exact met, ?_⟩,
            inv.shown p member⟩
          intro k vote
          rw [show (p.event matchId).matchId = p.matchId from named.symm]
          exact kept.votes live k vote
        | sole fits => exact absurd fits not_false
        | @synced s p bound verified sound synced =>
          have built := sound.canonical
          rw [engine] at built
          refine ⟨contentOf s.canonical, ?_, reading.canonical_shows s.row s.view _ synced.1 built⟩
          have content := f.engine.canonical_content s.row s.view _ built
          rw [← content]
          exact synced.2 a
    obtain ⟨content, certified, shows⟩ := certified
    exact ⟨content, certified.mono grown (still w), shows⟩

end Acts

section Ends
variable {reading : Reading V D f.engine} {w : World R ι}

variable (f reading) in
def VersionedHubs (w : World R ι) : Prop :=
  ∀ i, Ready (f.cfg i) False (w i) ∧ f.Versioned reading w i (w i)

theorem started_versioned : f.VersionedHubs reading started := by
  refine fun i => ⟨started_ready, started_backing, ?_, ?_, ?_⟩
  · intro p member
    exact absurd member (by simp [started, Hub.started])
  · rintro id c id' c' (⟨rid, p, held, -⟩ | signed) _
    · exact absurd held (by simp [Hub.pendingRound, started, Hub.started])
    · exact absurd signed (by simp [commitsSigned, started, Hub.started])
  · intro e member
    exact absurd member (by simp [started, Hub.started])

/-- Rows of one version that two hubs finalized, in whatever rounds, say the same of it. -/
theorem finalized_digests_agree (honest : f.Honest) (overlap : f.HonestOverlap)
    (hubs : f.VersionedHubs reading w) (i j : ι) (d e : Finalized R)
    (first : .finalized d ∈ (w i).trace) (second : .finalized e ∈ (w j).trace)
    (same : reading.version d.row = reading.version e.row) :
    reading.digest d.row = reading.digest e.row := by
  obtain ⟨content, ⟨votes, met, backing⟩, shows⟩ := (hubs i).2.events d first
  obtain ⟨other, ⟨more, reached, behind⟩, showsOther⟩ := (hubs j).2.events e second
  obtain ⟨k, inVotes, inMore, sound⟩ := overlap i j votes more
    (fun k member => (certified_votes honest (backing k member)).1)
    (fun k member => (certified_votes honest (behind k member)).1) met reached
  obtain ⟨member, left⟩ := certified_votes honest (backing k inVotes)
  obtain ⟨-, right⟩ := certified_votes honest (behind k inMore)
  obtain ⟨n, rfl⟩ := honest.others k member sound
  obtain ⟨c, signed, shape⟩ := left n rfl
  obtain ⟨c', again, shape'⟩ := right n rfl
  rw [Option.some.injEq] at shape shape'
  subst shape
  subst shape'
  exact (hubs n).2.locked _ c _ c' (Or.inr signed) (Or.inr again) _ shows _ showsOther same

end Ends

section Runs
variable [Fintype ι] {reading : Reading V D f.engine} {w : World R ι} {m : Move R ι}

theorem careful_obeys {i : ι} {env : Env} {h : Hub R} {e : Event R} (honest : f.Honest)
    (careful : f.Careful reading w i env h e) :
    Obeys (f.cfg i) (f.versionPolicy reading w i env h e) env h e := by
  have bound : ∀ b, binds (f.cfg i) h e = some b → b = f.binding :=
    fun b binding => careful.oneSnapshot b binding
  refine ⟨?_, ?_, fun _ _ => trivial, ?_, bound, ?_, ?_, ?_⟩
  · rintro matchId row snapshot rfl single
    have same := bound _ rfl
    rw [same] at single
    exact absurd honest.plural (by omega)
  · rintro matchId row snapshot rfl
    have named := careful.ownRow
    rw [honest.lower i]
    exact named
  · intro id row installed
    refine ⟨installed, careful.apart.1 (id, row) installed, fun other c signed => ?_⟩
    exact (careful.single (id, row) installed).1 c (mem_all_commits signed)
  · intro s adopted
    exact ⟨careful.apart.2 s adopted, fun _ => certified_of_backers (careful.synced s adopted)⟩
  · exact fun sole => sole.elim
  · rintro matchId view key sig s rid p rfl held verified j same
    have authentic := careful.authentic
    simp only [Authentic] at authentic
    rw [honest.lower i] at held verified same
    rw [honest.engine i] at verified
    exact authentic (rid, p) held verified j same

/-- One hub moves: it keeps its invariant, and its trace grows. -/
theorem hub_step_versioned (honest : f.Honest) (hubs : f.VersionedHubs reading w)
    (guard : f.VersionGuard reading w m) :
    (Ready (f.cfg m.1) False (CrossChain.step (f.cfg m.1) (w m.1) m.2) ∧
      f.Versioned reading w m.1 (CrossChain.step (f.cfg m.1) (w m.1) m.2)) ∧
    (w m.1).trace <+: (CrossChain.step (f.cfg m.1) (w m.1) m.2).trace := by
  have world : ∀ j, f.TraceKept (w j) := fun j => (hubs j).2.toTraceKept
  obtain ⟨ready, inv⟩ := hubs m.1
  cases found : due (w m.1) m.2.2 with
  | none =>
    have idle : CrossChain.step (f.cfg m.1) (w m.1) m.2 = w m.1 := by
      simp [CrossChain.step, found]
    rw [idle]
    exact ⟨⟨ready, inv⟩, List.prefix_refl _⟩
  | some e =>
    have careful := guard e found
    have obeys : ∀ e', due (w m.1) m.2.2 = some e' → Obeys (f.cfg m.1)
        (f.versionPolicy reading w m.1 m.2.1 (w m.1).shift e) m.2.1 (w m.1).shift e' := by
      intro e' again
      rw [found, Option.some.injEq] at again
      subst again
      exact careful_obeys honest careful
    obtain ⟨path, -⟩ := step_leads obeys ready
    have start : f.Versioned reading w m.1 (w m.1) ∧ ∀ id c, Live (w m.1) id c →
        Live (w m.1).shift id c ∨
          ∃ row, installs (f.cfg m.1) m.2.1 (w m.1).shift e = some (id, row) :=
      ⟨inv, fun id c live => Or.inl (live_same rfl rfl live)⟩
    obtain ⟨after, kept, -⟩ := step_keeps
      (fun a => f.Versioned reading w m.1 a ∧ ∀ id c, Live a id c →
        Live (w m.1).shift id c ∨
          ∃ row, installs (f.cfg m.1) m.2.1 (w m.1).shift e = some (id, row))
      (fun a b before act both => ⟨act_versioned honest world careful before act both.1 both.2,
        live_elsewhere both.2 before act (fun _ id row admitted => ⟨row, admitted.1⟩)⟩)
      obeys ⟨ready, start⟩
    exact ⟨⟨after, kept⟩, acts_trace path⟩

variable [DecidableEq ι]

theorem step_versioned (honest : f.Honest) (hubs : f.VersionedHubs reading w)
    (guard : f.VersionGuard reading w m) : f.VersionedHubs reading (f.step w m) := by
  obtain ⟨kept, longer⟩ := hub_step_versioned honest hubs guard
  exact step_all (fun w i h => Ready (f.cfg i) False h ∧ f.Versioned reading w i h) kept longer
    (fun v i all h before => ⟨before.1, before.2.mono all⟩) hubs

end Runs

section Decide
variable [DecidableEq V] [DecidableEq D] [Fintype ι] (w : World R ι) (i : ι) (env : Env)
  (h : Hub R) (e : Event R)

instance (c : String) (row : R) : Decidable (reading.Agrees c row) :=
  inferInstanceAs (Decidable (∀ s ∈ reading.shows (contentOf c), _))

instance : Decidable (f.KeepsApart reading i env h e) :=
  inferInstanceAs (Decidable ((∀ x ∈ installs (f.cfg i) env h e, _) ∧ ∀ s ∈ syncs (f.cfg i) h e, _))

instance : Decidable (f.OneInFlight reading i env h e) :=
  inferInstanceAs (Decidable (∀ x ∈ installs (f.cfg i) env h e, (∀ c ∈ allCommitsSigned h, _) ∧
    ∀ id ∈ h.pending.keys.items, id ≠ x.1 → ∀ q ∈ h.pendingRound id, q.2.finalized = false → _))

instance : Decidable (f.SyncsBacked w i h e) :=
  inferInstanceAs (Decidable (∀ s ∈ syncs (f.cfg i) h e, _))

instance : Decidable (f.Careful reading w i env h e) :=
  decidable_of_iff (f.Given w i h e ∧ f.KeepsApart reading i env h e ∧
      f.OneInFlight reading i env h e ∧ f.SyncsBacked w i h e)
    ⟨fun all => ⟨all.1, all.2.1, all.2.2.1, all.2.2.2⟩,
      fun careful => ⟨careful.toGiven, careful.apart, careful.single, careful.synced⟩⟩

instance (m : Move R ι) : Decidable (f.VersionGuard reading w m) :=
  inferInstanceAs (Decidable (∀ e ∈ due (w m.1) m.2.2, _))

end Decide
end Federation
end XChainHub.CrossChain
