import XChainHub.CrossChain.Pbft.Backing

/-!
Agreement of the cross-chain PBFT over a federation of honest hubs and any number
of faulty signers, for one round id. Every finalized content is backed by a vote
set that met the quorum, its honest members having signed a COMMIT for that
content; two such sets meet in an honest hub, which signs one content as long as
no step puts another in place of what it committed to.
-/
namespace XChainHub.CrossChain
open GuardedRuns EquivocationHeader
open BftQuorum (faultBound bftQuorumOrSingle)
open Dex (MatchRow)

variable {R ι : Type}

namespace Federation
variable (f : Federation R ι)

section Conditions
variable (id : String) (w : World R ι) (i : ι) (env : Env) (h : Hub R) (e : Event R)

/- No row replaces what this hub committed to by another content. -/
def KeepsCommits : Prop :=
  ∀ x ∈ installs (f.cfg i) env h e, x.1 = id →
    ∀ c ∈ commitsSigned h id, f.engine.content x.2 = some (contentOf c)

/- Votes finalize the content they cover. -/
def FinalizesContent : Prop :=
  ∀ p ∈ finalizing (f.cfg i) h e, f.toLowerCase (f.engine.matchId p.row) = id →
    f.engine.content p.row = some (contentOf p.canonical)

end Conditions

structure Admits [Fintype ι] (id : String) (w : World R ι) (i : ι) (env : Env) (h : Hub R)
    (e : Event R) : Prop extends f.Given w i h e where
  commits : f.KeepsCommits id i env h e
  content : f.FinalizesContent id i h e
  synced : f.SyncsCommitted id w i h e

/- The guard of a run, asked of the event that takes effect in the move. -/
def Guard [Fintype ι] (id : String) (w : World R ι) (m : Move R ι) : Prop :=
  ∀ e ∈ due (w m.1) m.2.2, f.Admits id w m.1 m.2.1 (w m.1).shift e

variable {f}

def policy (f : Federation R ι) (id : String) (w : World R ι) (i : ι) : Policy R where
  soles := False
  names := fun matchId row => f.toLowerCase (f.engine.matchId row) = matchId
  fit := fun row canonical _ _ => f.toLowerCase (f.engine.matchId row) = id →
    f.engine.content row = some (contentOf canonical)
  admits := fun commits matchId row => matchId = id →
    ∀ c ∈ commits id, f.engine.content row = some (contentOf c)
  binds := fun b => b = f.binding
  synced := fun matchId row => matchId = id →
    ∀ h, f.Certified w i h id (f.engine.content row)
  soleFit := fun _ _ _ _ => False
  voted := fun key c =>
    ∀ j, (f.cfg j).pubkey = key → Signed f.engine (w j) (commitPayload f.engine c)

structure HubInvariant (f : Federation R ι) (id : String) (w : World R ι) (i : ι) (h : Hub R) :
    Prop extends f.TraceKept h where
  rounds : ∀ p ∈ h.rounds, f.RoundKept w i h p
  lock : ∀ rid p, h.pendingRound id = some (rid, p) → p.finalized = false →
    ∀ c ∈ commitsSigned h id, contentOf c = contentOf p.canonical
  single : ∀ c ∈ commitsSigned h id, ∀ d ∈ commitsSigned h id, contentOf c = contentOf d
  events : ∀ e, .finalized e ∈ h.trace → e.matchId = id →
    f.Certified w i h id (f.engine.content e.row)

section Acts
variable {id : String} {w : World R ι} {i : ι} {a b : Hub R}

theorem HubInvariant.backing (inv : f.HubInvariant id w i a) : f.Backing w i a :=
  ⟨inv.toTraceKept, inv.rounds⟩

theorem HubInvariant.mono {v : World R ι} (all : ∀ j, (w j).trace <+: (v j).trace)
    (inv : f.HubInvariant id w i a) : f.HubInvariant id v i a := by
  have backing := inv.backing.mono all
  exact ⟨backing.toTraceKept, backing.rounds, inv.lock, inv.single,
    fun e output named => (inv.events e output named).mono (List.prefix_refl _) all⟩

theorem policy_regular : f.Regular w (f.policy id w i) :=
  ⟨fun _ _ named => named, fun _ bound => bound, fun _ _ voted => voted⟩

/- Canonicals of the round id agree on their content. -/
def SameContent (id : String) (x y : String × String) : Prop :=
  x.1 = id → y.1 = id → contentOf x.2 = contentOf y.2

/-- The lock and the single content of a hub are the agreement of what stands there. -/
theorem locked_iff : Locked (SameContent id) a ↔
    (∀ rid p, a.pendingRound id = some (rid, p) → p.finalized = false →
      ∀ c ∈ commitsSigned a id, contentOf c = contentOf p.canonical) ∧
    ∀ c ∈ commitsSigned a id, ∀ d ∈ commitsSigned a id, contentOf c = contentOf d := by
  constructor
  · intro locked
    refine ⟨fun rid p held live c signed => ?_, fun c left d right => ?_⟩
    · exact locked id c id p.canonical (Or.inr signed) (Or.inl ⟨rid, p, held, live, rfl⟩) rfl rfl
    · exact locked id c id d (Or.inr left) (Or.inr right) rfl rfl
  · rintro ⟨lock, single⟩ x c y d one two rfl rfl
    rcases one with ⟨rid, p, held, live, rfl⟩ | left
    · rcases two with ⟨other, q, again, -, rfl⟩ | right
      · rw [held, Option.some.injEq, Prod.mk.injEq] at again
        rw [again.2]
      · exact (lock rid p held live d right).symm
    · rcases two with ⟨other, q, again, live, rfl⟩ | right
      · exact lock other q again live c left
      · exact single c left d right

/-- Contents of one canonical: what is committed to agrees with a row the policy lets in. -/
theorem admitted_agrees {r : R} {v : ℚ} {canonical : String}
    (built : f.engine.canonicalMatch r v = some canonical) {commits : List String}
    (permit : ∀ c ∈ commits, f.engine.content r = some (contentOf c)) :
    ∀ c ∈ commits, contentOf c = contentOf canonical := by
  intro c signed
  have content := f.engine.canonical_content r v canonical built
  rw [permit c signed, Option.some.injEq] at content
  exact content

/-- Every action keeps the invariant, given that of every hub in the world. -/
theorem act_kept (honest : f.Honest) (world : ∀ j, f.TraceKept (w j))
    (ready : Ready (f.cfg i) False a) (act : Act (f.cfg i) (f.policy id w i) a b)
    (inv : f.HubInvariant id w i a) : f.HubInvariant id w i b := by
  have grown := act_trace act
  have backing := act_backed honest world policy_regular ready act inv.backing
  have locked : Locked (SameContent id) b := by
    refine (locked_iff.mpr ⟨inv.lock, inv.single⟩).act (fun x _ _ => rfl)
      (fun x y same mine yours => (same yours mine).symm) ready act ?_
    intro other row permit v c built
    refine ⟨?_, fun x d apart _ mine yours => absurd (mine.trans yours.symm) apart⟩
    rintro x d signed rfl here
    rw [honest.engine i] at built
    exact admitted_agrees built (permit here) d signed
  obtain ⟨lock, single⟩ := locked_iff.mp locked
  refine ⟨backing.toTraceKept, backing.rounds, lock, single, fun e output named => ?_⟩
  have certified : f.Certified w i a id (f.engine.content e.row) := by
    rcases act_finalized act output with old | new
    · exact inv.events e old named
    · cases new with
      | @votes matchId rid p held live met fits =>
        have kept := inv.rounds p (List.mem_of_getElem? (pending_round_iff.mp held).2)
        have here := ready.pending_named held
        have own : f.toLowerCase (f.engine.matchId p.row) = id := by
          rw [kept.named, here]
          exact named
        refine ⟨p.commits, by rw [← kept.bound]; exact met, fun k vote => ?_⟩
        have content : f.engine.content (p.event matchId).row = some (contentOf p.canonical) :=
          fits own
        rw [content, ← named, show (p.event matchId).matchId = p.matchId from here.symm]
        exact kept.votes live k vote
      | sole fits => exact absurd fits not_false
      | @synced s p bound verified sound synced => exact synced named a
  exact certified.mono grown (still w)

end Acts
section Ends
variable {id : String} {w : World R ι}

variable (f) in
def Hubs (id : String) (w : World R ι) : Prop :=
  ∀ i, Ready (f.cfg i) False (w i) ∧ f.HubInvariant id w i (w i)

theorem started_hubs : f.Hubs id started := by
  have backing : ∀ i, f.Backing started i .started := fun i => started_backing
  refine fun i => ⟨started_ready, (backing i).toTraceKept, (backing i).rounds, ?_, ?_, ?_⟩
  · intro rid p held
    exact absurd held (by simp [Hub.pendingRound, started, Hub.started])
  · intro c signed
    exact absurd signed (by simp [commitsSigned, started, Hub.started])
  · intro e member
    exact absurd member (by simp [started, Hub.started])

end Ends

section Runs
variable [Fintype ι] {id : String} {w : World R ι} {m : Move R ι}

theorem admits_obeys {i : ι} {env : Env} {h : Hub R} {e : Event R} (honest : f.Honest)
    (admits : f.Admits id w i env h e) : Obeys (f.cfg i) (f.policy id w i) env h e := by
  have bound : ∀ b, binds (f.cfg i) h e = some b → b = f.binding :=
    fun b binding => admits.oneSnapshot b binding
  refine ⟨?_, ?_, admits.content, ?_, bound, ?_, ?_, ?_⟩
  · rintro matchId row snapshot rfl single
    have same := bound _ rfl
    rw [same] at single
    exact absurd honest.plural (by omega)
  · rintro matchId row snapshot rfl
    have named := admits.ownRow
    rw [honest.lower i]
    exact named
  · intro matchId row installed here
    exact admits.commits (matchId, row) installed here
  · intro s adopted here _
    exact certified_of_backers (admits.synced s adopted here)
  · exact fun sole => sole.elim
  · rintro matchId view key sig s rid p rfl held verified j same
    have authentic := admits.authentic
    simp only [Authentic] at authentic
    rw [honest.lower i] at held verified same
    rw [honest.engine i] at verified
    exact authentic (rid, p) held verified j same

/-- One hub moves: it keeps its invariant against the world before the step, and its
    trace grows. -/
theorem hub_step_kept (honest : f.Honest) (hubs : f.Hubs id w) (guard : f.Guard id w m) :
    (Ready (f.cfg m.1) False (CrossChain.step (f.cfg m.1) (w m.1) m.2) ∧
      f.HubInvariant id w m.1 (CrossChain.step (f.cfg m.1) (w m.1) m.2)) ∧
    (w m.1).trace <+: (CrossChain.step (f.cfg m.1) (w m.1) m.2).trace := by
  have obeys : ∀ e, due (w m.1) m.2.2 = some e →
      Obeys (f.cfg m.1) (f.policy id w m.1) m.2.1 (w m.1).shift e :=
    fun e found => admits_obeys honest (guard e found)
  have world : ∀ j, f.TraceKept (w j) := fun j => (hubs j).2.toTraceKept
  obtain ⟨ready, inv⟩ := hubs m.1
  obtain ⟨path, -⟩ := step_leads obeys ready
  exact ⟨step_keeps (f.HubInvariant id w m.1)
    (fun _ _ before act kept => act_kept honest world before act kept) obeys ⟨ready, inv⟩,
    acts_trace path⟩

variable [DecidableEq ι]

/-- The step lemma of the federation: one hub moves, every hub keeps its invariant. -/
theorem step_hubs (honest : f.Honest) (hubs : f.Hubs id w) (guard : f.Guard id w m) :
    f.Hubs id (f.step w m) := by
  obtain ⟨kept, longer⟩ := hub_step_kept honest hubs guard
  exact step_all (fun w i h => Ready (f.cfg i) False h ∧ f.HubInvariant id w i h) kept longer
    (fun v i all h before => ⟨before.1, before.2.mono all⟩) hubs

theorem run_hubs (honest : f.Honest) {ms : List (Move R ι)}
    (admitted : Admitted f.step (f.Guard id) started ms) : f.Hubs id (run f.step started ms) :=
  run_invariant (f.Hubs id) (fun _ _ hubs guard => step_hubs honest hubs guard) started_hubs
    admitted

/-- Agreement over whole runs: while no step installs a row against a COMMIT its hub
    signed, votes finalize the content they cover and FINAL_SYNC adopts what a commit
    quorum stands behind, two honest hubs that finalize one round id finalize rows of
    one signed content. -/
theorem finalized_contents_agree (honest : f.Honest) (overlap : f.HonestOverlap)
    {ms : List (Move R ι)} (admitted : Admitted f.step (f.Guard id) started ms) (i j : ι)
    (d e : Finalized R) (first : .finalized d ∈ (run f.step started ms i).trace)
    (second : .finalized e ∈ (run f.step started ms j).trace) (named : d.matchId = id)
    (same : e.matchId = id) : f.engine.content d.row = f.engine.content e.row := by
  have hubs := run_hubs honest admitted
  obtain ⟨votes, met, backing⟩ := (hubs i).2.events d first named
  obtain ⟨more, reached, behind⟩ := (hubs j).2.events e second same
  obtain ⟨k, inVotes, inMore, sound⟩ := overlap i j votes more
    (fun k member => (certified_votes honest (backing k member)).1)
    (fun k member => (certified_votes honest (behind k member)).1) met reached
  obtain ⟨member, left⟩ := certified_votes honest (backing k inVotes)
  obtain ⟨-, right⟩ := certified_votes honest (behind k inMore)
  obtain ⟨n, rfl⟩ := honest.others k member sound
  obtain ⟨c, signed, content⟩ := left n rfl
  obtain ⟨c', again, other⟩ := right n rfl
  rw [content, other, (hubs n).2.single c signed c' again]

end Runs
section Decide
variable [Fintype ι] (f : Federation R ι) (id : String) (w : World R ι) (i : ι) (env : Env)
  (h : Hub R) (e : Event R)

instance : Decidable (f.Admits id w i env h e) :=
  decidable_of_iff (f.Given w i h e ∧
      (∀ x ∈ installs (f.cfg i) env h e, x.1 = id →
        ∀ c ∈ commitsSigned h id, f.engine.content x.2 = some (contentOf c)) ∧
      (∀ p ∈ finalizing (f.cfg i) h e, f.toLowerCase (f.engine.matchId p.row) = id →
        f.engine.content p.row = some (contentOf p.canonical)) ∧
      ∀ s ∈ syncs (f.cfg i) h e, s.matchId = id →
        meetsQuorum (f.cfg i) f.binding (f.backers id w (f.engine.content s.row)) = true)
    ⟨fun all => ⟨all.1, all.2.1, all.2.2.1, all.2.2.2⟩,
      fun admits => ⟨admits.toGiven, admits.commits, admits.content, admits.synced⟩⟩

instance (m : Move R ι) : Decidable (f.Guard id w m) :=
  inferInstanceAs (Decidable (∀ e ∈ due (w m.1) m.2.2, _))

end Decide
end Federation

section Fixtures
open Federation

def viewVoteFrom (key : String) (view : ℚ) : Message MatchRow :=
  .viewChange "0000000a" (some view) key
    (some (sealOf key ("XDEXVC|0000000a|" ++ naturalText view)))

def keysOf (keys : List String) : StakeWeightedQuorum.Snapshot :=
  ⟨keys.map (fun k => ⟨k, some "s", some "1"⟩), false⟩

inductive Pair where
  | k0
  | k1
  deriving DecidableEq

instance : Fintype Pair := ⟨{.k0, .k1}, fun i => by cases i <;> decide⟩

/- Two honest members, no fault. -/
def twoHubs : Federation MatchRow Pair where
  engine := Dex.dexEngine headerGates
  toLowerCase := StakeWeightedQuorum.asciiLower
  cfg := fun i =>
    match i with
    | .k0 => dexParams "k0" (by decide)
    | .k1 => hubK1
  faulty := ∅
  binding := bindingOf hubK1 (keysOf ["k0", "k1"]).rows false

def during (i : ι) (e : Event MatchRow) : Move MatchRow ι := (i, quietEnv, e)

def hears (i : ι) (m : Message MatchRow) : Move MatchRow ι := during i (.deliver m)

/- k0 leads the round; both hubs prepare, commit and finalize. -/
def twoHubRun : List (Move MatchRow Pair) :=
  let opening := Event.propose "0000000a" (rowAt "1000") (keysOf ["k0", "k1"])
  [during .k0 opening, during .k0 (.persisted 0), during .k1 opening,
   hears .k1 (proposeFrom "k0" "1000" 0), during .k1 (.validated 0 true),
   hears .k0 (prepareFrom "k1" "1000" 0), hears .k0 (commitFrom "k1" "1000" 0),
   hears .k1 (commitFrom "k0" "1000" 0)]

/- The event of a round that the keys signed at one view. -/
def finalizedBy (f : Federation MatchRow ι) (keys : List String) (effectiveTime : String)
    (view : ℚ) : Finalized MatchRow :=
  ⟨"0000000a", rowAt effectiveTime, keys.map (fun k => (k, sealOf k (bytesOf effectiveTime view))),
    view, f.binding⟩

theorem two_hubs_honest : twoHubs.Honest := by
  refine ⟨?_, ?_, by decide, by decide, by decide, by decide⟩
  · intro i
    cases i <;> rfl
  · intro i
    cases i <;> rfl

theorem two_hubs_overlap : twoHubs.HonestOverlap := count_mode_overlap rfl (by decide)

/- The run with its admission and what the first hub finalizes in it. -/
def twoHubFinality : { events : List (Move MatchRow Pair) //
    Admitted twoHubs.step (twoHubs.Guard "0000000a") started events ∧
      .finalized (finalizedBy twoHubs ["k0", "k1"] "1000" 0) ∈
        (run twoHubs.step started events .k0).trace } :=
  ⟨twoHubRun, by decide +kernel⟩

/-- Both hubs finalize in the run, and the content is the same. -/
theorem two_hubs_finalize_alike :
    .finalized (finalizedBy twoHubs ["k0", "k1"] "1000" 0) ∈
      (run twoHubs.step started twoHubRun .k0).trace ∧
    ∀ e, .finalized e ∈ (run twoHubs.step started twoHubRun .k1).trace → e.matchId = "0000000a" →
      twoHubs.engine.content (finalizedBy twoHubs ["k0", "k1"] "1000" 0).row =
        twoHubs.engine.content e.row := by
  obtain ⟨admitted, first⟩ := twoHubFinality.property
  refine ⟨first, fun e second named => ?_⟩
  exact finalized_contents_agree two_hubs_honest two_hubs_overlap admitted .k0 .k1 _ e first second
    rfl named

inductive Triple where
  | k1
  | k2
  | k3
  deriving DecidableEq

instance : Fintype Triple := ⟨{.k1, .k2, .k3}, fun i => by cases i <;> decide⟩

/- The honest k1, k2 and k3 beside the faulty k0. -/
def fourFederation : Federation MatchRow Triple where
  engine := Dex.dexEngine headerGates
  toLowerCase := StakeWeightedQuorum.asciiLower
  cfg := fun i =>
    match i with
    | .k1 => hubK1
    | .k2 => dexParams "k2" (by decide)
    | .k3 => dexParams "k3" (by decide)
  faulty := {"k0"}
  binding := bindingOf hubK1 fourKeys.rows false

/- View 0: k2 leads row A, all three honest hubs sign its COMMIT and k1 finalizes. -/
def lockedRun : List (Move MatchRow Triple) :=
  let opening := Event.propose "0000000a" (rowAt "1000") fourKeys
  [during .k2 opening, during .k2 (.persisted 0), during .k1 opening, during .k3 opening,
   hears .k1 (proposeFrom "k2" "1000" 0), during .k1 (.validated 0 true),
   hears .k3 (proposeFrom "k2" "1000" 0), during .k3 (.validated 0 true),
   hears .k1 (prepareFrom "k3" "1000" 0), hears .k3 (prepareFrom "k1" "1000" 0),
   hears .k2 (prepareFrom "k1" "1000" 0), hears .k2 (prepareFrom "k3" "1000" 0),
   hears .k1 (commitFrom "k2" "1000" 0), hears .k1 (commitFrom "k3" "1000" 0)]

/- View 1: k3 re-proposes A and k2 adopts it anew, which lets go of both COMMITs. -/
def reproposedRun : List (Move MatchRow Triple) :=
  [during .k2 (.roundTimeout "0000000a"), during .k3 (.roundTimeout "0000000a"),
   hears .k3 (viewVoteFrom "k2" 1), hears .k3 (viewVoteFrom "k0" 1),
   during .k3 (.persisted 1), hears .k2 (proposeFrom "k3" "1000" 1),
   during .k2 (.validated 2 true), during .k2 (.resolved 3 none)]

/- View 2: the faulty k0 leads row B; k2 and k3 adopt and commit it. -/
def overturnedRun : List (Move MatchRow Triple) :=
  [hears .k2 (proposeFrom "k0" "2000" 2), during .k2 (.validated 4 true),
   during .k2 (.resolved 5 none),
   hears .k3 (proposeFrom "k0" "2000" 2), during .k3 (.validated 2 true),
   during .k3 (.resolved 3 none),
   hears .k2 (prepareFrom "k3" "2000" 2), hears .k3 (prepareFrom "k2" "2000" 2),
   hears .k2 (commitFrom "k3" "2000" 2), hears .k2 (commitFrom "k0" "2000" 2)]

theorem four_honest : fourFederation.Honest := by
  refine ⟨?_, ?_, by decide, by decide, by decide, by decide⟩
  · intro i
    cases i <;> rfl
  · intro i
    cases i <;> rfl

def overturned : { events : List (Move MatchRow Triple) //
    Admitted fourFederation.step fourFederation.Setting started events ∧
      .finalized (finalizedBy fourFederation ["k2", "k1", "k3"] "1000" 0) ∈
        (run fourFederation.step started events .k1).trace ∧
      .finalized (finalizedBy fourFederation ["k0", "k2", "k3"] "2000" 2) ∈
        (run fourFederation.step started events .k2).trace } :=
  ⟨lockedRun ++ reproposedRun ++ overturnedRun, by decide +kernel⟩

/-- One faulty member of four and only unforged messages: k1 finalizes row A and k2
    finalizes row B, whose signed effective time differs. -/
theorem released_commit_disagrees :
    fourFederation.Honest ∧ fourFederation.HonestOverlap ∧
    fourFederation.faulty.card ≤ faultBound fourFederation.members.length ∧
    Admitted fourFederation.step fourFederation.Setting started
      (lockedRun ++ reproposedRun ++ overturnedRun) ∧
    .finalized (finalizedBy fourFederation ["k2", "k1", "k3"] "1000" 0) ∈
      (run fourFederation.step started (lockedRun ++ reproposedRun ++ overturnedRun) .k1).trace ∧
    .finalized (finalizedBy fourFederation ["k0", "k2", "k3"] "2000" 2) ∈
      (run fourFederation.step started (lockedRun ++ reproposedRun ++ overturnedRun) .k2).trace ∧
    fourFederation.engine.content (rowAt "1000") ≠
      fourFederation.engine.content (rowAt "2000") := by
  exact ⟨four_honest, third_bound_overlap rfl (by decide) rfl (by decide) (Or.inl rfl),
    by decide +kernel, overturned.property.1, overturned.property.2.1, overturned.property.2.2,
    by decide +kernel⟩

end Fixtures

end XChainHub.CrossChain
