import XChainHub.CrossChain.Pbft.Turns
import XChainHub.CrossChain.Pbft.Agreement

/-!
The commit lock of one hub. The votes a hub signs in a live round are collected beside it,
each with the round it was for. While every row that becomes the signed value of a round
has the content this hub committed to there, no later vote of the round covers another.
-/
namespace XChainHub.CrossChain
open GuardedRuns EquivocationHeader

variable {R : Type}

/- A PREPARE, PROPOSE or COMMIT this hub signed for the round rid. -/
structure Vote where
  rid : ℕ
  commit : Bool
  canonical : String
  deriving DecidableEq

structure Watched (R : Type) where
  hub : Hub R
  votes : List Vote

def Watched.started : Watched R := ⟨.started, []⟩

section Watching
variable (cfg : Params R)

def voteOf (h : Hub R) (e : Event R) : Output R → Option Vote
  | .signed id (.commit c) => (h.pending.get id).map (fun rid => ⟨rid, true, c⟩)
  | .signed _ (.artifact c) => (signer h e).map (fun rid => ⟨rid, false, c⟩)
  | _ => none

/- The votes a step signs in rounds that are live. The signature of a sole operator over
   its own round is none. -/
def votesCast (h : Hub R) (m : Env × Event R) : List Vote :=
  match due h m.2 with
  | none => []
  | some e =>
    if (settlesSole h.shift e).isSome then []
    else (((step cfg h m).trace.drop h.trace.length).filterMap (voteOf h.shift e)).filter
      (fun v => (h.liveRound v.rid).isSome)

def watch (w : Watched R) (m : Env × Event R) : Watched R :=
  ⟨step cfg w.hub m, w.votes ++ votesCast cfg w.hub m⟩

/-- What is collected changes nothing of the hub's run. -/
theorem watched_runs (w : Watched R) (ms : List (Env × Event R)) :
    (run (watch cfg) w ms).hub = run (step cfg) w.hub ms := by
  induction ms generalizing w with
  | nil => rfl
  | cons m ms ih => exact ih (watch cfg w m)

/- A row that a step adopts or re-proposes in a round has the content of the COMMITs that
   this hub signed in that round. -/
def KeepsLock (w : Watched R) (m : Env × Event R) : Prop :=
  ∀ e ∈ due w.hub m.2, ∀ x ∈ installs cfg m.1 w.hub.shift e, ∀ rid ∈ w.hub.pending.get x.1,
    ∀ v ∈ w.votes, v.rid = rid → v.commit = true →
      cfg.engine.content x.2 = some (contentOf v.canonical)

instance (w : Watched R) (m : Env × Event R) : Decidable (KeepsLock cfg w m) :=
  inferInstanceAs (Decidable (∀ e ∈ due w.hub m.2, ∀ x ∈ installs cfg m.1 w.hub.shift e,
    ∀ rid ∈ w.hub.pending.get x.1, ∀ v ∈ w.votes, v.rid = rid → v.commit = true →
      cfg.engine.content x.2 = some (contentOf v.canonical)))

end Watching
section Invariant

/- What this hub committed to in a live round is the content of the round's canonical. -/
structure LockHeld (cfg : Params R) (w : Watched R) : Prop extends Linked cfg w.hub where
  single : w.votes.Pairwise (fun a b => a.commit = true → a.rid = b.rid →
    contentOf a.canonical = contentOf b.canonical)
  standing : ∀ v ∈ w.votes, v.commit = true → ∀ p ∈ w.hub.liveRound v.rid,
    contentOf p.canonical = contentOf v.canonical
  bounded : ∀ v ∈ w.votes, v.rid < w.hub.rounds.length

variable {new : Message R → Prop} {cfg : Params R} {env : Env} {h after : Hub R} {e : Event R}
  {rid : ℕ} {p p' : Round R}

/- Whatever an event does to the rounds, it signs what it may. -/
theorem effect_said (effect : Effect cfg env h e new after) :
    ∃ os, after.trace = h.trace ++ os ∧ ∀ o ∈ os, o.Allowed (Signs cfg h e) := by
  cases effect with
  | kept kept => exact kept.said
  | opened p free view votes bound kept => exact kept.said
  | forgot id kept => exact kept.said
  | turned rid p t record reason moved => exact moved.said
  | caught s p t proof record named final moved => exact moved.said

/- A vote covers the canonical the event may sign for its round. -/
theorem vote_covers {o : Output R} {v : Vote} (allowed : o.Allowed (Signs cfg h e))
    (cast : voteOf h e o = some v) : rowSigned cfg h e v.rid = some v.canonical ∧
      (v.commit = true → countsPrepares e = true) := by
  cases o with
  | signed id payload =>
    cases payload with
    | artifact c =>
      obtain ⟨rid, signs, covers⟩ := allowed
      obtain ⟨other, same, rfl⟩ := Option.map_eq_some_iff.mp cast
      rw [signs, Option.some.injEq] at same
      subst same
      exact ⟨covers, fun commit => by simp at commit⟩
    | commit c =>
      obtain ⟨tests, rid, map, covers⟩ := allowed
      obtain ⟨other, same, rfl⟩ := Option.map_eq_some_iff.mp cast
      rw [map, Option.some.injEq] at same
      subst same
      exact ⟨covers, fun _ => tests⟩
    | control tag round view => simp [voteOf] at cast
  | broadcast message => simp [voteOf] at cast
  | finalized event => simp [voteOf] at cast
  | abandoned id => simp [voteOf] at cast

/- The canonical a live round has after an event is its own or that of the row installed. -/
theorem reason_recast {t : Turn} (reason : Reason cfg env h e rid p t) :
    Recast cfg env h e rid p t.canonical := by
  cases reason with
  | voted event held member verified raised recast => exact recast
  | announced held ahead found met => exact Or.inl rfl
  | timeout event held live recast => exact recast
  | counted count mine agrees => exact Or.inl rfl
  | @adopted o b count mine held live installed sound =>
    exact Or.inr ⟨o.matchId, o.row, o.view, installed, held, sound.canonical⟩
  | recast recast => exact recast

theorem effect_recast (effect : Effect cfg env h e new after) (known : rid < h.rounds.length)
    (live : after.liveRound rid = some p') :
    ∃ p, h.liveRound rid = some p ∧ Recast cfg env h e rid p p'.canonical := by
  obtain ⟨there, unfinished, map⟩ := live_round_iff.mp live
  have kept {a : Hub R} (same : a.rounds[rid]? = h.rounds[rid]?)
      (kept : Kept cfg new (Signs cfg h e) a after) :
      ∃ p, h.rounds[rid]? = some p ∧ p.finalized = false ∧ p'.turn = p.turn := by
    obtain ⟨q, stored, turn, open_⟩ := kept.heap rid _ (same.trans (List.getElem?_eq_getElem known))
    rw [there, Option.some.injEq] at stored
    subst stored
    exact ⟨_, List.getElem?_eq_getElem known, open_ unfinished, turn⟩
  have still {p : Round R} (record : h.rounds[rid]? = some p) (fresh : p.finalized = false)
      (turn : p'.turn = p.turn) (mapped : h.pending.get p'.matchId = some rid) :
      ∃ p, h.liveRound rid = some p ∧ Recast cfg env h e rid p p'.canonical := by
    have named : p'.matchId = p.matchId := congrArg Turn.matchId turn
    rw [named] at mapped
    exact ⟨p, live_round_iff.mpr ⟨record, fresh, mapped⟩, Or.inl (congrArg Turn.canonical turn)⟩
  have elsewhere {other : ℕ} {t : Turn} (apart : rid ≠ other)
      (moved : Moved cfg new (Signs cfg h e) other t h after) :
      ∃ p, h.liveRound rid = some p ∧ Recast cfg env h e rid p p'.canonical := by
    obtain ⟨q, stored, turn, open_⟩ := moved.heap rid _ (List.getElem?_eq_getElem known)
    rw [there, Option.some.injEq] at stored
    subst stored
    rw [if_neg apart] at turn
    rw [moved.map] at map
    exact still (List.getElem?_eq_getElem known) (open_ unfinished) turn map
  cases effect with
  | kept same =>
    obtain ⟨p, record, fresh, turn⟩ := kept rfl same
    rw [same.map] at map
    exact still record fresh turn map
  | opened q free view votes bound same =>
    have prior : (h.openRound q).rounds[rid]? = h.rounds[rid]? := List.getElem?_append_left known
    obtain ⟨p, record, fresh, turn⟩ := kept prior same
    rw [same.map] at map
    refine still record fresh turn ?_
    by_cases own : p'.matchId = q.matchId
    · simp only [Hub.openRound, own, OrderedMap.get_set_same, Option.some.injEq] at map
      omega
    · simpa only [Hub.openRound, OrderedMap.get_set_other own] using map
  | forgot id same =>
    have prior : (h.forget id).rounds[rid]? = h.rounds[rid]? := rfl
    obtain ⟨p, record, fresh, turn⟩ := kept prior same
    rw [same.map] at map
    refine still record fresh turn ?_
    by_cases own : p'.matchId = id
    · simp [Hub.forget, own] at map
    · simpa only [Hub.forget, OrderedMap.get_erase_other own] using map
  | turned other q t stored reason moved =>
    by_cases here : rid = other
    · subst here
      obtain ⟨r, found, turn, open_⟩ := moved.heap rid q stored
      rw [there, Option.some.injEq] at found
      subst found
      rw [if_pos rfl] at turn
      have named : p'.matchId = q.matchId := (congrArg Turn.matchId turn).trans (reason_named reason)
      rw [moved.map, named] at map
      have content : p'.canonical = t.canonical := congrArg Turn.canonical turn
      rw [content]
      exact ⟨q, live_round_iff.mpr ⟨stored, open_ unfinished, map⟩, reason_recast reason⟩
    · exact elsewhere here moved
  | caught s q t proof stored named final moved =>
    by_cases here : rid = s.rid
    · subst here
      rw [final p' there] at unfinished
      simp at unfinished
    · exact elsewhere here moved

section Adoptions
variable {o : Offer R} {b : Option Binding} {c : String}

/- The row an event adopts is installed in the round, whose canonical is the offer's. -/
structure Adopts (cfg : Params R) (env : Env) (h : Hub R) (e : Event R) (o : Offer R) : Prop where
  installed : installs cfg env h e = some (o.matchId, o.row)
  map : h.pending.get o.matchId = some o.rid
  sound : o.Sound cfg
  canonical : ∀ p ∈ (handleEvent cfg env h e).rounds[o.rid]?, p.canonical = o.canonical

theorem counting_adopts (checks : ∀ t, some t ∈ h.tasks → t.Checked cfg)
    (count : counting cfg h e = some (o, some b)) : Adopts cfg env h e o := by
  simp only [counting] at count
  split at count
  · split at count
    · split at count
      · split at count <;> simp at count
      · simp at count
    · simp at count
  · rename_i tid reply
    split at count
    · rename_i offer rebind found
      split at count
      · rename_i bound adopted rebound took
        simp only [Option.some.injEq, Prod.mk.injEq] at count
        obtain ⟨rfl, rfl⟩ := count
        obtain ⟨x, p, -, still, -⟩ := adopt_leader_row_cases took
        obtain ⟨held, -⟩ := still_pending_held still
        obtain ⟨y, q, -, record, -, moved⟩ := @adoption_moved _ (fun _ => True) _ env _
          checks _ _ _ _ _ found took
        refine ⟨by simp [installs, found, took], (pending_round_iff.mp held).1,
          checks _ (task_member found), ?_⟩
        have after : handleEvent cfg env h (.resolved tid reply) =
            drainEarlyMessages (countLeaderAndOwnPrepare cfg adopted offer) offer.matchId := by
          simp only [handleEvent, resume, found, rowRebound]
          rw [took]
        obtain ⟨r, there, turn, -⟩ := moved.heap offer.rid q record
        rw [if_pos rfl] at turn
        intro p' stored
        rw [after, Option.mem_def, there, Option.some.injEq] at stored
        rw [← stored]
        exact congrArg Turn.canonical turn
      · simp at count
    · simp at count
  · simp at count

/- An event that tests a prepare quorum installs a row only by adopting it. -/
theorem installs_counting (tests : countsPrepares e = true) {x : String × R}
    (installed : installs cfg env h e = some x) :
    ∃ o b, counting cfg h e = some (o, some b) := by
  cases e with
  | deliver m =>
    cases m with
    | prepare matchId view key sig => simp [installs] at installed
    | _ => simp [countsPrepares] at tests
  | validated tid ok => simp [installs] at installed
  | resolved tid reply =>
    simp only [installs] at installed
    split at installed
    · rename_i o rebind found
      obtain ⟨adopted, took, -⟩ := Option.map_eq_some_iff.mp installed
      obtain ⟨b, p, rebound, -, -⟩ := adopt_leader_row_cases took
      refine ⟨o, b, ?_⟩
      simp only [counting, found, took]
      rw [rebound]
    · simp at installed
  | _ => simp [countsPrepares] at tests

/- What a vote covers is the row its event adopts, or what its round held. -/
theorem row_signed_cases (plural : settlesSole h e = none)
    (covers : rowSigned cfg h e rid = some c) :
    (∃ o b, counting cfg h e = some (o, some b) ∧ o.rid = rid ∧ o.canonical = c) ∨
      (∀ o b, counting cfg h e ≠ some (o, some b)) ∧
        ∃ p, h.rounds[rid]? = some p ∧ p.canonical = c := by
  simp only [rowSigned, plural] at covers
  split at covers
  · rename_i o b count
    split at covers
    · rename_i mine
      exact Or.inl ⟨o, b, count, mine, Option.some.inj covers⟩
    · simp at covers
  · simp_all
  · rename_i stays _
    obtain ⟨p, record, same⟩ := Option.map_eq_some_iff.mp covers
    exact Or.inr ⟨fun o b count => stays o b count, p, record, same⟩

end Adoptions
section Steps
variable {w : Watched R} {m : Env × Event R}

/- A vote that a step signs in a live round. -/
structure Cast (cfg : Params R) (h : Hub R) (e : Event R) (v : Vote) : Prop where
  plural : settlesSole h e = none
  covers : rowSigned cfg h e v.rid = some v.canonical
  tests : v.commit = true → countsPrepares e = true
  live : ∃ p, h.liveRound v.rid = some p

theorem votes_cast (linked : Linked cfg h) (found : due h m.2 = some e) {v : Vote}
    (member : v ∈ votesCast cfg h m) : Cast cfg h.shift e v := by
  simp only [votesCast, found] at member
  split at member
  · simp at member
  · rename_i plural
    obtain ⟨among, live⟩ := List.mem_filter.mp member
    obtain ⟨o, said, cast⟩ := List.mem_filterMap.mp among
    have effect : Effect cfg m.1 h.shift e (fun _ => True) (step cfg h m) := by
      simp only [step, found]
      exact event_effect (fun _ _ => trivial) linked.checks
    obtain ⟨os, grown, allowed⟩ := effect_said effect
    have spoken : h.shift.trace = h.trace := rfl
    rw [grown, spoken, List.drop_left] at said
    obtain ⟨covers, tests⟩ := vote_covers (allowed o said) cast
    exact ⟨by simpa using plural, covers, tests, Option.isSome_iff_exists.mp live⟩

/- The content of a row, of its canonicals and of what the guard asks of it. -/
theorem recast_content {row : R} {view : ℚ} {c d : String}
    (built : cfg.engine.canonicalMatch row view = some c)
    (same : cfg.engine.content row = some (contentOf d)) : contentOf c = contentOf d := by
  have own := cfg.engine.canonical_content row view c built
  rw [own, Option.some.injEq] at same
  exact same

theorem cast_agrees (held : LockHeld cfg w) (guard : KeepsLock cfg w m)
    (found : due w.hub m.2 = some e) {u v : Vote} (cast : Cast cfg w.hub.shift e v)
    (before : u ∈ w.votes) (commit : u.commit = true) (same : u.rid = v.rid) :
    contentOf u.canonical = contentOf v.canonical := by
  rcases row_signed_cases cast.plural cast.covers with
    ⟨o, b, count, mine, covers⟩ | ⟨-, p, record, covers⟩
  · have adopts : Adopts cfg m.1 w.hub.shift e o := counting_adopts held.checks count
    have content := guard e found (o.matchId, o.row) adopts.installed o.rid adopts.map u before
      (same.trans mine.symm) commit
    rw [← covers]
    exact (recast_content adopts.sound.canonical content).symm
  · obtain ⟨q, live⟩ := cast.live
    obtain ⟨stored, -, -⟩ := live_round_iff.mp live
    rw [record, Option.some.injEq] at stored
    subst stored
    have standing := held.standing u before commit p (by rw [same]; exact live)
    rw [← covers]
    exact standing.symm

theorem cast_alike {u v : Vote} (one : Cast cfg h e u) (two : Cast cfg h e v)
    (same : u.rid = v.rid) : u.canonical = v.canonical := by
  have covers := one.covers
  rw [same, two.covers, Option.some.injEq] at covers
  exact covers.symm

/- A COMMIT covers what its round holds after the event. -/
theorem cast_standing (linked : Linked cfg h) (effect : Effect cfg env h e new (handleEvent cfg env h e))
    {v : Vote} (cast : Cast cfg h e v) (commit : v.commit = true)
    (live : (handleEvent cfg env h e).liveRound v.rid = some p') : p'.canonical = v.canonical := by
  rcases row_signed_cases cast.plural cast.covers with
    ⟨o, b, count, mine, covers⟩ | ⟨stays, p, record, covers⟩
  · have adopts : Adopts cfg env h e o := counting_adopts linked.checks count
    rw [← covers]
    refine adopts.canonical p' ?_
    rw [mine]
    exact (live_round_iff.mp live).1
  · have known : v.rid < h.rounds.length := (List.getElem?_eq_some_iff.mp record).1
    obtain ⟨q, before, recast⟩ := effect_recast effect known live
    obtain ⟨stored, -, -⟩ := live_round_iff.mp before
    rw [record, Option.some.injEq] at stored
    subst stored
    rcases recast with kept | ⟨id, row, view, installed, -⟩
    · exact kept.trans covers
    · obtain ⟨o, b, count⟩ := installs_counting (cast.tests commit) installed
      exact absurd count (stays o b)

theorem recast_standing (held : LockHeld cfg w) (guard : KeepsLock cfg w m)
    (found : due w.hub m.2 = some e)
    (effect : Effect cfg m.1 w.hub.shift e new (handleEvent cfg m.1 w.hub.shift e)) {v : Vote}
    (before : v ∈ w.votes) (commit : v.commit = true)
    (live : (handleEvent cfg m.1 w.hub.shift e).liveRound v.rid = some p') :
    contentOf p'.canonical = contentOf v.canonical := by
  obtain ⟨p, prior, recast⟩ := effect_recast effect (held.bounded v before) live
  rcases recast with kept | ⟨id, row, view, installed, pending, built⟩
  · rw [kept]
    exact held.standing v before commit p prior
  · have content := guard e found (id, row) installed v.rid (pending_round_iff.mp pending).1 v
      before rfl commit
    exact recast_content built content

theorem step_sized (linked : Linked cfg h) : h.rounds.length ≤ (step cfg h m).rounds.length := by
  simp only [step]
  split
  · exact le_refl _
  · rename_i e found
    have checks : ∀ t, some t ∈ h.shift.tasks → t.Checked cfg := linked.checks
    cases @event_effect _ (fun _ => True) _ m.1 _ e (fun _ _ => trivial) checks with
    | kept kept => exact le_of_eq kept.sized.symm
    | opened p free view votes bound kept =>
      rw [kept.sized]
      simp [Hub.openRound, Hub.shift]
    | forgot id kept => exact le_of_eq kept.sized.symm
    | turned rid p t record reason moved => exact le_of_eq moved.sized.symm
    | caught s p t proof record named final moved => exact le_of_eq moved.sized.symm

theorem watch_held (held : LockHeld cfg w) (guard : KeepsLock cfg w m) :
    LockHeld cfg (watch cfg w m) := by
  cases found : due w.hub m.2 with
  | none =>
    have same : watch cfg w m = w := by
      simp [watch, step, votesCast, found]
    rw [same]
    exact held
  | some e =>
    have linked : Linked cfg w.hub.shift := ⟨held.checks, held.linked⟩
    have effect : Effect cfg m.1 w.hub.shift e (fun _ => True) (handleEvent cfg m.1 w.hub.shift e) :=
      event_effect (fun _ _ => trivial) linked.checks
    have after : step cfg w.hub m = handleEvent cfg m.1 w.hub.shift e := by
      simp only [step, found]
    have cast (v : Vote) (member : v ∈ votesCast cfg w.hub m) : Cast cfg w.hub.shift e v :=
      votes_cast held.toLinked found member
    have grown := step_sized (m := m) held.toLinked
    refine ⟨?_, ?_, ?_, ?_⟩
    · simp only [watch, after]
      exact effect_linked linked effect
    · refine List.pairwise_append.mpr ⟨held.single, ?_, ?_⟩
      · rw [List.pairwise_iff_forall_sublist]
        intro u v pair _ same
        have members := pair.subset
        exact congrArg contentOf (cast_alike (cast u (members (by simp))) (cast v (members (by simp)))
          same)
      · intro u before v fresh commit same
        exact cast_agrees held guard found (cast v fresh) before commit same
    · intro v member commit p' live
      simp only [watch, after] at live
      rcases List.mem_append.mp member with before | fresh
      · exact recast_standing held guard found effect before commit live
      · rw [cast_standing linked effect (cast v fresh) commit live]
    · intro v member
      rcases List.mem_append.mp member with before | fresh
      · exact (held.bounded v before).trans_le grown
      · obtain ⟨p, live⟩ := (cast v fresh).live
        have known := (List.getElem?_eq_some_iff.mp (live_round_iff.mp live).1).1
        exact lt_of_lt_of_le known grown

end Steps
end Invariant

theorem started_lock (cfg : Params R) : LockHeld cfg (.started : Watched R) :=
  ⟨started_linked, .nil, by simp [Watched.started], by simp [Watched.started]⟩

/-- While what a round adopts or re-proposes has the content that this hub committed to
    there, in every run no vote of a live round, PREPARE, PROPOSE or COMMIT, covers another
    content than a COMMIT signed before it in that round. -/
theorem commit_lock_holds (cfg : Params R) {ms : List (Env × Event R)}
    (guarded : Admitted (watch cfg) (KeepsLock cfg) .started ms) :
    (run (watch cfg) .started ms).votes.Pairwise (fun a b => a.commit = true → a.rid = b.rid →
      contentOf a.canonical = contentOf b.canonical) :=
  (run_invariant (LockHeld cfg) (fun _ _ held guard => watch_held held guard) (started_lock cfg)
    guarded).single

section Fixtures
open Dex

/- k1 commits to the row, then prepares the same row again as k3 leads it in view 1. -/
def votedAgain : List (Env × Event MatchRow) :=
  committedRun ++ [(quietEnv, .deliver (proposeFrom "k3" "1000" 1)), (quietEnv, .validated 1 true),
    (quietEnv, .resolved 2 none)]

/- The run with its admission and the votes in it. -/
def votedTwice : { events : List (Env × Event MatchRow) //
    Admitted (watch hubK1) (KeepsLock hubK1) .started events ∧
      (run (watch hubK1) .started events).votes =
        [⟨0, false, bytesOf "1000" 0⟩, ⟨0, true, bytesOf "1000" 0⟩,
          ⟨0, false, bytesOf "1000" 1⟩] } :=
  ⟨votedAgain, by decide +kernel⟩

/-- A vote in a later view covers the content committed to. -/
theorem same_content_voted_again :
    (run (watch hubK1) .started votedAgain).votes =
      [⟨0, false, bytesOf "1000" 0⟩, ⟨0, true, bytesOf "1000" 0⟩, ⟨0, false, bytesOf "1000" 1⟩] ∧
    (run (watch hubK1) .started votedAgain).votes.Pairwise (fun a b => a.commit = true →
      a.rid = b.rid → contentOf a.canonical = contentOf b.canonical) :=
  ⟨votedTwice.property.2, commit_lock_holds hubK1 votedTwice.property.1⟩

/- The PROPOSE of k0 passes the test of the lock, and while it awaits the membership of its
   row k1 commits to the row of k2. -/
def committedMeanwhile : List (Env × Event MatchRow) :=
  [(quietEnv, .propose "0000000a" (rowAt "1000") fourKeys),
   (quietEnv, .deliver (proposeFrom "k2" "1000" 0)), (quietEnv, .validated 0 true),
   (quietEnv, .deliver (proposeFrom "k0" "2000" 2)), (quietEnv, .validated 1 true),
   (quietEnv, .deliver (prepareFrom "k3" "1000" 0)), (quietEnv, .resolved 2 none)]

def lockLost : { events : List (Env × Event MatchRow) //
    (run (watch hubK1) .started events).votes =
      [⟨0, false, bytesOf "1000" 0⟩, ⟨0, true, bytesOf "1000" 0⟩, ⟨0, false, bytesOf "2000" 2⟩] ∧
    contentOf (bytesOf "1000" 0) ≠ contentOf (bytesOf "2000" 2) ∧
    ((run (step hubK1) .started events).liveRound 0).isSome = true } :=
  ⟨committedMeanwhile, by decide +kernel⟩

/-- k1 signs a COMMIT and then, in the same live round, a PREPARE for another content. -/
theorem lock_lost_during_await :
    (run (watch hubK1) .started committedMeanwhile).votes =
      [⟨0, false, bytesOf "1000" 0⟩, ⟨0, true, bytesOf "1000" 0⟩, ⟨0, false, bytesOf "2000" 2⟩] ∧
    contentOf (bytesOf "1000" 0) ≠ contentOf (bytesOf "2000" 2) ∧
    ((run (step hubK1) .started committedMeanwhile).liveRound 0).isSome = true :=
  lockLost.property

end Fixtures

end XChainHub.CrossChain
