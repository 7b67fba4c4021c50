import XChainHub.CrossChain.Pbft.Turns
import XChainHub.CrossChain.Pbft.Agreement

/-!
What stands behind the view of a live round. While a PROPOSE from a later view is counted
only on the votes that a NEW_VIEW is asked for, and an adopted set keeps the voters for
later views, a view goes on by the hub's own timeout or on the votes of a quorum of members.
-/
namespace XChainHub.CrossChain
open GuardedRuns

variable {R : Type}

def Delivered (past : List (Env × Event R)) (m : Message R) : Prop := ∃ x ∈ past, x.2 = .deliver m

/- The key signed a VIEW_CHANGE for the view of the round id, and this hub was given it. -/
def ViewVoted (cfg : Params R) (past : List (Env × Event R)) (id : String) (view : ℚ) (k : String) :
    Prop :=
  ∃ matchId key sig, Delivered past (.viewChange matchId (some view) key sig) ∧
    cfg.toLowerCase matchId = id ∧ cfg.toLowerCase key = k ∧
    verifies cfg ((controlOf cfg cfg.engine.vcTag id view).bytes cfg.engine) sig k = true

/- The view of a round has the votes, held in it, of members that meet its quorum; where no
   key meets the quorum by itself, no single member stands behind it. -/
structure QuorumBacked (cfg : Params R) (past : List (Env × Event R)) (t : Turn)
    (voters : OrderedSet String) : Prop where
  met : meetsQuorum cfg t.binding voters = true
  members : ∀ k ∈ voters, t.binding.isMember k = true
  held : ∃ votes, t.viewChanges.get t.view = some votes ∧ ∀ k ∈ voters, k ∈ votes
  signed : ∀ k ∈ voters, ViewVoted cfg past t.matchId t.view k
  several : ∀ k, meetsQuorum cfg t.binding (.ofList [k]) = false → ∃ other ∈ voters, other ≠ k

section Guard
variable (cfg : Params R) (h : Hub R) (m : Env × Event R)

/- A PROPOSE that a live round counts from a later view finds the votes for that view
   that meet the quorum of the set bound then, which is what a NEW_VIEW has to find. A set
   that counts votes and is bound for it has every voter for a later view as a member. -/
structure Evidenced : Prop where
  proposed : ∀ e ∈ due h m.2, ∀ c ∈ counting cfg h.shift e, ∀ p ∈ h.liveRound c.1.rid,
    p.view < c.1.view → ∃ votes ∈ p.viewChanges.get c.1.view,
      meetsQuorum cfg (c.2.join.getD p.binding) votes = true
  seated : ∀ e ∈ due h m.2, ∀ c ∈ counting cfg h.shift e, ∀ b ∈ c.2.join, b.weighted = true ∨
    ∀ p ∈ h.liveRound c.1.rid, ∀ entry ∈ p.viewChanges.entries, p.view < entry.1 →
      ∀ k ∈ entry.2.items, b.isMember k = true

instance : Decidable (Evidenced cfg h m) :=
  decidable_of_iff
    ((∀ e ∈ due h m.2, ∀ c ∈ counting cfg h.shift e, ∀ p ∈ h.liveRound c.1.rid,
        p.view < c.1.view → ∃ votes ∈ p.viewChanges.get c.1.view,
          meetsQuorum cfg (c.2.join.getD p.binding) votes = true) ∧
      ∀ e ∈ due h m.2, ∀ c ∈ counting cfg h.shift e, ∀ b ∈ c.2.join, b.weighted = true ∨
        ∀ p ∈ h.liveRound c.1.rid, ∀ entry ∈ p.viewChanges.entries, p.view < entry.1 →
          ∀ k ∈ entry.2.items, b.isMember k = true)
    ⟨fun both => ⟨both.1, both.2⟩, fun kept => ⟨kept.proposed, kept.seated⟩⟩

end Guard
section Invariant

/- A vote held for a view that a round has not reached. -/
structure Seated (cfg : Params R) (past : List (Env × Event R)) (id : String) (b : Binding)
    (view : ℚ) (k : String) : Prop where
  member : b.weighted = true ∨ b.isMember k = true
  lowered : cfg.toLowerCase k = k
  voted : ViewVoted cfg past id view k

/- An unfinished round: its set is normalized and the votes for later views are seated. -/
structure Turn.Grounded (cfg : Params R) (past : List (Env × Event R)) (t : Turn) : Prop where
  lowered : ∀ v ∈ t.binding.validators, cfg.toLowerCase v.pubkey = v.pubkey
  votes : ∀ view votes, t.viewChanges.get view = some votes → t.view < view → ∀ k ∈ votes,
    Seated cfg past t.matchId t.binding view k

structure Grounded (cfg : Params R) (past : List (Env × Event R)) (h : Hub R) : Prop
    extends Linked cfg h where
  waits : ∀ m, Waits h m → Delivered past m
  rounds : ∀ p ∈ h.rounds, p.finalized = false → p.turn.Grounded cfg past

variable {cfg : Params R} {past : List (Env × Event R)} {h after : Hub R} {m : Env × Event R}

theorem Delivered.later {x : Message R} (given : Delivered past x) : Delivered (past ++ [m]) x := by
  obtain ⟨y, member, same⟩ := given
  exact ⟨y, List.mem_append_left _ member, same⟩

theorem ViewVoted.later {id : String} {view : ℚ} {k : String} (voted : ViewVoted cfg past id view k) :
    ViewVoted cfg (past ++ [m]) id view k := by
  obtain ⟨matchId, key, sig, given, rest⟩ := voted
  exact ⟨matchId, key, sig, given.later, rest⟩

theorem Turn.Grounded.later {t : Turn} (grounded : t.Grounded cfg past) :
    t.Grounded cfg (past ++ [m]) := by
  refine ⟨grounded.lowered, ?_⟩
  intro view votes found ahead k member
  obtain ⟨seat, lowered, voted⟩ := grounded.votes view votes found ahead k member
  exact ⟨seat, lowered, voted.later⟩

/-- Of votes that meet the quorum, those of members meet it. -/
theorem backed_of_votes {t : Turn} (lowered : ∀ v ∈ t.binding.validators,
    cfg.toLowerCase v.pubkey = v.pubkey) {votes : OrderedSet String}
    (held : t.viewChanges.get t.view = some votes)
    (seated : ∀ k ∈ votes, Seated cfg past t.matchId t.binding t.view k)
    (met : meetsQuorum cfg t.binding votes = true) :
    ∃ voters, QuorumBacked cfg past t voters := by
  have among (k : String) : k ∈ OrderedSet.ofList (votes.items.filter t.binding.isMember) ↔
      k ∈ votes ∧ t.binding.isMember k = true := by
    rw [OrderedSet.mem_of_list, List.mem_filter]
    rfl
  have enough : meetsQuorum cfg t.binding
      (.ofList (votes.items.filter t.binding.isMember)) = true := by
    refine meets_quorum_extends lowered (fun k member => (seated k member).lowered) ?_ met
    intro k member counted
    rw [among]
    refine ⟨member, ?_⟩
    rcases counted with unweighted | seat
    · rcases (seated k member).member with weighted | seat
      · rw [unweighted] at weighted
        simp at weighted
      · exact seat
    · exact seat
  refine ⟨_, enough, fun k member => ((among k).mp member).2, ⟨votes, held, fun k member =>
    ((among k).mp member).1⟩, fun k member => (seated k ((among k).mp member).1).voted, ?_⟩
  intro k alone
  by_contra none
  simp only [not_exists, not_and, not_not] at none
  have single : meetsQuorum cfg t.binding (.ofList [k]) = true :=
    meets_quorum_extends lowered (fun x member => (seated x ((among x).mp member).1).lowered)
      (fun x member _ => by simp [none x member]) enough
  rw [alone] at single
  simp at single

theorem add_view_vote_get {p : Round R} {view other : ℚ} {key : String} {votes : OrderedSet String}
    (found : (p.addViewVote view key).viewChanges.get other = some votes) {k : String}
    (member : k ∈ votes) :
    other = view ∧ k = key ∨ ∃ old, p.viewChanges.get other = some old ∧ k ∈ old := by
  simp only [Round.addViewVote] at found
  by_cases same : other = view
  · subst same
    rw [OrderedMap.get_set_same, Option.some.injEq] at found
    rw [← found, OrderedSet.mem_add] at member
    rcases member with own | before
    · exact Or.inl ⟨rfl, own⟩
    · cases prior : p.viewChanges.get other with
      | none => simp [prior] at before
      | some old =>
        rw [prior] at before
        exact Or.inr ⟨old, rfl, before⟩
  · rw [OrderedMap.get_set_other same] at found
    exact Or.inr ⟨votes, found, member⟩

/- A message that is due has been delivered, now or before it was put by. -/
theorem due_delivered (waits : ∀ x, Waits h x → Delivered past x) {x : Message R}
    (found : due h m.2 = some (.deliver x)) : Delivered (past ++ [m]) x := by
  simp only [due] at found
  split at found
  · simp at found
  · exact ⟨m, by simp, Option.some.inj found⟩
  · rename_i next rest drained event
    simp only [Option.some.injEq, Event.deliver.injEq] at found
    rw [← found]
    exact (waits next (Or.inl (by rw [drained]; exact List.mem_cons_self))).later
  · simp at found

theorem due_timeout {e : Event R} {id : String} (found : due h e = some (.roundTimeout id)) :
    e = .roundTimeout id := by
  simp only [due] at found
  split at found
  · simp at found
  · exact Option.some.inj found
  · simp at found
  · simp at found

theorem counting_lowered {e : Event R} {o : Offer R} {b : Binding}
    (count : counting cfg h e = some (o, some (some b))) :
    ∀ v ∈ b.validators, cfg.toLowerCase v.pubkey = v.pubkey := by
  simp only [counting] at count
  split at count
  · split at count
    · split at count
      · split at count <;> simp at count
      · simp at count
    · simp at count
  · split at count
    · split at count
      · rename_i rebound adopted found took
        simp only [Option.some.injEq, Prod.mk.injEq] at count
        have bound : Rebound cfg (alignedPolicy cfg) b :=
          rebind_snapshot_bound found (fun _ _ => trivial) b count.2
        exact bound.lowered
      · simp at count
    · simp at count
  · simp at count

section Reasons
variable {env : Env} {e : Event R} {rid : ℕ} {p : Round R} {t : Turn}

/- What the guard says of the event that is due. -/
structure Clear (cfg : Params R) (h : Hub R) (e : Event R) : Prop where
  proposed : ∀ c ∈ counting cfg h e, ∀ p ∈ h.liveRound c.1.rid,
    p.view < c.1.view → ∃ votes ∈ p.viewChanges.get c.1.view,
      meetsQuorum cfg (c.2.join.getD p.binding) votes = true
  seated : ∀ c ∈ counting cfg h e, ∀ b ∈ c.2.join, b.weighted = true ∨
    ∀ p ∈ h.liveRound c.1.rid, ∀ entry ∈ p.viewChanges.entries, p.view < entry.1 →
      ∀ k ∈ entry.2.items, b.isMember k = true

theorem vote_seated {matchId key : String} {view : ℚ} {sig : Option String}
    (given : Delivered past (.viewChange matchId (some view) key sig))
    (named : p.matchId = cfg.toLowerCase matchId)
    (member : p.binding.isMember (cfg.toLowerCase key) = true)
    (verified : verifies cfg ((controlOf cfg cfg.engine.vcTag (cfg.toLowerCase matchId)
      view).bytes cfg.engine) sig (cfg.toLowerCase key) = true) :
    Seated cfg past p.matchId p.binding view (cfg.toLowerCase key) :=
  ⟨Or.inr member, cfg.lower_idem key, matchId, key, sig, given, named.symm, rfl, by
    rw [named]; exact verified⟩

theorem voted_seated (grounded : p.turn.Grounded cfg past) {key : String} {view other : ℚ}
    (fresh : Seated cfg past p.matchId p.binding view (cfg.toLowerCase key))
    {votes : OrderedSet String}
    (found : (p.addViewVote view (cfg.toLowerCase key)).viewChanges.get other = some votes)
    (ahead : p.view < other) : ∀ k ∈ votes, Seated cfg past p.matchId p.binding other k := by
  intro k member
  rcases add_view_vote_get found member with ⟨rfl, rfl⟩ | ⟨old, before, among⟩
  · exact fresh
  · exact grounded.votes other old before ahead k among

theorem adopted_seated {o : Offer R} {b : Option Binding} (grounded : p.turn.Grounded cfg past)
    (clear : Clear cfg h e) (count : counting cfg h e = some (o, some b))
    (live : h.liveRound o.rid = some p) {view : ℚ} {votes : OrderedSet String}
    (found : p.viewChanges.get view = some votes) (ahead : p.view < view) :
    ∀ k ∈ votes, Seated cfg past p.matchId (b.getD p.binding) view k := by
  intro k member
  obtain ⟨seat, lowered, voted⟩ := grounded.votes view votes found ahead k member
  refine ⟨?_, lowered, voted⟩
  cases b with
  | none => exact seat
  | some b =>
    rcases clear.seated _ count b rfl with weighted | members
    · exact Or.inl weighted
    · exact Or.inr (members p live (view, votes) (OrderedMap.mem_of_get found) ahead k member)

theorem reason_grounded (grounded : p.turn.Grounded cfg past)
    (linked : ∀ id, h.pendingRound id = some (rid, p) → p.matchId = id)
    (given : ∀ x, e = .deliver x → Delivered past x) (clear : Clear cfg h e)
    (reason : Reason cfg env h e rid p t) : t.Grounded cfg past := by
  cases reason with
  | voted event held member verified raised recast =>
    refine ⟨grounded.lowered, ?_⟩
    intro view votes found ahead
    have onward : p.view < view := by
      rcases raised with still | ⟨later, moved, -⟩
      · rw [← still]; exact ahead
      · rw [moved] at ahead; exact later.trans ahead
    exact voted_seated grounded (vote_seated (given _ event) (linked _ held) member verified) found
      onward
  | announced held ahead found met =>
    refine ⟨grounded.lowered, ?_⟩
    intro other votes stored later
    exact grounded.votes other votes stored (ahead.trans later)
  | timeout event held live recast =>
    refine ⟨grounded.lowered, ?_⟩
    intro view votes found ahead k member
    have next : p.view < p.view + 1 := by linarith
    rcases add_view_vote_get found member with ⟨rfl, -⟩ | ⟨old, before, among⟩
    · exact absurd ahead (lt_irrefl _)
    · exact grounded.votes view old before (next.trans ahead) k among
  | counted count mine agrees =>
    refine ⟨grounded.lowered, ?_⟩
    intro view votes found ahead
    exact grounded.votes view votes found (lt_of_le_of_lt (le_max_left _ _) ahead)
  | @adopted o b count mine held live installed sound =>
    have live : h.liveRound o.rid = some p := by
      obtain ⟨map, record⟩ := pending_round_iff.mp held
      rw [mine, live_round_iff, linked _ held]
      exact ⟨record, live, map⟩
    refine ⟨?_, ?_⟩
    · cases b with
      | none => exact grounded.lowered
      | some b => exact counting_lowered count
    · intro view votes found ahead
      exact adopted_seated grounded clear count live found
        (lt_of_le_of_lt (le_max_left _ _) ahead)
  | recast recast => exact ⟨grounded.lowered, grounded.votes⟩

/- A view goes on by one at a timeout, or has a quorum of members behind it. -/
def Advances (cfg : Params R) (past : List (Env × Event R)) (e : Event R) (p : Round R) (t : Turn) :
    Prop :=
  p.view ≤ t.view ∧ (p.view < t.view → (e = .roundTimeout p.matchId ∧ t.view = p.view + 1) ∨
    ∃ voters, QuorumBacked cfg past t voters)

theorem advances_still (same : t.view = p.view) : Advances cfg past e p t :=
  ⟨le_of_eq same.symm, fun ahead => absurd ahead (by rw [same]; exact lt_irrefl _)⟩

theorem reason_advances (grounded : p.turn.Grounded cfg past)
    (linked : ∀ id, h.pendingRound id = some (rid, p) → p.matchId = id)
    (given : ∀ x, e = .deliver x → Delivered past x) (clear : Clear cfg h e)
    (live : h.liveRound rid = some p) (reason : Reason cfg env h e rid p t) :
    Advances cfg past e p t := by
  cases reason with
  | voted event held member verified raised recast =>
    rcases raised with still | ⟨later, moved, -, votes, found, met⟩
    · exact advances_still still
    · subst moved
      refine ⟨le_of_lt later, fun _ => Or.inr ?_⟩
      exact backed_of_votes grounded.lowered found (voted_seated grounded
        (vote_seated (given _ event) (linked _ held) member verified) found later) met
  | announced held ahead found met =>
    refine ⟨le_of_lt ahead, fun _ => Or.inr ?_⟩
    exact backed_of_votes grounded.lowered found (grounded.votes _ _ found ahead) met
  | timeout event held unfinished recast =>
    refine ⟨le_of_lt (by simp), fun _ => Or.inl ⟨?_, rfl⟩⟩
    rw [event, linked _ held]
  | @counted o count mine agrees =>
    refine ⟨le_max_left _ _, fun raised => Or.inr ?_⟩
    have ahead : p.view < o.view := by
      rcases lt_max_iff.mp raised with loop | ahead
      · exact absurd loop (lt_irrefl _)
      · exact ahead
    have same : max p.view o.view = o.view := max_eq_right (le_of_lt ahead)
    obtain ⟨votes, found, met⟩ := clear.proposed _ count p (by rw [mine]; exact live) ahead
    rw [same]
    exact backed_of_votes grounded.lowered found (grounded.votes _ _ found ahead) met
  | @adopted o b count mine held unfinished installed sound =>
    refine ⟨le_max_left _ _, fun raised => Or.inr ?_⟩
    have ahead : p.view < o.view := by
      rcases lt_max_iff.mp raised with loop | ahead
      · exact absurd loop (lt_irrefl _)
      · exact ahead
    have same : max p.view o.view = o.view := max_eq_right (le_of_lt ahead)
    have live : h.liveRound o.rid = some p := by rw [mine]; exact live
    obtain ⟨votes, found, met⟩ := clear.proposed _ count p live ahead
    rw [same]
    refine backed_of_votes ?_ found (adopted_seated grounded clear count live found ahead) met
    cases b with
    | none => exact grounded.lowered
    | some b => exact counting_lowered count
  | recast recast => exact advances_still rfl

end Reasons
section Steps
variable {e : Event R}

theorem Grounded.shift (grounded : Grounded cfg past h) : Grounded cfg past h.shift := by
  refine ⟨⟨grounded.checks, grounded.linked⟩, ?_, grounded.rounds⟩
  rintro x (drained | put)
  · exact grounded.waits x (Or.inl (List.mem_of_mem_tail drained))
  · exact grounded.waits x (Or.inr put)

theorem Grounded.later (grounded : Grounded cfg past h) : Grounded cfg (past ++ [m]) h :=
  ⟨grounded.toLinked, fun x waits => (grounded.waits x waits).later,
    fun p member live => (grounded.rounds p member live).later⟩

theorem Grounded.kept {sign : String → Payload → Prop} (grounded : Grounded cfg past h)
    (kept : Kept cfg (Delivered past) sign h after) : Grounded cfg past after := by
  refine ⟨grounded.toLinked.kept kept, ?_, ?_⟩
  · intro x waits
    rcases kept.waits x waits with old | fresh
    · exact grounded.waits x old
    · exact fresh
  · intro q member live
    obtain ⟨rid, there⟩ := List.mem_iff_getElem?.mp member
    have bound : rid < h.rounds.length := by
      rw [← kept.sized]
      exact (List.getElem?_eq_some_iff.mp there).1
    obtain ⟨r, stored, same, unfinished⟩ := kept.heap rid _ (List.getElem?_eq_getElem bound)
    rw [there, Option.some.injEq] at stored
    subst stored
    rw [same]
    exact grounded.rounds _ (List.getElem_mem bound) (unfinished live)

theorem Grounded.moved {sign : String → Payload → Prop} {rid : ℕ} {p : Round R} {t : Turn}
    (grounded : Grounded cfg past h) (record : h.rounds[rid]? = some p)
    (named : t.matchId = p.matchId)
    (turned : ∀ q ∈ after.rounds[rid]?, q.finalized = false → p.finalized = false →
      t.Grounded cfg past)
    (moved : Moved cfg (Delivered past) sign rid t h after) : Grounded cfg past after := by
  refine ⟨grounded.toLinked.moved record named moved, ?_, ?_⟩
  · intro x waits
    rcases moved.waits x waits with old | fresh
    · exact grounded.waits x old
    · exact fresh
  · intro q member live
    obtain ⟨other, there⟩ := List.mem_iff_getElem?.mp member
    have bound : other < h.rounds.length := by
      rw [← moved.sized]
      exact (List.getElem?_eq_some_iff.mp there).1
    obtain ⟨r, stored, same, unfinished⟩ := moved.heap other _ (List.getElem?_eq_getElem bound)
    rw [there, Option.some.injEq] at stored
    subst stored
    rw [same]
    split
    · rename_i here
      subst here
      have found := List.getElem?_eq_getElem bound
      rw [record, Option.some.injEq] at found
      exact turned q there live (by rw [found]; exact unfinished live)
    · exact grounded.rounds _ (List.getElem_mem bound) (unfinished live)

theorem Grounded.open (grounded : Grounded cfg past h) {p : Round R} (votes : p.viewChanges = .empty)
    (bound : ∀ v ∈ p.binding.validators, cfg.toLowerCase v.pubkey = v.pubkey) :
    Grounded cfg past (h.openRound p) := by
  refine ⟨grounded.toLinked.open p, grounded.waits, ?_⟩
  intro q member live
  rcases List.mem_append.mp member with old | new
  · exact grounded.rounds q old live
  · rw [List.mem_singleton.mp new]
    refine ⟨bound, ?_⟩
    intro view held found
    simp [Round.turn, votes] at found

theorem Grounded.forget (grounded : Grounded cfg past h) (id : String) :
    Grounded cfg past (h.forget id) :=
  ⟨grounded.toLinked.forget id, grounded.waits, grounded.rounds⟩

theorem effect_grounded {env : Env} (grounded : Grounded cfg past h)
    (given : ∀ x, e = .deliver x → Delivered past x) (clear : Clear cfg h e)
    (effect : Effect cfg env h e (Delivered past) after) : Grounded cfg past after := by
  cases effect with
  | kept kept => exact grounded.kept kept
  | opened p free view votes bound kept => exact (grounded.open votes bound).kept kept
  | forgot id kept => exact (grounded.forget id).kept kept
  | turned rid p t record reason moved =>
    refine grounded.moved record (reason_named reason) (fun _ _ _ unfinished => ?_) moved
    exact reason_grounded (grounded.rounds p (List.mem_of_getElem? record) unfinished)
      (fun id held => grounded.pending_named held) given clear reason
  | caught s p t proof record named final moved =>
    refine grounded.moved record named (fun q there unfinished => ?_) moved
    rw [final q there] at unfinished
    simp at unfinished

/- What one event does to the view of a live round. -/
theorem effect_advances {env : Env} (grounded : Grounded cfg past h)
    (given : ∀ x, e = .deliver x → Delivered past x) (clear : Clear cfg h e)
    (effect : Effect cfg env h e (Delivered past) after) {rid : ℕ} {p p' : Round R}
    (live : h.liveRound rid = some p) (there : after.rounds[rid]? = some p') :
    (p'.finalized = true ∧ ∃ s ∈ syncs cfg h e, s.rid = rid) ∨ Advances cfg past e p p'.turn := by
  obtain ⟨record, unfinished, map⟩ := live_round_iff.mp live
  have still {a : Hub R} {sign : String → Payload → Prop} (same : a.rounds[rid]? = some p)
      (kept : Kept cfg (Delivered past) sign a after) : Advances cfg past e p p'.turn := by
    obtain ⟨q, stored, turn, -⟩ := kept.heap rid p same
    rw [there, Option.some.injEq] at stored
    subst stored
    exact advances_still (congrArg Turn.view turn)
  have elsewhere {other : ℕ} {t : Turn} {sign : String → Payload → Prop} (apart : rid ≠ other)
      (moved : Moved cfg (Delivered past) sign other t h after) : Advances cfg past e p p'.turn := by
    obtain ⟨q, stored, turn, -⟩ := moved.heap rid p record
    rw [there, Option.some.injEq] at stored
    subst stored
    rw [if_neg apart] at turn
    exact advances_still (congrArg Turn.view turn)
  cases effect with
  | kept kept => exact Or.inr (still record kept)
  | opened q free view votes bound kept =>
    refine Or.inr (still ?_ kept)
    simp only [Hub.openRound]
    rw [List.getElem?_append_left (List.getElem?_eq_some_iff.mp record).1]
    exact record
  | forgot id kept =>
    have same : (h.forget id).rounds[rid]? = some p := record
    exact Or.inr (still same kept)
  | turned other q t stored reason moved =>
    by_cases here : rid = other
    · subst here
      rw [record, Option.some.injEq] at stored
      subst stored
      obtain ⟨r, found, turn, -⟩ := moved.heap rid p record
      rw [there, Option.some.injEq] at found
      subst found
      rw [if_pos rfl] at turn
      rw [turn]
      exact Or.inr (reason_advances (grounded.rounds p (List.mem_of_getElem? record) unfinished)
        (fun id held => grounded.pending_named held) given clear live reason)
    · exact Or.inr (elsewhere here moved)
  | caught s q t proof stored named final moved =>
    by_cases here : rid = s.rid
    · subst here
      exact Or.inl ⟨final p' there, s, proof, rfl⟩
    · exact Or.inr (elsewhere here moved)

theorem Evidenced.clear (guard : Evidenced cfg h m) (found : due h m.2 = some e) :
    Clear cfg h.shift e :=
  ⟨guard.proposed e found, guard.seated e found⟩

theorem step_grounded (grounded : Grounded cfg past h) (guard : Evidenced cfg h m) :
    Grounded cfg (past ++ [m]) (step cfg h m) := by
  simp only [step]
  split
  · exact grounded.later
  · rename_i e found
    have given : ∀ x, e = .deliver x → Delivered (past ++ [m]) x := by
      rintro x rfl
      exact due_delivered grounded.waits found
    exact effect_grounded grounded.shift.later given (guard.clear found) (event_effect given grounded.checks)

end Steps
end Invariant

/-- While PROPOSEs from later views are counted on evidence and adopted sets keep the voters,
    in every run and for every live round: unless the step takes a FINAL_SYNC proof and the
    round is final, its view does not go down, and where it goes up that is the hub's own
    timeout going on by one, or the votes for the view, given to this hub and held in the
    round, of members of the set it is bound to meet the quorum of that set, which one
    member does not unless it meets the quorum alone. -/
theorem views_advance_on_evidence (cfg : Params R) {past : List (Env × Event R)}
    {m : Env × Event R} (guarded : Admitted (step cfg) (Evidenced cfg) .started (past ++ [m]))
    {rid : ℕ} {p p' : Round R} (live : (run (step cfg) .started past).liveRound rid = some p)
    (there : (run (step cfg) .started (past ++ [m])).rounds[rid]? = some p') :
    (p'.finalized = true ∧ ∃ e s, due (run (step cfg) .started past) m.2 = some e ∧
        syncs cfg (run (step cfg) .started past).shift e = some s ∧ s.rid = rid) ∨
      (p.view ≤ p'.view ∧ (p.view < p'.view →
        (due (run (step cfg) .started past) m.2 = some (.roundTimeout p.matchId) ∧
          p'.view = p.view + 1) ∨
        ∃ voters, QuorumBacked cfg (past ++ [m]) p'.turn voters)) := by
  obtain ⟨before, now, -⟩ := admitted_append.mp guarded
  have start : Grounded cfg [] (Hub.started : Hub R) := by
    refine ⟨started_linked, ?_, ?_⟩
    · rintro x (drained | ⟨b, member, -⟩)
      · simp [Hub.started] at drained
      · simp [Hub.started] at member
    · intro p member
      simp [Hub.started] at member
  have grounded : Grounded cfg past (run (step cfg) .started past) :=
    run_history (Grounded cfg) (fun _ _ _ => step_grounded) start before
  rw [run_append, run_singleton] at there
  simp only [step] at there
  split at there
  · obtain ⟨record, -, -⟩ := live_round_iff.mp live
    rw [record, Option.some.injEq] at there
    subst there
    exact Or.inr ⟨le_refl _, fun ahead => absurd ahead (lt_irrefl _)⟩
  · rename_i e found
    have given : ∀ x, e = .deliver x → Delivered (past ++ [m]) x := by
      rintro x rfl
      exact due_delivered grounded.waits found
    rcases effect_advances grounded.shift.later given (now.clear found) (event_effect given grounded.checks)
        live there with ⟨final, s, proof, here⟩ | ⟨forward, raised⟩
    · exact Or.inl ⟨final, e, s, found, proof, here⟩
    · refine Or.inr ⟨forward, fun ahead => ?_⟩
      rcases raised ahead with ⟨rfl, next⟩ | backed
      · exact Or.inl ⟨found, next⟩
      · exact Or.inr backed

section Fixtures
open Dex

/- k1 opens the round and k0, the leader of view 2, proposes there. -/
def skippedViews : List (Env × Event MatchRow) :=
  [(quietEnv, .propose "0000000a" (rowAt "1000") fourKeys),
   (quietEnv, .deliver (proposeFrom "k0" "1000" 2)), (quietEnv, .validated 0 true)]

/-- One member's PROPOSE takes the round from view 0 to view 2 with no vote for any view. -/
theorem lone_propose_moves_view :
    ((run (step hubK1) .started skippedViews).liveRound 0).map Round.view = some 0 ∧
    ((run (step hubK1) .started (skippedViews ++ [(quietEnv, .resolved 1 none)])).liveRound 0).map
      (fun p => (p.view, p.viewChanges.entries.map Prod.fst)) = some (2, []) := by
  decide +kernel

def twoViewVotes : List (Env × Event MatchRow) :=
  [(quietEnv, .propose "0000000a" (rowAt "1000") fourKeys),
   (quietEnv, .deliver (viewVoteFrom "k2" 1)), (quietEnv, .deliver (viewVoteFrom "k3" 1))]

def thirdViewVote : Env × Event MatchRow := (quietEnv, .deliver (viewVoteFrom "k0" 1))

/-- The third of four votes for view 1 moves the round there, with members behind it. -/
theorem third_vote_moves_view :
    ∃ p ∈ (run (step hubK1) .started (twoViewVotes ++ [thirdViewVote])).rounds[0]?,
      p.view = 1 ∧ ∃ voters, QuorumBacked hubK1 (twoViewVotes ++ [thirdViewVote]) p.turn voters := by
  have before : ((run (step hubK1) .started twoViewVotes).liveRound 0).map Round.view = some 0 := by
    decide +kernel
  have after : (run (step hubK1) .started (twoViewVotes ++ [thirdViewVote])).rounds[0]?.map
      (fun p => (p.view, p.finalized)) = some (1, false) := by
    decide +kernel
  obtain ⟨p, live, view⟩ := Option.map_eq_some_iff.mp before
  obtain ⟨p', there, same⟩ := Option.map_eq_some_iff.mp after
  obtain ⟨moved, unfinished⟩ := Prod.mk.inj same
  rcases views_advance_on_evidence hubK1 (by decide +kernel) live there with
    ⟨final, -⟩ | ⟨-, raised⟩
  · rw [unfinished] at final
    simp at final
  · refine ⟨p', there, moved, ?_⟩
    rcases raised (by rw [view, moved]; norm_num) with ⟨timeout, -⟩ | backed
    · exact absurd (due_timeout timeout) (by simp [thirdViewVote])
    · exact backed

end Fixtures

end XChainHub.CrossChain
