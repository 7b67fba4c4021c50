import Mathlib.Order.Interval.Finset.Nat
import Mathlib.Data.Int.Interval
import XChainHub.Consensus.Pbft.Proposer

/-!
View-change votes of one hub: how many views its two tallies hold buckets for, and when a
change is accepted, against the votes that were cast for it.
-/
namespace XChainHub.Pbft
open GuardedRuns

variable {Config : Type}

section Buckets

theorem erase_keys_lookup {V : Type} (stale : ℚ → Bool) (m : AList (fun _ : ℚ => V)) (k : ℚ) :
    (eraseKeys stale m).lookup k = if stale k then none else m.lookup k := by
  have along : ∀ (ks : List ℚ) (m : AList (fun _ : ℚ => V)),
      (ks.foldl (fun (kept : AList (fun _ : ℚ => V)) k =>
        if stale k then kept.erase k else kept) m).lookup k =
        if k ∈ ks ∧ stale k = true then none else m.lookup k := by
    intro ks
    induction ks with
    | nil => simp
    | cons a ks ih =>
      intro m
      rw [List.foldl_cons, ih]
      by_cases old : stale a = true
      · by_cases same : k = a
        · subst same
          simp [old]
        · simp [old, same, AList.lookup_erase_ne same]
      · by_cases same : k = a
        · subst same
          simp [old]
        · simp [old, same]
  rw [eraseKeys, along]
  by_cases old : stale k = true
  · by_cases present : k ∈ m.keys
    · simp [old, present]
    · have missing : m.lookup k = none := AList.lookup_eq_none.mpr present
      simp [old, missing]
  · simp [old]

theorem key_of_lookup {V : Type} {m : AList (fun _ : ℚ => V)} {k : ℚ} :
    k ∈ m.keys ↔ (m.lookup k).isSome := AList.lookup_isSome.symm

theorem insert_key {V : Type} {m : AList (fun _ : ℚ => V)} {k view : ℚ} {v : V}
    (member : k ∈ (m.insert view v).keys) : k = view ∨ k ∈ m.keys := by
  by_cases same : k = view
  · exact Or.inl same
  · rw [key_of_lookup, AList.lookup_insert_ne same] at member
    exact Or.inr (key_of_lookup.mpr member)

/- What is left of a tally once a view is accepted: views after it. -/
theorem pruned_lookup {V : Type} (m : AList (fun _ : ℚ => V)) (k view : ℚ) :
    (eraseKeys (fun v => v < view) (m.erase view)).lookup k =
      if view < k then m.lookup k else none := by
  rw [erase_keys_lookup]
  by_cases later : view < k
  · simp [later, not_lt.mpr (le_of_lt later), AList.lookup_erase_ne (ne_of_gt later)]
  · by_cases same : k = view
    · subst same
      simp
    · simp [later, lt_of_le_of_ne (not_lt.mp later) same]

theorem pruned_key {V : Type} {m : AList (fun _ : ℚ => V)} {k view : ℚ}
    (member : k ∈ (eraseKeys (fun v => v < view) (m.erase view)).keys) :
    view < k ∧ k ∈ m.keys := by
  rw [key_of_lookup, pruned_lookup] at member
  split at member
  · rename_i later
    exact ⟨later, key_of_lookup.mpr member⟩
  · simp at member

end Buckets
section Window

def Views.buckets (v : Views) : List ℚ :=
  v.pendingViewChanges.keys ++ v.pendingViewChangePubkeys.keys

/- A whole view from which every bucket lies ahead by at most the skew. -/
structure Views.Windowed (v : Views) : Prop where
  whole : v.view.den = 1
  buckets : ∀ k ∈ v.buckets, k.den = 1 ∧ v.view ≤ k ∧ k ≤ v.view + maxViewSkew

variable (cfg : Params Config) (h : Hub Config) (m : Env × Event Config)

/- The view a step moves to without a quorum of VIEW_CHANGE votes: propose() goes back to
   0, a NEW_VIEW is adopted, the leader's timeout goes one on. -/
def leap : Option ℚ :=
  match m.2 with
  | .deliver e =>
    match e.data with
    | .newView view seq => announcedView cfg m.1 h e view seq
    | _ => none
  | .locked _ _ _ => ((opens cfg h m).filter Proposal.leader).map (fun _ => 0)
  | .leaderTimeout pid => (h.proposals[pid]?.filter (fun p => p.leader && !p.resolved)).map
      (fun _ => h.view + 1)
  | _ => none

/- The view named by a VIEW_CHANGE that this step counts. -/
def votedView : Option ℚ :=
  match m.2 with
  | .deliver e =>
    match e.data with
    | .viewChange (some view) (some _) => if counted cfg m.1 h e view then some view else none
    | _ => none
  | _ => none

/- Counted views are whole, and a view moved to without votes is whole and leaves no bucket
   outside the window it opens. -/
structure WindowKept : Prop where
  voted : ∀ v ∈ votedView cfg h m, v.den = 1
  leapt : ∀ v ∈ leap cfg h m, v.den = 1 ∧ ∀ k ∈ h.views.buckets, v ≤ k ∧ k ≤ v + maxViewSkew

instance : Decidable (WindowKept cfg h m) :=
  decidable_of_iff ((∀ v ∈ votedView cfg h m, v.den = 1) ∧
      ∀ v ∈ leap cfg h m, v.den = 1 ∧ ∀ k ∈ h.views.buckets, v ≤ k ∧ k ≤ v + maxViewSkew)
    ⟨fun both => ⟨both.1, both.2⟩, fun kept => ⟨kept.voted, kept.leapt⟩⟩

end Window
section Bounded
variable {cfg : Params Config} {h : Hub Config} {m : Env × Event Config} {v : Views}

/- The whole numbers from view on to the skew are maxViewSkew + 1. -/
theorem window_card {keys : List ℚ} {view : ℚ} (nodup : keys.Nodup) (whole : view.den = 1)
    (within : ∀ k ∈ keys, k.den = 1 ∧ view ≤ k ∧ k ≤ view + maxViewSkew) :
    (keys.length : ℚ) ≤ maxViewSkew + 1 := by
  have inside : (keys.map Rat.num).toFinset ⊆ Finset.Icc view.num (view.num + 100) := by
    intro n member
    obtain ⟨k, here, rfl⟩ := List.mem_map.mp (List.mem_toFinset.mp member)
    obtain ⟨integral, low, high⟩ := within k here
    have exact := Rat.coe_int_num_of_den_eq_one integral
    have base := Rat.coe_int_num_of_den_eq_one whole
    rw [← exact, ← base] at low
    rw [← exact, ← base, maxViewSkew] at high
    rw [Finset.mem_Icc]
    exact ⟨by exact_mod_cast low, by exact_mod_cast high⟩
  have distinct : (keys.map Rat.num).Nodup := by
    rw [List.nodup_map_iff_inj_on nodup]
    intro a left b right same
    rw [← Rat.coe_int_num_of_den_eq_one (within a left).1,
      ← Rat.coe_int_num_of_den_eq_one (within b right).1, same]
  have count := Finset.card_le_card inside
  rw [List.toFinset_card_of_nodup distinct, List.length_map, Int.card_Icc] at count
  have bound : keys.length ≤ 101 := by omega
  rw [maxViewSkew]
  exact_mod_cast bound

theorem Views.Windowed.addresses (windowed : v.Windowed) :
    (v.pendingViewChanges.keys.length : ℚ) ≤ maxViewSkew + 1 :=
  window_card v.pendingViewChanges.nodupKeys windowed.whole
    (fun k member => windowed.buckets k (List.mem_append_left _ member))

theorem Views.Windowed.pubkeys (windowed : v.Windowed) :
    (v.pendingViewChangePubkeys.keys.length : ℚ) ≤ maxViewSkew + 1 :=
  window_card v.pendingViewChangePubkeys.nodupKeys windowed.whole
    (fun k member => windowed.buckets k (List.mem_append_right _ member))

/- A change of views keeps the window when each bucket it leaves is an old one ahead of the
   new view or a new one inside the new window. -/
theorem Views.Windowed.move {after : Views} (windowed : v.Windowed) (whole : after.view.den = 1)
    (forward : v.view ≤ after.view)
    (left : ∀ k ∈ after.buckets, (k ∈ v.buckets ∧ after.view ≤ k) ∨
      (k.den = 1 ∧ after.view ≤ k ∧ k ≤ after.view + maxViewSkew)) : after.Windowed := by
  refine ⟨whole, ?_⟩
  intro k member
  rcases left k member with ⟨old, ahead⟩ | fresh
  · obtain ⟨integral, low, high⟩ := windowed.buckets k old
    exact ⟨integral, ahead, by linarith⟩
  · exact fresh

theorem vote_windowed (windowed : h.views.Windowed) {envelope : Envelope Config} {view seq : ℚ}
    (event : m.2 = .deliver envelope) (data : envelope.data = .viewChange (some view) (some seq))
    (kept : WindowKept cfg h m) :
    (handleViewChange cfg m.1 h envelope (some view) (some seq)).views.Windowed := by
  rw [handle_view_change_views]
  split
  · rename_i counts
    have integral : view.den = 1 := by
      refine kept.voted view ?_
      simp [votedView, event, data, counts]
    have window : h.view ≤ view ∧ view ≤ h.view + maxViewSkew := by
      simp only [counted, inWindow, Bool.and_eq_true, decide_eq_true_eq] at counts
      exact counts.1
    split
    · -- accepted: only buckets of later views are left
      refine windowed.move integral window.1 ?_
      intro k member
      rcases List.mem_append.mp member with address | pubkey
      · obtain ⟨later, rest⟩ := pruned_key address
        rcases insert_key rest with same | old
        · exact absurd same (ne_of_gt later)
        · exact Or.inl ⟨List.mem_append_left _ old, le_of_lt later⟩
      · obtain ⟨later, rest⟩ := pruned_key pubkey
        rcases insert_key rest with same | old
        · exact absurd same (ne_of_gt later)
        · exact Or.inl ⟨List.mem_append_right _ old, le_of_lt later⟩
    · refine windowed.move windowed.whole (le_refl _) ?_
      have stays (k : ℚ) (old : k ∈ h.views.buckets) := (windowed.buckets k old).2.1
      intro k member
      rcases List.mem_append.mp member with address | pubkey
      · rcases insert_key address with rfl | old
        · exact Or.inr ⟨integral, window⟩
        · have old := List.mem_append_left h.pendingViewChangePubkeys.keys old
          exact Or.inl ⟨old, stays k old⟩
      · simp only [] at pubkey
        split at pubkey
        · have old := List.mem_append_right h.pendingViewChanges.keys pubkey
          exact Or.inl ⟨old, stays k old⟩
        · rcases insert_key pubkey with rfl | old
          · exact Or.inr ⟨integral, window⟩
          · have old := List.mem_append_right h.pendingViewChanges.keys old
            exact Or.inl ⟨old, stays k old⟩
  · exact windowed

/- A view moved to without votes, with the buckets as they were or with one of its own. -/
theorem leap_windowed {after : Views} (windowed : h.views.Windowed) (kept : WindowKept cfg h m)
    (target : leap cfg h m = some after.view)
    (left : ∀ k ∈ after.buckets, k ∈ h.views.buckets ∨ k = after.view) : after.Windowed := by
  obtain ⟨whole, window⟩ := kept.leapt after.view target
  refine ⟨whole, ?_⟩
  intro k member
  rcases left k member with old | rfl
  · exact ⟨(windowed.buckets k old).1, window k old⟩
  · refine ⟨whole, le_refl _, ?_⟩
    rw [maxViewSkew]
    linarith

theorem step_windowed (windowed : h.views.Windowed) (kept : WindowKept cfg h m) :
    (step cfg h m).views.Windowed := by
  have move := step_views cfg h m
  cases move with
  | still same => rw [same]; exact windowed
  | vote envelope view seq event data moved =>
    rw [moved]
    match view, seq with
    | some view, some seq => exact vote_windowed windowed event data kept
    | none, _ => exact windowed
    | some _, none => exact windowed
  | announced envelope view seq event data moved =>
    rw [handle_new_view_views] at moved
    cases found : announcedView cfg m.1 h envelope view seq with
    | none => rw [moved, found]; exact windowed
    | some w =>
      rw [found] at moved
      rw [moved]
      refine leap_windowed windowed kept ?_ (fun k member => Or.inl member)
      simp [leap, event, data, found]
  | timeout pid p event held leads live moved =>
    rw [initiate_view_change_views] at moved
    rw [moved]
    refine leap_windowed windowed kept ?_ ?_
    · simp [leap, event, held, leads, live]
    · intro k member
      rcases List.mem_append.mp member with address | pubkey
      · rcases insert_key address with same | old
        · exact Or.inr same
        · exact Or.inl (List.mem_append_left _ old)
      · simp only [] at pubkey
        split at pubkey
        · rcases insert_key pubkey with same | old
          · exact Or.inr same
          · exact Or.inl (List.mem_append_right _ old)
        · exact Or.inl (List.mem_append_right _ pubkey)
  | slot next later moved => rw [moved]; exact ⟨windowed.whole, windowed.buckets⟩
  | reset p record leads later moved =>
    rw [moved]
    refine leap_windowed windowed kept ?_ (fun k member => Or.inl member)
    obtain ⟨tid, myTip, reply, event, -⟩ := opens_cases record
    simp [leap, event, record, leads]

theorem started_windowed (seq : ℚ) : (Hub.started seq : Hub Config).views.Windowed := by
  refine ⟨rfl, ?_⟩
  intro k member
  simp [Views.buckets, Hub.views, Hub.started] at member

end Bounded

/-- While counted views are whole and no move without votes leaves a bucket outside the
    window of its view, each tally holds at most the skew + 1 buckets, at every moment. -/
theorem view_buckets_bounded (cfg : Params Config) (seq : ℚ) {ms : List (Env × Event Config)}
    (kept : Admitted (step cfg) (WindowKept cfg) (Hub.started seq) ms)
    {before : List (Env × Event Config)} (moment : before <+: ms) :
    ((run (step cfg) (Hub.started seq) before).pendingViewChanges.keys.length : ℚ) ≤
        maxViewSkew + 1 ∧
      ((run (step cfg) (Hub.started seq) before).pendingViewChangePubkeys.keys.length : ℚ) ≤
        maxViewSkew + 1 := by
  obtain ⟨rest, rfl⟩ := moment
  have windowed : (run (step cfg) (Hub.started seq) before).views.Windowed :=
    run_invariant (fun h => h.views.Windowed) (fun _ _ => step_windowed) (started_windowed seq)
      (admitted_append.mp kept).1
  exact ⟨windowed.addresses, windowed.pubkeys⟩

section BucketSamples

def viewChangeFrom (addr key : String) (view seq : ℚ) : Envelope String :=
  ⟨addr, some key, .viewChange (some view) (some seq)⟩

/- One member names views a thousandth apart. -/
def fractionalVotes : List (Env × Event String) :=
  (List.range 102).map (fun i =>
    (fourHubs, .deliver (viewChangeFrom "h3" "k3" ((i : ℚ) / 1000) 1)))

/-- 102 views of one validator fill 102 buckets of both tallies. -/
theorem fractional_buckets_grow :
    let h := run (step (countParams "h0" "k0")) (Hub.started 0)
      ([(fourHubs, .deliver (prePrepareFrom "h1" "k1" "A" 1 0)),
        (fourHubs, .locked 0 (some 100) fourLock)] ++ fractionalVotes)
    h.pendingViewChanges.keys.length = 102 ∧ h.pendingViewChangePubkeys.keys.length = 102 := by
  decide +kernel

def announcedRound : List (Env × Event String) :=
  [(fourHubs, .deliver (prePrepareFrom "h1" "k1" "A" 1 0)), (fourHubs, .locked 0 (some 100) fourLock)]

def votesFor (view seq : ℚ) (voters : List (String × String)) : List (Env × Event String) :=
  voters.map (fun voter => (fourHubs, .deliver (viewChangeFrom voter.1 voter.2 view seq)))

/-- A round that is voted on to view 1 stays within the bound. -/
theorem whole_votes_bounded :
    ((run (step (countParams "h0" "k0")) (Hub.started 0) (announcedRound ++
      votesFor 1 1 [("h1", "k1"), ("h2", "k2"), ("h3", "k3")])).pendingViewChanges.keys.length : ℚ) ≤
        maxViewSkew + 1 :=
  (view_buckets_bounded (countParams "h0" "k0") 0 (by decide +kernel) (List.prefix_refl _)).1

end BucketSamples
section Ballots

/- A VIEW_CHANGE taken in: the change it is for, and the key that signed it. -/
structure Ballot where
  view : ℚ
  seq : ℚ
  key : String
  deriving DecidableEq

def Proposal.context (p : Proposal Config) : ViewChangeContext :=
  ⟨p.quorum, p.weighted, p.validators, p.memberPubkeys⟩

/- The quorum locked for a round this hub holds, or held when its own timeout fired. -/
def lockedContext (h : Hub Config) (seq : ℚ) : Option ViewChangeContext :=
  match h.pending seq with
  | some (_, p) => some p.context
  | none => h.viewChangeQuorums.lookup seq

variable (cfg : Params Config)

/- The vote a step casts: one delivered from a validator, or this hub's own. -/
def castBallot (h : Hub Config) (m : Env × Event Config) : Option Ballot :=
  match m.2 with
  | .deliver e =>
    match e.data with
    | .viewChange (some view) (some seq) =>
      if counted cfg m.1 h e view then
        (resolveSenderPubkey cfg m.1 e).map (fun key => ⟨view, seq, key⟩)
      else none
    | _ => none
  | .leaderTimeout pid =>
    (h.proposals[pid]?.filter (fun p => p.leader && !p.resolved)).bind
      (fun p => (selfPubkey cfg).map (fun key => ⟨h.view + 1, p.seq, key⟩))
  | _ => none

def roundContext (h : Hub Config) (m : Env × Event Config) (seq : ℚ) : Option ViewChangeContext :=
  match m.2 with
  | .leaderTimeout pid => h.proposals[pid]?.map Proposal.context
  | _ => lockedContext h seq

/- Who voted for exactly this change. -/
def voters (ballots : List Ballot) (view seq : ℚ) : OrderedSet String :=
  .ofList ((ballots.filter (fun b => b.view = view && b.seq = seq)).map Ballot.key)

def reaches (ctx : ViewChangeContext) (voters : OrderedSet String) : Bool :=
  if ctx.weighted then
    StakeWeightedQuorum.meetsStakeThreshold cfg.toLowerCase ctx.validators voters.items
  else ctx.quorum ≤ voters.size

/- A hub beside the votes cast so far; those at or below a view that was elected are spent. -/
structure Polled (Config : Type) where
  hub : Hub Config
  ballots : List Ballot

/- The change that the voters for it bring to its round's quorum with the vote of this step. -/
def electedChange (s : Polled Config) (m : Env × Event Config) : Option (ℚ × ℚ) :=
  (castBallot cfg s.hub m).bind (fun b => (roundContext s.hub m b.seq).bind (fun ctx =>
    if reaches cfg ctx (voters (s.ballots ++ [b]) b.view b.seq) then some (b.view, b.seq)
    else none))

def Polled.step (s : Polled Config) (m : Env × Event Config) : Polled Config where
  hub := Pbft.step cfg s.hub m
  ballots := (s.ballots ++ (castBallot cfg s.hub m).toList).filter
    (fun b => (electedChange cfg s m).all (fun change => change.1 < b.view))

/- The change that handleViewChange accepts in a step. -/
def acceptedChange (h : Hub Config) (m : Env × Event Config) : Option (ℚ × ℚ) :=
  match m.2 with
  | .deliver e =>
    match e.data with
    | .viewChange (some view) (some seq) =>
      if counted cfg m.1 h e view && contextMet cfg m.1 h e view seq then some (view, seq) else none
    | _ => none
  | _ => none

def ownTimeout (m : Env × Event Config) : Option ℕ :=
  match m.2 with
  | .leaderTimeout pid => some pid
  | _ => none

/- A vote joins only votes for its own sequence, and its round's quorum is locked. An own
   vote is cast by stake, and does not complete the quorum by itself. -/
structure Countable (s : Polled Config) (m : Env × Event Config) : Prop where
  alone : ∀ b ∈ castBallot cfg s.hub m, ∀ other ∈ s.ballots, other.view = b.view →
    other.seq = b.seq
  locked : ∀ b ∈ castBallot cfg s.hub m, ∃ ctx ∈ roundContext s.hub m b.seq, ctx.quorum ≠ 0
  own : ∀ pid ∈ ownTimeout m, (castBallot cfg s.hub m).isSome → electedChange cfg s m = none ∧
    ∃ p ∈ s.hub.proposals[pid]?, p.weighted = true

instance (s : Polled Config) (m : Env × Event Config) : Decidable (Countable cfg s m) :=
  decidable_of_iff
    ((∀ b ∈ castBallot cfg s.hub m, ∀ other ∈ s.ballots, other.view = b.view →
        other.seq = b.seq) ∧
      (∀ b ∈ castBallot cfg s.hub m, ∃ ctx ∈ roundContext s.hub m b.seq, ctx.quorum ≠ 0) ∧
      ∀ pid ∈ ownTimeout m, (castBallot cfg s.hub m).isSome → electedChange cfg s m = none ∧
        ∃ p ∈ s.hub.proposals[pid]?, p.weighted = true)
    ⟨fun all => ⟨all.1, all.2.1, all.2.2⟩, fun c => ⟨c.alone, c.locked, c.own⟩⟩

end Ballots
section Tallied
variable {cfg : Params Config} {s : Polled Config} {m : Env × Event Config}

def viewKeys (ballots : List Ballot) (view : ℚ) : OrderedSet String :=
  .ofList ((ballots.filter (fun b => b.view = view)).map Ballot.key)

/- The key tally of a hub is that of the votes cast. -/
def Tallied (s : Polled Config) : Prop :=
  ∀ view, (s.hub.pendingViewChangePubkeys.lookup view).getD .empty = viewKeys s.ballots view

theorem view_keys_cast {ballots : List Ballot} {b : Ballot} :
    viewKeys (ballots ++ [b]) b.view = (viewKeys ballots b.view).add b.key := by
  simp [viewKeys, OrderedSet.ofList]

theorem view_keys_other {ballots : List Ballot} {b : Ballot} {view : ℚ} (other : view ≠ b.view) :
    viewKeys (ballots ++ [b]) view = viewKeys ballots view := by
  simp [viewKeys, Ne.symm other]

theorem view_keys_spent {ballots : List Ballot} {elected view : ℚ} :
    viewKeys (ballots.filter (fun b => elected < b.view)) view =
      if elected < view then viewKeys ballots view else .empty := by
  simp only [viewKeys, List.filter_filter]
  split
  · rename_i later
    congr 2
    apply List.filter_congr
    intro b _
    by_cases same : b.view = view
    · simp [same, later]
    · simp [same]
  · rename_i spent
    have none : ballots.filter (fun b => decide (b.view = view) && decide (elected < b.view)) = [] := by
      rw [List.filter_eq_nil_iff]
      intro b _ both
      simp only [Bool.and_eq_true, decide_eq_true_eq] at both
      exact spent (both.1 ▸ both.2)
    rw [none]
    rfl

/- Where a view's votes are all for one sequence, they are the votes for that change. -/
theorem voters_alone {ballots : List Ballot} {b : Ballot}
    (alone : ∀ other ∈ ballots, other.view = b.view → other.seq = b.seq) :
    voters (ballots ++ [b]) b.view b.seq = viewKeys (ballots ++ [b]) b.view := by
  rw [voters, viewKeys]
  congr 2
  apply List.filter_congr
  intro other member
  by_cases same : other.view = b.view
  · rcases List.mem_append.mp member with old | own
    · simp [same, alone other old same]
    · rw [List.mem_singleton.mp own]
      simp
  · simp [same]

/- With a key among the voters, the source's predicate asks what reaches asks. -/
theorem quorum_met_reaches {ctx : ViewChangeContext} {addrs keys : OrderedSet String}
    (keyed : 0 < keys.size) :
    quorumMet cfg ctx.quorum ctx.weighted ctx.validators addrs keys = reaches cfg ctx keys := by
  simp [quorumMet, reaches, keyed]

theorem locked_is_context {env : Env} {h : Hub Config} {seq : ℚ} {ctx : ViewChangeContext}
    (locked : lockedContext h seq = some ctx) : viewChangeContext cfg env h seq = ctx := by
  simp only [lockedContext] at locked
  simp only [viewChangeContext]
  cases held : h.pending seq with
  | some found =>
    rw [held] at locked
    exact Option.some.inj locked
  | none =>
    rw [held] at locked
    simp only [locked]

/- A counted vote has a proven key, so it is a ballot. -/
theorem counted_ballot {h : Hub Config} {envelope : Envelope Config} {view seq : ℚ}
    (event : m.2 = .deliver envelope) (data : envelope.data = .viewChange (some view) (some seq))
    (counts : counted cfg m.1 h envelope view = true) :
    ∃ key, resolveSenderPubkey cfg m.1 envelope = some key ∧
      castBallot cfg h m = some ⟨view, seq, key⟩ := by
  have known : isKnownSender cfg m.1 envelope = true := by
    simp only [counted, Bool.and_eq_true] at counts
    exact counts.2
  obtain ⟨key, -, resolved⟩ := known_sender_key cfg m.1 known
  exact ⟨key, resolved, by simp [castBallot, event, data, counts, resolved]⟩

theorem no_ballot_elects (silent : castBallot cfg s.hub m = none) : electedChange cfg s m = none := by
  simp [electedChange, silent]

theorem no_ballot_accepts (silent : castBallot cfg s.hub m = none) :
    acceptedChange cfg s.hub m = none := by
  simp only [acceptedChange]
  split
  · rename_i envelope event
    split
    · rename_i view seq data
      split
      · rename_i both
        simp only [Bool.and_eq_true] at both
        obtain ⟨key, -, cast⟩ := counted_ballot event data both.1
        rw [cast] at silent
        simp at silent
      · rfl
    · rfl
  · rfl

/- Without a ballot the key tally stays, up to an empty bucket. -/
theorem no_ballot_keys (silent : castBallot cfg s.hub m = none) (view : ℚ) :
    ((step cfg s.hub m).views.pendingViewChangePubkeys.lookup view).getD .empty =
      (s.hub.views.pendingViewChangePubkeys.lookup view).getD .empty := by
  have move := step_views cfg s.hub m
  cases move with
  | still same => rw [same]
  | vote envelope v seq event data moved =>
    rw [moved]
    match v, seq with
    | some v, some seq =>
      rw [handle_view_change_views]
      split
      · rename_i counts
        obtain ⟨key, -, cast⟩ := counted_ballot event data counts
        rw [cast] at silent
        simp at silent
      · rfl
    | none, _ => rfl
    | some _, none => rfl
  | announced envelope v seq event data moved => rw [moved, handle_new_view_views]
  | timeout pid p event held leads live moved =>
    have keyless : selfPubkey cfg = none := by
      simpa [castBallot, event, held, leads, live] using silent
    rw [moved, initiate_view_change_views]
    simp only []
    split
    · rw [addSelfPubkey, keyless]
      by_cases same : view = s.hub.view + 1
      · subst same
        simp [Hub.views]
      · rw [AList.lookup_insert_ne same]
        rfl
    · rfl
  | slot next later moved => rw [moved]
  | reset p record leads later moved => rw [moved]

theorem no_ballot_tallied (tallied : Tallied s) (silent : castBallot cfg s.hub m = none) :
    Tallied (s.step cfg m) := by
  intro view
  have keys := no_ballot_keys silent view
  have ballots : (s.step cfg m).ballots = s.ballots := by
    simp [Polled.step, silent, no_ballot_elects silent]
  rw [ballots, ← tallied view]
  exact keys

theorem cast_cases {h : Hub Config} {b : Ballot} (cast : castBallot cfg h m = some b) :
    (∃ envelope, m.2 = .deliver envelope ∧
      envelope.data = .viewChange (some b.view) (some b.seq) ∧
      counted cfg m.1 h envelope b.view = true ∧
      resolveSenderPubkey cfg m.1 envelope = some b.key) ∨
    ∃ pid p, m.2 = .leaderTimeout pid ∧ h.proposals[pid]? = some p ∧ p.leader = true ∧
      p.resolved = false ∧ selfPubkey cfg = some b.key ∧ b.view = h.view + 1 := by
  simp only [castBallot] at cast
  split at cast
  · rename_i envelope event
    split at cast
    · rename_i view seq data
      split at cast
      · rename_i counts
        obtain ⟨key, resolved, rfl⟩ := Option.map_eq_some_iff.mp cast
        exact Or.inl ⟨envelope, event, data, counts, resolved⟩
      · simp at cast
    · simp at cast
  · rename_i pid event
    obtain ⟨p, live, own⟩ := Option.bind_eq_some_iff.mp cast
    obtain ⟨held, leads⟩ := Option.filter_eq_some_iff.mp live
    simp only [Bool.and_eq_true, Bool.not_eq_true'] at leads
    obtain ⟨key, self, rfl⟩ := Option.map_eq_some_iff.mp own
    exact Or.inr ⟨pid, p, event, held, leads.1, leads.2, self, rfl⟩
  · simp at cast

section Delivered
variable {envelope : Envelope Config} {b : Ballot} (tallied : Tallied s)
  (event : m.2 = .deliver envelope)
  (data : envelope.data = .viewChange (some b.view) (some b.seq))
  (counts : counted cfg m.1 s.hub envelope b.view = true)
  (resolved : resolveSenderPubkey cfg m.1 envelope = some b.key)
  (cast : castBallot cfg s.hub m = some b) (countable : Countable cfg s m)

include tallied resolved in
theorem delivered_keys : countedKeys cfg m.1 s.hub envelope b.view =
    viewKeys (s.ballots ++ [b]) b.view := by
  rw [countedKeys, addSenderPubkey, resolved, tallied b.view, view_keys_cast]

include event in
theorem delivered_context (cfg : Params Config) {ctx : ViewChangeContext}
    (locked : roundContext s.hub m b.seq = some ctx) :
    viewChangeContext cfg m.1 s.hub b.seq = ctx := by
  refine locked_is_context ?_
  rw [← locked, roundContext, event]

include tallied event resolved cast countable in
/- The source's predicate on the tally of the view is the quorum of the voters for the change. -/
theorem delivered_elects :
    electedChange cfg s m =
      if contextMet cfg m.1 s.hub envelope b.view b.seq then some (b.view, b.seq) else none := by
  obtain ⟨ctx, locked, quorum⟩ := countable.locked b cast
  have found := delivered_context event cfg locked
  have keyed : 0 < (viewKeys (s.ballots ++ [b]) b.view).size := by
    rw [view_keys_cast]
    exact OrderedSet.size_add_pos _ _
  have met : contextMet cfg m.1 s.hub envelope b.view b.seq =
      reaches cfg ctx (viewKeys (s.ballots ++ [b]) b.view) := by
    simp [contextMet, found, quorum, delivered_keys tallied resolved, quorum_met_reaches keyed]
  simp only [electedChange, cast, Option.bind_some]
  rw [locked, Option.bind_some, voters_alone (countable.alone b cast), met]

include event data counts in
theorem delivered_accepts :
    acceptedChange cfg s.hub m =
      if contextMet cfg m.1 s.hub envelope b.view b.seq then some (b.view, b.seq) else none := by
  simp [acceptedChange, event, data, counts]

include tallied resolved in
theorem delivered_bucket (view : ℚ) :
    ((s.hub.pendingViewChangePubkeys.insert b.view
      (countedKeys cfg m.1 s.hub envelope b.view)).lookup view).getD .empty =
      viewKeys (s.ballots ++ [b]) view := by
  by_cases same : view = b.view
  · subst same
    rw [AList.lookup_insert, delivered_keys tallied resolved]
    rfl
  · rw [AList.lookup_insert_ne same, tallied view, view_keys_other same]

include tallied event data counts resolved cast countable in
theorem delivered_tallied : Tallied (s.step cfg m) := by
  have elects := delivered_elects tallied event resolved cast countable
  obtain ⟨ctx, locked, quorum⟩ := countable.locked b cast
  have found := delivered_context event cfg locked
  have after : (step cfg s.hub m).views =
      (handleViewChange cfg m.1 s.hub envelope (some b.view) (some b.seq)).views := by
    simp [step, event, handleMessage, data]
  rw [handle_view_change_views, if_pos counts] at after
  intro view
  change ((step cfg s.hub m).views.pendingViewChangePubkeys.lookup view).getD .empty = _
  simp only [Polled.step, cast, Option.toList_some]
  rw [after, elects]
  split
  · -- accepted: the votes of this view and of earlier ones are spent on both sides
    simp only [Option.all_some]
    rw [pruned_lookup, view_keys_spent]
    split
    · exact delivered_bucket tallied resolved view
    · rfl
  · simp only [found, quorum, if_false, Option.all_none, List.filter_true]
    exact delivered_bucket tallied resolved view

end Delivered

theorem timeout_tallied {b : Ballot} (tallied : Tallied s) (countable : Countable cfg s m)
    (cast : castBallot cfg s.hub m = some b) {pid : ℕ} {p : Proposal Config}
    (event : m.2 = .leaderTimeout pid) (held : s.hub.proposals[pid]? = some p)
    (leads : p.leader = true) (live : p.resolved = false)
    (self : selfPubkey cfg = some b.key) (next : b.view = s.hub.view + 1) :
    Tallied (s.step cfg m) := by
  obtain ⟨silent, q, found, weighted⟩ := countable.own pid (by simp [ownTimeout, event])
    (by rw [cast]; rfl)
  rw [Option.mem_def, held] at found
  cases found
  have after : (step cfg s.hub m).views = (initiateViewChange cfg s.hub p.seq p.context).views := by
    simp only [step, event, leaderTimeout, held, leads, live]
    rfl
  rw [initiate_view_change_views] at after
  intro view
  change ((step cfg s.hub m).views.pendingViewChangePubkeys.lookup view).getD .empty = _
  simp only [Polled.step, cast, silent, Option.toList_some, Option.all_none, List.filter_true]
  rw [after]
  simp only [Proposal.context, weighted, if_true, addSelfPubkey, self]
  rw [← next, tallied b.view, ← view_keys_cast]
  by_cases same : view = b.view
  · subst same
    rw [AList.lookup_insert]
    rfl
  · rw [AList.lookup_insert_ne same, tallied view, view_keys_other same]

theorem step_tallied (tallied : Tallied s) (countable : Countable cfg s m) :
    Tallied (s.step cfg m) := by
  cases cast : castBallot cfg s.hub m with
  | none => exact no_ballot_tallied tallied cast
  | some b =>
    rcases cast_cases cast with ⟨envelope, event, data, counts, resolved⟩ |
      ⟨pid, p, event, held, leads, live, self, next⟩
    · exact delivered_tallied tallied event data counts resolved cast countable
    · exact timeout_tallied tallied countable cast event held leads live self next

theorem elected_accepted (tallied : Tallied s) (countable : Countable cfg s m) :
    acceptedChange cfg s.hub m = electedChange cfg s m := by
  cases cast : castBallot cfg s.hub m with
  | none => rw [no_ballot_accepts cast, no_ballot_elects cast]
  | some b =>
    rcases cast_cases cast with ⟨envelope, event, data, counts, resolved⟩ |
      ⟨pid, p, event, held, leads, live, self, next⟩
    · rw [delivered_accepts event data counts, delivered_elects tallied event resolved cast countable]
    · rw [(countable.own pid (by simp [ownTimeout, event]) (by rw [cast]; rfl)).1,
        acceptedChange, event]

end Tallied

def Polled.started (seq : ℚ) : Polled Config := ⟨Hub.started seq, []⟩

theorem polled_hub (cfg : Params Config) (s : Polled Config) (ms : List (Env × Event Config)) :
    (run (Polled.step cfg) s ms).hub = run (step cfg) s.hub ms := by
  induction ms generalizing s with
  | nil => rfl
  | cons m rest ih => exact ih (s.step cfg m)

/-- While each vote joins only votes for its own sequence and its round's quorum is locked, and
    own votes are cast by stake and do not complete a quorum, every step accepts the change
    that its vote brings to quorum, and no other. -/
theorem view_votes_tallied (cfg : Params Config) (seq : ℚ) {before : List (Env × Event Config)}
    {m : Env × Event Config}
    (countable : Admitted (Polled.step cfg) (Countable cfg) (.started seq) (before ++ [m])) :
    acceptedChange cfg (run (step cfg) (Hub.started seq) before) m =
      electedChange cfg (run (Polled.step cfg) (.started seq) before) m := by
  obtain ⟨past, now, -⟩ := admitted_append.mp countable
  have start : Tallied (.started seq : Polled Config) := fun _ => rfl
  have same : (run (Polled.step cfg) (.started seq) before).hub =
      run (step cfg) (Hub.started seq) before := polled_hub cfg _ before
  rw [← same]
  exact elected_accepted (run_invariant Tallied (fun _ _ => step_tallied) start past) now

section BallotSamples

/- k1's round of sequence 1 has timed out, and one peer has voted for view 1. -/
def ownVote : List (Env × Event String) :=
  proposals ["A"] ++ [(fourHubs, .leaderTimeout 0)] ++ votesFor 1 1 [("h2", "k2")]

/- Rounds of the sequences 1 and 2 are open at k0, and two peers have voted on the first. -/
def twoRounds : List (Env × Event String) :=
  announcedRound ++ [(fourHubs, .deliver (prePrepareFrom "h2" "k2" "B" 2 0)),
    (fourHubs, .locked 1 (some 100) fourLock)] ++ votesFor 1 1 [("h1", "k1"), ("h2", "k2")]

def voteOf (addr key : String) (seq : ℚ) : Env × Event String :=
  (fourHubs, .deliver (viewChangeFrom addr key 1 seq))

/- Both runs with the view changes that their last votes elect and have accepted. -/
def misread : { runs : List (Env × Event String) × List (Env × Event String) //
    (electedChange h1Params (run (Polled.step h1Params) (.started 0) runs.1)
        (voteOf "h3" "k3" 1) = some (1, 1) ∧
      acceptedChange h1Params (run (step h1Params) (Hub.started 0) runs.1)
        (voteOf "h3" "k3" 1) = none) ∧
    electedChange (countParams "h0" "k0") (run (Polled.step (countParams "h0" "k0")) (.started 0)
        runs.2) (voteOf "h3" "k3" 2) = none ∧
      acceptedChange (countParams "h0" "k0") (run (step (countParams "h0" "k0")) (Hub.started 0)
        runs.2) (voteOf "h3" "k3" 2) = some (1, 2) } :=
  ⟨(ownVote, twoRounds), by decide +kernel⟩

/-- Three of four have voted for view 1 of sequence 1, the hub itself among them, and it is
    not accepted; one vote for view 1 of sequence 2 is, on two votes for sequence 1. -/
theorem view_votes_misread :
    (electedChange h1Params (run (Polled.step h1Params) (.started 0) ownVote)
        (voteOf "h3" "k3" 1) = some (1, 1) ∧
      acceptedChange h1Params (run (step h1Params) (Hub.started 0) ownVote)
        (voteOf "h3" "k3" 1) = none) ∧
    electedChange (countParams "h0" "k0") (run (Polled.step (countParams "h0" "k0")) (.started 0)
        twoRounds) (voteOf "h3" "k3" 2) = none ∧
      acceptedChange (countParams "h0" "k0") (run (step (countParams "h0" "k0")) (Hub.started 0)
        twoRounds) (voteOf "h3" "k3" 2) = some (1, 2) :=
  misread.property

/-- A follower of one round accepts view 1 on its third vote. -/
theorem third_vote_accepted :
    acceptedChange (countParams "h0" "k0") (run (step (countParams "h0" "k0")) (Hub.started 0)
      (announcedRound ++ votesFor 1 1 [("h1", "k1"), ("h2", "k2")])) (voteOf "h3" "k3" 1) =
        some (1, 1) :=
  (view_votes_tallied (countParams "h0" "k0") 0 (by decide +kernel)).trans (by decide +kernel)

end BallotSamples
end XChainHub.Pbft
