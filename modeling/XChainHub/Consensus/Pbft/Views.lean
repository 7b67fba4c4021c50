import XChainHub.Consensus.Pbft.Sequence

/-!
What moves a hub's view and its view-change tallies: VIEW_CHANGE and NEW_VIEW envelopes,
the leader's own timeout, and propose(), which takes a slot and resets the view. Nothing
else touches them.
-/
namespace XChainHub.Pbft
open GuardedRuns

variable {Config : Type}

structure Views where
  seq : ℚ
  view : ℚ
  pendingViewChanges : AList (fun _ : ℚ => OrderedSet String)
  pendingViewChangePubkeys : AList (fun _ : ℚ => OrderedSet String)
  viewChangeQuorums : AList (fun _ : ℚ => ViewChangeContext)

def Hub.views (h : Hub Config) : Views :=
  ⟨h.seq, h.view, h.pendingViewChanges, h.pendingViewChangePubkeys, h.viewChangeQuorums⟩

section Frames
variable {cfg : Params Config} {env : Env} {h : Hub Config}

@[simp] theorem modify_views (pid : ℕ) (f : Proposal Config → Proposal Config) :
    (h.modify pid f).views = h.views := rfl

@[simp] theorem emit_views (o : Output Config) : (h.emit o).views = h.views := rfl

@[simp] theorem forget_views (seq : ℚ) : (h.forget seq).views = h.views := rfl

@[simp] theorem open_views (p : Proposal Config) : (h.openRecord p).views = h.views := rfl

@[simp] theorem finish_views (tid : ℕ) : (h.finishTask tid).views = h.views := rfl

@[simp] theorem buffer_early_vote_views (seq : ℚ) (envelope : Envelope Config) :
    (bufferEarlyVote cfg env h seq envelope).views = h.views := by
  simp only [bufferEarlyVote]
  split
  · rfl
  · split
    · rfl
    · split <;> rfl

@[simp] theorem check_commit_quorum_views (seq : ℚ) :
    (checkCommitQuorum cfg h seq).views = h.views := by
  simp only [checkCommitQuorum]
  split
  · rfl
  · split
    · rfl
    · split <;> rfl

@[simp] theorem check_prepare_quorum_views (seq : ℚ) :
    (checkPrepareQuorum cfg h seq).views = h.views := by
  simp only [checkPrepareQuorum]
  split
  · rfl
  · split
    · rfl
    · split
      · split
        · rfl
        · simp
      · rfl

theorem handle_prepare_views (envelope : Envelope Config) (seq : Option ℚ)
    (digest : Option String) : (handlePrepare cfg env h envelope seq digest).views = h.views := by
  simp only [handlePrepare]
  split
  · split
    · rfl
    · split
      · rfl
      · split
        · simp
        · split
          · rfl
          · simp
  · rfl

theorem handle_commit_views (envelope : Envelope Config) (seq : Option ℚ)
    (digest : Option String) : (handleCommit cfg env h envelope seq digest).views = h.views := by
  simp only [handleCommit]
  split
  · split
    · rfl
    · split
      · rfl
      · split
        · simp
        · split
          · rfl
          · simp
  · rfl

theorem handle_vote_views (h : Hub Config) (envelope : Envelope Config) :
    (handleVote cfg env h envelope).views = h.views := by
  simp only [handleVote]
  split
  · exact handle_prepare_views envelope _ _
  · exact handle_commit_views envelope _ _
  · rfl

theorem handle_votes_views (votes : List (Envelope Config)) (h : Hub Config) :
    (votes.foldl (handleVote cfg env) h).views = h.views := by
  induction votes generalizing h with
  | nil => rfl
  | cons e rest ih => rw [List.foldl_cons, ih, handle_vote_views]

@[simp] theorem replay_early_votes_views (seq : ℚ) :
    (replayEarlyVotes cfg env h seq).views = h.views := by
  simp only [replayEarlyVotes]
  split
  · rfl
  · split
    · rfl
    · exact handle_votes_views _ (h.drain seq)

@[simp] theorem cast_prepare_views (envelope : Envelope Config) (seq : ℚ) (digest : String) :
    (castPrepare cfg env h envelope seq digest).views = h.views := by
  simp only [castPrepare]
  split
  · rfl
  · split
    · rfl
    · simp

theorem handle_pre_prepare_views (envelope : Envelope Config) (seq view : Option ℚ)
    (digest : Option String) (config : Option Config) (height : Option ℚ) :
    (handlePrePrepare cfg env h envelope seq view digest config height).views = h.views := by
  simp only [handlePrePrepare]
  split
  · rfl
  · split
    · split
      · simp
      · rfl
    · split <;> rfl

theorem config_applied_views (pid : ℕ) (ok : Bool) :
    (configApplied h pid ok).views = h.views := by
  simp only [configApplied, unlockFailedApply]
  split
  · rfl
  · split
    · rfl
    · split
      · rfl
      · split <;> rfl

theorem seq_saved_views (pid : ℕ) (ok : Bool) : (seqSaved h pid ok).views = h.views := by
  simp only [seqSaved, persistAppliedRound, unlockFailedApply]
  split
  · rfl
  · split
    · rfl
    · split
      · split <;> rfl
      · split <;> rfl

theorem follower_expiry_views (pid : ℕ) : (followerExpiry h pid).views = h.views := by
  simp only [followerExpiry]
  split
  · rfl
  · split <;> rfl

theorem announce_round_views (pid : ℕ) (p : Proposal Config) :
    (announceRound cfg h pid p).views = h.views := by
  simp [announceRound]

end Frames
section Moves
variable {cfg : Params Config} {h : Hub Config} {m : Env × Event Config}

/- The ways a step can go as far as views are concerned. -/
inductive ViewMove (cfg : Params Config) (h : Hub Config) (m : Env × Event Config)
    (after : Views) : Prop where
  | still (same : after = h.views)
  | vote (envelope : Envelope Config) (view seq : Option ℚ) (event : m.2 = .deliver envelope)
      (data : envelope.data = .viewChange view seq)
      (moved : after = (handleViewChange cfg m.1 h envelope view seq).views)
  | announced (envelope : Envelope Config) (view seq : Option ℚ)
      (event : m.2 = .deliver envelope) (data : envelope.data = .newView view seq)
      (moved : after = (handleNewView cfg m.1 h envelope view seq).views)
  | timeout (pid : ℕ) (p : Proposal Config) (event : m.2 = .leaderTimeout pid)
      (held : h.proposals[pid]? = some p) (leads : p.leader = true) (live : p.resolved = false)
      (moved : after = (initiateViewChange cfg h p.seq
        ⟨p.quorum, p.weighted, p.validators, p.memberPubkeys⟩).views)
  | slot (seq : ℚ) (later : h.seq < seq) (moved : after = { h.views with seq })
  | reset (p : Proposal Config) (record : opens cfg h m = some p) (leads : p.leader = true)
      (later : h.seq < p.seq) (moved : after = { h.views with seq := p.seq, view := 0 })

theorem leader_timeout_views (cfg : Params Config) (h : Hub Config) (pid : ℕ) :
    (leaderTimeout cfg h pid).views = h.views ∨ ∃ p, h.proposals[pid]? = some p ∧
      p.leader = true ∧ p.resolved = false ∧ (leaderTimeout cfg h pid).views =
        (initiateViewChange cfg h p.seq
          ⟨p.quorum, p.weighted, p.validators, p.memberPubkeys⟩).views := by
  simp only [leaderTimeout]
  split
  · exact Or.inl rfl
  · rename_i p held
    split
    · exact Or.inl rfl
    · rename_i live
      simp only [Bool.or_eq_true, Bool.not_eq_true', not_or, Bool.not_eq_false,
        Bool.not_eq_true] at live
      exact Or.inr ⟨p, held, live.1, live.2, rfl⟩

theorem propose_not_leader {env : Env} {config : Config} {reply : LockReply} {next : ℚ}
    (outcome : proposeOutcome cfg env h config reply = .notLeader next) :
    next = max h.seq h.lastAppliedSeq + 1 := by
  simp only [proposeOutcome] at outcome
  split at outcome
  · simp at outcome
  · split at outcome
    · split at outcome
      · simp at outcome
      · split at outcome <;> simp at outcome
    · split at outcome
      · exact (ProposeOutcome.notLeader.inj outcome).symm
      · simp at outcome

theorem next_slot (h : Hub Config) : h.seq < max h.seq h.lastAppliedSeq + 1 := by
  have slot := le_max_left h.seq h.lastAppliedSeq
  linarith

/-- The only ways a step moves the view or its tallies. -/
theorem step_views (cfg : Params Config) (h : Hub Config) (m : Env × Event Config) :
    ViewMove cfg h m (step cfg h m).views := by
  obtain ⟨env, event⟩ := m
  cases event with
  | deliver envelope =>
    simp only [step, handleMessage]
    split
    · exact .still (handle_pre_prepare_views _ _ _ _ _ _)
    · exact .still (handle_prepare_views _ _ _)
    · exact .still (handle_commit_views _ _ _)
    · rename_i view seq data
      exact .vote envelope view seq rfl data rfl
    · rename_i view seq data
      exact .announced envelope view seq rfl data rfl
  | propose config => exact .still rfl
  | locked tid myTip reply =>
    simp only [step, resume]
    split
    · exact .still rfl
    · split
      · exact .still rfl
      · exact .still (by simp)
    · rename_i config held
      split
      · exact .still rfl
      · exact .still rfl
      · rename_i next outcome
        rw [propose_not_leader outcome]
        exact .slot _ (next_slot h) rfl
      · rename_i p outcome
        have record : opens cfg h (env, .locked tid myTip reply) = some p := by
          simp only [opens, held, outcome]
        obtain ⟨weighted, height, shape, -⟩ := propose_round outcome
        refine .reset p record (by rw [shape]; rfl) (by rw [shape]; exact next_slot h) ?_
        rw [announce_round_views]
        rfl
  | leaderTimeout pid =>
    rcases leader_timeout_views cfg h pid with
      same | ⟨p, held, leads, live, moved⟩
    · exact .still same
    · exact .timeout pid p rfl held leads live moved
  | followerExpiry pid => exact .still (follower_expiry_views pid)
  | configApplied pid ok => exact .still (config_applied_views pid ok)
  | seqSaved pid ok => exact .still (seq_saved_views pid ok)

end Moves
section Tallies
variable (cfg : Params Config) (env : Env) (h : Hub Config) (envelope : Envelope Config)
  (view seq : ℚ)

/- The votes for a view once this one is in: by address, and by signing key. -/
def countedAddrs : OrderedSet String :=
  (((h.pendingViewChanges.lookup view).getD .empty).add envelope.sender)

def countedKeys : OrderedSet String :=
  addSenderPubkey cfg env envelope ((h.pendingViewChangePubkeys.lookup view).getD .empty)

/- What a VIEW_CHANGE must pass to be counted, and what it takes to be accepted. -/
def inWindow : Bool := h.view ≤ view && view ≤ h.view + maxViewSkew

def counted : Bool := inWindow h view && isKnownSender cfg env envelope

def contextMet : Bool :=
  let ctx := viewChangeContext cfg env h seq
  ctx.quorum ≠ 0 && quorumMet cfg ctx.quorum ctx.weighted ctx.validators
    (countedAddrs h envelope view) (countedKeys cfg env h envelope view)

/-- A VIEW_CHANGE is dropped, taken in, or taken in and accepted. -/
theorem handle_view_change_views : (handleViewChange cfg env h envelope (some view) (some seq)).views =
    if counted cfg env h envelope view then
      if contextMet cfg env h envelope view seq then
        { h.views with
          view := view
          pendingViewChanges := eraseKeys (· < view)
            ((addVote h.pendingViewChanges view envelope.sender).erase view)
          pendingViewChangePubkeys := eraseKeys (· < view) ((h.pendingViewChangePubkeys.insert view
            (countedKeys cfg env h envelope view)).erase view)
          viewChangeQuorums := h.viewChangeQuorums.erase seq }
      else
        { h.views with
          pendingViewChanges := addVote h.pendingViewChanges view envelope.sender
          pendingViewChangePubkeys :=
            if (viewChangeContext cfg env h seq).quorum = 0 then h.pendingViewChangePubkeys
            else h.pendingViewChangePubkeys.insert view (countedKeys cfg env h envelope view) }
    else h.views := by
  have context : viewChangeContext cfg env { h with
      pendingViewChanges := addVote h.pendingViewChanges view envelope.sender } seq =
      viewChangeContext cfg env h seq := rfl
  have addrs : ((addVote h.pendingViewChanges view envelope.sender).lookup view).getD .empty =
      countedAddrs h envelope view := by
    simp [addVote, countedAddrs]
  simp only [handleViewChange]
  split
  · rename_i outside
    have out : inWindow h view = false := by
      rcases (Bool.or_eq_true _ _).mp outside with low | high
      · simp only [decide_eq_true_eq] at low
        simp [inWindow, not_le.mpr low]
      · simp only [decide_eq_true_eq] at high
        simp [inWindow, not_le.mpr high]
    simp [counted, out]
  · rename_i inside
    have within : inWindow h view = true := by
      simpa [inWindow] using inside
    split
    · rename_i unknown
      have unknown : isKnownSender cfg env envelope = false := by simpa using unknown
      simp [counted, within, unknown]
    · rename_i known
      have known : isKnownSender cfg env envelope = true := by simpa using known
      simp only [counted, within, known, Bool.and_self, if_true, context, addrs]
      by_cases none : (viewChangeContext cfg env h seq).quorum = 0
      · simp [none, contextMet, Hub.views]
      · simp only [none, if_false, contextMet, countedKeys]
        split
        · rename_i met
          simp only [ne_eq, none, not_false_eq_true, decide_true, Bool.true_and, met, if_true]
          simp only [acceptViewChange]
          split <;> rfl
        · rename_i unmet
          simp only [ne_eq, none, not_false_eq_true, decide_true, Bool.true_and, unmet,
            Bool.false_eq_true, if_false]
          rfl

/- The view an authentic NEW_VIEW announces, where it lies ahead. -/
def announcedView (view seq : Option ℚ) : Option ℚ :=
  match view, seq with
  | some view, some seq =>
    if h.view < view && isLeaderIdentity cfg (leaderAt cfg env seq view (memberPubkeysForSeq h seq))
        envelope.sender (resolveSenderPubkey cfg env envelope) then some view
    else none
  | _, _ => none

/-- A NEW_VIEW moves the view to the one it announces or does nothing. -/
theorem handle_new_view_views (view seq : Option ℚ) :
    (handleNewView cfg env h envelope view seq).views =
      { h.views with view := (announcedView cfg env h envelope view seq).getD h.view } := by
  match view, seq with
  | none, _ => rfl
  | some _, none => rfl
  | some view, some seq =>
    simp only [handleNewView, announcedView]
    split
    · rename_i behind
      simp [not_lt.mpr behind, Hub.views]
    · rename_i ahead
      simp only [not_le.mp ahead, decide_true, Bool.true_and]
      split <;> rfl

theorem announced_ahead {view seq : Option ℚ} {v : ℚ}
    (announced : announcedView cfg env h envelope view seq = some v) : h.view < v := by
  simp only [announcedView] at announced
  split at announced
  · split at announced
    · rename_i ahead
      simp only [Bool.and_eq_true, decide_eq_true_eq] at ahead
      rw [← Option.some.inj announced]
      exact ahead.1
    · simp at announced
  · simp at announced

theorem initiate_view_change_views (ctx : ViewChangeContext) :
    (initiateViewChange cfg h seq ctx).views =
      { h.views with
        view := h.view + 1
        pendingViewChanges := addVote h.pendingViewChanges (h.view + 1) cfg.validatorAddr
        pendingViewChangePubkeys :=
          if ctx.weighted then h.pendingViewChangePubkeys.insert (h.view + 1) (addSelfPubkey cfg
            ((h.pendingViewChangePubkeys.lookup (h.view + 1)).getD .empty))
          else h.pendingViewChangePubkeys
        viewChangeQuorums :=
          (eraseKeys (· ≤ h.lastAppliedSeq) h.viewChangeQuorums).insert seq ctx } := rfl

end Tallies
section Forward
variable {cfg : Params Config} {h : Hub Config}

/- Views and slots start at zero or above and only propose() lowers the view, to zero. -/
def Forward (h : Hub Config) : Prop := 0 ≤ h.views.view ∧ 0 ≤ h.views.seq

theorem step_forward (forward : Forward h) (m : Env × Event Config) :
    Forward (step cfg h m) := by
  obtain ⟨view, seq⟩ := forward
  have move := step_views cfg h m
  rw [Forward]
  cases move with
  | still same => rw [same]; exact ⟨view, seq⟩
  | vote envelope v s event data moved =>
    rw [moved]
    match v, s with
    | some v, some s =>
      rw [handle_view_change_views]
      split
      · rename_i counts
        simp only [counted, inWindow, Bool.and_eq_true, decide_eq_true_eq] at counts
        split
        · exact ⟨le_trans view counts.1.1, seq⟩
        · exact ⟨view, seq⟩
      · exact ⟨view, seq⟩
    | none, _ => exact ⟨view, seq⟩
    | some _, none => exact ⟨view, seq⟩
  | announced envelope v s event data moved =>
    rw [moved]
    rw [handle_new_view_views]
    refine ⟨?_, seq⟩
    cases found : announcedView cfg m.1 h envelope v s with
    | none => exact view
    | some w => exact le_trans view (le_of_lt (announced_ahead cfg m.1 h envelope found))
  | timeout pid p event held leads live moved =>
    rw [moved, initiate_view_change_views]
    have view : 0 ≤ h.view := view
    exact ⟨by simp only []; linarith, seq⟩
  | slot next later moved => rw [moved]; exact ⟨view, le_trans seq (le_of_lt later)⟩
  | reset p record leads later moved => rw [moved]; exact ⟨le_refl _, le_trans seq (le_of_lt later)⟩

theorem run_forward (cfg : Params Config) {seq : ℚ} (start : 0 ≤ seq)
    (ms : List (Env × Event Config)) : Forward (run (step cfg) (Hub.started seq) ms) := by
  have started : Forward (Hub.started seq : Hub Config) := ⟨le_refl _, start⟩
  exact run_preserves Forward (fun _ m forward => step_forward forward m) started ms

end Forward
end XChainHub.Pbft
