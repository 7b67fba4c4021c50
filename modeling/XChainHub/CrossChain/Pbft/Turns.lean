import XChainHub.CrossChain.Pbft.Published

/-!
What moves the canonical, the view, the view-change votes and the membership of a round,
event by event. Everything else a handler does leaves the four alone, parks or says
something, or puts the delivered message by.
-/
namespace XChainHub.CrossChain
open StakeWeightedQuorum (Snapshot)

variable {R : Type}

structure Turn where
  matchId : String
  canonical : String
  view : ℚ
  viewChanges : OrderedMap ℚ (OrderedSet String)
  binding : Binding

def Round.turn (p : Round R) : Turn := ⟨p.matchId, p.canonical, p.view, p.viewChanges, p.binding⟩

/- A message put by, in a bucket or drained from one. -/
def Waits (h : Hub R) (m : Message R) : Prop :=
  m ∈ h.replaying ∨ ∃ b ∈ h.earlyMessages, m ∈ b.messages

/- Rows and votes of a round are signed only as sign allows. -/
def Output.Allowed (sign : String → Payload → Prop) : Output R → Prop
  | .signed id (.artifact c) => sign id (.artifact c)
  | .signed id (.commit c) => sign id (.commit c)
  | _ => True

/- A parked PROPOSE passed the synchronous checks. -/
def Task.Checked (cfg : Params R) : Task R → Prop
  | .validate o => o.Sound cfg
  | .adopt o _ => o.Sound cfg
  | _ => True

/- The rounds of h are those of after, up to votes and a finalization; only new messages
   are put by, and only what sign allows is signed. -/
structure Kept (cfg : Params R) (new : Message R → Prop) (sign : String → Payload → Prop)
    (h after : Hub R) : Prop where
  heap : ∀ (rid : ℕ) (p : Round R), h.rounds[rid]? = some p → ∃ p' : Round R,
    after.rounds[rid]? = some p' ∧ p'.turn = p.turn ∧ (p'.finalized = false → p.finalized = false)
  sized : after.rounds.length = h.rounds.length
  map : after.pending = h.pending
  waits : ∀ m, Waits after m → Waits h m ∨ new m
  said : ∃ os, after.trace = h.trace ++ os ∧ ∀ o ∈ os, o.Allowed sign
  parks : ∀ t, some t ∈ after.tasks → some t ∈ h.tasks ∨ t.Checked cfg

section Frames
variable {new : Message R → Prop} {sign : String → Payload → Prop} {cfg : Params R} {env : Env} {h a b c : Hub R}

theorem Kept.refl (h : Hub R) : Kept cfg new sign h h :=
  ⟨fun _ p record => ⟨p, record, rfl, id⟩, rfl, rfl, fun _ => Or.inl, ⟨[], by simp, by simp⟩,
    fun _ => Or.inl⟩

theorem Kept.trans (first : Kept cfg new sign a b) (second : Kept cfg new sign b c) : Kept cfg new sign a c := by
  refine ⟨?_, second.sized.trans first.sized, second.map.trans first.map, ?_, ?_, ?_⟩
  · intro rid p record
    obtain ⟨q, there, same, live⟩ := first.heap rid p record
    obtain ⟨r, onward, alike, fresh⟩ := second.heap rid q there
    exact ⟨r, onward, alike.trans same, fun unfinished => live (fresh unfinished)⟩
  · intro m waits
    rcases second.waits m waits with old | fresh
    · exact first.waits m old
    · exact Or.inr fresh
  · obtain ⟨os, there, allowed⟩ := first.said
    obtain ⟨more, onward, further⟩ := second.said
    refine ⟨os ++ more, by rw [onward, there, List.append_assoc], ?_⟩
    intro o member
    rcases List.mem_append.mp member with old | late
    · exact allowed o old
    · exact further o late
  · intro t parked
    rcases second.parks t parked with old | checked
    · exact first.parks t old
    · exact Or.inr checked

theorem kept_of_same (heap : b.rounds = a.rounds) (map : b.pending = a.pending)
    (early : b.earlyMessages = a.earlyMessages) (drained : b.replaying = a.replaying)
    (trace : b.trace = a.trace) (tasks : ∀ t, some t ∈ b.tasks → some t ∈ a.tasks ∨ t.Checked cfg) :
    Kept cfg new sign a b := by
  refine ⟨fun _ p record => ⟨p, by rw [heap]; exact record, rfl, id⟩, by rw [heap], map, ?_,
    ⟨[], by simp [trace], by simp⟩, tasks⟩
  intro m waits
  rw [Waits, early, drained] at waits
  exact Or.inl waits

theorem kept_modify (h : Hub R) (rid : ℕ) (f : Round R → Round R)
    (turn : ∀ p, (f p).turn = p.turn) (live : ∀ p, (f p).finalized = false → p.finalized = false) :
    Kept cfg new sign h (h.modify rid f) := by
  refine ⟨?_, by simp [Hub.modify], rfl, fun _ => Or.inl,
    ⟨[], by simp [Hub.modify], by simp⟩, fun _ => Or.inl⟩
  intro other p record
  refine ⟨_, by rw [modify_round, record]; rfl, ?_⟩
  split
  · exact ⟨turn p, live p⟩
  · exact ⟨rfl, id⟩

theorem kept_emit (h : Hub R) {o : Output R} (allowed : o.Allowed sign) :
    Kept cfg new sign h (h.emit o) :=
  ⟨fun _ p record => ⟨p, record, rfl, id⟩, rfl, rfl, fun _ => Or.inl, ⟨[o], rfl,
    fun _ member => by rw [List.mem_singleton.mp member]; exact allowed⟩, fun _ => Or.inl⟩

theorem kept_await (h : Hub R) {t : Task R} (checked : t.Checked cfg) :
    Kept cfg new sign h (h.await t) := by
  refine kept_of_same rfl rfl rfl rfl rfl ?_
  intro u parked
  rcases List.mem_append.mp parked with old | own
  · exact Or.inl old
  · rw [Option.some.inj (List.mem_singleton.mp own)]
    exact Or.inr checked

theorem kept_settle (h : Hub R) (tid : ℕ) : Kept cfg new sign h (h.settle tid) := by
  refine kept_of_same rfl rfl rfl rfl rfl ?_
  intro t parked
  rcases List.mem_or_eq_of_mem_set parked with old | gone
  · exact Or.inl old
  · simp at gone

theorem buffer_kept (env : Env) (h : Hub R) (id : String) {m : Message R} (own : new m) :
    Kept cfg new sign h (bufferEarlyMessage cfg env h id m) := by
  have live (b : EarlyBucket R) (member : b ∈ h.earlyMessages.filter
      (fun b => !(b.expiresAt ≤ env.now))) : b ∈ h.earlyMessages := (List.mem_filter.mp member).1
  have pushed (b : EarlyBucket R) (at_ : ℚ) (other : Message R)
      (member : other ∈ (b.push at_ m).messages) : other ∈ b.messages ∨ other = m := by
    simp only [EarlyBucket.push] at member
    split at member
    · exact Or.inl member
    · simpa using member
  simp only [bufferEarlyMessage]
  split
  · refine ⟨fun _ p record => ⟨p, record, rfl, fun live => live⟩, rfl, rfl, ?_,
      ⟨[], by simp, by simp⟩, fun _ => Or.inl⟩
    rintro other (drained | ⟨b, member, held⟩)
    · exact Or.inl (Or.inl drained)
    · exact Or.inl (Or.inr ⟨b, live b member, held⟩)
  · refine ⟨fun _ p record => ⟨p, record, rfl, fun live => live⟩, rfl, rfl, ?_,
      ⟨[], by simp, by simp⟩, fun _ => Or.inl⟩
    rintro other (drained | ⟨b, member, held⟩)
    · exact Or.inl (Or.inl drained)
    · obtain ⟨bucket, among, rfl⟩ := List.mem_map.mp member
      have source : (other ∈ bucket.messages ∨ other = m) := by
        split at held
        · exact pushed _ _ other held
        · exact Or.inl held
      rcases source with old | rfl
      · refine Or.inl (Or.inr ?_)
        split at among
        · exact ⟨bucket, live bucket among, old⟩
        · rcases List.mem_append.mp among with kept | fresh
          · refine ⟨bucket, live bucket ?_, old⟩
            split at kept
            · exact List.mem_of_mem_tail kept
            · exact kept
          · rw [List.mem_singleton.mp fresh] at old
            simp at old
      · exact Or.inr own

theorem drain_kept (h : Hub R) (id : String) : Kept cfg new sign h (drainEarlyMessages h id) := by
  simp only [drainEarlyMessages]
  split
  · exact Kept.refl h
  · rename_i bucket found
    refine ⟨fun _ p record => ⟨p, record, rfl, fun live => live⟩, rfl, rfl, ?_,
      ⟨[], by simp, by simp⟩, fun _ => Or.inl⟩
    rintro other (drained | ⟨b, member, held⟩)
    · exact Or.inl (Or.inr ⟨bucket, List.mem_of_find?_eq_some found, drained⟩)
    · exact Or.inl (Or.inr ⟨b, (List.mem_filter.mp member).1, held⟩)

theorem mark_finalized_kept (h : Hub R) (id : String) (rid : ℕ) (p : Round R) :
    Kept cfg new sign h (markFinalized cfg h id rid p) := by
  simp only [markFinalized]
  split
  · exact Kept.refl h
  · split
    · split
      · exact kept_of_same rfl rfl rfl rfl rfl (fun _ => Or.inl)
      · exact kept_of_same rfl rfl rfl rfl rfl (fun _ => Or.inl)
    · exact kept_of_same rfl rfl rfl rfl rfl (fun _ => Or.inl)

theorem finalize_kept (h : Hub R) (id : String) : Kept cfg new sign h (finalize cfg h id) := by
  simp only [finalize]
  split
  · exact Kept.refl h
  · rename_i rid p held
    split
    · exact Kept.refl h
    · have marked : Kept cfg new sign h (h.modify rid Round.finalize) :=
        kept_modify h rid _ (fun _ => rfl) (fun _ unfinished => by simp [Round.finalize] at unfinished)
      exact marked.trans ((mark_finalized_kept _ _ _ _).trans (kept_emit _ trivial))

theorem check_commit_quorum_kept (h : Hub R) (id : String) :
    Kept cfg new sign h (checkCommitQuorum cfg h id) := by
  simp only [checkCommitQuorum]
  split
  · exact Kept.refl h
  · split
    · exact Kept.refl h
    · split
      · exact Kept.refl h
      · exact finalize_kept h id

theorem check_prepare_quorum_kept {h : Hub R} {id : String}
    (commits : ∀ rid p, h.pendingRound id = some (rid, p) → sign id (.commit p.canonical)) :
    Kept cfg new sign h (checkPrepareQuorum cfg h id) := by
  simp only [checkPrepareQuorum]
  split
  · exact Kept.refl h
  · split
    · exact Kept.refl h
    · split
      · exact Kept.refl h
      · rename_i rid p held unsent met
        have sent : Kept cfg new sign h (h.modify rid (Round.sendCommit cfg)) :=
          kept_modify h rid _ (fun _ => rfl) (fun _ live => live)
        have signed : (Output.signed id (.commit p.canonical) : Output R).Allowed sign :=
          commits rid p held
        have spoken : (Output.broadcast (p.commitMessage cfg id)).Allowed sign := trivial
        exact sent.trans ((kept_emit _ signed).trans ((kept_emit _ spoken).trans
          (check_commit_quorum_kept _ id)))

theorem handle_prepare_kept {m : Message R} (own : new m) (matchId sigPubkey : String)
    (sig : Option String) (commits : ∀ id rid p, h.pendingRound id = some (rid, p) →
      sign id (.commit p.canonical)) :
    Kept cfg new sign h (handlePrepare cfg env h m matchId sigPubkey sig) := by
  simp only [handlePrepare]
  split
  · exact Kept.refl h
  · split
    · exact Kept.refl h
    · split
      · exact buffer_kept env h _ own
      · rename_i rid p held
        split
        · exact Kept.refl h
        · split
          · exact buffer_kept env h _ own
          · rename_i s
            split
            · exact buffer_kept env h _ own
            · have counted : Kept cfg new sign h (h.modify rid
                  (Round.countPrepare (cfg.toLowerCase sigPubkey) s)) :=
                kept_modify h rid _ (fun _ => rfl) (fun _ live => live)
              refine counted.trans (check_prepare_quorum_kept (fun other q found => ?_))
              rw [modify_pending_round held, Option.some.injEq, Prod.mk.injEq] at found
              rw [← found.2]
              exact commits _ rid p held

theorem handle_commit_kept {m : Message R} (own : new m) (matchId sigPubkey : String)
    (sig commitSig : Option String) :
    Kept cfg new sign h (handleCommit cfg env h m matchId sigPubkey sig commitSig) := by
  simp only [handleCommit]
  split
  · exact Kept.refl h
  · split
    · exact Kept.refl h
    · split
      · exact buffer_kept env h _ own
      · rename_i rid p held
        split
        · exact Kept.refl h
        · split
          · exact buffer_kept env h _ own
          · rename_i s
            split
            · exact buffer_kept env h _ own
            · split
              · exact kept_modify h rid _ (fun _ => rfl) (fun _ live => live)
              · have counted : Kept cfg new sign h (h.modify rid
                    (Round.countCommit (cfg.toLowerCase sigPubkey) s)) :=
                  kept_modify h rid _ (fun _ => rfl) (fun _ live => live)
                exact counted.trans (check_commit_quorum_kept _ _)

theorem handle_propose_kept {m : Message R} (own : new m) (matchId : String) (view : Option ℚ)
    (row : Option R) (sigPubkey : String) (sig : Option String) :
    Kept cfg new sign h (handlePropose cfg env h m matchId view row sigPubkey sig) := by
  simp only [handlePropose]
  split
  · exact Kept.refl h
  · split
    · exact Kept.refl h
    · split
      · exact buffer_kept env h _ own
      · split
        · exact Kept.refl h
        · rename_i offer found
          have checked : (Task.validate offer).Checked cfg := leader_proposal_sound found
          exact kept_await h checked

theorem handle_final_sync_kept (matchId : String) (row : Option R)
    (signatures : List (String × String)) (view : Option ℚ) :
    Kept cfg new sign h (handleFinalSync cfg h matchId row signatures view) := by
  simp only [handleFinalSync]
  split
  · exact Kept.refl h
  · split
    · split
      · exact Kept.refl h
      · split
        · exact Kept.refl h
        · split
          · exact Kept.refl h
          · exact kept_await h trivial
    · exact Kept.refl h

theorem leader_persisted_kept {h : Hub R} {rid : ℕ} (drains : Bool)
    (leads : ∀ p, h.rounds[rid]? = some p → sign p.matchId (.artifact p.canonical)) :
    Kept cfg new sign h (leaderPersisted cfg h rid drains) := by
  simp only [leaderPersisted]
  split
  · exact Kept.refl h
  · rename_i p record
    have cast : Kept cfg new sign h (h.modify rid (Round.castOwn cfg p.canonical)) :=
      kept_modify h rid _ (fun _ => rfl) (fun _ live => live)
    have signed : (Output.signed p.matchId (.artifact p.canonical) : Output R).Allowed sign :=
      leads p record
    have spoken : (Output.broadcast (.propose p.matchId (some p.view) (some p.row) cfg.pubkey
        (some (cfg.sign p.canonical)))).Allowed sign := trivial
    have led := cast.trans ((kept_emit _ signed).trans (kept_emit _ spoken))
    split
    · exact led.trans (kept_await _ trivial)
    · exact led

theorem sole_persisted_kept (h : Hub R) {matchId : String} (rid : ℕ) {canonical : String}
    (settles : sign matchId (.artifact canonical)) :
    Kept cfg new sign h (solePersisted cfg h matchId rid canonical) := by
  have collected : Kept cfg new sign h (h.modify rid (Round.collect cfg.pubkey (cfg.sign canonical))) :=
    kept_modify h rid _ (fun _ => rfl) (fun _ live => live)
  have signed : (Output.signed matchId (.artifact canonical) : Output R).Allowed sign := settles
  exact collected.trans ((kept_emit _ signed).trans (finalize_kept _ _))

theorem margin_settled_kept (h : Hub R) (matchId : String) (rid : ℕ) (view currentSecond : ℚ)
    (margin : Option ℚ) : Kept cfg new sign h (marginSettled cfg h matchId rid view currentSecond margin) := by
  simp only [marginSettled]
  split
  · exact kept_await h trivial
  · rename_i t stamped
    have restamped : Kept cfg new sign h (h.modify rid (Round.restamp cfg t)) :=
      kept_modify h rid _ (fun _ => rfl) (fun _ live => live)
    exact restamped.trans (kept_await _ trivial)

theorem evict_finalized_map (h : Hub R) (rid : ℕ) :
    evictFinalized h rid = h ∨ ∃ id, evictFinalized h rid = h.forget id := by
  simp only [evictFinalized]
  split
  · exact Or.inl rfl
  · split
    · exact Or.inr ⟨_, rfl⟩
    · exact Or.inl rfl

end Frames
section Moves
variable {new : Message R → Prop} {sign : String → Payload → Prop} {cfg : Params R} {env : Env}
  {h a b c : Hub R} {rid : ℕ} {p : Round R} {t : Turn}

/- As Kept, but the round rid turns into t. -/
structure Moved (cfg : Params R) (new : Message R → Prop) (sign : String → Payload → Prop)
    (rid : ℕ) (t : Turn) (h after : Hub R) : Prop where
  heap : ∀ (other : ℕ) (p : Round R), h.rounds[other]? = some p → ∃ p' : Round R,
    after.rounds[other]? = some p' ∧ p'.turn = (if other = rid then t else p.turn) ∧
      (p'.finalized = false → p.finalized = false)
  sized : after.rounds.length = h.rounds.length
  map : after.pending = h.pending
  waits : ∀ m, Waits after m → Waits h m ∨ new m
  said : ∃ os, after.trace = h.trace ++ os ∧ ∀ o ∈ os, o.Allowed sign
  parks : ∀ t, some t ∈ after.tasks → some t ∈ h.tasks ∨ t.Checked cfg

theorem Kept.moved (kept : Kept cfg new sign a b) (record : a.rounds[rid]? = some p) :
    Moved cfg new sign rid p.turn a b := by
  refine ⟨?_, kept.sized, kept.map, kept.waits, kept.said, kept.parks⟩
  intro other q stored
  obtain ⟨r, there, same, live⟩ := kept.heap other q stored
  refine ⟨r, there, ?_, live⟩
  split
  · rename_i here
    rw [here, record] at stored
    rw [same, Option.some.inj stored]
  · exact same

theorem Moved.trans (first : Moved cfg new sign rid t a b) {t' : Turn}
    (second : Moved cfg new sign rid t' b c) : Moved cfg new sign rid t' a c := by
  refine ⟨?_, second.sized.trans first.sized, second.map.trans first.map, ?_, ?_, ?_⟩
  · intro other p record
    obtain ⟨q, there, same, live⟩ := first.heap other p record
    obtain ⟨r, onward, alike, fresh⟩ := second.heap other q there
    refine ⟨r, onward, ?_, fun unfinished => live (fresh unfinished)⟩
    rw [alike]
    split
    · rfl
    · rename_i apart
      rw [same, if_neg apart]
  · intro m waits
    rcases second.waits m waits with old | fresh
    · exact first.waits m old
    · exact Or.inr fresh
  · obtain ⟨os, there, allowed⟩ := first.said
    obtain ⟨more, onward, further⟩ := second.said
    refine ⟨os ++ more, by rw [onward, there, List.append_assoc], ?_⟩
    intro o member
    rcases List.mem_append.mp member with old | late
    · exact allowed o old
    · exact further o late
  · intro t parked
    rcases second.parks t parked with old | checked
    · exact first.parks t old
    · exact Or.inr checked

theorem Moved.kept (moved : Moved cfg new sign rid t a b) (kept : Kept cfg new sign b c)
    (record : a.rounds[rid]? = some p) : Moved cfg new sign rid t a c := by
  obtain ⟨q, there, same, -⟩ := moved.heap rid p record
  rw [if_pos rfl] at same
  have onward := kept.moved there
  rw [same] at onward
  exact moved.trans onward

theorem moved_modify (record : h.rounds[rid]? = some p) {f : Round R → Round R}
    (turn : (f p).turn = t) (live : (f p).finalized = false → p.finalized = false) :
    Moved cfg new sign rid t h (h.modify rid f) := by
  refine ⟨?_, by simp [Hub.modify], rfl, fun _ => Or.inl,
    ⟨[], by simp [Hub.modify], by simp⟩, fun _ => Or.inl⟩
  intro other q stored
  refine ⟨_, by rw [modify_round, stored]; rfl, ?_⟩
  by_cases here : rid = other
  · subst here
    rw [record] at stored
    cases stored
    simp only [if_true]
    exact ⟨turn, live⟩
  · simp only [if_neg here, if_neg (Ne.symm here)]
    exact ⟨trivial, id⟩

theorem repropose_moved (new : Message R → Prop) (sign : String → Payload → Prop)
    (record : h.rounds[rid]? = some p) (view : ℚ) :
    ∃ c, (c = p.canonical ∨ cfg.engine.canonicalMatch p.row p.view = some c) ∧
      Moved cfg new sign rid { p.turn with canonical := c } h (reproposeAsLeader cfg h rid view) := by
  simp only [reproposeAsLeader, record]
  split
  · refine ⟨p.canonical, Or.inl rfl, ?_⟩
    have dropped : Kept cfg new sign h { h with replaying := [] } := by
      refine ⟨fun _ q stored => ⟨q, stored, rfl, id⟩, rfl, rfl, ?_,
        ⟨[], by simp, by simp⟩, fun _ => Or.inl⟩
      rintro m (drained | put)
      · simp at drained
      · exact Or.inl (Or.inr put)
    exact dropped.moved record
  · rename_i canonical built
    have announced (g : Hub R) : Kept cfg new sign g
        (((g.sign p.matchId (controlOf cfg cfg.engine.nvTag p.matchId view)).emit
          (.broadcast (.newView p.matchId (some view) cfg.pubkey
            (some (signControl cfg cfg.engine.nvTag p.matchId view))))).await
          (.lead rid false)) := by
      have control : (Output.signed p.matchId (controlOf cfg cfg.engine.nvTag p.matchId view) :
          Output R).Allowed sign := trivial
      have spoken : (Output.broadcast (.newView p.matchId (some view) cfg.pubkey
          (some (signControl cfg cfg.engine.nvTag p.matchId view))) : Output R).Allowed sign :=
        trivial
      exact (kept_emit g control).trans ((kept_emit _ spoken).trans (kept_await _ trivial))
    split
    · refine ⟨canonical, Or.inr built, ?_⟩
      have rebuilt : Moved cfg new sign rid { p.turn with canonical } h
          (h.modify rid (Round.rebuild canonical)) := moved_modify record rfl id
      exact rebuilt.kept (announced _) record
    · exact ⟨p.canonical, Or.inl rfl, (announced h).moved record⟩

/- The view a majority of votes moves a round to, with its row re-proposed where this
   hub leads there. -/
theorem assume_moved (new : Message R → Prop) (sign : String → Payload → Prop) (cfg : Params R)
    (env : Env) {id : String} (held : h.pendingRound id = some (rid, p)) (view : ℚ) :
    ∃ w c, (w = p.view ∨ p.view < view ∧ w = view ∧ p.finalized = false ∧
        ∃ votes, p.viewChanges.get view = some votes ∧ meetsQuorum cfg p.binding votes = true) ∧
      (c = p.canonical ∨ ∃ row, reproposed cfg env p id view = some row ∧
        cfg.engine.canonicalMatch row w = some c) ∧
      Moved cfg new sign rid { p.turn with view := w, canonical := c } h
        (maybeAssumeLeadership cfg env h id view) := by
  have record := (pending_round_iff.mp held).2
  have still : Moved cfg new sign rid { p.turn with view := p.view, canonical := p.canonical } h h :=
    (Kept.refl h).moved record
  simp only [maybeAssumeLeadership, held]
  split
  · exact ⟨p.view, p.canonical, Or.inl rfl, Or.inl rfl, still⟩
  · rename_i live
    split
    · exact ⟨p.view, p.canonical, Or.inl rfl, Or.inl rfl, still⟩
    · rename_i votes counted
      split
      · exact ⟨p.view, p.canonical, Or.inl rfl, Or.inl rfl, still⟩
      · rename_i met
        simp only [Bool.not_eq_true, Bool.not_eq_false'] at live met
        have raise : (p.raiseView view).view = p.view ∨ p.view < view ∧
            (p.raiseView view).view = view ∧ p.finalized = false ∧ ∃ votes,
              p.viewChanges.get view = some votes ∧ meetsQuorum cfg p.binding votes = true := by
          simp only [Round.raiseView]
          split
          · rename_i ahead
            exact Or.inr ⟨ahead, rfl, live, votes, counted, met⟩
          · exact Or.inl rfl
        have same := raise_view_votes view p
        have turned : (p.raiseView view).turn =
            { p.turn with view := (p.raiseView view).view, canonical := p.canonical } := by
          simp only [Round.raiseView]
          split <;> rfl
        have raised : Moved cfg new sign rid
            { p.turn with view := (p.raiseView view).view, canonical := p.canonical } h
            (h.modify rid (Round.raiseView view)) :=
          moved_modify record turned (fun unfinished => same.finalized ▸ unfinished)
        have stored : (h.modify rid (Round.raiseView view)).rounds[rid]? =
            some (p.raiseView view) := modify_round_same record
        split
        · exact ⟨_, p.canonical, raise, Or.inl rfl, raised⟩
        · rename_i leads
          have plain : restampEffectiveTime cfg env p = .none →
              reproposed cfg env p id view = some p.row := by
            intro kept
            simp [reproposed, counted, live, met, leads, kept]
          have restamped : ∀ t, restampEffectiveTime cfg env p = .applied t →
              reproposed cfg env p id view = some (cfg.engine.setEffectiveTime p.row t) := by
            intro t stamped
            simp [reproposed, counted, live, met, leads, stamped]
          split
          · rename_i kept
            obtain ⟨c, source, moved⟩ := repropose_moved new sign stored view
            rw [same.canonical, same.row] at source
            refine ⟨_, c, raise, source.imp_right (fun built => ⟨p.row, plain kept, built⟩), ?_⟩
            rw [turned] at moved
            exact raised.trans moved
          · rename_i t stamped
            have timed := modify_round_same (f := Round.restamp cfg t) stored
            obtain ⟨c, source, moved⟩ := repropose_moved new sign timed view
            have step : Kept cfg new sign (h.modify rid (Round.raiseView view))
                ((h.modify rid (Round.raiseView view)).modify rid (Round.restamp cfg t)) :=
              kept_modify _ rid _ (fun _ => rfl) (fun _ live => live)
            refine ⟨_, c, raise, ?_, ?_⟩
            · rcases source with old | built
              · exact Or.inl (old.trans same.canonical)
              · refine Or.inr ⟨cfg.engine.setEffectiveTime p.row t, restamped t stamped, ?_⟩
                rw [← same.row]
                exact built
            · have turn : (Round.restamp cfg t (p.raiseView view)).turn =
                  { p.turn with view := (p.raiseView view).view, canonical := p.canonical } :=
                turned
              rw [turn] at moved
              exact (raised.kept step record).trans moved
          · exact ⟨_, p.canonical, raise, Or.inl rfl, raised⟩
          · exact ⟨_, p.canonical, raise, Or.inl rfl, raised.kept (kept_await _ trivial) record⟩

theorem view_change_moved (new : Message R → Prop) (sign : String → Payload → Prop)
    (cfg : Params R) (env : Env) (m : Message R) {matchId key : String} {view : ℚ}
    {sig : Option String}
    (held : h.pendingRound (cfg.toLowerCase matchId) = some (rid, p))
    (member : p.binding.isMember (cfg.toLowerCase key) = true)
    (verified : verifies cfg ((controlOf cfg cfg.engine.vcTag (cfg.toLowerCase matchId) view).bytes
      cfg.engine) sig (cfg.toLowerCase key) = true)
    (named : cfg.toLowerCase matchId ≠ "") (unfinished : cfg.toLowerCase matchId ∉ h.finalized) :
    ∃ w c, (w = p.view ∨ p.view < view ∧ w = view ∧ p.finalized = false ∧ ∃ votes,
        (p.addViewVote view (cfg.toLowerCase key)).viewChanges.get view = some votes ∧
          meetsQuorum cfg p.binding votes = true) ∧
      (c = p.canonical ∨ ∃ row, reproposedOnVote cfg env h (cfg.toLowerCase matchId) (some view)
          key sig = some row ∧ cfg.engine.canonicalMatch row w = some c) ∧
      Moved cfg new sign rid ⟨p.matchId, c, w, (p.addViewVote view (cfg.toLowerCase key)).viewChanges,
        p.binding⟩ h (handleViewChange cfg env h m matchId (some view) key sig) := by
  have record := (pending_round_iff.mp held).2
  have voted : Moved cfg new sign rid (p.addViewVote view (cfg.toLowerCase key)).turn h
      (h.modify rid (Round.addViewVote view (cfg.toLowerCase key))) :=
    moved_modify record rfl id
  obtain ⟨w, c, raise, source, moved⟩ := assume_moved new sign cfg env
    (modify_pending_round (f := Round.addViewVote view (cfg.toLowerCase key)) held) view
  refine ⟨w, c, raise, ?_, ?_⟩
  · rcases source with old | ⟨row, proposed, built⟩
    · exact Or.inl old
    · exact Or.inr ⟨row, by simp [reproposedOnVote, held, member, verified, proposed], built⟩
  · have result := voted.trans moved
    simp only [handleViewChange, named, unfinished, held, member, verified, if_false,
      Bool.not_true, Bool.false_eq_true]
    exact result

theorem timeout_moved (new : Message R → Prop) (sign : String → Payload → Prop)
    (cfg : Params R) (env : Env) {id : String} (held : h.pendingRound id = some (rid, p))
    (live : p.finalized = false) :
    ∃ c, (c = p.canonical ∨ ∃ row, reproposed cfg env (p.nextView cfg) id (p.view + 1) = some row ∧
        cfg.engine.canonicalMatch row (p.view + 1) = some c) ∧
      Moved cfg new sign rid ⟨p.matchId, c, p.view + 1,
        (p.addViewVote (p.view + 1) cfg.pubkey).viewChanges, p.binding⟩ h
        (initiateViewChange cfg env h id) := by
  have record := (pending_round_iff.mp held).2
  have turned : Moved cfg new sign rid (p.nextView cfg).turn h (h.modify rid (Round.nextView cfg)) :=
    moved_modify record rfl (fun unfinished => unfinished)
  have announced : Kept cfg new sign (h.modify rid (Round.nextView cfg))
      (((h.modify rid (Round.nextView cfg)).sign id
        (controlOf cfg cfg.engine.vcTag id (p.view + 1))).emit
        (.broadcast (.viewChange id (some (p.view + 1)) cfg.pubkey
          (some (signControl cfg cfg.engine.vcTag id (p.view + 1)))))) := by
    have control : (Output.signed id (controlOf cfg cfg.engine.vcTag id (p.view + 1)) :
        Output R).Allowed sign := trivial
    have spoken : (Output.broadcast (.viewChange id (some (p.view + 1)) cfg.pubkey
        (some (signControl cfg cfg.engine.vcTag id (p.view + 1)))) : Output R).Allowed sign := trivial
    exact (kept_emit _ control).trans (kept_emit _ spoken)
  have after : (((h.modify rid (Round.nextView cfg)).sign id
      (controlOf cfg cfg.engine.vcTag id (p.view + 1))).emit
      (.broadcast (.viewChange id (some (p.view + 1)) cfg.pubkey
        (some (signControl cfg cfg.engine.vcTag id (p.view + 1)))))).pendingRound id =
      some (rid, p.nextView cfg) := modify_pending_round held
  obtain ⟨w, c, raise, source, moved⟩ := assume_moved new sign cfg env after (p.view + 1)
  -- the view is already the one the votes are counted for
  have same : w = p.view + 1 := by
    rcases raise with still | ⟨-, raised, -⟩
    · exact still
    · exact raised
  subst same
  refine ⟨c, source, ?_⟩
  have result := (turned.kept announced record).trans moved
  simp only [initiateViewChange, held, live, Bool.false_eq_true, if_false]
  exact result

end Moves
section Events
variable (cfg : Params R) (env : Env) (h : Hub R) (e : Event R)

/- The PROPOSE an event counts, and, where its row is adopted for it, the set that the
   adoption binds (none where the round keeps its own). -/
def counting : Option (Offer R × Option (Option Binding)) :=
  match e with
  | .validated tid ok =>
    match h.task tid with
    | some (.validate o) =>
      match h.rounds[o.rid]? with
      | some p => if ok && o.canonical = p.canonical then some (o, none) else none
      | none => none
    | _ => none
  | .resolved tid reply =>
    match h.task tid with
    | some (.adopt o rebind) =>
      match rebindSnapshot cfg rebind reply, adoptLeaderRow (h.settle tid) o
          (rebindSnapshot cfg rebind reply) with
      | some b, some _ => some (o, some b)
      | _, _ => none
    | _ => none
  | _ => none

/- The round that a PREPARE, a PROPOSE or a sole operator's signature of this event is for. -/
def signer : Option ℕ :=
  match e with
  | .validated tid _ =>
    match h.task tid with
    | some (.validate o) => some o.rid
    | _ => none
  | .resolved tid _ =>
    match h.task tid with
    | some (.adopt o _) => some o.rid
    | _ => none
  | .persisted tid =>
    match h.task tid with
    | some (.lead rid _) => some rid
    | some (.sole _ rid _) => some rid
    | _ => none
  | _ => none

/- The canonical that this event may sign for the round rid: that of the row it adopts, the
   one a sole operator's round was opened over, or the round's own. -/
def rowSigned (rid : ℕ) : Option String :=
  match counting cfg h e, settlesSole h e with
  | some (o, some _), _ => if o.rid = rid then some o.canonical else none
  | _, some (_, settled, c) => if settled = rid then some c else none
  | _, _ => h.rounds[rid]?.map Round.canonical

/- The events that test a prepare quorum. -/
def countsPrepares : Event R → Bool
  | .deliver (.prepare _ _ _ _) => true
  | .validated _ _ => true
  | .resolved _ _ => true
  | _ => false

/- What an event may sign for a round id. -/
def Signs (id : String) : Payload → Prop
  | .artifact c => ∃ rid ∈ signer h e, rowSigned cfg h e rid = some c
  | .commit c => countsPrepares e = true ∧
      ∃ rid, h.pending.get id = some rid ∧ rowSigned cfg h e rid = some c
  | .control _ _ _ => True

/- The canonical of a round after an event: as it was, or that of the row installed. -/
def Recast (rid : ℕ) (p : Round R) (c : String) : Prop :=
  c = p.canonical ∨ ∃ id row view, installs cfg env h e = some (id, row) ∧
    h.pendingRound id = some (rid, p) ∧ cfg.engine.canonicalMatch row view = some c

/- Why an event turns the round p, at rid, into t. -/
inductive Reason (rid : ℕ) (p : Round R) : Turn → Prop where
  | voted {matchId key : String} {view w : ℚ} {sig : Option String} {c : String}
      (event : e = .deliver (.viewChange matchId (some view) key sig))
      (held : h.pendingRound (cfg.toLowerCase matchId) = some (rid, p))
      (member : p.binding.isMember (cfg.toLowerCase key) = true)
      (verified : verifies cfg ((controlOf cfg cfg.engine.vcTag (cfg.toLowerCase matchId)
        view).bytes cfg.engine) sig (cfg.toLowerCase key) = true)
      (raised : w = p.view ∨ p.view < view ∧ w = view ∧ p.finalized = false ∧ ∃ votes,
        (p.addViewVote view (cfg.toLowerCase key)).viewChanges.get view = some votes ∧
          meetsQuorum cfg p.binding votes = true)
      (recast : Recast cfg env h e rid p c) :
      Reason rid p ⟨p.matchId, c, w, (p.addViewVote view (cfg.toLowerCase key)).viewChanges,
        p.binding⟩
  | announced {id : String} {view : ℚ} {votes : OrderedSet String}
      (held : h.pendingRound id = some (rid, p)) (ahead : p.view < view)
      (found : p.viewChanges.get view = some votes)
      (met : meetsQuorum cfg p.binding votes = true) :
      Reason rid p { p.turn with view }
  | timeout {id : String} {c : String} (event : e = .roundTimeout id)
      (held : h.pendingRound id = some (rid, p)) (live : p.finalized = false)
      (recast : Recast cfg env h e rid p c) :
      Reason rid p ⟨p.matchId, c, p.view + 1, (p.addViewVote (p.view + 1) cfg.pubkey).viewChanges,
        p.binding⟩
  | counted {o : Offer R} (count : counting cfg h e = some (o, none)) (mine : o.rid = rid)
      (agrees : o.canonical = p.canonical) :
      Reason rid p { p.turn with view := max p.view o.view }
  | adopted {o : Offer R} {b : Option Binding} (count : counting cfg h e = some (o, some b))
      (mine : o.rid = rid) (held : h.pendingRound o.matchId = some (rid, p))
      (live : p.finalized = false) (installed : installs cfg env h e = some (o.matchId, o.row))
      (sound : o.Sound cfg) :
      Reason rid p ⟨p.matchId, o.canonical, max p.view o.view, p.viewChanges, b.getD p.binding⟩
  | recast {c : String} (recast : Recast cfg env h e rid p c) :
      Reason rid p { p.turn with canonical := c }

/- What an event does to the rounds: at most one of them turns, and where a FINAL_SYNC
   turns it that round is final. -/
inductive Effect (new : Message R → Prop) (after : Hub R) : Prop where
  | kept (kept : Kept cfg new (Signs cfg h e) h after)
  | opened (p : Round R) (free : h.pending.get p.matchId = none) (view : p.view = 0)
      (votes : p.viewChanges = .empty)
      (bound : ∀ v ∈ p.binding.validators, cfg.toLowerCase v.pubkey = v.pubkey)
      (kept : Kept cfg new (Signs cfg h e) (h.openRound p) after)
  | forgot (id : String) (kept : Kept cfg new (Signs cfg h e) (h.forget id) after)
  | turned (rid : ℕ) (p : Round R) (t : Turn) (record : h.rounds[rid]? = some p)
      (reason : Reason cfg env h e rid p t) (moved : Moved cfg new (Signs cfg h e) rid t h after)
  | caught (s : Sync R) (p : Round R) (t : Turn) (proof : syncs cfg h e = some s)
      (record : h.rounds[s.rid]? = some p) (named : t.matchId = p.matchId)
      (final : ∀ p' ∈ after.rounds[s.rid]?, p'.finalized = true)
      (moved : Moved cfg new (Signs cfg h e) s.rid t h after)

end Events
section Effects
variable {new : Message R → Prop} {cfg : Params R} {env : Env} {h : Hub R} {e : Event R}

theorem count_proposal_turn (o : Offer R) (p : Round R) :
    (p.countProposal cfg o).turn = { p.turn with view := max p.view o.view } := by
  have led : (p.countLeader o).turn = { p.turn with view := max p.view o.view } := by
    simp only [Round.countLeader, Round.raiseView]
    split
    · rename_i ahead
      rw [max_eq_right (le_of_lt ahead)]
      rfl
    · rename_i behind
      rw [max_eq_left (not_lt.mp behind)]
      rfl
  simp only [Round.countProposal]
  split
  · exact led
  · exact led

theorem count_leader_moved {sign : String → Payload → Prop} {o : Offer R} {p : Round R}
    (record : h.rounds[o.rid]? = some p) (artifact : sign o.matchId (.artifact o.canonical))
    (commits : ∀ rid q, h.pendingRound o.matchId = some (rid, q) →
      sign o.matchId (.commit q.canonical)) :
    Moved cfg new sign o.rid { p.turn with view := max p.view o.view } h
      (countLeaderAndOwnPrepare cfg h o) := by
  have counted : Moved cfg new sign o.rid { p.turn with view := max p.view o.view } h
      (h.modify o.rid (Round.countProposal cfg o)) :=
    moved_modify record (count_proposal_turn o p)
      (fun unfinished => (count_proposal_finalized o p).symm.trans unfinished)
  have after : ∀ rid q, (h.modify o.rid (Round.countProposal cfg o)).pendingRound o.matchId =
      some (rid, q) → sign o.matchId (.commit q.canonical) := by
    intro rid q found
    obtain ⟨map, stored⟩ := pending_round_iff.mp found
    rw [modify_round] at stored
    obtain ⟨r, before, rfl⟩ := Option.map_eq_some_iff.mp stored
    have held : h.pendingRound o.matchId = some (rid, r) := pending_round_iff.mpr ⟨map, before⟩
    split
    · rw [count_proposal_canonical]
      exact commits rid r held
    · exact commits rid r held
  simp only [countLeaderAndOwnPrepare, record]
  split
  · exact counted.kept (check_prepare_quorum_kept after) record
  · have signed : (Output.signed o.matchId (.artifact o.canonical) : Output R).Allowed sign :=
      artifact
    have spoken : (Output.broadcast (.prepare o.matchId (some (p.countLeader o).view) cfg.pubkey
        (some (cfg.sign o.canonical))) : Output R).Allowed sign := trivial
    exact counted.kept ((kept_emit _ signed).trans ((kept_emit _ spoken).trans
      (check_prepare_quorum_kept after))) record

/- Where nothing is adopted or settled, a round signs its own canonical. -/
theorem row_signed_own {rid : ℕ} {p : Round R} (stays : ∀ o b, counting cfg h e ≠ some (o, some b))
    (plural : settlesSole h e = none) (record : h.rounds[rid]? = some p) :
    rowSigned cfg h e rid = some p.canonical := by
  simp only [rowSigned, plural]
  rw [record]
  rfl

theorem own_commit {id : String} {rid : ℕ} {p : Round R} (tests : countsPrepares e = true)
    (stays : ∀ o b, counting cfg h e ≠ some (o, some b)) (plural : settlesSole h e = none)
    (held : h.pendingRound id = some (rid, p)) : Signs cfg h e id (.commit p.canonical) := by
  obtain ⟨map, record⟩ := pending_round_iff.mp held
  exact ⟨tests, rid, map, row_signed_own stays plural record⟩

theorem validated_effect (checks : ∀ t, some t ∈ h.tasks → t.Checked cfg) (tid : ℕ) (ok : Bool) :
    Effect cfg env h (.validated tid ok) new (resume cfg h tid (.validated tid ok)) := by
  cases found : h.task tid with
  | none =>
    simp only [resume, found]
    exact .kept (Kept.refl h)
  | some t =>
    cases t with
    | validate o =>
      simp only [resume, found, proposalValidated]
      have settled : Kept cfg new (Signs cfg h (.validated tid ok)) h (h.settle tid) := kept_settle h tid
      split
      · exact .kept settled
      · rename_i valid
        split
        · exact .kept settled
        · rename_i p record
          have prior : h.rounds[o.rid]? = some p := record
          split
          · split
            · have sound : o.Sound cfg := checks (.validate o) (task_member found)
              have checked : (Task.adopt o (rebindRequest cfg p o.row)).Checked cfg := sound
              exact .kept (settled.trans (kept_await _ checked))
            · exact .kept settled
          · rename_i agrees
            simp only [Bool.not_eq_true, Bool.not_eq_false', ne_eq, not_not] at valid agrees
            have counts : counting cfg h (.validated tid ok) = some (o, none) := by
              simp [counting, found, prior, valid, agrees]
            have stays : ∀ x b, counting cfg h (.validated tid ok) ≠ some (x, some b) := by
              simp [counts]
            have artifact : Signs cfg h (.validated tid ok) o.matchId (.artifact o.canonical) := by
              refine ⟨o.rid, by simp [signer, found], ?_⟩
              rw [agrees]
              exact row_signed_own stays rfl prior
            refine .turned o.rid p _ prior (.counted counts rfl agrees) ?_
            have moved : Moved cfg new (Signs cfg h (.validated tid ok)) o.rid
                { p.turn with view := max p.view o.view } (h.settle tid)
                (countLeaderAndOwnPrepare cfg (h.settle tid) o) :=
              count_leader_moved record artifact (fun rid q held => own_commit (h := h) rfl stays rfl held)
            exact (settled.moved prior).trans moved
    | _ =>
      simp only [resume, found]
      exact .kept (Kept.refl h)

/- The row that an answered rebind adopts is the round's from then on. -/
theorem adoption_moved (checks : ∀ t, some t ∈ h.tasks → t.Checked cfg) {tid : ℕ}
    {reply : Option Snapshot} {o : Offer R} {rebind : Rebind} {adopted : Hub R}
    (found : h.task tid = some (.adopt o rebind))
    (took : adoptLeaderRow (h.settle tid) o (rebindSnapshot cfg rebind reply) = some adopted) :
    ∃ (b : Option Binding) (p : Round R), counting cfg h (.resolved tid reply) = some (o, some b) ∧
      h.rounds[o.rid]? = some p ∧
      Reason cfg env h (.resolved tid reply) o.rid p
        ⟨p.matchId, o.canonical, max p.view o.view, p.viewChanges, b.getD p.binding⟩ ∧
      Moved cfg new (Signs cfg h (.resolved tid reply)) o.rid
        ⟨p.matchId, o.canonical, max p.view o.view, p.viewChanges, b.getD p.binding⟩ h
        (drainEarlyMessages (countLeaderAndOwnPrepare cfg adopted o) o.matchId) := by
  obtain ⟨b, p, rebound, still, same⟩ := adopt_leader_row_cases took
  obtain ⟨held, live⟩ := still_pending_held still
  have prior : h.pendingRound o.matchId = some (o.rid, p) := held
  have record := (pending_round_iff.mp held).2
  have counts : counting cfg h (.resolved tid reply) = some (o, some b) := by
    simp only [counting, found, took]
    rw [rebound]
  have installed : installs cfg env h (.resolved tid reply) = some (o.matchId, o.row) := by
    simp [installs, found, took]
  refine ⟨b, p, counts, record, .adopted counts rfl prior live installed
    (checks _ (task_member found)), ?_⟩
  have settled : Kept cfg new (Signs cfg h (.resolved tid reply)) h (h.settle tid) :=
    kept_settle h tid
  have moved : Moved cfg new (Signs cfg h (.resolved tid reply)) o.rid (p.adopt o b).turn
      (h.settle tid) adopted := by
    rw [same]
    exact moved_modify record rfl id
  have after : adopted.rounds[o.rid]? = some (p.adopt o b) := by
    rw [same]
    exact modify_round_same record
  have row : rowSigned cfg h (.resolved tid reply) o.rid = some o.canonical := by
    simp [rowSigned, counts]
  have artifact : Signs cfg h (.resolved tid reply) o.matchId (.artifact o.canonical) :=
    ⟨o.rid, by simp [signer, found], row⟩
  have counted : Moved cfg new (Signs cfg h (.resolved tid reply)) o.rid
      { (p.adopt o b).turn with view := max (p.adopt o b).view o.view } adopted
      (countLeaderAndOwnPrepare cfg adopted o) := by
    refine count_leader_moved after artifact (fun rid q holds => ?_)
    have pending := modify_pending_round (f := Round.adopt o b) held
    rw [same, pending, Option.some.injEq, Prod.mk.injEq] at holds
    obtain ⟨rfl, rfl⟩ := holds
    exact ⟨rfl, o.rid, (pending_round_iff.mp held).1, row⟩
  exact ((settled.moved (pending_round_iff.mp prior).2).trans (moved.trans counted)).kept
    (drain_kept _ _) (pending_round_iff.mp prior).2

theorem resolved_effect (checks : ∀ t, some t ∈ h.tasks → t.Checked cfg) (tid : ℕ)
    (reply : Option Snapshot) :
    Effect cfg env h (.resolved tid reply) new (resume cfg h tid (.resolved tid reply)) := by
  cases found : h.task tid with
  | none =>
    simp only [resume, found]
    exact .kept (Kept.refl h)
  | some t =>
    have settled : Kept cfg new (Signs cfg h (.resolved tid reply)) h (h.settle tid) :=
      kept_settle h tid
    cases t with
    | adopt o rebind =>
      simp only [resume, found, rowRebound]
      split
      · exact .kept settled
      · rename_i adopted took
        obtain ⟨b, p, counts, record, reason, moved⟩ := @adoption_moved _ new _ env _
          checks _ _ _ _ _ found took
        exact .turned o.rid p _ record reason moved
    | sync s rebind =>
      simp only [resume, found, syncRebound]
      split
      · rename_i b p rebound still
        obtain ⟨held, live⟩ := still_pending_held still
        have prior : h.pendingRound s.matchId = some (s.rid, p) := held
        have record := (pending_round_iff.mp held).2
        split
        · exact .kept settled
        · rename_i verified proof
          have caught := modify_pending_round (f := Round.catchUp s (b.getD p.binding) verified) held
          have unfinished : (p.catchUp s (b.getD p.binding) verified).finalized = false := live
          refine .caught s p (p.catchUp s (b.getD p.binding) verified).turn
            (by simp [syncs, found, rebound, still, proof]) record rfl ?_ ?_
          · intro p' final
            simp only [finalize, caught, unfinished, Bool.false_eq_true, if_false] at final
            change (finalizedAs cfg _ s.matchId s.rid _).rounds[s.rid]? = some p' at final
            rw [finalized_as_rounds, modify_round_same (pending_round_iff.mp caught).2] at final
            rw [← Option.some.inj final]
            rfl
          · have moved : Moved cfg new (Signs cfg h (.resolved tid reply)) s.rid
                (p.catchUp s (b.getD p.binding) verified).turn (h.settle tid)
                ((h.settle tid).modify s.rid (Round.catchUp s (b.getD p.binding) verified)) :=
              moved_modify record rfl id
            exact ((settled.moved (pending_round_iff.mp prior).2).trans moved).kept
              (finalize_kept _ _) (pending_round_iff.mp prior).2
      · exact .kept settled
    | _ =>
      simp only [resume, found]
      exact .kept (Kept.refl h)

theorem persisted_effect (tid : ℕ) :
    Effect cfg env h (.persisted tid) new (resume cfg h tid (.persisted tid)) := by
  cases found : h.task tid with
  | none =>
    simp only [resume, found]
    exact .kept (Kept.refl h)
  | some t =>
    have settled : Kept cfg new (Signs cfg h (.persisted tid)) h (h.settle tid) := kept_settle h tid
    cases t with
    | lead rid drains =>
      simp only [resume, found]
      refine .kept (settled.trans (leader_persisted_kept drains (fun p record => ?_)))
      refine ⟨rid, by simp [signer, found], row_signed_own ?_ ?_ record⟩
      · simp [counting]
      · simp [settlesSole, found]
    | sole matchId rid canonical =>
      simp only [resume, found]
      refine .kept (settled.trans (sole_persisted_kept _ rid ?_))
      refine ⟨rid, by simp [signer, found], ?_⟩
      simp [rowSigned, counting, settlesSole, found]
    | _ =>
      simp only [resume, found]
      exact .kept (Kept.refl h)

theorem resumed_effect (tid : ℕ) :
    Effect cfg env h (.resumed tid) new (resume cfg h tid (.resumed tid)) := by
  cases found : h.task tid with
  | none =>
    simp only [resume, found]
    exact .kept (Kept.refl h)
  | some t =>
    have settled : Kept cfg new (Signs cfg h (.resumed tid)) h (h.settle tid) := kept_settle h tid
    cases t with
    | drain matchId =>
      simp only [resume, found]
      exact .kept (settled.trans (drain_kept _ _))
    | restamped matchId rid view ok =>
      simp only [resume, found, restampSettled]
      split
      · exact .kept settled
      · rename_i stamped
        split
        · exact .kept settled
        · rename_i held p pending
          split
          · exact .kept settled
          · rename_i same
            simp only [ne_eq, Bool.or_eq_true, decide_eq_true_eq, not_or, not_not,
              Bool.not_eq_true, Bool.not_eq_false'] at same stamped
            obtain ⟨⟨rfl, live⟩, view_eq⟩ := same
            have prior : h.pendingRound matchId = some (held, p) := pending
            have record := (pending_round_iff.mp prior).2
            have stored : (h.settle tid).rounds[held]? = some p := record
            obtain ⟨c, source, moved⟩ := repropose_moved new (Signs cfg h (.resumed tid)) stored view
            refine .turned held p _ record (.recast (c := c) ?_) ((settled.moved record).trans moved)
            refine source.imp_right (fun built => ⟨matchId, p.row, p.view, ?_, prior, built⟩)
            simp [installs, found, prior, stamped, live, view_eq]
    | _ =>
      simp only [resume, found]
      exact .kept (Kept.refl h)

theorem margin_effect (tid : ℕ) (margin : Option ℚ) :
    Effect cfg env h (.marginSettled tid margin) new
      (resume cfg h tid (.marginSettled tid margin)) := by
  cases found : h.task tid with
  | none =>
    simp only [resume, found]
    exact .kept (Kept.refl h)
  | some t =>
    have settled : Kept cfg new (Signs cfg h (.marginSettled tid margin)) h (h.settle tid) :=
      kept_settle h tid
    cases t with
    | margin matchId rid view currentSecond =>
      simp only [resume, found]
      exact .kept (settled.trans (margin_settled_kept _ _ _ _ _ _))
    | _ =>
      simp only [resume, found]
      exact .kept (Kept.refl h)

theorem propose_effect (matchId : String) (row : R) (snapshot : Snapshot) :
    Effect cfg env h (.propose matchId row snapshot) new
      (propose cfg env h matchId row snapshot) := by
  have silent (id : String) : Effect cfg env h (.propose matchId row snapshot) new
      (h.emit (.abandoned id)) := .kept (kept_emit h trivial)
  simp only [propose]
  split
  · exact .kept (Kept.refl h)
  · split
    · exact .kept (Kept.refl h)
    · rename_i free
      have free : h.pending.get (cfg.toLowerCase matchId) = none := by
        simpa [OrderedMap.has] using free
      split
      · exact silent _
      · split
        · exact .kept (Kept.refl h)
        · rename_i canonical built
          have lowered : ∀ v ∈ (bindingOf cfg snapshot.rows
              (cfg.engine.stakeWeightedActive row)).validators,
              cfg.toLowerCase v.pubkey = v.pubkey := binding_of_lowered _ _
          split
          · split
            · exact .opened _ free rfl rfl lowered (kept_await _ trivial)
            · exact silent _
          · split
            · exact .opened _ free rfl rfl lowered (kept_await _ trivial)
            · exact .opened _ free rfl rfl lowered (drain_kept _ _)

theorem view_change_effect {m : Message R} (own : new m) (matchId : String) (view : Option ℚ)
    (key : String) (sig : Option String) :
    Effect cfg env h (.deliver (.viewChange matchId view key sig)) new
      (handleViewChange cfg env h m matchId view key sig) := by
  by_cases named : cfg.toLowerCase matchId = ""
  · simp only [handleViewChange, named, if_true]
    exact .kept (Kept.refl h)
  · by_cases finished : cfg.toLowerCase matchId ∈ h.finalized
    · simp only [handleViewChange, named, finished, if_false, if_true]
      split
      · exact .kept (Kept.refl h)
      · exact .kept (kept_emit h trivial)
    · cases held : h.pendingRound (cfg.toLowerCase matchId) with
      | none =>
        simp only [handleViewChange, named, finished, held, if_false]
        exact .kept (buffer_kept env h _ own)
      | some found =>
        obtain ⟨rid, p⟩ := found
        have record := (pending_round_iff.mp held).2
        cases view with
        | none =>
          simp only [handleViewChange, named, finished, held, if_false]
          exact .kept (Kept.refl h)
        | some view =>
          cases member : p.binding.isMember (cfg.toLowerCase key) with
          | false =>
            simp only [handleViewChange, named, finished, held, member, if_false, Bool.not_false,
              if_true]
            exact .kept (Kept.refl h)
          | true =>
            cases verified : verifies cfg ((controlOf cfg cfg.engine.vcTag
                (cfg.toLowerCase matchId) view).bytes cfg.engine) sig (cfg.toLowerCase key) with
            | false =>
              simp only [handleViewChange, named, finished, held, member, verified, if_false,
                Bool.not_true, Bool.not_false, Bool.false_eq_true, if_true]
              exact .kept (Kept.refl h)
            | true =>
              obtain ⟨w, c, raised, source, moved⟩ := view_change_moved new
                (Signs cfg h (.deliver (.viewChange matchId (some view) key sig))) cfg env m
                held member verified named finished
              refine .turned rid p _ record (.voted rfl held member verified raised ?_) moved
              refine source.imp_right ?_
              rintro ⟨row, proposed, built⟩
              exact ⟨_, row, w, by simp [installs, proposed], held, built⟩

theorem new_view_effect {m : Message R} (own : new m) (matchId : String) (view : Option ℚ)
    (key : String) (sig : Option String) :
    Effect cfg env h (.deliver (.newView matchId view key sig)) new
      (handleNewView cfg env h m matchId view key sig) := by
  simp only [handleNewView]
  split
  · exact .kept (Kept.refl h)
  · split
    · exact .kept (buffer_kept env h _ own)
    · rename_i rid p held
      have record := (pending_round_iff.mp held).2
      split
      · exact .kept (Kept.refl h)
      · rename_i view
        split
        · exact .kept (Kept.refl h)
        · rename_i ahead
          split
          · exact .kept (Kept.refl h)
          · split
            · exact .kept (Kept.refl h)
            · split
              · exact .kept (Kept.refl h)
              · rename_i votes found
                split
                · rename_i met
                  exact .turned rid p _ record (.announced held (not_le.mp ahead) found met)
                    (moved_modify record rfl id)
                · exact .kept (Kept.refl h)

theorem timeout_effect (id : String) :
    Effect cfg env h (.roundTimeout id) new (onRoundTimeout cfg env h id) := by
  simp only [onRoundTimeout]
  split
  · exact .kept (Kept.refl h)
  · rename_i rid p held
    split
    · exact .kept (Kept.refl h)
    · rename_i armed
      split
      · have said : Kept cfg new (Signs cfg h (.roundTimeout id)) (h.forget id)
            ((h.forget id).emit (.abandoned id)) := kept_emit _ trivial
        exact .forgot id said
      · rename_i young
        have live : p.finalized = false := by
          simp only [Bool.or_eq_true, not_or, Bool.not_eq_true] at armed
          exact armed.2
        obtain ⟨c, source, moved⟩ := timeout_moved new
          (Signs cfg h (.roundTimeout id)) cfg env held live
        refine .turned rid p _ (pending_round_iff.mp held).2 (.timeout rfl held live ?_) moved
        refine source.imp_right ?_
        rintro ⟨row, proposed, built⟩
        simp only [Bool.or_eq_true, not_or, Bool.not_eq_true, Bool.not_eq_false'] at armed
        exact ⟨id, row, p.view + 1, by simp [installs, held, armed, young, proposed], held, built⟩

/-- What one event does to the rounds of a hub. -/
theorem event_effect (fresh : ∀ m, e = .deliver m → new m)
    (checks : ∀ t, some t ∈ h.tasks → t.Checked cfg) :
    Effect cfg env h e new (handleEvent cfg env h e) := by
  cases e with
  | propose matchId row snapshot => exact propose_effect matchId row snapshot
  | deliver m =>
    have own := fresh m rfl
    cases m with
    | propose matchId view row key sig => exact .kept (handle_propose_kept own _ _ _ _ _)
    | prepare matchId view key sig =>
      refine .kept (handle_prepare_kept own _ _ _ (fun id rid p held => own_commit rfl ?_ rfl held))
      simp [counting]
    | commit matchId view key sig commitSig => exact .kept (handle_commit_kept own _ _ _ _)
    | viewChange matchId view key sig => exact view_change_effect own matchId view key sig
    | newView matchId view key sig => exact new_view_effect own matchId view key sig
    | finalSync matchId row signatures view => exact .kept (handle_final_sync_kept _ _ _ _)
  | replay => exact .kept (Kept.refl h)
  | validated tid ok => exact validated_effect checks tid ok
  | resolved tid reply => exact resolved_effect checks tid reply
  | persisted tid => exact persisted_effect tid
  | resumed tid => exact resumed_effect tid
  | marginSettled tid margin => exact margin_effect tid margin
  | roundTimeout id => exact timeout_effect id
  | cleanup rid =>
    rcases evict_finalized_map h rid with same | ⟨id, same⟩
    · simp only [handleEvent, same]
      exact .kept (Kept.refl h)
    · simp only [handleEvent, same]
      exact .forgot id (Kept.refl _)
  | forgetFinalized matchId =>
    exact .forgot (cfg.toLowerCase matchId) (kept_of_same rfl rfl rfl rfl rfl (fun _ => Or.inl))

end Effects
section Linked
variable {new : Message R → Prop} {sign : String → Payload → Prop} {cfg : Params R} {env : Env}
  {h after : Hub R} {e : Event R}

/- The map points at rounds of its own id, and what waits was checked. -/
structure Linked (cfg : Params R) (h : Hub R) : Prop where
  checks : ∀ t, some t ∈ h.tasks → t.Checked cfg
  linked : ∀ id rid, h.pending.get id = some rid → ∃ p, h.rounds[rid]? = some p ∧ p.matchId = id

theorem started_linked : Linked cfg (Hub.started : Hub R) := by
  refine ⟨?_, ?_⟩
  · intro t parked
    simp [Hub.started] at parked
  · intro id rid map
    simp [Hub.started] at map

theorem Linked.pending_named (linked : Linked cfg h) {id : String} {rid : ℕ} {p : Round R}
    (held : h.pendingRound id = some (rid, p)) : p.matchId = id := by
  obtain ⟨map, record⟩ := pending_round_iff.mp held
  obtain ⟨q, stored, named⟩ := linked.linked id rid map
  rw [record, Option.some.injEq] at stored
  rw [stored]
  exact named

theorem Linked.kept (linked : Linked cfg h) (kept : Kept cfg new sign h after) :
    Linked cfg after := by
  refine ⟨?_, ?_⟩
  · intro u parked
    rcases kept.parks u parked with old | checked
    · exact linked.checks u old
    · exact checked
  · intro id rid map
    rw [kept.map] at map
    obtain ⟨p, record, named⟩ := linked.linked id rid map
    obtain ⟨q, there, same, -⟩ := kept.heap rid p record
    exact ⟨q, there, (congrArg Turn.matchId same).trans named⟩

theorem Linked.moved {rid : ℕ} {p : Round R} {t : Turn} (linked : Linked cfg h)
    (record : h.rounds[rid]? = some p) (named : t.matchId = p.matchId)
    (moved : Moved cfg new sign rid t h after) : Linked cfg after := by
  refine ⟨?_, ?_⟩
  · intro u parked
    rcases moved.parks u parked with old | checked
    · exact linked.checks u old
    · exact checked
  · intro id other map
    rw [moved.map] at map
    obtain ⟨q, stored, name⟩ := linked.linked id other map
    obtain ⟨r, there, same, -⟩ := moved.heap other q stored
    refine ⟨r, there, ?_⟩
    have turn : r.matchId = r.turn.matchId := rfl
    rw [turn, same]
    split
    · rename_i here
      rw [here, record, Option.some.injEq] at stored
      rw [named, stored]
      exact name
    · exact name

theorem Linked.open (linked : Linked cfg h) (p : Round R) : Linked cfg (h.openRound p) := by
  refine ⟨linked.checks, ?_⟩
  intro id rid map
  by_cases same : id = p.matchId
  · subst same
    simp only [Hub.openRound, OrderedMap.get_set_same, Option.some.injEq] at map
    subst map
    exact ⟨p, by simp [Hub.openRound], rfl⟩
  · simp only [Hub.openRound, OrderedMap.get_set_other same] at map
    obtain ⟨q, record, named⟩ := linked.linked id rid map
    refine ⟨q, ?_, named⟩
    simp only [Hub.openRound]
    rw [List.getElem?_append_left (List.getElem?_eq_some_iff.mp record).1]
    exact record

theorem Linked.forget (linked : Linked cfg h) (id : String) : Linked cfg (h.forget id) := by
  refine ⟨linked.checks, ?_⟩
  intro other rid map
  by_cases same : other = id
  · subst same
    simp [Hub.forget] at map
  · simp only [Hub.forget, OrderedMap.get_erase_other same] at map
    exact linked.linked other rid map

theorem reason_named {rid : ℕ} {p : Round R} {t : Turn} (reason : Reason cfg env h e rid p t) :
    t.matchId = p.matchId := by
  cases reason <;> rfl

theorem effect_linked (linked : Linked cfg h) (effect : Effect cfg env h e new after) :
    Linked cfg after := by
  cases effect with
  | kept kept => exact linked.kept kept
  | opened p free view votes bound kept => exact (linked.open p).kept kept
  | forgot id kept => exact (linked.forget id).kept kept
  | turned rid p t record reason moved => exact linked.moved record (reason_named reason) moved
  | caught s p t proof record named final moved => exact linked.moved record named moved

end Linked
section Live
variable {h : Hub R}

/- The round at rid, where the map still holds it and it has not finalized. -/
def Hub.liveRound (h : Hub R) (rid : ℕ) : Option (Round R) :=
  h.rounds[rid]?.filter (fun p => !p.finalized && h.pending.get p.matchId = some rid)

theorem live_round_iff {rid : ℕ} {p : Round R} : h.liveRound rid = some p ↔
    h.rounds[rid]? = some p ∧ p.finalized = false ∧ h.pending.get p.matchId = some rid := by
  simp [Hub.liveRound, Option.filter_eq_some_iff]

end Live
end XChainHub.CrossChain
